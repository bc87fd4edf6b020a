import MailRules.Proofs.Output.Files
import MailRules.Report
import MailRules.Rule.Line

/-! What replacing the artifacts does to a machine.

What earlier rules left at the paths is removed, the output directory is made, and the lines are
written. If the directory stood before, the files at the paths are those that were removed, or are
reported; if it is new, nothing was in it. So in either case no file is left that is neither written
nor reported (`effect_of_stored`). -/
namespace MailRules.Host

open MailRules.Tree FileName

variable {h t u : Host} {dir : Path} {directory : Location} {paths : List String}
  {b : Buffers Rule.Line} {c : Cleaning} {w : Writing} {r : Report}

theorem location_goalAt (t : Tree) (directory : Location) (name : String) :
    (t.goalAt directory name).location = directory ++ [name] := by
  rw [goalAt]
  split <;> rfl

theorem exists_goal_below {name : String} (hdir : dir.Proper) (hname : IsPlain name.toList)
    (hs : Stands h dir directory paths) (hshort : ¬ TooLong dir name)
    (hmem : below dir name ∈ paths) :
    ∃ goal, h.tree.goal h.home true (Path.ofString (below dir name)) = .ok goal ∧
      goal.location = directory ++ [name] := by
  refine ⟨_, ?_, location_goalAt h.tree directory name⟩
  rw [goal_below hdir hname hs hmem, if_neg hshort]

/-- There is no link in the directory that the path leads to, if it leads to one. -/
def Unlinked (h : Host) (dir : Path) : Prop :=
  ∀ directory name target, h.tree.LeadsTo h.home dir directory →
    h.tree.at? (directory ++ [name]) ≠ some (.link target)

theorem Unlinked.at (hlinks : h.Unlinked dir) (paths : List String) : h.UnlinkedAt dir paths :=
  fun directory name target hleads _ => hlinks directory name target hleads

/-- The files at the paths are replaced by the lines of the buffers, and the report says so. -/
structure Effect (dir : Path) (paths : List String) (b : Buffers Rule.Line) (h t : Host)
    (r : Report) : Prop where
  known : ∀ path ∈ r.written, path ∈ paths
  /-- A path that has lines is written, unless its file or the directory is reported. -/
  written_iff : ∀ path ∈ paths, path ∈ r.written ↔
    b.linesAt path ≠ [] ∧ unopened path ∉ r.writeErrors ∧
      ∀ reason, unmade dir.text reason ∉ r.writeErrors
  holds : ∀ path ∈ r.written,
    t.readBytes (Path.ofString path) = .ok (b.text Rule.Line.text path).toUTF8
  /-- No other file is left, unless it or the directory is reported. -/
  gone : ∀ path ∈ paths, path ∉ r.written → t.isFile (Path.ofString path) = .ok true →
    unremoved path ∈ r.writeErrors ∨ unopened path ∈ r.writeErrors ∨
      ∃ reason, unmade dir.text reason ∈ r.writeErrors
  /-- What differs is at one of the paths, or is a directory made on the way to them. -/
  frame : ∀ place, t.tree.at? place ≠ h.tree.at? place →
    (∃ path ∈ paths, ∃ goal, t.tree.goal t.home true (Path.ofString path) = .ok goal ∧
      goal.location = place) ∨
    h.tree.at? place = none ∧ t.tree.at? place = some .directory ∧
      ∃ front back, dir.parts = front ++ back ∧ t.tree.LeadsTo t.home ⟨dir.anchor, front⟩ place
  rest : t = { h with tree := t.tree }
  /-- Files are reported for a reason. -/
  locked : ∀ path, unremoved path ∈ r.writeErrors → (Path.ofString path).text ∈ h.locked
  refused : ∀ path, unopened path ∈ r.writeErrors →
    t.isDirectory (Path.ofString path) = .ok true ∨
      t.tree.goal t.home true (Path.ofString path) = .error .nameTooLong
  unmade : ∀ reason, unmade dir.text reason ∈ r.writeErrors →
    ∀ directory, ¬ t.tree.LeadsTo t.home dir directory

/-- The directory is made, and the lines are written if it is there. -/
inductive Stored (dir : Path) (b : Buffers Rule.Line) : Host → Writing → Host → Prop
  | unmade {h t : Host} {refusal : Refusal} :
      h.makePath dir = (t, .error refusal) →
      Stored dir b h { errors := [unmade dir.text refusal.message] } t
  | made {h u t : Host} {w : Writing} :
      h.makePath dir = (u, .ok ()) → Writes (b.text Rule.Line.text) u b.nonEmpty w t →
      Stored dir b h w t

theorem Stored.writes (hw : Stored dir b h w t) (hmade : h.makePath dir = (u, .ok ())) :
    Writes (b.text Rule.Line.text) u b.nonEmpty w t := by
  cases hw with
  | unmade hrefused =>
    rw [hmade] at hrefused
    cases hrefused
  | made hdone hw =>
    rw [hmade] at hdone
    cases hdone
    exact hw

theorem Stored.sublist (hw : Stored dir b h w t) : w.written.Sublist b.nonEmpty := by
  cases hw with
  | unmade => exact List.nil_sublist _
  | made _ hw => exact hw.sublist

/-- What has happened when the directory stands and the lines are about to be written. -/
structure Ready (dir : Path) (directory : Location) (paths : List String) (h t : Host)
    (c : Cleaning) : Prop where
  stands : Stands t dir directory paths
  rest : t = { h with tree := t.tree }
  frame : ∀ place, t.tree.at? place ≠ h.tree.at? place →
    (∃ name, IsPlain name.toList ∧ ¬ TooLong dir name ∧ below dir name ∈ paths ∧
      place = directory ++ [name]) ∨
    h.tree.at? place = none ∧ t.tree.at? place = some .directory ∧
      ∃ front back, dir.parts = front ++ back ∧ t.tree.LeadsTo t.home ⟨dir.anchor, front⟩ place
  gone : ∀ name content, below dir name ∈ paths →
    t.tree.at? (directory ++ [name]) = some (.file content) → unremoved (below dir name) ∈ c.errors
  locked : ∀ message ∈ c.errors, ∃ path ∈ paths,
    message = unremoved path ∧ (Path.ofString path).text ∈ h.locked

theorem unremoved_inj {p q : String} (h : unremoved p = unremoved q) : p = q :=
  (String.append_right_inj _).mp h

/-- A message tells what it is about: removing a file or writing one, and never the directory. -/
theorem Ready.messages {text : String → String} {written : List String}
    (hready : Ready dir directory paths h u c)
    (hw : Written dir directory text written u t w) :
    (∀ path, unremoved path ∈ c.errors ++ w.errors ↔ unremoved path ∈ c.errors) ∧
      (∀ path, unopened path ∈ c.errors ++ w.errors ↔ unopened path ∈ w.errors) ∧
        ∀ reason, unmade dir.text reason ∉ c.errors ++ w.errors := by
  refine ⟨fun path => ?_, fun path => ?_, fun reason => ?_⟩
  · rw [List.mem_append, or_iff_left]
    intro hm
    obtain ⟨_, -, hmessage, -⟩ := hw.refused _ hm
    exact unopened_ne_unremoved _ _ hmessage.symm
  · rw [List.mem_append, or_iff_right]
    intro hm
    obtain ⟨_, -, hmessage, -⟩ := hready.locked _ hm
    exact unopened_ne_unremoved _ _ hmessage
  · rw [List.mem_append, not_or]
    constructor
    · intro hm
      obtain ⟨_, -, hmessage, -⟩ := hready.locked _ hm
      exact unmade_ne_unremoved _ _ _ hmessage
    · intro hm
      obtain ⟨_, -, hmessage, -⟩ := hw.refused _ hm
      exact unmade_ne_unopened _ _ _ hmessage

/-- Writing the lines in a directory that is ready. -/
theorem effect_of_ready (hdir : dir.Proper)
    (hpaths : ∀ path ∈ paths, Layout.IsInside dir.text path)
    (hknown : ∀ path, b.linesAt path ≠ [] → path ∈ paths)
    (hready : Ready dir directory paths h u c)
    (hw : Written dir directory (b.text Rule.Line.text) b.nonEmpty u t w)
    (hwritten : r.written = w.written) (herrors : r.writeErrors = c.errors ++ w.errors) :
    Effect dir paths b h t r := by
  have hs : Stands t dir directory paths := hw.touched.stands hready.stands
  have hmem {path : String} (hp : path ∈ w.written) : path ∈ paths :=
    hknown path (Buffers.mem_nonEmpty.mp (hw.subset path hp))
  obtain ⟨hremoved, hopened, hmade⟩ := hready.messages hw
  rw [← herrors] at hremoved hopened hmade
  constructor
  case known =>
    rw [hwritten]
    exact fun path hp => hmem hp
  case written_iff =>
    intro path hp
    rw [hwritten, hopened, and_iff_left hmade]
    constructor
    · intro hpath
      have hlines := hw.subset path hpath
      exact ⟨Buffers.mem_nonEmpty.mp hlines, (hw.written_iff path hlines).mp hpath⟩
    · rintro ⟨hlines, hnot⟩
      exact (hw.written_iff path (Buffers.mem_nonEmpty.mpr hlines)).mpr hnot
  case holds =>
    intro path hp
    rw [hwritten] at hp
    obtain ⟨name, hname, (rfl : path = below dir name)⟩ := hpaths path (hmem hp)
    obtain ⟨hshort, hat⟩ := hw.holds name hp
    rw [readBytes, find, goal_below hdir hname hs (hmem hp), if_neg hshort, goalAt, hat]
    rfl
  case gone =>
    intro path hp hnot hfile
    rw [hwritten] at hnot
    obtain ⟨name, hname, (rfl : path = below dir name)⟩ := hpaths path hp
    obtain ⟨-, hcontent⟩ := isFile_below hdir hname hs hp hfile
    obtain ⟨content, hat⟩ := hcontent.mp rfl
    have hbefore := (hw.touched.at?_same hnot).symm.trans hat
    exact .inl ((hremoved _).mpr (hready.gone name content hp hbefore))
  case frame =>
    intro place hne
    by_cases hsame : t.tree.at? place = u.tree.at? place
    · rcases hready.frame place (hsame ▸ hne) with
        ⟨name, hname, hshort, hp, rfl⟩ | ⟨hnone, hmade, front, back, hparts, hleads⟩
      · exact .inl ⟨_, hp, exists_goal_below hdir hname hs hshort hp⟩
      · refine .inr ⟨hnone, hsame.trans hmade, front, back, hparts, ?_⟩
        rw [hw.touched.home]
        exact hleads.mono hw.touched.within
    · obtain ⟨name, hname, hshort, hp, rfl⟩ := hw.touched.frame place hsame
      exact .inl ⟨_, hmem hp, exists_goal_below hdir hname hs hshort (hmem hp)⟩
  case rest => rw [hw.touched.rest, hready.rest]
  case locked =>
    intro path hm
    obtain ⟨path', -, hmessage, hlocked⟩ := hready.locked _ ((hremoved path).mp hm)
    rwa [unremoved_inj hmessage]
  case refused =>
    intro path hm
    obtain ⟨name, hp, hmessage, hwhy⟩ := hw.refused _ ((hopened path).mp hm)
    obtain rfl := unopened_inj hmessage
    have hp := hknown _ (Buffers.mem_nonEmpty.mp hp)
    have hname := isPlain_of_below (hpaths _ hp)
    by_cases hlong : TooLong dir name
    · exact .inr (by rw [goal_below hdir hname hs hp, if_pos hlong])
    · have hat := (hw.touched.passage _ _ rfl).mpr (hwhy.resolve_left hlong)
      refine .inl ?_
      rw [isDirectory, entry?_below hdir hname hs hp, if_neg hlong, hat]
      rfl
  case unmade => exact fun reason hm => absurd hm (hmade reason)

/-- Where the directory cannot be made, nothing is written, and that is all that is reported. -/
theorem effect_of_unmade {refusal : Refusal} (hmade : Made dir h t (.error refusal))
    (hwritten : r.written = []) (herrors : r.writeErrors = [unmade dir.text refusal.message]) :
    Effect dir paths b h t r := by
  have hreported : unmade dir.text refusal.message ∈ r.writeErrors := by
    rw [herrors]
    exact List.mem_singleton_self _
  constructor
  case known =>
    rw [hwritten]
    exact fun _ hp => by cases hp
  case written_iff =>
    intro path _
    rw [hwritten]
    exact iff_of_false List.not_mem_nil fun hall => hall.2.2 _ hreported
  case holds =>
    rw [hwritten]
    exact fun _ hp => by cases hp
  case gone => exact fun _ _ _ _ => .inr (.inr ⟨_, hreported⟩)
  case frame => exact fun place hne => .inr (hmade.grown.frame place hne)
  case rest => exact hmade.grown.rest
  case locked =>
    intro path hm
    rw [herrors, List.mem_singleton] at hm
    exact absurd hm.symm (unmade_ne_unremoved _ _ _)
  case refused =>
    intro path hm
    rw [herrors, List.mem_singleton] at hm
    exact absurd hm.symm (unmade_ne_unopened _ _ _)
  case unmade => exact fun _ _ => hmade.fails refusal rfl

/-- A directory that stood before the files were removed is ready. -/
theorem Cleaned.ready (hs : Stands h dir directory paths) (hc : Cleaned dir directory paths h t c) :
    Ready dir directory paths h t c where
  stands := hc.touched.stands hs
  rest := hc.touched.rest
  frame place hne := by
    obtain ⟨name, hname, hshort, hp, hplace⟩ := hc.touched.frame place hne
    exact .inl ⟨name, hname, hshort, hc.subset _ hp, hplace⟩
  gone := hc.gone
  locked := hc.locked

/-- A directory that is made is ready, since nothing is in it. -/
theorem Made.ready (paths : List String) (hno : ∀ directory, ¬ h.tree.LeadsTo h.home dir directory)
    (hmade : Made dir h t (.ok ())) : ∃ directory, Ready dir directory paths h t {} := by
  obtain ⟨directory, hleads, rfl | ⟨-, hempty⟩⟩ := hmade.leads rfl
  · exact absurd hleads (hno directory)
  · have hnew (name : String) := hmade.grown.at?_new (hempty name)
    refine ⟨directory, ⟨hleads, fun name target _ hat => ?_⟩, hmade.grown.rest,
      fun place hne => .inr (hmade.grown.frame place hne), fun name content _ hat => ?_,
      fun _ hm => (by cases hm)⟩
    · rcases hnew name with h | h <;> rw [hat] at h <;> cases h
    · rcases hnew name with h | h <;> rw [hat] at h <;> cases h

theorem effect_of_stored (hwf : h.tree.WellFormed) (hdir : dir.Proper) (hclimb : h.Climbable dir)
    (hlinks : h.UnlinkedAt dir paths)
    (hpaths : ∀ path ∈ paths, Layout.IsInside dir.text path)
    (hknown : ∀ path, b.linesAt path ≠ [] → path ∈ paths)
    (hc : Removal h paths c u) (hw : Stored dir b u w t)
    (hwritten : r.written = w.written) (herrors : r.writeErrors = c.errors ++ w.errors) :
    Effect dir paths b h t r := by
  have hlisted : ∀ path ∈ b.nonEmpty, path ∈ paths :=
    fun path hp => hknown path (Buffers.mem_nonEmpty.mp hp)
  have hlines : ∀ path ∈ b.nonEmpty, Layout.IsInside dir.text path :=
    fun path hp => hpaths path (hlisted path hp)
  have hnodup : b.nonEmpty.Nodup := (Buffers.nonEmpty_strict b).imp String.ne_of_lt
  by_cases hstands : ∃ directory, h.tree.LeadsTo h.home dir directory
  · obtain ⟨directory, hleads⟩ := hstands
    have hs := hlinks.stands hleads
    have hready := (removal_cleaned hdir hpaths hs hc).ready hs
    have hpath := makePath_of_leadsTo hready.stands.leads
    cases hw with
    | unmade hmade =>
      rw [hpath] at hmade
      cases hmade
    | made hmade hw =>
      rw [hpath] at hmade
      cases hmade
      exact effect_of_ready hdir hpaths hknown hready
        (writes_written hdir hlines hnodup (hready.stands.mono hlisted) hw) hwritten herrors
  · have hno : ∀ directory, ¬ h.tree.LeadsTo h.home dir directory := not_exists.mp hstands
    obtain ⟨rfl, rfl⟩ := removal_outside hdir hpaths hno hc
    have hmade := made_makePath hwf hdir hclimb
    cases hw with
    | unmade hrefused =>
      rw [hrefused] at hmade
      exact effect_of_unmade hmade hwritten herrors
    | made hdone hw =>
      rw [hdone] at hmade
      obtain ⟨directory, hready⟩ := hmade.ready paths hno
      exact effect_of_ready hdir hpaths hknown hready
        (writes_written hdir hlines hnodup (hready.stands.mono hlisted) hw) hwritten herrors

/-- Where a path is refused while files are removed, it was so before, or nothing is removed. -/
theorem unchanged_or_refused {front back : List String} {path : String} (hdir : dir.Proper)
    (hlinks : h.UnlinkedAt dir (front ++ path :: back))
    (hpaths : ∀ p ∈ front ++ path :: back, Layout.IsInside dir.text p) (hc : Removal h front c t)
    {f : Fault} (hrefused : t.isFile (Path.ofString path) = .error f) :
    t = h ∨ h.isFile (Path.ofString path) = .error f := by
  have hfront : ∀ p ∈ front, p ∈ front ++ path :: back :=
    fun p hp => List.mem_append_left _ hp
  have hmem : path ∈ front ++ path :: back := by simp
  by_cases hstands : ∃ directory, h.tree.LeadsTo h.home dir directory
  · obtain ⟨directory, hleads⟩ := hstands
    have hs := hlinks.stands hleads
    obtain ⟨name, hname, (rfl : path = below dir name)⟩ := hpaths path hmem
    have hcleaned := removal_cleaned hdir (fun p hp => hpaths p (hfront p hp)) (hs.mono hfront) hc
    rw [isFile_below_error hdir hname (hcleaned.touched.stands hs) hmem] at hrefused
    exact .inr ((isFile_below_error hdir hname hs hmem).mpr hrefused)
  · exact .inl (removal_outside hdir (fun p hp => hpaths p (hfront p hp))
      (not_exists.mp hstands) hc).1

end MailRules.Host
