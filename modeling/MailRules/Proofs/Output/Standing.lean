import MailRules.Proofs.Output.Effect

/-! The output directory after a build.

Where artifacts have been written without a refusal, the machine is the one in which the output
directory has just been made, but for files at the paths of the artifacts (`Beside`). So whatever
does not depend on those files (`Ignores`) is as before. Removing the files meets no refusal then
(`clean_standing`), and removing and writing them once more leaves everything where it is
(`stored_again`). -/
namespace MailRules.Host

open MailRules.Tree MailRules.Action

variable {h t u v : Host} {p dir : Path} {directory : Location} {paths targets : List String}
  {b : Buffers Rule.Line} {c : Cleaning} {w : Writing}

/-! ### The directory once it is made -/

/-- The path leads to a directory, and what is new are directories on the way to it. -/
def Arrived (p : Path) (h t : Host) : Prop :=
  Grown p h t ∧ ∃ directory, t.tree.LeadsTo t.home p directory

theorem makeDirectory_arrived (hm : h.makeDirectory p = .ok t) : Arrived p h t := by
  obtain ⟨place, name, hgoal, ht⟩ := makeDirectory_ok hm
  obtain ⟨hgrown, hleads, -⟩ := grown_put hgoal ht
  exact ⟨hgrown, _, hleads⟩

theorem unlessDirectory_arrived {r : Refusal} (hu : h.unlessDirectory p r = .ok ()) :
    Arrived p h h :=
  ⟨.refl p h, unlessDirectory_ok hu⟩

theorem makeDirectories_arrived {depth : Nat} (hmade : makeDirectories depth p h = (t, .ok ())) :
    Arrived p h t := by
  induction depth generalizing p h t with
  | zero =>
    rw [makeDirectories] at hmade
    split at hmade
    next u hm =>
      cases hmade
      exact makeDirectory_arrived hm
    next r hm =>
      split at hmade
      next =>
        obtain ⟨rfl, hu⟩ := Prod.mk.inj hmade
        exact unlessDirectory_arrived hu
      next => cases hmade
  | succ depth ih =>
    rw [makeDirectories] at hmade
    split at hmade
    next u hm =>
      cases hmade
      exact makeDirectory_arrived hm
    next r hm =>
      split at hmade
      next =>
        obtain ⟨rfl, hu⟩ := Prod.mk.inj hmade
        exact unlessDirectory_arrived hu
      next =>
        dsimp only at hmade
        split at hmade
        next => cases hmade
        next u hparent =>
          -- The parent is there, so the path is tried once more.
          have hgrown := (ih hparent).1.of_parent
          split at hmade
          next v hm =>
            cases hmade
            obtain ⟨hlast, hleads⟩ := makeDirectory_arrived hm
            exact ⟨hgrown.trans hlast, hleads⟩
          next r hm =>
            obtain ⟨rfl, hu⟩ := Prod.mk.inj hmade
            split at hu
            next => cases hu
            next => exact ⟨hgrown, unlessDirectory_ok hu⟩

/-- The machine with the directory made. -/
def made (h : Host) (dir : Path) : Host := (h.makePath dir).1

theorem made_of_makePath (hmade : h.makePath dir = (t, .ok ())) : h.made dir = t :=
  congrArg Prod.fst hmade

/-- The directory can be made, and then nothing but files at the paths has changed. -/
structure Beside (dir : Path) (directory : Location) (paths : List String) (h u : Host) :
    Prop where
  makes : h.makePath dir = (h.made dir, .ok ())
  leads : (h.made dir).tree.LeadsTo (h.made dir).home dir directory
  touched : Touched dir directory paths (h.made dir) u

/-- What is asked of the machine does not depend on files at the paths, nor on whether the directory
has been made. -/
def Ignores {α : Type} (h : Host) (dir : Path) (paths : List String) (ask : Host → α) : Prop :=
  ∀ directory u, Beside dir directory paths h u → ask u = ask h

namespace Beside

theorem grown (hu : Beside dir directory paths h u) : Grown dir h (h.made dir) :=
  (makeDirectories_arrived hu.makes).1

theorem rest (hu : Beside dir directory paths h u) : u = { h with tree := u.tree } := by
  rw [hu.touched.rest, hu.grown.rest]

theorem home (hu : Beside dir directory paths h u) : u.home = h.home := by
  rw [hu.rest]

theorem stands (hlinks : (h.made dir).UnlinkedAt dir paths)
    (hu : Beside dir directory paths h u) : Stands u dir directory paths :=
  hu.touched.stands (hlinks.stands hu.leads)

theorem extend {more : List String} (hu : Beside dir directory paths h u)
    (hmore : ∀ path ∈ more, path ∈ paths) (ht : Touched dir directory more u t) :
    Beside dir directory paths h t where
  makes := hu.makes
  leads := hu.leads
  touched := (hu.touched.trans ht).mono fun _ hp => (List.mem_append.mp hp).elim id (hmore _)

/-- A path leads where it did, if that is not one of the paths, nor a directory that is new. -/
theorem goal_kept {q : Path} {follow : Bool} {goal : Goal} (hu : Beside dir directory paths h u)
    (hgoal : h.tree.goal h.home follow q = .ok goal)
    (hmade : (h.made dir).tree.at? goal.location = h.tree.at? goal.location)
    (hother : ∀ name, below dir name ∈ paths → goal.location ≠ directory ++ [name]) :
    u.tree.goal u.home follow q = .ok goal := by
  have hsame : u.tree.at? goal.location = (h.made dir).tree.at? goal.location := by
    by_contra hne
    obtain ⟨name, -, -, hmem, hplace⟩ := hu.touched.frame _ hne
    exact hother name hmem hplace
  have hwithin : h.tree.Within u.tree := fun place e he hat =>
    hu.touched.within place e he (hu.grown.within place e he hat)
  rw [hu.home]
  exact Tree.goal_kept hwithin (hsame.trans hmade) hgoal

end Beside

theorem beside_made (hmade : h.makePath dir = (u, .ok ())) :
    ∃ directory, ∀ paths, Beside dir directory paths h u := by
  obtain ⟨-, directory, hleads⟩ := makeDirectories_arrived hmade
  obtain rfl := made_of_makePath hmade
  exact ⟨directory, fun paths => ⟨hmade, hleads, (Touched.refl dir directory _).mono nofun⟩⟩

theorem beside_stood (paths : List String) (hleads : h.tree.LeadsTo h.home dir directory) :
    Beside dir directory paths h h := by
  have hmade := makePath_of_leadsTo hleads
  obtain ⟨other, hbeside⟩ := beside_made hmade
  have hother := (hbeside paths).leads
  rw [made_of_makePath hmade] at hother
  exact hother.unique hleads ▸ hbeside paths

/-! ### Artifacts in a directory that stands -/

/-- What is there when the lines are about to be written, unless the directory cannot be made.
Either files have been removed from the directory, or it is new. -/
theorem stored_beside (hdir : dir.Proper) (hlinks : (h.made dir).UnlinkedAt dir paths)
    (hpaths : ∀ path ∈ paths, Layout.IsInside dir.text path)
    (htargets : ∀ path ∈ targets, path ∈ paths)
    (hc : Removal h targets c u) (hw : Stored dir b u w t) :
    (∃ refusal, h.makePath dir = (t, .error refusal) ∧
      w.errors = [unmade dir.text refusal.message]) ∨
    ∃ directory v, Beside dir directory paths h v ∧
      Writes (b.text Rule.Line.text) v b.nonEmpty w t ∧
      (Cleaned dir directory targets h v c ∨
        c = {} ∧ v = h.made dir ∧ ∀ directory, ¬ h.tree.LeadsTo h.home dir directory) := by
  have hinside : ∀ path ∈ targets, Layout.IsInside dir.text path :=
    fun path hp => hpaths path (htargets path hp)
  by_cases hstood : ∃ directory, h.tree.LeadsTo h.home dir directory
  · obtain ⟨directory, hleads⟩ := hstood
    have hbeside := beside_stood paths hleads
    have hs := hbeside.stands hlinks
    have hcleaned := removal_cleaned hdir hinside (hs.mono htargets) hc
    have hu := hcleaned.touched.stands hs
    exact .inr ⟨directory, u,
      hbeside.extend (fun path hp => htargets path (hcleaned.subset path hp)) hcleaned.touched,
      hw.writes (makePath_of_leadsTo hu.leads), .inl hcleaned⟩
  · obtain ⟨rfl, rfl⟩ := removal_outside hdir hinside (not_exists.mp hstood) hc
    cases hw with
    | unmade hmade => exact .inl ⟨_, hmade, rfl⟩
    | made hmade hw =>
      obtain ⟨directory, hbeside⟩ := beside_made hmade
      exact .inr ⟨directory, _, hbeside paths, hw,
        .inr ⟨rfl, (made_of_makePath hmade).symm, not_exists.mp hstood⟩⟩

/-- Where the directory can be made, and none of the paths is locked or refuses a file, nothing is
reported. -/
theorem stored_unrefused (hdir : dir.Proper) (hlinks : (h.made dir).UnlinkedAt dir paths)
    (hpaths : ∀ path ∈ paths, Layout.IsInside dir.text path)
    (htargets : ∀ path ∈ targets, path ∈ paths) (hknown : ∀ path ∈ b.nonEmpty, path ∈ paths)
    (hmakes : (h.makePath dir).2 = .ok ())
    (hfree : ∀ path ∈ targets, (Path.ofString path).text ∉ h.locked)
    (hwritable : ∀ path ∈ paths, (h.made dir).isDirectory (Path.ofString path) = .ok false)
    (hc : Removal h targets c u) (hw : Stored dir b u w t) : c.errors = [] ∧ w.errors = [] := by
  obtain ⟨refusal, hmade, -⟩ | ⟨directory, v, hv, hwrites, hbefore⟩ :=
    stored_beside hdir hlinks hpaths htargets hc hw
  · rw [hmade] at hmakes
    cases hmakes
  have hnodup : b.nonEmpty.Nodup := (Buffers.nonEmpty_strict b).imp String.ne_of_lt
  have hwritten := writes_written hdir (fun p hp => hpaths p (hknown p hp)) hnodup
    ((hv.stands hlinks).mono hknown) hwrites
  constructor
  · obtain hcleaned | ⟨rfl, -⟩ := hbefore
    · refine List.eq_nil_iff_forall_not_mem.mpr fun message hm => ?_
      obtain ⟨path, hp, -, hlocked⟩ := hcleaned.locked message hm
      exact hfree path hp hlocked
    · rfl
  · refine List.eq_nil_iff_forall_not_mem.mpr fun message hm => ?_
    obtain ⟨name, hp, -, hwhy⟩ := hwritten.refused message hm
    have hmem := hknown _ hp
    have hno := hwritable _ hmem
    rw [isDirectory, entry?_below hdir (isPlain_of_below (hpaths _ hmem)) (hlinks.stands hv.leads)
      hmem] at hno
    by_cases hlong : TooLong dir name
    · rw [if_pos hlong] at hno
      cases hno
    · rw [if_neg hlong, (hv.touched.passage _ _ rfl).mp (hwhy.resolve_left hlong)] at hno
      cases hno

/-- The directory stands, what is beside it is as before, and the lines are in their files. -/
structure Standing (dir : Path) (directory : Location) (paths : List String)
    (b : Buffers Rule.Line) (h t : Host) : Prop where
  stands : Stands t dir directory paths
  beside : Beside dir directory paths h t
  holds : ∀ name, below dir name ∈ b.nonEmpty → ¬ TooLong dir name ∧
    t.tree.at? (directory ++ [name]) =
      some (.file (b.text Rule.Line.text (below dir name)).toUTF8)

theorem standing_of_writes (hdir : dir.Proper) (hlinks : (h.made dir).UnlinkedAt dir paths)
    (hpaths : ∀ path ∈ paths, Layout.IsInside dir.text path)
    (hknown : ∀ path ∈ b.nonEmpty, path ∈ paths) (hv : Beside dir directory paths h v)
    (hw : Writes (b.text Rule.Line.text) v b.nonEmpty w t) (herrors : w.errors = []) :
    Standing dir directory paths b h t ∧ Touched dir directory b.nonEmpty v t := by
  have hs := hv.stands hlinks
  have hnodup : b.nonEmpty.Nodup := (Buffers.nonEmpty_strict b).imp String.ne_of_lt
  have hwritten := writes_written hdir (fun p hp => hpaths p (hknown p hp)) hnodup
    (hs.mono hknown) hw
  have hall := hw.all_written herrors
  rw [← hall] at hknown ⊢
  exact ⟨⟨hwritten.touched.stands hs, hv.extend hknown hwritten.touched,
    fun name hp => hwritten.holds name (hall ▸ hp)⟩, hwritten.touched⟩

/-- Where the directory stands, its files are removed without a refusal, if no name is too long and
none of them is locked. -/
theorem clean_standing (hdir : dir.Proper)
    (hpaths : ∀ path ∈ paths, Layout.IsInside dir.text path)
    (hknown : ∀ path ∈ b.nonEmpty, path ∈ paths)
    (hshort : ∀ name, below dir name ∈ paths → ¬ TooLong dir name)
    (hfree : ∀ path ∈ paths, (Path.ofString path).text ∉ h.locked)
    (ht : Standing dir directory paths b h t) :
    ∃ removed, ((Host.removeFiles paths).run t).1 = .ok { removed, errors := [] } ∧
      ∀ path ∈ b.nonEmpty,
        ((Host.removeFiles paths).run t).2.1.exists? (Path.ofString path) = .ok false := by
  have hlocked : t.locked = h.locked := by rw [ht.beside.rest]
  cases hanswer : ((Host.removeFiles paths).run t).1 with
  | error f =>
    obtain ⟨front, path, back, c, rfl, hremoval, hrefused⟩ :=
      fails_removeFiles (fails_run hanswer)
    have hmem : path ∈ front ++ path :: back := by simp
    have hfront : ∀ p ∈ front, p ∈ front ++ path :: back :=
      fun _ hp => List.mem_append_left _ hp
    obtain ⟨name, hname, (rfl : path = below dir name)⟩ := hpaths path hmem
    have hcleaned := removal_cleaned hdir (fun p hp => hpaths p (hfront p hp))
      (ht.stands.mono hfront) hremoval
    rw [isFile_below_error hdir hname (hcleaned.touched.stands ht.stands) hmem] at hrefused
    exact absurd hrefused.1 (hshort name hmem)
  | ok c =>
    have hcleaned := removal_cleaned hdir hpaths ht.stands (ends_removeFiles (ends_run hanswer))
    have hnone : c.errors = [] := by
      refine List.eq_nil_iff_forall_not_mem.mpr fun message hm => ?_
      obtain ⟨path, hp, -, hpath⟩ := hcleaned.locked message hm
      exact hfree path hp (hlocked ▸ hpath)
    refine ⟨c.removed, ?_, fun path hp => ?_⟩
    · rw [← hnone]
    · obtain ⟨name, hname, (rfl : path = below dir name)⟩ := hpaths path (hknown path hp)
      obtain ⟨hshort, hat⟩ := ht.holds name hp
      have hgone : ((Host.removeFiles paths).run t).2.1.tree.at? (directory ++ [name]) = none := by
        by_contra hsome
        obtain ⟨e, he⟩ := Option.ne_none_iff_exists'.mp hsome
        have hsame := hcleaned.less he
        rw [hat] at hsame
        cases hsame
        have hm := hcleaned.gone name _ (hknown _ hp) he
        rw [hnone] at hm
        cases hm
      rw [exists?, entry?_below hdir hname (hcleaned.touched.stands ht.stands) (hknown _ hp),
        if_neg hshort, hgone]
      rfl

/-! ### The same artifacts once more -/

/-- Where the directory has to be made, there are no files at the paths once it is made. -/
def Vacant (h : Host) (dir : Path) (paths : List String) : Prop :=
  (∀ directory, ¬ h.tree.LeadsTo h.home dir directory) → ∀ path ∈ paths,
    (h.made dir).isFile (Path.ofString path) = .ok false

/-- The path can be looked up, and no file is there. -/
def Free (dir : Path) (directory : Location) (paths : List String) (t : Host) : Prop :=
  ∀ name, below dir name ∈ paths → ¬ TooLong dir name ∧
    ∀ content, t.tree.at? (directory ++ [name]) ≠ some (.file content)

theorem Cleaned.free (hc : Cleaned dir directory paths h t c) (hnone : c.errors = []) :
    Free dir directory paths t := by
  refine fun name hmem => ⟨hc.short name hmem, fun content hat => ?_⟩
  have hm := hc.gone name content hmem hat
  rw [hnone] at hm
  cases hm

theorem free_of_isFile (hdir : dir.Proper)
    (hpaths : ∀ path ∈ paths, Layout.IsInside dir.text path) (hs : Stands t dir directory paths)
    (hnone : ∀ path ∈ paths, t.isFile (Path.ofString path) = .ok false) :
    Free dir directory paths t := by
  intro name hmem
  have hname := isPlain_of_below (hpaths _ hmem)
  exact (isFile_below_false hdir hname hs hmem).mp (hnone _ hmem)

/-- A new directory is empty, unless its path goes up from another that has to be made. -/
theorem vacant_of_climbable (hwf : h.tree.WellFormed) (hdir : dir.Proper)
    (hclimb : h.Climbable dir) (hmade : (h.makePath dir).2 = .ok ())
    (hpaths : ∀ path ∈ paths, Layout.IsInside dir.text path)
    (hshort : ∀ name, below dir name ∈ paths → ¬ TooLong dir name) : h.Vacant dir paths := by
  intro hno path hmem
  have hm := made_makePath hwf hdir hclimb
  obtain ⟨directory, hready⟩ := (hmade ▸ hm).ready paths hno
  obtain ⟨name, hname, (rfl : path = below dir name)⟩ := hpaths path hmem
  exact (isFile_below_false hdir hname hready.stands hmem).mpr
    ⟨hshort name hmem, fun content hat => by cases hready.gone name content hmem hat⟩

/-- There are no files in the directory but those of the lines, as far as the names go. -/
def Only (directory : Location) (dir : Path) (targets : List String) (b : Buffers Rule.Line)
    (t : Host) : Prop :=
  ∀ name content, below dir name ∈ targets →
    t.tree.at? (directory ++ [name]) = some (.file content) → below dir name ∈ b.nonEmpty

theorem only_of_touched
    (hnone : ∀ name content, below dir name ∈ targets →
      v.tree.at? (directory ++ [name]) ≠ some (.file content))
    (ht : Touched dir directory b.nonEmpty v t) : Only directory dir targets b t := by
  intro name content hmem hat
  by_contra hother
  exact hnone name content hmem ((ht.at?_same hother).symm.trans hat)

/-- Removing the files and writing them with the same lines leaves everything where it is. Only
files that are locked are reported. -/
theorem stored_again (hdir : dir.Proper)
    (hpaths : ∀ path ∈ paths, Layout.IsInside dir.text path)
    (htargets : ∀ path ∈ targets, path ∈ paths) (hknown : ∀ path ∈ b.nonEmpty, path ∈ paths)
    (ht : Standing dir directory paths b h t) (honly : Only directory dir targets b t)
    (hc : Removal t targets c u) (hw : Stored dir b u w v) :
    w.errors = [] ∧ w.written = b.nonEmpty ∧ v = { t with tree := v.tree } ∧
      (∀ place, v.tree.at? place = t.tree.at? place) ∧
      ∀ message ∈ c.errors, ∃ path ∈ targets,
        message = unremoved path ∧ (Path.ofString path).text ∈ t.locked := by
  have hcleaned := removal_cleaned hdir (fun p hp => hpaths p (htargets p hp))
    (ht.stands.mono htargets) hc
  have hu := hcleaned.touched.stands ht.stands
  have hwrites := hw.writes (makePath_of_leadsTo hu.leads)
  have hnodup : b.nonEmpty.Nodup := (Buffers.nonEmpty_strict b).imp String.ne_of_lt
  have hwritten := writes_written hdir (fun p hp => hpaths p (hknown p hp)) hnodup
    (hu.mono hknown) hwrites
  have hnone : w.errors = [] := by
    refine List.eq_nil_iff_forall_not_mem.mpr fun message hm => ?_
    obtain ⟨name, hp, -, hwhy⟩ := hwritten.refused message hm
    obtain ⟨hshort, hat⟩ := ht.holds name hp
    have hdirectory := (hcleaned.touched.passage _ _ rfl).mp (hwhy.resolve_left hshort)
    rw [hat] at hdirectory
    cases hdirectory
  have hall := hwrites.all_written hnone
  -- What is written is what has been there.
  have hsame (name : String) (hp : below dir name ∈ b.nonEmpty) :
      v.tree.at? (directory ++ [name]) = t.tree.at? (directory ++ [name]) :=
    (hwritten.holds name (hall ▸ hp)).2.trans (ht.holds name hp).2.symm
  refine ⟨hnone, hall, ?_, fun place => ?_, hcleaned.locked⟩
  · rw [hwritten.touched.rest, hcleaned.touched.rest]
  · by_contra hne
    by_cases hlast : v.tree.at? place = u.tree.at? place
    · obtain hkept | ⟨-, content, hat⟩ := hcleaned.each place
      · exact hne (hlast.trans hkept)
      · obtain ⟨name, -, -, hp, rfl⟩ := hcleaned.touched.frame place (hlast ▸ hne)
        exact hne (hsame name (honly name content (hcleaned.subset _ hp) hat))
    · obtain ⟨name, -, -, hp, rfl⟩ := hwritten.touched.frame place hlast
      exact hne (hsame name (hall ▸ hp))

end MailRules.Host
