import MailRules.Proofs.Action
import MailRules.Proofs.Buffers
import MailRules.Proofs.Output.Directory

/-! Artifacts removed and written.

Removing files goes through its paths one after the other (`Removal`), and so does writing them
(`Writes`). Afterwards no file is left that is not reported (`removal_cleaned`), and every path is
either written, and then its file holds the text, or reported (`writes_written`). -/
namespace MailRules.Host

open MailRules.Tree MailRules.Action FileName

variable {h t u : Host} {dir : Path} {directory : Location} {name : String} {paths : List String}

/-! ### Messages -/

def unremoved (path : String) : String := "Could not remove " ++ path

def unopened (path : String) : String := "Could not open " ++ path ++ " for writing"

def unmade (name reason : String) : String := "Failed to mkdir '" ++ name ++ "': " ++ reason

/-- The message about what refuses an operation, if something does. -/
def reported (message : Refusal → String) : Except Refusal Unit → Option String
  | .ok () => none
  | .error r => some (message r)

theorem unopened_inj {p q : String} (h : unopened p = unopened q) : p = q :=
  (String.append_right_inj _).mp ((String.append_left_inj _).mp h)

theorem append_ne_append {a b : String} (n : Nat) (ha : n ≤ a.toList.length)
    (hb : n ≤ b.toList.length) (h : a.toList.take n ≠ b.toList.take n) (x y : String) :
    a ++ x ≠ b ++ y := by
  intro heq
  have hchars := congrArg (·.toList.take n) heq
  simp only [String.toList_append, List.take_append_of_le_length ha,
    List.take_append_of_le_length hb] at hchars
  exact h hchars

theorem unopened_ne_unremoved (p q : String) : unopened p ≠ unremoved q := by
  unfold unopened unremoved
  rw [String.append_assoc]
  exact append_ne_append 11 (by decide) (by decide) (by decide) _ _

theorem unmade_ne_unremoved (name reason q : String) : unmade name reason ≠ unremoved q := by
  unfold unmade unremoved
  rw [String.append_assoc, String.append_assoc]
  exact append_ne_append 1 (by decide) (by decide) (by decide) _ _

theorem unmade_ne_unopened (name reason q : String) : unmade name reason ≠ unopened q := by
  unfold unmade unopened
  rw [String.append_assoc, String.append_assoc, String.append_assoc]
  exact append_ne_append 1 (by decide) (by decide) (by decide) _ _

/-! ### Removing files -/

/-- Files are removed, path after path. -/
inductive Removal : Host → List String → Cleaning → Host → Prop
  | nil (h : Host) : Removal h [] {} h
  | skipped {h t : Host} {path : String} {rest : List String} {c : Cleaning} :
      h.isFile (Path.ofString path) = .ok false → Removal h rest c t →
      Removal h (path :: rest) c t
  | removed {h u t : Host} {path : String} {rest : List String} {c : Cleaning} :
      h.isFile (Path.ofString path) = .ok true → h.unlink (Path.ofString path) = .ok u →
      Removal u rest c t → Removal h (path :: rest) { c with removed := path :: c.removed } t
  | kept {h t : Host} {path : String} {rest : List String} {c : Cleaning} {r : Refusal} :
      h.isFile (Path.ofString path) = .ok true → h.unlink (Path.ofString path) = .error r →
      Removal h rest c t → Removal h (path :: rest) { c with errors := unremoved path :: c.errors } t

theorem ends_removeFiles {c : Cleaning} (hends : Ends (removeFiles paths) h c t) :
    Removal h paths c t := by
  induction paths generalizing h c with
  | nil =>
    obtain ⟨rfl, rfl⟩ := ends_pure hends
    exact .nil t
  | cons path rest ih =>
    rw [removeFiles] at hends
    obtain ⟨_, _, hget, h₁⟩ := ends_bind hends
    obtain ⟨rfl, rfl⟩ := ends_get hget
    obtain ⟨isFile, _, hasked, h₂⟩ := ends_bind h₁
    obtain ⟨hfile, rfl⟩ := ends_ofExcept hasked
    cases isFile with
    | false => exact .skipped hfile (ih h₂)
    | true =>
      obtain ⟨_, _, hdebug, h₃⟩ := ends_bind h₂
      obtain rfl := ends_debug hdebug
      split at h₃
      next u hunlink =>
        obtain ⟨_, _, hset, h₄⟩ := ends_bind h₃
        obtain rfl := ends_set hset
        obtain ⟨later, _, hlater, hpure⟩ := ends_bind h₄
        obtain ⟨rfl, rfl⟩ := ends_pure hpure
        exact .removed hfile hunlink (ih hlater)
      next r hunlink =>
        obtain ⟨_, _, hdebug, h₄⟩ := ends_bind h₃
        obtain rfl := ends_debug hdebug
        obtain ⟨later, _, hlater, hpure⟩ := ends_bind h₄
        obtain ⟨rfl, rfl⟩ := ends_pure hpure
        exact .kept hfile hunlink (ih hlater)

theorem fails_removeFiles {f : Fault} (hfails : Fails (removeFiles paths) h f t) :
    ∃ front path back c, paths = front ++ path :: back ∧ Removal h front c t ∧
      t.isFile (Path.ofString path) = .error f := by
  induction paths generalizing h with
  | nil => exact absurd hfails (answers_pure _ _).not_fails
  | cons path rest ih =>
    rw [removeFiles] at hfails
    obtain hget | ⟨_, _, hget, h₁⟩ := fails_bind hfails
    · exact absurd hget (answers_get _).not_fails
    obtain ⟨rfl, rfl⟩ := ends_get hget
    obtain hasked | ⟨isFile, _, hasked, h₂⟩ := fails_bind h₁
    · obtain ⟨hfile, rfl⟩ := fails_ofExcept hasked
      exact ⟨[], path, rest, {}, rfl, .nil t, hfile⟩
    obtain ⟨hfile, rfl⟩ := ends_ofExcept hasked
    cases isFile with
    | false =>
      obtain ⟨front, last, back, c, rfl, hc, hlast⟩ := ih h₂
      exact ⟨path :: front, last, back, c, rfl, .skipped hfile hc, hlast⟩
    | true =>
      obtain hdebug | ⟨_, _, hdebug, h₃⟩ := fails_bind h₂
      · exact absurd hdebug (answers_debug _ _).not_fails
      obtain rfl := ends_debug hdebug
      split at h₃
      next u hunlink =>
        obtain hset | ⟨_, _, hset, h₄⟩ := fails_bind h₃
        · exact absurd hset (answers_set _ _).not_fails
        obtain rfl := ends_set hset
        obtain hlater | ⟨_, _, _, hpure⟩ := fails_bind h₄
        · obtain ⟨front, last, back, c, rfl, hc, hlast⟩ := ih hlater
          exact ⟨path :: front, last, back, _, rfl, .removed hfile hunlink hc, hlast⟩
        · exact absurd hpure (answers_pure _ _).not_fails
      next r hunlink =>
        obtain hdebug | ⟨_, _, hdebug, h₄⟩ := fails_bind h₃
        · exact absurd hdebug (answers_debug _ _).not_fails
        obtain rfl := ends_debug hdebug
        obtain hlater | ⟨_, _, _, hpure⟩ := fails_bind h₄
        · obtain ⟨front, last, back, c, rfl, hc, hlast⟩ := ih hlater
          exact ⟨path :: front, last, back, _, rfl, .kept hfile hunlink hc, hlast⟩
        · exact absurd hpure (answers_pure _ _).not_fails

/-- Where there are no files, nothing is removed. -/
theorem removal_nothing {c : Cleaning}
    (hnone : ∀ path ∈ paths, h.isFile (Path.ofString path) ≠ .ok true) (hc : Removal h paths c t) :
    t = h ∧ c = {} := by
  induction hc with
  | nil => exact ⟨rfl, rfl⟩
  | skipped _ _ ih => exact ih fun path hp => hnone path (List.mem_cons_of_mem _ hp)
  | removed hfile => exact absurd hfile (hnone _ List.mem_cons_self)
  | kept hfile => exact absurd hfile (hnone _ List.mem_cons_self)

theorem removal_outside {c : Cleaning} (hdir : dir.Proper)
    (hpaths : ∀ path ∈ paths, Layout.IsInside dir.text path)
    (hno : ∀ directory, ¬ h.tree.LeadsTo h.home dir directory) (hc : Removal h paths c t) :
    t = h ∧ c = {} := by
  refine removal_nothing (fun path hp => ?_) hc
  obtain ⟨name, hname, rfl⟩ := hpaths path hp
  exact not_isFile_below hdir hname hno

theorem short_cons (hshort : ¬ TooLong dir name)
    (hrest : ∀ name, below dir name ∈ paths → ¬ TooLong dir name) (other : String)
    (hmem : below dir other ∈ below dir name :: paths) : ¬ TooLong dir other := by
  rcases List.mem_cons.mp hmem with hsame | hmem
  · rwa [below_inj hsame]
  · exact hrest other hmem

/-- What removing files comes to: nothing new, and no file left at a path that is not reported.
Only what is locked is reported. -/
structure Cleaned (dir : Path) (directory : Location) (paths : List String) (h t : Host)
    (c : Cleaning) : Prop where
  touched : Touched dir directory c.removed h t
  subset : ∀ path ∈ c.removed, path ∈ paths
  short : ∀ name, below dir name ∈ paths → ¬ TooLong dir name
  /-- Wherever something has changed, a file has been removed. -/
  each : ∀ place, t.tree.at? place = h.tree.at? place ∨
    t.tree.at? place = none ∧ ∃ content, h.tree.at? place = some (.file content)
  gone : ∀ name content, below dir name ∈ paths →
    t.tree.at? (directory ++ [name]) = some (.file content) → unremoved (below dir name) ∈ c.errors
  locked : ∀ message ∈ c.errors, ∃ path ∈ paths,
    message = unremoved path ∧ (Path.ofString path).text ∈ h.locked

theorem Cleaned.less {c : Cleaning} (hc : Cleaned dir directory paths h t c) {place : Location}
    {e : Entry} (he : t.tree.at? place = some e) : h.tree.at? place = some e := by
  obtain hsame | ⟨hnone, -⟩ := hc.each place
  · rwa [← hsame]
  · rw [he] at hnone
    cases hnone

theorem Cleaned.nil (dir : Path) (directory : Location) (h : Host) :
    Cleaned dir directory [] h h {} where
  touched := .refl dir directory h
  subset _ hp := hp
  short _ hp := by cases hp
  each _ := .inl rfl
  gone _ _ hp := by cases hp
  locked _ hm := by cases hm

section Steps

variable {c : Cleaning} {rest : List String} {path : String}

theorem Cleaned.locked_cons (hc : Cleaned dir directory rest h t c) (message : String)
    (hm : message ∈ c.errors) :
    ∃ p ∈ path :: rest, message = unremoved p ∧ (Path.ofString p).text ∈ h.locked := by
  obtain ⟨p, hp, hmessage⟩ := hc.locked message hm
  exact ⟨p, List.mem_cons_of_mem _ hp, hmessage⟩

/-- What is first in the list is no file. -/
theorem Cleaned.skipped (hshort : ¬ TooLong dir name)
    (hnone : ∀ content, h.tree.at? (directory ++ [name]) ≠ some (.file content))
    (hrest : Cleaned dir directory rest h t c) :
    Cleaned dir directory (below dir name :: rest) h t c where
  touched := hrest.touched
  subset p hp := List.mem_cons_of_mem _ (hrest.subset p hp)
  short := short_cons hshort hrest.short
  each := hrest.each
  gone other content hmem hat := by
    rcases List.mem_cons.mp hmem with hsame | hmem
    · obtain rfl := below_inj hsame
      exact absurd (hrest.less hat) (hnone content)
    · exact hrest.gone other content hmem hat
  locked := hrest.locked_cons

/-- The first file is removed; what is done later does not bring it back. -/
theorem Cleaned.removed_cons {content : ByteArray} (hname : IsPlain name.toList)
    (hshort : ¬ TooLong dir name)
    (hat : h.tree.at? (directory ++ [name]) = some (.file content))
    (hrest : Cleaned dir directory rest
      { h with tree := h.tree.remove (directory ++ [name]) } t c) :
    Cleaned dir directory (below dir name :: rest) h t
      { c with removed := below dir name :: c.removed } where
  touched := (touched_remove hname hshort hat).trans hrest.touched
  subset p hp := List.mem_cons.mpr ((List.mem_cons.mp hp).imp_right (hrest.subset p))
  short := short_cons hshort hrest.short
  each place := by
    have hlater := hrest.each place
    rw [at?_remove] at hlater
    split at hlater
    next hplace =>
      refine .inr ⟨?_, content, hplace ▸ hat⟩
      obtain hnone | ⟨hnone, -⟩ := hlater <;> exact hnone
    next => exact hlater
  gone other content' hmem hat' := by
    rcases List.mem_cons.mp hmem with hsame | hmem
    · obtain rfl := below_inj hsame
      have hbefore := hrest.less hat'
      rw [at?_remove, if_pos rfl] at hbefore
      cases hbefore
    · exact hrest.gone other content' hmem hat'
  locked := hrest.locked_cons

/-- The first file is locked and reported. -/
theorem Cleaned.kept (hshort : ¬ TooLong dir name)
    (hlocked : (Path.ofString (below dir name)).text ∈ h.locked)
    (hrest : Cleaned dir directory rest h t c) :
    Cleaned dir directory (below dir name :: rest) h t
      { c with errors := unremoved (below dir name) :: c.errors } where
  touched := hrest.touched
  subset p hp := List.mem_cons_of_mem _ (hrest.subset p hp)
  short := short_cons hshort hrest.short
  each := hrest.each
  gone other content hmem hat := by
    rcases List.mem_cons.mp hmem with hsame | hmem
    · rw [hsame]
      exact List.mem_cons_self
    · exact List.mem_cons_of_mem _ (hrest.gone other content hmem hat)
  locked message hm := by
    rcases List.mem_cons.mp hm with rfl | hm
    · exact ⟨_, List.mem_cons_self, rfl, hlocked⟩
    · exact hrest.locked_cons message hm

end Steps

theorem removal_cleaned {c : Cleaning} (hdir : dir.Proper)
    (hpaths : ∀ path ∈ paths, Layout.IsInside dir.text path) (hs : Stands h dir directory paths)
    (hc : Removal h paths c t) : Cleaned dir directory paths h t c := by
  induction hc with
  | nil h => exact .nil dir directory h
  | @skipped h t path rest c hfile _ ih =>
    obtain ⟨name, hname, (rfl : path = below dir name)⟩ := hpaths path List.mem_cons_self
    obtain ⟨hshort, hnone⟩ := (isFile_below_false hdir hname hs List.mem_cons_self).mp hfile
    exact (ih (fun p hp => hpaths p (List.mem_cons_of_mem _ hp)) hs.tail).skipped hshort hnone
  | @removed h u t path rest c hfile hunlink _ ih =>
    obtain ⟨name, hname, (rfl : path = below dir name)⟩ := hpaths path List.mem_cons_self
    obtain ⟨hshort, hcontent⟩ := isFile_below hdir hname hs List.mem_cons_self hfile
    obtain ⟨content, hat⟩ := hcontent.mp rfl
    rw [unlink_below hdir hname hs List.mem_cons_self hshort hat] at hunlink
    split at hunlink
    next => cases hunlink
    next =>
      cases hunlink
      have hstill := (touched_remove hname hshort hat).stands hs
      exact (ih (fun p hp => hpaths p (List.mem_cons_of_mem _ hp)) hstill.tail).removed_cons
        hname hshort hat
  | @kept h t path rest c r hfile hunlink _ ih =>
    obtain ⟨name, hname, (rfl : path = below dir name)⟩ := hpaths path List.mem_cons_self
    obtain ⟨hshort, hcontent⟩ := isFile_below hdir hname hs List.mem_cons_self hfile
    obtain ⟨content, hat⟩ := hcontent.mp rfl
    rw [unlink_below hdir hname hs List.mem_cons_self hshort hat] at hunlink
    split at hunlink
    next hlocked =>
      exact (ih (fun p hp => hpaths p (List.mem_cons_of_mem _ hp)) hs.tail).kept hshort hlocked
    next => cases hunlink

/-! ### Making the directory -/

/-- Making the directory does not fail: what refuses it is answered. -/
theorem answers_createDirectory {outcome : Except Refusal Unit} {name : String}
    (hmade : h.makePath (Path.ofString name) = (t, outcome)) :
    Answers (createDirectory name) h
      (reported (fun r => unmade name r.message) outcome) t := by
  refine (answers_get h).bind ?_
  rw [hmade]
  refine (answers_set t h).bind ?_
  cases outcome with
  | ok => exact answers_pure _ _
  | error r => exact answers_pure _ _

/-! ### Writing files -/

section Writing

variable {α : Type} {render : α → String} {b : Buffers α}

/-- Texts are written, path after path. -/
inductive Writes (text : String → String) : Host → List String → Writing → Host → Prop
  | nil (h : Host) : Writes text h [] {} h
  | written {h u t : Host} {path : String} {rest : List String} {w : Writing} :
      h.writeInto (Path.ofString path) (text path) = (u, .ok ()) → Writes text u rest w t →
      Writes text h (path :: rest) { w with written := path :: w.written } t
  | refused {h u t : Host} {path : String} {rest : List String} {w : Writing} {r : Refusal} :
      h.writeInto (Path.ofString path) (text path) = (u, .error r) → Writes text u rest w t →
      Writes text h (path :: rest) { w with errors := unopened path :: w.errors } t

theorem Writes.nothing {text : String → String} {w : Writing} (hw : Writes text h [] w t) :
    w = {} ∧ t = h := by
  cases hw
  exact ⟨rfl, rfl⟩

/-- What is written is some of the paths. -/
theorem Writes.sublist {text : String → String} {w : Writing} (hw : Writes text h paths w t) :
    w.written.Sublist paths := by
  induction hw with
  | nil => exact .slnil
  | written _ _ ih => exact ih.cons_cons _
  | refused _ _ ih => exact ih.cons _

/-- Where nothing is refused, everything is written. -/
theorem Writes.all_written {text : String → String} {w : Writing} (hw : Writes text h paths w t)
    (hnone : w.errors = []) : w.written = paths := by
  induction hw with
  | nil => rfl
  | written _ _ ih => exact congrArg _ (ih hnone)
  | refused => cases hnone

/-- Writing a file does not fail: what refuses it is answered. -/
theorem answers_writeFile {outcome : Except Refusal Unit} {path : String} {lines : List String}
    (hlines : lines ≠ [])
    (hinto : h.writeInto (Path.ofString path) (String.join lines) = (t, outcome)) :
    Answers (writeFile path lines) h
      (reported (fun _ => unopened path) outcome) t := by
  rw [writeFile, if_neg (by simpa using hlines)]
  refine (answers_get h).bind ?_
  rw [hinto]
  refine (answers_set t h).bind ?_
  cases outcome with
  | ok => exact answers_pure _ _
  | error r => exact (answers_debug _ _).bind (answers_pure _ _)

/-- Writing files does not fail, and goes through the paths. -/
theorem answers_writePaths (render : α → String) (hlines : ∀ path ∈ paths, b.linesAt path ≠ []) :
    ∃ w t, Answers (writePaths render b paths) h w t ∧ Writes (b.text render) h paths w t := by
  induction paths generalizing h with
  | nil => exact ⟨{}, h, answers_pure _ _, .nil h⟩
  | cons path rest ih =>
    have hmapped : (b.linesAt path).map render ≠ [] := by
      simpa using hlines path List.mem_cons_self
    cases hinto : h.writeInto (Path.ofString path) (b.text render path) with
    | mk u outcome =>
      have hfirst := answers_writeFile hmapped hinto
      obtain ⟨w, t, hlater, hw⟩ :=
        ih (h := u) fun p hp => hlines p (List.mem_cons_of_mem _ hp)
      cases outcome with
      | ok => exact ⟨_, t, hfirst.bind (hlater.bind (answers_pure _ _)), .written hinto hw⟩
      | error r => exact ⟨_, t, hfirst.bind (hlater.bind (answers_pure _ _)), .refused hinto hw⟩

/-- What writing files comes to: each of them is written or reported, and what is written stays.
What is reported is too long or a directory. -/
structure Written (dir : Path) (directory : Location) (text : String → String)
    (paths : List String) (h t : Host) (w : Writing) : Prop where
  touched : Touched dir directory w.written h t
  subset : ∀ path ∈ w.written, path ∈ paths
  written_iff : ∀ path ∈ paths, path ∈ w.written ↔ unopened path ∉ w.errors
  holds : ∀ name, below dir name ∈ w.written → ¬ TooLong dir name ∧
    t.tree.at? (directory ++ [name]) = some (.file (text (below dir name)).toUTF8)
  refused : ∀ message ∈ w.errors, ∃ name, below dir name ∈ paths ∧
    message = unopened (below dir name) ∧
      (TooLong dir name ∨ h.tree.at? (directory ++ [name]) = some .directory)

/-- A message is about a path that is still to be written. -/
theorem Written.unopened_mem {text : String → String} {w : Writing}
    (hw : Written dir directory text paths h t w) {path : String}
    (hmem : unopened path ∈ w.errors) : path ∈ paths := by
  obtain ⟨name, hpath, hmessage, -⟩ := hw.refused _ hmem
  rwa [unopened_inj hmessage]

section Steps

variable {text : String → String} {w : Writing} {rest : List String}

theorem Written.nil (dir : Path) (directory : Location) (text : String → String) (h : Host) :
    Written dir directory text [] h h {} where
  touched := .refl dir directory h
  subset _ hp := hp
  written_iff _ hp := by cases hp
  holds _ hp := by cases hp
  refused _ hm := by cases hm

/-- The first file is written; the later paths have other names and leave it alone. -/
theorem Written.written_cons
    (hfirst : Touched dir directory [below dir name] h
      { h with tree := h.tree.put (directory ++ [name]) (.file (text (below dir name)).toUTF8) })
    (hshort : ¬ TooLong dir name) (hnew : below dir name ∉ rest)
    (hrest : Written dir directory text rest
      { h with tree := h.tree.put (directory ++ [name]) (.file (text (below dir name)).toUTF8) } t w) :
    Written dir directory text (below dir name :: rest) h t
      { w with written := below dir name :: w.written } where
  touched := hfirst.trans hrest.touched
  subset p hp := List.mem_cons.mpr ((List.mem_cons.mp hp).imp_right (hrest.subset p))
  written_iff p hp := by
    rcases List.mem_cons.mp hp with rfl | hp
    · exact iff_of_true List.mem_cons_self fun hm => hnew (hrest.unopened_mem hm)
    · have hne : p ≠ below dir name := fun heq => hnew (heq ▸ hp)
      rw [List.mem_cons, or_iff_right hne, hrest.written_iff p hp]
  holds other hp := by
    rcases List.mem_cons.mp hp with hsame | hp
    · obtain rfl := below_inj hsame
      refine ⟨hshort, ?_⟩
      rw [hrest.touched.at?_same fun hm => hnew (hrest.subset _ hm), at?_put, if_pos rfl]
    · exact hrest.holds other hp
  refused message hm := by
    obtain ⟨other, hp, hmessage, hwhy⟩ := hrest.refused message hm
    exact ⟨other, List.mem_cons_of_mem _ hp, hmessage,
      hwhy.imp_right (hfirst.passage _ _ rfl).mp⟩

/-- The first path is refused and reported. -/
theorem Written.refused_cons
    (hwhy : TooLong dir name ∨ h.tree.at? (directory ++ [name]) = some .directory)
    (hnew : below dir name ∉ rest) (hrest : Written dir directory text rest h t w) :
    Written dir directory text (below dir name :: rest) h t
      { w with errors := unopened (below dir name) :: w.errors } where
  touched := hrest.touched
  subset p hp := List.mem_cons_of_mem _ (hrest.subset p hp)
  written_iff p hp := by
    rw [List.mem_cons, not_or]
    rcases List.mem_cons.mp hp with rfl | hp
    · exact iff_of_false (fun hw => hnew (hrest.subset _ hw)) fun hm => hm.1 rfl
    · have hne : unopened p ≠ unopened (below dir name) := fun heq =>
        hnew (unopened_inj heq ▸ hp)
      rw [hrest.written_iff p hp, and_iff_right hne]
  holds := hrest.holds
  refused message hm := by
    rcases List.mem_cons.mp hm with rfl | hm
    · exact ⟨name, List.mem_cons_self, rfl, hwhy⟩
    · obtain ⟨other, hp, hmessage, hwhy⟩ := hrest.refused message hm
      exact ⟨other, List.mem_cons_of_mem _ hp, hmessage, hwhy⟩

end Steps

theorem writes_written {text : String → String} {w : Writing} (hdir : dir.Proper)
    (hpaths : ∀ path ∈ paths, Layout.IsInside dir.text path) (hnodup : paths.Nodup)
    (hs : Stands h dir directory paths) (hw : Writes text h paths w t) :
    Written dir directory text paths h t w := by
  induction hw with
  | nil h => exact .nil dir directory text h
  | @written h u t path rest w hinto _ ih =>
    obtain ⟨name, hname, (rfl : path = below dir name)⟩ := hpaths path List.mem_cons_self
    obtain ⟨hnew, hnodup⟩ := List.nodup_cons.mp hnodup
    have hwrite := writeInto_below hdir hname hs List.mem_cons_self (text (below dir name))
    rw [hinto] at hwrite
    cases hwrite with
    | done hshort hat =>
      have hfirst := touched_write hname hshort hs List.mem_cons_self hat
        (text (below dir name)).toUTF8
      exact (ih (fun p hp => hpaths p (List.mem_cons_of_mem _ hp)) hnodup
        (hfirst.stands hs).tail).written_cons hfirst hshort hnew
  | @refused h u t path rest w r hinto _ ih =>
    obtain ⟨name, hname, (rfl : path = below dir name)⟩ := hpaths path List.mem_cons_self
    obtain ⟨hnew, hnodup⟩ := List.nodup_cons.mp hnodup
    have hwrite := writeInto_below hdir hname hs List.mem_cons_self (text (below dir name))
    rw [hinto] at hwrite
    obtain ⟨rfl, hwhy⟩ : u = h ∧
        (TooLong dir name ∨ h.tree.at? (directory ++ [name]) = some .directory) := by
      cases hwrite with
      | tooLong hlong => exact ⟨rfl, .inl hlong⟩
      | isDirectory _ hat => exact ⟨rfl, .inr hat⟩
    exact (ih (fun p hp => hpaths p (List.mem_cons_of_mem _ hp)) hnodup hs.tail).refused_cons
      hwhy hnew

end Writing

end MailRules.Host
