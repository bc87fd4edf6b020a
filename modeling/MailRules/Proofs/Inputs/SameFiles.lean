import MailRules.Proofs.Inputs.Reading
import MailRules.Proofs.Inputs.Step
import MailRules.Proofs.Output.Standing

/-! Inputs that are the same files on two machines.

What a batch comes to depends on the machine only by what its inputs lead to. Where each of them is
a file, and the same one on both machines, the expansions take the same steps (`run_same`), so the
batches come to the same (`readAll_same`), whatever else is on the machines. Files that are not
among the artifacts are the same after a build (`readAll_ignores`). -/
namespace MailRules

open MailRules.Action

/-- On both machines there is the same file at the path. -/
def Host.SameFile (h u : Host) (p : Path) : Prop :=
  ∃ place content, h.EntryAt p place (.file content) ∧ u.EntryAt p place (.file content)

theorem Host.SameFile.readBytes {h u : Host} {p : Path} (hsame : h.SameFile u p) :
    u.readBytes p = h.readBytes p := by
  obtain ⟨place, content, hh, hu⟩ := hsame
  rw [Host.readBytes, Host.readBytes, hu.follow, hh.follow]

namespace Expansion

variable {h u : Host} {path : Path}

theorem take_same (root : Path) (e : Expansion) (hhome : Tree.normalize h.home = h.home)
    (hrest : u.home = h.home) (hsame : h.SameFile u path) :
    ∃ next, take h root path e = .ok next ∧ take u root path e = .ok next ∧
      next.pending = e.pending ∧ ∀ p ∈ next.files, p ∈ e.files ∨ p = path := by
  obtain ⟨place, content, hh, hu⟩ := hsame
  have hplace : h.resolve path = place :=
    Tree.resolve_eq hhome (Tree.find_eq_ok_iff.mp hh.follow)
  have hplace' : u.resolve path = place :=
    Tree.resolve_eq (hrest ▸ hhome) (Tree.find_eq_ok_iff.mp hu.follow)
  have hvisit : visit u path (.file content) e = visit h path (.file content) e := by
    rw [visit, visit, hplace, hplace']
  refine ⟨visit h path (.file content) e, ?_, ?_, ?_⟩
  · rw [take_eq, hh.1]
  · rw [take_eq, hu.1, ← hvisit]
  · rw [visit]
    split
    · exact ⟨rfl, fun p hp => .inl hp⟩
    · exact ⟨rfl, fun p hp => (List.mem_append.mp hp).imp_right List.mem_singleton.mp⟩

/-- Files that are the same are taken in the same way, each in one step. -/
theorem run_same (root : Path) (e : Expansion) (hhome : Tree.normalize h.home = h.home)
    (hrest : u.home = h.home) (hsame : ∀ p ∈ e.pending, h.SameFile u p) :
    ∃ last, e.run h root e.pending.length = (last, none) ∧
      e.run u root e.pending.length = (last, none) ∧ last.pending = [] ∧
      ∀ p ∈ last.files, p ∈ e.files ∨ p ∈ e.pending := by
  generalize hpending : e.pending = pending at hsame ⊢
  induction pending generalizing e with
  | nil => exact ⟨e, rfl, rfl, hpending, fun p hp => .inl hp⟩
  | cons path rest ih =>
    rw [List.forall_mem_cons] at hsame
    obtain ⟨next, htake, htake', hleft, hfiles⟩ :=
      take_same root { e with pending := rest } hhome hrest hsame.1
    obtain ⟨last, hrun, hrun', hdone, hlast⟩ := ih next hleft hsame.2
    refine ⟨last, ?_, ?_, hdone, fun p hp => ?_⟩
    · exact (run_taken hpending htake _).trans hrun
    · exact (run_taken hpending htake' _).trans hrun'
    · rw [List.mem_cons]
      obtain hp | hp := hlast p hp
      · exact (hfiles p hp).imp_right .inl
      · exact .inr (.inr hp)

end Expansion

namespace Store

variable {h u : Host}

theorem read_same {path : String} (hbytes : u.readBytes (Path.ofString path) =
    h.readBytes (Path.ofString path)) : read u path = read h path := by
  rw [read, read, hbytes]

theorem readEach_same {paths : List Path}
    (hsame : ∀ p ∈ paths, u.readBytes (Path.ofString p.text) = h.readBytes (Path.ofString p.text)) :
    readEach u paths = readEach h paths := by
  induction paths with
  | nil => rfl
  | cons path rest ih =>
    rw [List.forall_mem_cons] at hsame
    rw [readEach, readEach, read_same hsame.1, ih hsame.2]

/-- Where the inputs are the same files, it is the same to read them. -/
theorem readAll_same {inputs : List String} (hhome : Tree.normalize h.home = h.home)
    (hrest : u.home = h.home)
    (hsame : ∀ input ∈ inputs, h.SameFile u (Path.ofString input)) (s : Store) :
    (readAll u inputs).run s = (readAll h inputs).run s := by
  have hpaths : ∀ p ∈ inputs.map Path.ofString, h.SameFile u p := by
    intro p hp
    obtain ⟨input, hinput, rfl⟩ := List.mem_map.mp hp
    exact hsame input hinput
  obtain ⟨e, hrun, hrun', hdone, hfiles⟩ :=
    Expansion.run_same s.root { pending := inputs.map Path.ofString } hhome hrest hpaths
  have hread : readEach u e.files = readEach h e.files := by
    refine readEach_same fun p hp => ?_
    have hmem : p ∈ inputs.map Path.ofString := (hfiles p hp).resolve_left List.not_mem_nil
    obtain ⟨input, hinput, rfl⟩ := List.mem_map.mp hmem
    rw [Path.ofString_text (Path.proper_ofString input)]
    exact (hsame input hinput).readBytes
  rw [run_eq_exec, run_eq_exec, exec_readAll (ofInputs_enough (Nat.le_succ _) hrun hdone),
    exec_readAll (ofInputs_enough (Nat.le_succ _) hrun' hdone), hread]

end Store

/-! ### Files beside the artifacts -/

section Beside

variable {h u : Host} {dir p : Path} {directory : Location} {paths : List String}

/-- There is a file at the path, and it is not at one of those in the directory. -/
def Host.FileBeside (h : Host) (dir : Path) (paths : List String) (p : Path) : Prop :=
  ∃ place content, h.EntryAt p place (.file content) ∧
    ∀ directory name, (h.made dir).tree.LeadsTo (h.made dir).home dir directory →
      Host.below dir name ∈ paths → place ≠ directory ++ [name]

theorem Host.FileBeside.same (hfile : h.FileBeside dir paths p)
    (hu : Host.Beside dir directory paths h u) : h.SameFile u p := by
  obtain ⟨place, content, hentry, hother⟩ := hfile
  have hgoal := Tree.find_eq_ok_iff.mp hentry.1
  have hat := (Tree.goal_eq_ok_iff.mp hgoal).2.found_at (by simp)
  have hkept := hu.goal_kept hgoal ((hu.grown.at?_some hat).trans hat.symm)
    fun name => hother directory name hu.leads
  exact ⟨place, content, hentry, Tree.find_eq_ok_iff.mpr hkept, hentry.2⟩

/-- Where the inputs are files and none of them is an artifact, reading them does not depend on the
artifacts. -/
theorem Store.readAll_ignores {inputs : List String} (hhome : Tree.normalize h.home = h.home)
    (hfiles : ∀ input ∈ inputs, h.FileBeside dir paths (Path.ofString input)) (s : Store) :
    h.Ignores dir paths fun u => (readAll u inputs).run s :=
  fun _ _ hu => readAll_same hhome hu.home (fun input hinput => (hfiles input hinput).same hu) s

end Beside

end MailRules
