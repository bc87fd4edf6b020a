import MailRules.Inputs.Expansion
import MailRules.Proofs.Outcome
import MailRules.Proofs.Tree.Resolve

/-! One step of an expansion.

What a step does depends on what is found at the path if a link there is not followed (`take_eq`):
a link, something else, or nothing. Only a path that is refused for its length ends the expansion.
`Taken` lists what a step can do. -/
namespace MailRules

namespace Host

variable {h : Host} {p : Path}

/-- A link is found at the path. -/
def LinkAt (h : Host) (p : Path) (target : String) : Prop :=
  ∃ place, h.tree.find h.home false p = .ok (place, .link target)

/-- Something other than a link is found at the path. -/
def EntryAt (h : Host) (p : Path) (place : Location) (e : Entry) : Prop :=
  h.tree.find h.home false p = .ok (place, e) ∧ e.isLink = false

/-- Nothing is found at the path. -/
def NothingAt (h : Host) (p : Path) : Prop :=
  ∃ t, h.tree.find h.home false p = .error t ∧ t ≠ .nameTooLong

/-- The path is refused for its length, or for that of a name on the way. -/
def TooLongAt (h : Host) (p : Path) : Prop :=
  h.tree.find h.home false p = .error .nameTooLong

/-- Where no link is found, it does not matter whether links at the end are followed. -/
theorem find_follow (hnot : ∀ target, ¬ h.LinkAt p target) :
    h.tree.find h.home true p = h.tree.find h.home false p := by
  obtain ⟨place, target, hlink⟩ | heq := Tree.goal_follow h.tree h.home p
  · exact absurd ⟨place, Tree.find_eq_ok_iff.mpr hlink⟩ (hnot target)
  · rw [Tree.find, Tree.find, heq]

theorem EntryAt.follow {place : Location} {e : Entry} (he : h.EntryAt p place e) :
    h.tree.find h.home true p = .ok (place, e) := by
  obtain ⟨hfind, hlink⟩ := he
  rw [find_follow, hfind]
  rintro target ⟨place', htarget⟩
  rw [hfind] at htarget
  cases htarget
  cases hlink

theorem not_linkAt_of_error {t : Trouble} (ht : h.tree.find h.home false p = .error t)
    (target : String) : ¬ h.LinkAt p target := by
  rintro ⟨place, htarget⟩
  rw [ht] at htarget
  cases htarget

end Host

namespace Expansion

variable {h : Host} {root path : Path} {e next : Expansion}

/-- Takes a path at which `entry` is found, which is no link. -/
def visit (h : Host) (path : Path) (entry : Entry) (e : Expansion) : Expansion :=
  if e.places.contains (h.resolve path) then e.note ("Skipping already visited " ++ path.text)
  else
    let e := { e with places := h.resolve path :: e.places }
    match entry with
    | .directory => e.push (children h path)
    | .file _ => { e with files := e.files ++ [path] }
    | _ => e.fail (path.text ++ " is not a regular file")

theorem take_eq (h : Host) (root path : Path) (e : Expansion) :
    take h root path e = match h.tree.find h.home false path with
      | .ok (_, .link target) => .ok (takeLink h root path target e)
      | .ok (_, entry) => .ok (visit h path entry e)
      | .error .nameTooLong => .error (.system .nameTooLong path.text)
      | .error _ => .ok (takeMissing h path e) := by
  unfold take Host.linkTarget? Host.exists?
  simp only [Host.entry?]
  cases hfind : h.tree.find h.home false path with
  | error t =>
    have hsame := Host.find_follow (Host.not_linkAt_of_error hfind)
    rw [hsame, hfind]
    cases t <;> rfl
  | ok found =>
    obtain ⟨place, entry⟩ := found
    by_cases hlink : entry.isLink = true
    · cases entry with
      | link target => rfl
      | _ => cases hlink
    have hentry : h.EntryAt path place entry := ⟨hfind, Bool.not_eq_true _ ▸ hlink⟩
    have hsame := hentry.follow
    have hvisit : takePresent h path e = .ok (visit h path entry e) := by
      unfold takePresent visit Host.isDirectory Host.isFile Host.entry?
      rw [hsame]
      dsimp only
      by_cases hmem : h.resolve path ∈ e.places
      · rw [if_pos hmem, if_pos (List.contains_iff_mem.mpr hmem)]
        rfl
      · rw [if_neg hmem, if_neg (mt List.contains_iff_mem.mp hmem)]
        cases entry <;> rfl
    rw [hsame]
    cases entry with
    | link target => exact absurd rfl hlink
    | _ => exact hvisit

/-- What taking a path can do. -/
inductive Taken (h : Host) (root path : Path) (e : Expansion) : Expansion → Prop
  | looped {target : String} :
      h.LinkAt path target → (h.absolute path).text ∈ e.links →
      Taken h root path e (e.note ("Skipping symlink loop at " ++ path.text))
  | refused {target : String} :
      h.LinkAt path target → (h.absolute path).text ∉ e.links →
      escapes h root path target = true →
      Taken h root path e ({ e with links := (h.absolute path).text :: e.links }.fail
        ("Symlink outside of working root: " ++ path.text))
  | followed {target : String} :
      h.LinkAt path target → (h.absolute path).text ∉ e.links →
      escapes h root path target = false →
      Taken h root path e ({ e with links := (h.absolute path).text :: e.links }.push
        [path.parent.join (Path.ofString target)])
  | missing {text : String} : h.NothingAt path → Taken h root path e (e.fail text)
  | matched :
      h.NothingAt path → Host.hasWildcard path = true →
      Taken h root path e (e.push (h.matchPattern path))
  | visited {place : Location} {entry : Entry} :
      h.EntryAt path place entry → h.resolve path ∈ e.places →
      Taken h root path e (e.note ("Skipping already visited " ++ path.text))
  | directory {place : Location} :
      h.EntryAt path place .directory → h.resolve path ∉ e.places →
      Taken h root path e ({ e with places := h.resolve path :: e.places }.push (children h path))
  | file {place : Location} {content : ByteArray} :
      h.EntryAt path place (.file content) → h.resolve path ∉ e.places →
      Taken h root path e { e with
        places := h.resolve path :: e.places, files := e.files ++ [path] }
  | odd {place : Location} {entry : Entry} :
      h.EntryAt path place entry → h.resolve path ∉ e.places →
      Taken h root path e ({ e with places := h.resolve path :: e.places }.fail
        (path.text ++ " is not a regular file"))

theorem taken_link {target : String} (hlink : h.LinkAt path target) :
    Taken h root path e (takeLink h root path target e) := by
  unfold takeLink
  dsimp only
  split
  next hmem => exact .looped hlink hmem
  next hnew =>
    split
    next hescapes => exact .refused hlink hnew hescapes
    next hstays => exact .followed hlink hnew (Bool.not_eq_true _ ▸ hstays)

theorem taken_missing (hnothing : h.NothingAt path) :
    Taken h root path e (takeMissing h path e) := by
  unfold takeMissing
  split
  next hwildcard =>
    split
    next => exact .missing hnothing
    next => exact .matched hnothing hwildcard
  next => exact .missing hnothing

theorem taken_visit {place : Location} {entry : Entry} (hentry : h.EntryAt path place entry) :
    Taken h root path e (visit h path entry e) := by
  unfold visit
  dsimp only
  split
  next hmem => exact .visited hentry (List.contains_iff_mem.mp hmem)
  next hcontains =>
    have hnew : h.resolve path ∉ e.places := mt List.contains_iff_mem.mpr hcontains
    cases entry with
    | directory => exact .directory hentry hnew
    | file content => exact .file hentry hnew
    | link target => cases hentry.2
    | pipe => exact .odd hentry hnew

theorem take_ok (htake : take h root path e = .ok next) : Taken h root path e next := by
  rw [take_eq] at htake
  split at htake
  next place target hfind =>
    cases htake
    exact taken_link ⟨place, hfind⟩
  next place entry hnot hfind =>
    cases htake
    refine taken_visit ⟨hfind, ?_⟩
    cases entry with
    | link target => exact absurd rfl (hnot target)
    | _ => rfl
  next => cases htake
  next t hnot hfind =>
    cases htake
    exact taken_missing ⟨t, hfind, hnot⟩

theorem take_error {f : Fault} (htake : take h root path e = .error f) :
    h.TooLongAt path ∧ f = .system .nameTooLong path.text := by
  rw [take_eq] at htake
  split at htake
  next => cases htake
  next => cases htake
  next hfind =>
    cases htake
    exact ⟨hfind, rfl⟩
  next => cases htake

/-- An outcome without a fault is told by its expansion. -/
theorem outcome_eq {outcome : Expansion × Option Fault} (hnone : outcome.2.isNone = true) :
    outcome = (outcome.1, none) :=
  Prod.ext rfl (Option.isNone_iff_eq_none.mp hnone)

/-- A run that takes a path goes on with what that comes to. -/
theorem run_taken {rest : List Path} (hpending : e.pending = path :: rest)
    (htake : take h root path { e with pending := rest } = .ok next) (n : Nat) :
    run h root (n + 1) e = run h root n next := by
  rw [run, hpending]
  dsimp only
  rw [htake]

/-- What every step keeps, a run keeps. -/
theorem run_keeps {P : Expansion → Prop} (hstep : ∀ path rest e next, e.pending = path :: rest →
      P e → Taken h root path { e with pending := rest } next → P next)
    (n : Nat) (hstart : P e) : P (run h root n e).1 := by
  induction n generalizing e with
  | zero => exact hstart
  | succ n ih =>
    rw [run]
    split
    next => exact hstart
    next path rest hpending =>
      split
      next next htake => exact ih (hstep path rest e next hpending hstart (take_ok htake))
      next => exact hstart

end Expansion

end MailRules
