import MailRules.Proofs.Inputs.Bounds
import MailRules.Proofs.Inputs.Step
import MailRules.Proofs.Text.Order

/-! What lies below a directory.

In a plain tree, one without links, a walk comes to a place whenever the names on the way are there
(`Reached`). Below a directory are the entries that it shows and, where these are directories again,
what is below them (`leaves`); each is found under the path of the directory with its own names
(`Reached.leaf`). -/
namespace MailRules

theorem Path.child_join (p : Path) (name : String) (names : List String) :
    (p.child name).join ⟨.relative, names⟩ = p.join ⟨.relative, name :: names⟩ := by
  show Path.mk p.anchor (p.parts ++ [name] ++ names) = ⟨p.anchor, p.parts ++ name :: names⟩
  rw [List.append_assoc, List.singleton_append]

namespace Tree

variable {t : Tree} {here place : Location} {name : String} {e : Entry}

/-! ### Shown names -/

/-- The names in a directory that are not hidden, in order. -/
def shown (t : Tree) (place : Location) : List String :=
  Text.sorted ((t.names place).filter fun n => n.toList.head? ≠ some '.')

theorem mem_names_of_shown (h : name ∈ t.shown place) : name ∈ t.names place :=
  List.mem_of_mem_filter (Text.mem_sorted.mp h)

/-- The number of names on the longest way down. -/
def depth (t : Tree) : Nat := t.entries.keys.foldr (fun key n => max key.length n) 0

theorem length_le_depth {key : Location} (h : key ∈ t.entries.keys) : key.length ≤ t.depth := by
  unfold depth
  generalize t.entries.keys = keys at h ⊢
  induction keys with
  | nil => cases h
  | cons k rest ih =>
    rw [List.foldr_cons]
    rcases List.mem_cons.mp h with rfl | h
    · exact Nat.le_max_left _ _
    · exact Nat.le_trans (ih h) (Nat.le_max_right _ _)

theorem mem_keys_of_at? (h : t.at? (place ++ [name]) = some e) :
    place ++ [name] ∈ t.entries.keys := by
  rw [at?, if_neg (List.append_ne_nil_of_right_ne_nil place (List.cons_ne_nil name []))] at h
  exact Assoc.mem_keys_iff.mpr ⟨e, h⟩

theorem length_lt_depth (h : name ∈ t.shown place) : place.length < t.depth := by
  obtain ⟨e, hat⟩ := at?_of_mem_names (mem_names_of_shown h)
  have hle := length_le_depth (mem_keys_of_at? hat)
  rwa [List.length_append, List.length_singleton] at hle

/-- What holds of a place as soon as it holds of all that it shows, holds of every place. -/
theorem descend {P : Location → Prop}
    (step : ∀ place, (∀ name ∈ t.shown place, P (place ++ [name])) → P place) (place : Location) :
    P place := by
  induction hleft : t.depth - place.length using Nat.strong_induction_on generalizing place with
  | _ left ih =>
    refine step place fun name hname => ih _ ?_ _ rfl
    have hlt := length_lt_depth hname
    rw [List.length_append, List.length_singleton]
    omega

/-- What is below a directory other than directories, in the order in which one comes to it going
down first, with the names that lead there. -/
def leaves (t : Tree) (place : Location) : List (Location × Entry) :=
  (t.shown place).attach.flatMap fun ⟨name, _⟩ =>
    match t.at? (place ++ [name]) with
    | none => []
    | some .directory => (t.leaves (place ++ [name])).map fun leaf => (name :: leaf.1, leaf.2)
    | some e => [([name], e)]
termination_by t.depth - place.length
decreasing_by
  rename_i hname
  have hlt := length_lt_depth hname
  rw [List.length_append, List.length_singleton]
  omega

theorem leaves_eq (t : Tree) (place : Location) :
    t.leaves place = (t.shown place).flatMap fun name =>
      match t.at? (place ++ [name]) with
      | none => []
      | some .directory => (t.leaves (place ++ [name])).map fun leaf => (name :: leaf.1, leaf.2)
      | some e => [([name], e)] := by
  conv_rhs => rw [← List.attach_map_subtype_val (t.shown place)]
  rw [leaves, List.flatMap_map]

/-! ### Walks without links -/

theorem mem_names_of_at? (h : t.at? (place ++ [name]) = some e) : name ∈ t.names place := by
  refine List.mem_filterMap.mpr ⟨_, mem_keys_of_at? h, ?_⟩
  rw [if_pos List.dropLast_concat, List.getLast?_concat]

/-- Only the names on the ways to the entries have to be looked at. -/
theorem names_of_keys (h : (t.entries.keys.all fun key => key.all fun name =>
      !isStay name && name ≠ ".." && name.utf8ByteSize ≤ nameLimit) = true) (place : Location)
    (name : String) (hname : name ∈ t.names place) : IsName name := by
  obtain ⟨e, hat⟩ := at?_of_mem_names hname
  have hall := List.all_eq_true.mp (List.all_eq_true.mp h _ (mem_keys_of_at? hat)) name
    (List.mem_append_right place List.mem_cons_self)
  simp only [Bool.and_eq_true, Bool.not_eq_true', decide_eq_true_eq] at hall
  exact ⟨hall.1.1, hall.1.2, hall.2⟩

theorem WellFormed.above {above : Location} (hwf : t.WellFormed)
    (hat : t.at? (above ++ [name]) = some e) : t.at? above = some .directory :=
  hwf above name (by rw [hat]; exact Option.some_ne_none e)

/-- What is there is at the place that its names say, if every name is one to look up. -/
theorem normalize_of_names (hwf : t.WellFormed)
    (hnames : ∀ place, ∀ name ∈ t.names place, isStay name = false ∧ name ≠ "..")
    (hat : t.at? place = some e) : normalize place = place := by
  induction place using List.reverseRecOn generalizing e with
  | nil => rfl
  | append_singleton above last ih =>
    obtain ⟨hmoves, hup⟩ := hnames above last (mem_names_of_at? hat)
    rw [normalize_concat, hmoves, if_neg Bool.false_ne_true, if_neg hup, ih (hwf.above hat)]

theorem WellFormed.along (hwf : t.WellFormed) : Along t fun place => t.at? place = some .directory where
  root := if_pos rfl
  up {here} hhere := by
    rcases List.eq_nil_or_concat here with rfl | ⟨above, last, rfl⟩
    · exact hhere
    · rw [List.concat_eq_append] at hhere ⊢
      rw [List.dropLast_concat]
      exact hwf.above hhere
  down _ hat := hat

/-- In a well-formed tree, a walk that starts in a directory finds directories where they are. -/
theorem Reaches.directory_at {follow : Bool} {links : Nat} {parts : List String}
    (hwf : t.WellFormed) (hhere : t.at? here = some .directory)
    (h : Reaches t follow links here parts (.found place .directory)) :
    t.at? place = some .directory := by
  obtain ⟨last, hlast, _ | _ | ⟨-, hne⟩⟩ := h.halts hwf.along hhere
  · exact hlast
  · exact absurd rfl hne

end Tree

namespace Host

open MailRules.Tree

variable {h : Host} {p : Path} {place : Location} {name : String} {e : Entry}

/-- A machine whose tree has no links: whatever is in it is in a directory and has a name, and the
working directory is there. -/
structure Plain (h : Host) : Prop where
  wellFormed : h.tree.WellFormed
  no_links : ∀ place target, h.tree.at? place ≠ some (.link target)
  names : ∀ place, ∀ name ∈ h.tree.names place, IsName name
  home : h.tree.at? h.home = some .directory

/-- What is there is at the place that its names say. -/
theorem Plain.normalize_eq (hplain : h.Plain) (hat : h.tree.at? place = some e) :
    normalize place = place :=
  normalize_of_names hplain.wellFormed
    (fun above name hname =>
      ⟨(hplain.names above name hname).moves, (hplain.names above name hname).ne_up⟩) hat

/-- The path leads to the entry, were it not for its length. -/
def Reached (h : Host) (p : Path) (place : Location) (e : Entry) : Prop :=
  Reaches h.tree true linkLimit (start h.home p) p.parts (.found place e)

theorem Reached.at? (hplain : h.Plain) (hp : h.Reached p place e) : h.tree.at? place = some e := by
  by_cases hdirectory : e = .directory
  · subst hdirectory
    refine Reaches.directory_at hplain.wellFormed ?_ hp
    unfold start
    split
    · exact if_pos rfl
    · exact hplain.home
  · exact Reaches.found_at hp hdirectory

theorem Reached.resolve (hplain : h.Plain) (hp : h.Reached p place e) : h.resolve p = place :=
  Reaches.resolve (hplain.normalize_eq hplain.home) hp

theorem Reached.unique {place' : Location} {e' : Entry} (hp : h.Reached p place e)
    (hp' : h.Reached p place' e') : place' = place ∧ e' = e := by
  have heq := hp.walk_eq.symm.trans hp'.walk_eq
  cases heq
  exact ⟨rfl, rfl⟩

/-- What a directory has is reached under its own name. -/
theorem Reached.child (hplain : h.Plain) (hp : h.Reached p place .directory)
    (hat : h.tree.at? (place ++ [name]) = some e) :
    h.Reached (p.child name) (place ++ [name]) e := by
  obtain ⟨left, hleft⟩ := Reaches.walk_append hp
  refine reaches_of_walk ?_
  show h.tree.walk true linkLimit (start h.home p) (p.parts ++ [name]) = _
  rw [hleft true [name] (List.cons_ne_nil _ _),
    walk_last (hplain.names place name (mem_names_of_at? hat)) fun target =>
      hplain.no_links _ target,
    goalAt, hat]

/-- Something is found wherever a path leads, unless the path is too long. -/
theorem Reached.found (hplain : h.Plain) (hp : h.Reached p place e) :
    h.TooLongAt p ∨ h.EntryAt p place e := by
  have hgoal : h.tree.goal h.home true p =
      if pathLimit ≤ p.text.utf8ByteSize then .error .nameTooLong else .ok (.found place e) := by
    rw [goal_eq, hp.walk_eq]
  have hsame : h.tree.goal h.home false p = h.tree.goal h.home true p := by
    refine (goal_follow h.tree h.home p).resolve_left ?_
    rintro ⟨place', target, hlink⟩
    exact hplain.no_links place' target
      ((goal_eq_ok_iff.mp hlink).2.found_at (by simp))
  rw [hgoal] at hsame
  by_cases hlong : pathLimit ≤ p.text.utf8ByteSize
  · rw [if_pos hlong] at hsame
    left
    rw [TooLongAt, Tree.find, hsame]
    rfl
  · rw [if_neg hlong] at hsame
    refine .inr ⟨find_eq_ok_iff.mpr hsame, ?_⟩
    cases e with
    | link target => exact absurd (hp.at? hplain) (hplain.no_links place target)
    | _ => rfl

theorem EntryAt.reached (he : h.EntryAt p place e) : h.Reached p place e :=
  (goal_eq_ok_iff.mp (find_eq_ok_iff.mp he.follow)).2

/-- What can be at a path. -/
theorem Plain.look (hplain : h.Plain) (p : Path) :
    h.TooLongAt p ∨ h.NothingAt p ∨ ∃ place e, h.EntryAt p place e := by
  cases hfind : h.tree.find h.home false p with
  | error t =>
    by_cases hlong : t = .nameTooLong
    · exact .inl (by rw [TooLongAt, hfind, hlong])
    · exact .inr (.inl ⟨t, hfind, hlong⟩)
  | ok found =>
    obtain ⟨place, e⟩ := found
    refine .inr (.inr ⟨place, e, hfind, ?_⟩)
    cases e with
    | link target =>
      exact absurd ((goal_eq_ok_iff.mp (find_eq_ok_iff.mp hfind)).2.found_at (by simp))
        (hplain.no_links place target)
    | _ => rfl

/-- The leaves of a directory are reached under the path of the directory. -/
theorem Reached.leaf (hplain : h.Plain) (hp : h.Reached p place .directory) {names : Location}
    (hleaf : (names, e) ∈ h.tree.leaves place) :
    h.Reached (p.join ⟨.relative, names⟩) (place ++ names) e ∧ e ≠ .directory := by
  induction place using Tree.descend (t := h.tree) generalizing p names with
  | step place ih =>
    rw [leaves_eq, List.mem_flatMap] at hleaf
    obtain ⟨name, hname, hleaf⟩ := hleaf
    split at hleaf
    next => cases hleaf
    next hat =>
      obtain ⟨⟨later, e'⟩, hlater, heq⟩ := List.mem_map.mp hleaf
      cases heq
      have hbelow := ih name hname (hp.child hplain hat) hlater
      rwa [Path.child_join, List.append_assoc, List.singleton_append] at hbelow
    next e' hne hat =>
      cases List.mem_singleton.mp hleaf
      exact ⟨hp.child hplain hat, hne⟩

end Host

end MailRules
