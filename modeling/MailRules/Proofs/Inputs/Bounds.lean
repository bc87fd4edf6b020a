import Mathlib.Data.List.Perm.Subperm
import Mathlib.Data.Nat.Digits.Lemmas
import MailRules.Proofs.Inputs.Step

/-! How much an expansion can come across.

A walk comes to places of entries, or to the working directory and those above it (`Tree.places`).
What a directory lists, and what a pattern stands for, is found (`not_nothingAt_child`,
`not_nothingAt_matchPattern`), and there is no more of it than there are ways to choose the names.
There are only so many texts that are short enough for the path of a link. -/
namespace MailRules

/-! ### How many short texts there are -/

namespace Text

/-- A text as a number; the digit after its bytes tells it from a text that is longer. -/
def code (s : String) : Nat :=
  Nat.ofDigits 256 (s.toUTF8.data.toList.map UInt8.toNat ++ [1])

theorem lt_of_mem_code {s : String} :
    ∀ d ∈ s.toUTF8.data.toList.map UInt8.toNat ++ [1], d < 256 := by
  intro d hd
  rcases List.mem_append.mp hd with hd | hd
  · obtain ⟨b, -, rfl⟩ := List.mem_map.mp hd
    exact b.toNat_lt
  · rw [List.mem_singleton.mp hd]
    decide

theorem code_injective : Function.Injective code := by
  intro s t h
  have hdigits (s : String) :
      Nat.digits 256 (code s) = s.toUTF8.data.toList.map UInt8.toNat ++ [1] :=
    Nat.digits_ofDigits 256 (by decide) _ lt_of_mem_code (by simp)
  have hbytes := (hdigits s).symm.trans ((congrArg _ h).trans (hdigits t))
  have hlist := List.map_injective_iff.mpr (fun _ _ => UInt8.toNat_inj.mp)
    (List.append_cancel_right hbytes)
  exact String.toByteArray_inj.mp (ByteArray.ext (Array.toList_inj.mp hlist))

theorem code_lt {s : String} {n : Nat} (h : s.utf8ByteSize < n) : code s < 256 ^ n := by
  have hlt := Nat.ofDigits_lt_base_pow_length (by decide : 1 < 256) (lt_of_mem_code (s := s))
  refine Nat.lt_of_lt_of_le hlt (Nat.pow_le_pow_right (by decide) ?_)
  rw [List.length_append, List.length_map]
  exact h

/-- There are no more texts of fewer than `n` bytes than numbers with `n` digits. -/
theorem length_le_of_short {l : List String} {n : Nat} (hnodup : l.Nodup)
    (hshort : ∀ s ∈ l, s.utf8ByteSize < n) : l.length ≤ 256 ^ n := by
  have hcodes : (l.map code).Nodup := hnodup.map code_injective
  have hsubset : l.map code ⊆ List.range (256 ^ n) := by
    intro c hc
    obtain ⟨s, hs, rfl⟩ := List.mem_map.mp hc
    exact List.mem_range.mpr (code_lt (hshort s hs))
  have hle := (List.subperm_of_subset hcodes hsubset).length_le
  rwa [List.length_map, List.length_range] at hle

end Text

namespace Path

/-- Joined parts have a slash after each but the last. -/
theorem size_parts {parts : List String} (h : parts ≠ []) :
    ("/".intercalate parts).utf8ByteSize + 1 = (parts.map fun p => p.utf8ByteSize + 1).sum := by
  induction parts with
  | nil => exact absurd rfl h
  | cons part rest ih =>
    have hslash : "/".utf8ByteSize = 1 := by decide
    cases rest with
    | nil => simp
    | cons next later =>
      rw [String.intercalate_cons_of_ne_nil (List.cons_ne_nil next later), List.map_cons,
        List.sum_cons, ← ih (List.cons_ne_nil next later)]
      simp only [String.utf8ByteSize_append]
      omega

theorem size_parts_append (before parts : List String) :
    ("/".intercalate (before ++ parts)).utf8ByteSize ≤
      ("/".intercalate before).utf8ByteSize + ("/".intercalate parts).utf8ByteSize + 1 := by
  rcases eq_or_ne before [] with rfl | hbefore
  · simp
  rcases eq_or_ne parts [] with rfl | hparts
  · simp
  have hall := size_parts (List.append_ne_nil_of_left_ne_nil hbefore parts)
  rw [List.map_append, List.sum_append, ← size_parts hbefore, ← size_parts hparts] at hall
  omega

theorem size_parts_le (p : Path) :
    ("/".intercalate p.parts).utf8ByteSize ≤ p.text.utf8ByteSize := by
  rw [text]
  split
  next h => simp [h.2]
  next => simp

/-- A path has no more parts than its text has bytes, but for one. -/
theorem length_parts_le (p : Path) : p.parts.length ≤ p.text.utf8ByteSize + 1 := by
  rcases eq_or_ne p.parts [] with h | h
  · simp [h]
  have hcount : p.parts.length ≤ (p.parts.map fun q => q.utf8ByteSize + 1).sum := by
    have hone := List.length_le_sum_of_one_le (p.parts.map fun q => q.utf8ByteSize + 1) (by simp)
    rwa [List.length_map] at hone
  have hle := size_parts_le p
  rw [← size_parts h] at hcount
  omega

end Path

/-- The path from the root of a path is longer by no more than the working directory. -/
theorem Host.size_absolute_le (h : Host) (p : Path) :
    (h.absolute p).text.utf8ByteSize ≤
      p.text.utf8ByteSize + h.homePath.text.utf8ByteSize + 1 := by
  rw [absolute, Path.join]
  split
  · omega
  · have hsplit := Path.size_parts_append h.home p.parts
    have hparts := Path.size_parts_le p
    have htext (names : List String) : (Path.text ⟨.root, names⟩).utf8ByteSize =
        "/".utf8ByteSize + ("/".intercalate names).utf8ByteSize := by
      have hroot : ¬ (Anchor.root = Anchor.relative ∧ names = []) := fun h => by cases h.1
      rw [← String.utf8ByteSize_append]
      exact congrArg String.utf8ByteSize (if_neg hroot)
    show (Path.text ⟨.root, h.home ++ p.parts⟩).utf8ByteSize ≤
      p.text.utf8ByteSize + (Path.text ⟨.root, h.home⟩).utf8ByteSize + 1
    rw [htext, htext]
    omega

namespace Tree

variable {t : Tree} {home here place : Location} {follow : Bool} {links : Nat} {name : String}
  {parts : List String} {goal : Goal}

/-! ### How many places a walk can come to -/

/-- The place and all above it are those of entries, or above the working directory. -/
def Rooted (t : Tree) (home place : Location) : Prop :=
  ∀ above, above <+: place → above <+: home ∨ above ∈ t.entries.keys

theorem Rooted.below {e : Entry} (h : Rooted t home here) (hat : t.at? (here ++ [name]) = some e) :
    Rooted t home (here ++ [name]) := by
  intro above habove
  rcases List.prefix_concat_iff.mp habove with rfl | habove
  · refine .inr (Assoc.mem_keys_iff.mpr ⟨e, ?_⟩)
    rwa [at?, if_neg (List.append_ne_nil_of_right_ne_nil here (List.cons_ne_nil name []))] at hat
  · exact h above habove

theorem rooted_root : Rooted t home [] :=
  fun _ habove => .inl (List.prefix_nil.mp habove ▸ List.nil_prefix)

theorem along_rooted (t : Tree) (home : Location) : Along t (Rooted t home) where
  root := rooted_root
  up {here} hhere above habove := hhere above (habove.trans (List.dropLast_prefix here))
  down := Rooted.below

theorem Reaches.rooted {e : Entry} (h : Reaches t follow links here parts (.found place e))
    (hhere : Rooted t home here) : Rooted t home place := by
  obtain ⟨last, hlast, _ | _ | ⟨hat, -⟩⟩ := h.halts (along_rooted t home) hhere
  · exact hlast
  · exact hlast.below hat

theorem rooted_start (p : Path) : Rooted t home (start home p) := by
  unfold start
  split
  · exact rooted_root
  · exact fun _ => .inl

/-- The places that a walk can come to. -/
def places (t : Tree) (home : Location) : List Location := home.inits ++ t.entries.keys

theorem length_places (t : Tree) (home : Location) :
    (t.places home).length = t.entries.size + home.length + 1 := by
  rw [places, List.length_append, List.length_inits, Assoc.keys, List.length_map, Assoc.size]
  omega

theorem mem_places_of_find {p : Path} {e : Entry} (h : t.find home follow p = .ok (place, e)) :
    place ∈ t.places home := by
  have hreaches := (goal_eq_ok_iff.mp (find_eq_ok_iff.mp h)).2
  rcases hreaches.rooted (rooted_start p) place (List.prefix_refl place) with hhome | hkey
  · exact List.mem_append_left _ ((List.mem_inits _ _).mpr hhome)
  · exact List.mem_append_right _ hkey

/-! ### Names that are there -/

theorem at?_of_mem_names (h : name ∈ t.names place) :
    ∃ e, t.at? (place ++ [name]) = some e := by
  obtain ⟨key, hkey, hname⟩ := List.mem_filterMap.mp h
  split at hname
  next hdirectory =>
    obtain ⟨e, he⟩ := Assoc.mem_keys_iff.mp hkey
    have hself : place ++ [name] = key := by
      obtain ⟨before, rfl⟩ := List.getLast?_eq_some_iff.mp hname
      rw [← hdirectory, List.dropLast_concat]
    have hne : place ++ [name] ≠ [] :=
      List.append_ne_nil_of_right_ne_nil place (List.cons_ne_nil name [])
    refine ⟨e, ?_⟩
    rw [at?, if_neg hne, hself, he]
  next => cases hname

theorem length_names_le (t : Tree) (place : Location) :
    (t.names place).length ≤ t.entries.size := by
  rw [Assoc.size, ← List.length_map (f := Prod.fst)]
  exact List.length_filterMap_le _ _

/-- A name that is there is found, unless it is too long. -/
theorem walk_there (links : Nat) {e : Entry} (hat : t.at? (place ++ [name]) = some e) :
    (∃ place' e', t.walk false links place [name] = .ok (.found place' e')) ∨
      t.walk false links place [name] = .error .nameTooLong := by
  by_cases hstay : isStay name = true
  · exact .inl ⟨place, .directory, (walk_goes (.stay hstay)).trans walk_nil⟩
  by_cases hup : name = ".."
  · exact .inl ⟨place.dropLast, .directory, (walk_goes (.up hup)).trans walk_nil⟩
  rw [Bool.not_eq_true] at hstay
  by_cases hshort : name.utf8ByteSize ≤ nameLimit
  · left
    rw [walk_name ⟨hstay, hup, hshort⟩, hat]
    cases e with
    | directory => exact ⟨_, _, walk_nil⟩
    | file content => exact ⟨_, _, if_pos rfl⟩
    | link target => exact ⟨_, _, if_pos ⟨rfl, rfl⟩⟩
    | pipe => exact ⟨_, _, if_pos rfl⟩
  · exact .inr (walk_tooLong hstay hup (Nat.lt_of_not_le hshort))

end Tree

namespace Host

variable {h : Host} {p q : Path} {name : String}

/-! ### Paths at which something is found -/

theorem short_of_goal (h : h.tree.goal h.home false p ≠ .error .nameTooLong) :
    p.text.utf8ByteSize < Tree.pathLimit := by
  rw [Tree.goal_eq] at h
  by_contra hlong
  exact h (if_pos (Nat.le_of_not_lt hlong))

theorem mem_names : name ∈ h.names p ↔
    ∃ place, h.tree.LeadsTo h.home p place ∧ name ∈ h.tree.names place := by
  unfold names Tree.LeadsTo
  constructor
  · intro hname
    split at hname
    next place hfind => exact ⟨place, hfind, hname⟩
    next => cases hname
  · rintro ⟨place, hleads, hname⟩
    rw [hleads]
    exact hname

/-- What a directory lists is found in it. -/
theorem not_nothingAt_child (hname : name ∈ h.names p) : ¬ h.NothingAt (p.child name) := by
  obtain ⟨place, hleads, hlisted⟩ := mem_names.mp hname
  obtain ⟨e, hat⟩ := Tree.at?_of_mem_names hlisted
  obtain ⟨left, hleft⟩ := (Tree.leadsTo_iff.mp hleads).2.walk_append
  have hgoal : h.tree.goal h.home false (p.child name) =
      if Tree.pathLimit ≤ (p.child name).text.utf8ByteSize then .error .nameTooLong
      else h.tree.walk false left place [name] := by
    rw [Tree.goal_eq, ← hleft false [name] (List.cons_ne_nil name [])]
    rfl
  rintro ⟨t, hfind, hne⟩
  rw [Tree.find, hgoal] at hfind
  split at hfind
  next =>
    cases hfind
    exact hne rfl
  next =>
    obtain ⟨place', e', hthere⟩ | hlong := Tree.walk_there left hat
    · rw [hthere] at hfind
      cases hfind
    · rw [hlong] at hfind
      cases hfind
      exact hne rfl

theorem length_names_le (h : Host) (p : Path) : (h.names p).length ≤ h.tree.entries.size := by
  unfold names
  split
  · exact Tree.length_names_le _ _
  · exact Nat.zero_le _

/-! ### Patterns -/

theorem not_nothingAt_matchPart {only : Bool} {part : String} {directory : Path}
    (hq : q ∈ h.matchPart only part directory) : ¬ h.NothingAt q := by
  unfold matchPart at hq
  split at hq
  · obtain ⟨name, hname, rfl⟩ := List.mem_map.mp (List.mem_of_mem_filter hq)
    exact not_nothingAt_child (List.mem_of_mem_filter hname)
  · rintro ⟨t, hfind, -⟩
    have hthere := (List.mem_filter.mp hq).2
    rw [isThere, hfind] at hthere
    cases hthere

/-- What a pattern stands for is found. -/
theorem not_nothingAt_matchPattern (hwildcard : hasWildcard p = true)
    (hq : q ∈ h.matchPattern p) : ¬ h.NothingAt q := by
  have hmem := (List.mergeSort_perm _ _).mem_iff.mp hq
  have hsome : p.parts.reverse.any Text.hasWildcard = true := by
    rwa [List.any_reverse]
  cases hparts : p.parts.reverse with
  | nil =>
    rw [hparts] at hsome
    cases hsome
  | cons part before =>
    rw [hparts] at hmem hsome
    rw [matchParts, if_neg (by rw [hsome]; decide)] at hmem
    obtain ⟨directory, -, hpart⟩ := List.mem_flatMap.mp hmem
    exact not_nothingAt_matchPart hpart

theorem length_matchPart_le (h : Host) (only : Bool) (part : String) (directory : Path) :
    (h.matchPart only part directory).length ≤ h.tree.entries.size + 1 := by
  unfold matchPart
  split
  · refine Nat.le_succ_of_le (Nat.le_trans (List.length_filter_le _ _) ?_)
    rw [List.length_map]
    exact Nat.le_trans (List.length_filter_le _ _) (h.length_names_le directory)
  · exact Nat.le_trans (List.length_filter_le _ _) (Nat.le_add_left 1 _)

theorem length_flatMap_le {f : Path → List Path} {n : Nat} (hf : ∀ q, (f q).length ≤ n)
    (l : List Path) : (l.flatMap f).length ≤ l.length * n := by
  induction l with
  | nil => exact Nat.zero_le _
  | cons q rest ih =>
    rw [List.flatMap_cons, List.length_append, List.length_cons, Nat.succ_mul, Nat.add_comm]
    exact Nat.add_le_add ih (hf q)

theorem length_matchParts_le (h : Host) (anchor : Anchor) (only : Bool) (parts : List String) :
    (h.matchParts anchor only parts).length ≤ (h.tree.entries.size + 1) ^ parts.length := by
  induction parts generalizing only with
  | nil => exact Nat.le_refl 1
  | cons part before ih =>
    rw [matchParts]
    split
    · exact Nat.one_le_pow _ _ (Nat.succ_pos _)
    · exact Nat.le_trans (length_flatMap_le (h.length_matchPart_le only part) _)
        (Nat.mul_le_mul_right _ (ih true))

end Host

end MailRules
