import Mathlib.Data.List.Nodup
import MailRules.Assoc

/-! Looking things up in a finite map.

A pair is an entry of a map exactly if the map gives its value for its key (`get?_eq_some_iff`), so
what an operation does is said once, by what it does to `get?`. Maps that agree on every key have
the same entries but for their order (`perm_of_get?`). -/
namespace MailRules.Assoc

variable {κ ν : Type} [DecidableEq κ]

theorem lookup_cons_if (k j : κ) (v : ν) (l : List (κ × ν)) :
    ((j, v) :: l).lookup k = if k = j then some v else l.lookup k := by
  by_cases h : k = j
  · simp [h]
  · rw [if_neg h, List.lookup_cons, beq_eq_false_iff_ne.mpr h]

theorem lookup_eq_some_iff {l : List (κ × ν)} (h : (l.map Prod.fst).Nodup) {k : κ} {v : ν} :
    l.lookup k = some v ↔ (k, v) ∈ l := by
  induction l with
  | nil => simp
  | cons p rest ih =>
    obtain ⟨j, w⟩ := p
    rw [List.map_cons, List.nodup_cons] at h
    rw [lookup_cons_if, List.mem_cons, Prod.mk.injEq]
    by_cases hk : k = j
    · subst hk
      have hrest : (k, v) ∉ rest := fun hm => h.1 (List.mem_map.mpr ⟨_, hm, rfl⟩)
      simp [hrest, eq_comm]
    · simp [hk, ih h.2]

theorem get?_eq_some_iff {m : Assoc κ ν} {k : κ} {v : ν} :
    m.get? k = some v ↔ (k, v) ∈ m.entries :=
  lookup_eq_some_iff m.nodup

theorem mem_keys_iff {m : Assoc κ ν} {k : κ} : k ∈ m.keys ↔ ∃ v, m.get? k = some v := by
  simp only [keys, List.mem_map, get?_eq_some_iff, Prod.exists, exists_and_right, exists_eq_right]

theorem mem_values_iff {m : Assoc κ ν} {v : ν} : v ∈ m.values ↔ ∃ k, m.get? k = some v := by
  simp only [values, List.mem_map, get?_eq_some_iff, Prod.exists, exists_eq_right]

theorem get?_eq_none_iff {m : Assoc κ ν} {k : κ} : m.get? k = none ↔ k ∉ m.keys := by
  rw [mem_keys_iff, Option.eq_none_iff_forall_ne_some, not_exists]

theorem contains_iff {m : Assoc κ ν} {k : κ} : m.contains k = true ↔ k ∈ m.keys := by
  rw [contains, Option.isSome_iff_exists, mem_keys_iff]

omit [DecidableEq κ] in
theorem isEmpty_iff {m : Assoc κ ν} : m.isEmpty = true ↔ m.entries = [] := List.isEmpty_iff

omit [DecidableEq κ] in
theorem not_isEmpty_of_mem {m : Assoc κ ν} {e : κ × ν} (h : e ∈ m.entries) :
    ¬ m.isEmpty = true := by
  rw [isEmpty_iff]
  exact List.ne_nil_of_mem h

/-! ### What the operations do to `get?` -/

@[simp] theorem get?_empty (k : κ) : (∅ : Assoc κ ν).get? k = none := rfl

omit [DecidableEq κ] in
@[simp] theorem keys_empty : (∅ : Assoc κ ν).keys = [] := rfl

theorem lookup_place (k : κ) (v : ν) (l : List (κ × ν)) (j : κ) :
    (place k v l).lookup j = if j = k then some v else l.lookup j := by
  induction l with
  | nil => rw [place, lookup_cons_if]
  | cons p rest ih =>
    obtain ⟨i, w⟩ := p
    by_cases hi : i = k
    · subst hi
      rw [place, if_pos rfl, lookup_cons_if, lookup_cons_if]
      by_cases h : j = i
      · simp only [h, if_true]
      · simp only [h, if_false]
    · rw [place, if_neg hi, lookup_cons_if, lookup_cons_if, ih]
      by_cases h : j = i
      · rw [if_pos h, if_pos h, if_neg (h ▸ hi)]
      · rw [if_neg h, if_neg h]

@[simp] theorem get?_insert (m : Assoc κ ν) (k : κ) (v : ν) (j : κ) :
    (m.insert k v).get? j = if j = k then some v else m.get? j :=
  lookup_place k v m.entries j

@[simp] theorem get?_update (m : Assoc κ ν) (k : κ) (fresh : ν) (f : ν → ν) (j : κ) :
    (m.update k fresh f).get? j = if j = k then some (f ((m.get? k).getD fresh)) else m.get? j :=
  get?_insert m k _ j

theorem mem_keys_insert {m : Assoc κ ν} {k : κ} {v : ν} {j : κ} :
    j ∈ (m.insert k v).keys ↔ j = k ∨ j ∈ m.keys :=
  mem_keys_place k v m.entries j

/-- A new key goes to the end. -/
theorem place_of_not_mem {k : κ} (v : ν) {l : List (κ × ν)} (h : k ∉ l.map Prod.fst) :
    place k v l = l ++ [(k, v)] := by
  induction l with
  | nil => rfl
  | cons p rest ih =>
    rw [List.map_cons, List.mem_cons, not_or] at h
    rw [place, if_neg fun he => h.1 he.symm, ih h.2, List.cons_append]

theorem keys_insert_of_not_mem {m : Assoc κ ν} {k : κ} (v : ν) (h : k ∉ m.keys) :
    (m.insert k v).keys = m.keys ++ [k] := by
  show (place k v m.entries).map Prod.fst = _
  rw [place_of_not_mem v h, List.map_append]
  rfl

@[simp] theorem get?_filter (m : Assoc κ ν) (p : κ → ν → Bool) (k : κ) :
    (m.filter p).get? k = (m.get? k).filter (p k) := by
  apply Option.ext
  intro v
  rw [get?_eq_some_iff, Option.filter_eq_some_iff, get?_eq_some_iff]
  exact List.mem_filter

@[simp] theorem get?_filterKeys (m : Assoc κ ν) (p : κ → Bool) (k : κ) :
    (m.filterKeys p).get? k = if p k then m.get? k else none := by
  apply Option.ext
  intro v
  rw [get?_eq_some_iff]
  by_cases h : p k
  · simp [filterKeys, h, get?_eq_some_iff]
  · simp [filterKeys, h]

@[simp] theorem get?_erase (m : Assoc κ ν) (k j : κ) :
    (m.erase k).get? j = if j = k then none else m.get? j := by
  rw [erase, get?_filterKeys]
  by_cases h : j = k <;> simp [h]

/-- A test that sees the new pair of a key as it saw the old one keeps or drops the key's place. -/
theorem filter_place (k : κ) (v : ν) (p : κ → ν → Bool) {l : List (κ × ν)}
    (h : ∀ w, (k, w) ∈ l → p k w = p k v) :
    (place k v l).filter (fun e => p e.1 e.2) =
      if p k v then place k v (l.filter fun e => p e.1 e.2) else l.filter fun e => p e.1 e.2 := by
  induction l with
  | nil =>
    rw [place, List.filter_cons]
    rfl
  | cons e rest ih =>
    obtain ⟨i, w⟩ := e
    by_cases hi : i = k
    · subst hi
      rw [place, if_pos rfl, List.filter_cons, List.filter_cons]
      dsimp only
      rw [h w List.mem_cons_self]
      split
      · rw [place, if_pos rfl]
      · rfl
    · rw [place, if_neg hi, List.filter_cons, List.filter_cons,
        ih fun w' hw' => h w' (List.mem_cons_of_mem _ hw')]
      dsimp only
      split
      · split
        · rw [place, if_neg hi]
        · rfl
      · rfl

omit [DecidableEq κ] in
theorem eq_of_entries {m n : Assoc κ ν} (h : m.entries = n.entries) : m = n := by
  cases m
  cases n
  cases h
  rfl

theorem filter_insert (m : Assoc κ ν) (k : κ) (v : ν) (p : κ → ν → Bool)
    (h : ∀ w, m.get? k = some w → p k w = p k v) :
    (m.insert k v).filter p = if p k v then (m.filter p).insert k v else m.filter p := by
  have hentries := filter_place k v p fun w hw => h w (get?_eq_some_iff.mpr hw)
  split
  next hk =>
    rw [if_pos hk] at hentries
    exact eq_of_entries hentries
  next hk =>
    rw [if_neg hk] at hentries
    exact eq_of_entries hentries

theorem filterKeys_insert (m : Assoc κ ν) (k : κ) (v : ν) (p : κ → Bool) :
    (m.insert k v).filterKeys p =
      if p k then (m.filterKeys p).insert k v else m.filterKeys p :=
  filter_insert m k v (fun j _ => p j) fun _ _ => rfl

theorem place_of_lookup {k : κ} {v : ν} {l : List (κ × ν)} (h : l.lookup k = some v) :
    place k v l = l := by
  induction l with
  | nil => cases h
  | cons e rest ih =>
    obtain ⟨i, w⟩ := e
    rw [lookup_cons_if] at h
    by_cases hi : i = k
    · rw [if_pos hi.symm] at h
      rw [place, if_pos hi, hi, Option.some.inj h]
    · rw [if_neg (Ne.symm hi)] at h
      rw [place, if_neg hi, ih h]

/-- A value that is there already changes nothing. -/
theorem insert_of_get? {m : Assoc κ ν} {k : κ} {v : ν} (h : m.get? k = some v) :
    m.insert k v = m :=
  eq_of_entries (place_of_lookup h)

theorem mem_keys_foldl_insert {l : List (κ × ν)} {m : Assoc κ ν} {k : κ} :
    k ∈ (l.foldl (fun m e => m.insert e.1 e.2) m).keys ↔ k ∈ m.keys ∨ k ∈ l.map Prod.fst := by
  induction l generalizing m with
  | nil => exact (or_iff_left List.not_mem_nil).symm
  | cons e rest ih =>
    rw [List.foldl_cons, ih, mem_keys_insert, List.map_cons, List.mem_cons]
    grind

/-- Of the pairs of one key, the last that is inserted counts; all come before those of the map. -/
theorem get?_foldl_insert_last (l : List (κ × ν)) (m : Assoc κ ν) (k : κ) :
    (l.foldl (fun m e => m.insert e.1 e.2) m).get? k = (l.reverse.lookup k).or (m.get? k) := by
  induction l generalizing m with
  | nil => rfl
  | cons e rest ih =>
    obtain ⟨i, w⟩ := e
    rw [List.foldl_cons, ih, get?_insert, List.reverse_cons, List.lookup_append, lookup_cons_if,
      Option.or_assoc]
    congr 1
    split <;> rfl

/-- Where each key comes once, the order does not matter. -/
theorem get?_foldl_insert {l : List (κ × ν)} (h : (l.map Prod.fst).Nodup) (m : Assoc κ ν) (k : κ) :
    (l.foldl (fun m e => m.insert e.1 e.2) m).get? k = (l.lookup k).or (m.get? k) := by
  have hreverse : (l.reverse.map Prod.fst).Nodup := by
    rw [List.map_reverse]
    exact List.nodup_reverse.mpr h
  have hlookup : l.reverse.lookup k = l.lookup k := Option.ext fun v => by
    rw [lookup_eq_some_iff hreverse, lookup_eq_some_iff h, List.mem_reverse]
  rw [get?_foldl_insert_last, hlookup]

@[simp] theorem get?_merge (m n : Assoc κ ν) (k : κ) :
    (m.merge n).get? k = (n.get? k).or (m.get? k) :=
  get?_foldl_insert n.nodup m k

/-! ### Maps that agree on every key -/

omit [DecidableEq κ] in
theorem entries_nodup (m : Assoc κ ν) : m.entries.Nodup := m.nodup.of_map

/-- The same look-ups, the same entries. -/
theorem perm_of_get? {m n : Assoc κ ν} (h : ∀ k, m.get? k = n.get? k) :
    m.entries.Perm n.entries := by
  rw [List.perm_ext_iff_of_nodup m.entries_nodup n.entries_nodup]
  intro e
  rw [← get?_eq_some_iff, ← get?_eq_some_iff, h]

theorem keys_perm_of_get? {m n : Assoc κ ν} (h : ∀ k, m.get? k = n.get? k) :
    m.keys.Perm n.keys :=
  (perm_of_get? h).map Prod.fst

end MailRules.Assoc
