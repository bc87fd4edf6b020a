/-! Finite maps that remember the order in which their keys came.

A key keeps its place when its value changes; a new key goes to the end. -/
namespace MailRules

/-- Keys with their values, each key once, in the order of their first insertion. -/
structure Assoc (κ : Type) (ν : Type) where
  entries : List (κ × ν)
  nodup : (entries.map Prod.fst).Nodup
deriving DecidableEq

namespace Assoc

variable {κ ν : Type} [DecidableEq κ]

def empty : Assoc κ ν := ⟨[], .nil⟩

instance : EmptyCollection (Assoc κ ν) := ⟨empty⟩
instance : Inhabited (Assoc κ ν) := ⟨empty⟩

def keys (m : Assoc κ ν) : List κ := m.entries.map Prod.fst

def values (m : Assoc κ ν) : List ν := m.entries.map Prod.snd

def size (m : Assoc κ ν) : Nat := m.entries.length

def isEmpty (m : Assoc κ ν) : Bool := m.entries.isEmpty

def get? (m : Assoc κ ν) (k : κ) : Option ν := m.entries.lookup k

def contains (m : Assoc κ ν) (k : κ) : Bool := (m.get? k).isSome

/-- Puts a value at a key of a list of pairs, at the end if the key is new. -/
def place (k : κ) (v : ν) : List (κ × ν) → List (κ × ν)
  | [] => [(k, v)]
  | (j, w) :: rest => if j = k then (k, v) :: rest else (j, w) :: place k v rest

theorem mem_keys_place (k : κ) (v : ν) (l : List (κ × ν)) (j : κ) :
    j ∈ (place k v l).map Prod.fst ↔ j = k ∨ j ∈ l.map Prod.fst := by
  induction l with
  | nil => simp [place]
  | cons p rest ih =>
    by_cases h : p.1 = k
    · simp [place, h]
    · simp only [place, h, if_false, List.map_cons, List.mem_cons, ih]
      exact or_left_comm

theorem nodup_place (k : κ) (v : ν) {l : List (κ × ν)} (h : (l.map Prod.fst).Nodup) :
    ((place k v l).map Prod.fst).Nodup := by
  induction l with
  | nil => simp [place]
  | cons p rest ih =>
    rw [List.map_cons, List.nodup_cons] at h
    by_cases hk : p.1 = k
    · rw [place, if_pos hk, List.map_cons, List.nodup_cons]
      exact hk ▸ h
    · rw [place, if_neg hk, List.map_cons, List.nodup_cons, mem_keys_place]
      exact ⟨fun hm => hm.elim hk h.1, ih h.2⟩

def insert (m : Assoc κ ν) (k : κ) (v : ν) : Assoc κ ν :=
  ⟨place k v m.entries, nodup_place k v m.nodup⟩

/-- The pairs that a test on the key keeps. -/
def filterKeys (m : Assoc κ ν) (p : κ → Bool) : Assoc κ ν :=
  ⟨m.entries.filter fun e => p e.1, m.nodup.sublist (List.filter_sublist.map _)⟩

/-- The pairs that a test keeps. -/
def filter (m : Assoc κ ν) (p : κ → ν → Bool) : Assoc κ ν :=
  ⟨m.entries.filter fun e => p e.1 e.2, m.nodup.sublist (List.filter_sublist.map _)⟩

def erase (m : Assoc κ ν) (k : κ) : Assoc κ ν :=
  m.filterKeys (· ≠ k)

/-- Applies a function to the value at a key, or to `fresh` if there is none. -/
def update (m : Assoc κ ν) (k : κ) (fresh : ν) (f : ν → ν) : Assoc κ ν :=
  m.insert k (f ((m.get? k).getD fresh))

/-- The second map's pairs inserted into the first, in order. -/
def merge (m n : Assoc κ ν) : Assoc κ ν :=
  n.entries.foldl (fun m e => m.insert e.1 e.2) m

/-- The pairs inserted in order into the empty map. -/
def ofList (l : List (κ × ν)) : Assoc κ ν :=
  l.foldl (fun m e => m.insert e.1 e.2) empty

end Assoc

end MailRules
