import MailRules.Proofs.Path
import MailRules.Store.Basic

/-! Keys of files.

A key writes a path as it is seen from the root. What is seen is decided by the path from the root on
(`seenFrom_join`), and leads back to it (`join_seenFrom`); so paths have the same key exactly if they
are the same from the root on, and a key is its own key (`fileKey_identifies`). -/
namespace MailRules

namespace Path

variable {p q base : Path}

theorem relativeTo?_eq_some : p.relativeTo? base = some q ↔
    p.anchor = base.anchor ∧ p.parts = base.parts ++ q.parts ∧ q.anchor = .relative := by
  constructor
  · intro h
    unfold relativeTo? at h
    split at h
    next hanchor =>
      split at h
      next hprefix =>
        obtain ⟨rest, hrest⟩ := List.isPrefixOf_iff_prefix.mp hprefix
        cases h
        rw [← hrest, List.drop_left]
        exact ⟨hanchor, rfl, rfl⟩
      next => cases h
    next => cases h
  · rintro ⟨hanchor, hparts, hrelative⟩
    have hprefix : base.parts.isPrefixOf p.parts = true :=
      List.isPrefixOf_iff_prefix.mpr ⟨q.parts, hparts.symm⟩
    rw [relativeTo?, if_pos hanchor, if_pos hprefix, hparts, List.drop_left, ← hrelative]

theorem join_of_relative (hq : q.anchor = .relative) :
    base.join q = ⟨base.anchor, base.parts ++ q.parts⟩ := by
  rw [join, isAbsolute, hq]
  rfl

theorem join_of_absolute (hq : q.anchor ≠ .relative) : base.join q = q :=
  if_pos (decide_eq_true hq)

/-- A path as it is seen from `base`, if it lies there, and as it is otherwise. -/
def seenFrom (p base : Path) : Path := (p.relativeTo? base).getD p

theorem Proper.seenFrom (hp : p.Proper) : (p.seenFrom base).Proper := by
  rw [Path.seenFrom]
  cases h : p.relativeTo? base with
  | none => exact hp
  | some q =>
    obtain ⟨-, hparts, -⟩ := relativeTo?_eq_some.mp h
    exact fun part hpart => hp part (hparts ▸ List.mem_append_right _ hpart)

theorem join_seenFrom (hbase : base.anchor ≠ .relative) :
    base.join (p.seenFrom base) = base.join p := by
  rw [seenFrom]
  cases h : p.relativeTo? base with
  | none => rfl
  | some q =>
    obtain ⟨hanchor, hparts, hrelative⟩ := relativeTo?_eq_some.mp h
    rw [Option.getD_some, join_of_relative hrelative, join_of_absolute (hanchor ▸ hbase), ← hanchor,
      ← hparts]

theorem seenFrom_join (hbase : base.anchor ≠ .relative) :
    (base.join p).seenFrom base = p.seenFrom base := by
  by_cases hp : p.anchor = .relative
  · have hinside : (base.join p).relativeTo? base = some p := by
      rw [join_of_relative hp, relativeTo?_eq_some]
      exact ⟨rfl, rfl, hp⟩
    have houtside : p.relativeTo? base = none :=
      if_neg fun hanchor : p.anchor = base.anchor => hbase (hanchor.symm.trans hp)
    rw [seenFrom, seenFrom, hinside, houtside]
    rfl
  · rw [join_of_absolute hp]

theorem seenFrom_eq_iff (hbase : base.anchor ≠ .relative) :
    p.seenFrom base = q.seenFrom base ↔ base.join p = base.join q := by
  constructor
  · intro h
    rw [← join_seenFrom hbase, h, join_seenFrom hbase]
  · intro h
    rw [← seenFrom_join hbase, h, seenFrom_join hbase]

theorem seenFrom_seenFrom (hbase : base.anchor ≠ .relative) :
    (p.seenFrom base).seenFrom base = p.seenFrom base :=
  (seenFrom_eq_iff hbase).mpr (join_seenFrom hbase)

end Path

namespace Store

open MailRules.Path

variable {s : Store}

theorem ofString_fileKey (s : Store) (path : String) :
    ofString (s.fileKey path) = (ofString path).seenFrom s.root :=
  ofString_text (proper_ofString path).seenFrom

/-- **A key identifies a path.** Two paths have the same key exactly if they are the same from the
root on; a key leads from the root to the path it was made of, and is its own key. -/
theorem fileKey_identifies (s : Store) (hroot : s.root.isAbsolute = true) (p q : String) :
    (s.fileKey p = s.fileKey q ↔ s.root.join (ofString p) = s.root.join (ofString q)) ∧
      s.root.join (ofString (s.fileKey p)) = s.root.join (ofString p) ∧
      s.fileKey (s.fileKey p) = s.fileKey p := by
  have hbase : s.root.anchor ≠ .relative := of_decide_eq_true hroot
  refine ⟨⟨fun h => ?_, fun h => ?_⟩, ?_, ?_⟩
  · have hpath := congrArg ofString h
    rwa [ofString_fileKey, ofString_fileKey, seenFrom_eq_iff hbase] at hpath
  · exact congrArg text ((seenFrom_eq_iff hbase).mpr h)
  · rw [ofString_fileKey, join_seenFrom hbase]
  · have hsame := seenFrom_seenFrom (p := ofString p) hbase
    rw [← ofString_fileKey s p] at hsame
    exact congrArg text (hsame.trans (ofString_fileKey s p))

/-- Below a root that starts with two slashes lies what starts with two slashes. -/
theorem fileKey_identifies_lists :
    ∃ s : Store, s.root = ofString "//srv/lists" ∧ s.root.isAbsolute = true ∧
      s.fileKey "//srv/./lists//a/../b.txt" = s.fileKey "./a/../b.txt" ∧
      s.fileKey "/srv/lists/b.txt" ≠ s.fileKey "b.txt" ∧
      s.fileKey "//srv/lists2/b.txt" ≠ s.fileKey "2/b.txt" ∧
      s.fileKey (s.fileKey "//srv/lists/") = s.fileKey "//srv/lists/" := by
  let s : Store := { root := ofString "//srv/lists" }
  have hroot : s.root.isAbsolute = true := by decide +kernel
  refine ⟨s, rfl, hroot, (fileKey_identifies s hroot _ _).1.mpr ?_, fun h => ?_, fun h => ?_,
    (fileKey_identifies s hroot "//srv/lists/" "").2.2⟩
  · decide +kernel
  · have hpath := (fileKey_identifies s hroot _ _).1.mp h
    revert hpath
    decide +kernel
  · have hpath := (fileKey_identifies s hroot _ _).1.mp h
    revert hpath
    decide +kernel

end Store

end MailRules
