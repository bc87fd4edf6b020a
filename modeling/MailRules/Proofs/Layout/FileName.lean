import Mathlib.Data.List.TakeWhile
import MailRules.Layout.Basic
import MailRules.Proofs.Text.Order

/-! Names of artifact files, and their order.

A path is cut after its last slash, and its name at the last dot (`LastCut`). The scores of an
artifact have their mark before that dot, which moves neither cut; so the rules can be read off the
path of the scores, and scores of different rules never meet (`scoresPath_separates`). The underscore
of the mark sorts after the dot, and the path of the scores after that of the rules
(`lt_scoresPath`). The next priority sorts after every path of this one (`path_lt_next`). -/
namespace MailRules.FileName

/-! ### The parts of a path -/

theorem take_front {front back : List Char} :
    (front ++ back).take ((front ++ back).length - back.length) = front := by
  rw [List.length_append, Nat.add_sub_cancel, List.take_left]

/-- A text is cut in two after the last place of `c`, if it has one. -/
structure LastCut (c : Char) (front back : List Char) : Prop where
  front : front = [] ∨ front.getLast? = some c
  back : c ∉ back

theorem exists_lastCut (c : Char) (l : List Char) :
    ∃ front back, l = front ++ back ∧ LastCut c front back := by
  refine ⟨(l.reverse.dropWhile (· ≠ c)).reverse, (l.reverse.takeWhile (· ≠ c)).reverse, ?_, ?_, ?_⟩
  · rw [← List.reverse_append, List.takeWhile_append_dropWhile, List.reverse_reverse]
  · have hhead := List.head?_dropWhile_not (· ≠ c) l.reverse
    rw [List.getLast?_reverse, List.reverse_eq_nil_iff]
    cases hfront : l.reverse.dropWhile (· ≠ c) with
    | nil => exact .inl rfl
    | cons d rest =>
      rw [hfront] at hhead
      exact .inr (congrArg some (by simpa using hhead))
  · intro hmem
    have hne := List.mem_takeWhile_imp (List.mem_reverse.mp hmem)
    simp at hne

/-- The part after the cut is found from the end. -/
theorem LastCut.takeWhile {c : Char} {front back : List Char} (h : LastCut c front back) :
    ((front ++ back).reverse.takeWhile (· ≠ c)).reverse = back := by
  have hfront : front.reverse.takeWhile (· ≠ c) = [] := by
    rcases h.front with rfl | hlast
    · rfl
    · rw [← List.head?_reverse] at hlast
      cases hrev : front.reverse with
      | nil => rfl
      | cons d rest =>
        rw [hrev] at hlast
        exact List.takeWhile_cons_of_neg (by simpa using hlast)
  have hback (d : Char) (hd : d ∈ back.reverse) : decide (d ≠ c) = true :=
    decide_eq_true fun he => h.back (he ▸ List.mem_reverse.mp hd)
  rw [List.reverse_append, List.takeWhile_append_of_pos hback, hfront, List.append_nil,
    List.reverse_reverse]

theorem LastCut.splitSlash {directory name : List Char} (h : LastCut '/' directory name) :
    splitSlash (directory ++ name) = (directory, name) := by
  rw [FileName.splitSlash, h.takeWhile, take_front]

/-- What ends at the last dot is the stem, unless it has dots only. -/
theorem LastCut.splitExtension {front back : List Char} (h : LastCut '.' front back) :
    splitExtension (front ++ back) =
      if front.dropLast.any (· ≠ '.') then (front.dropLast, '.' :: back) else (front ++ back, []) := by
  have hbefore : (front ++ back).take ((front ++ back).length - back.length - 1) = front.dropLast := by
    rw [List.length_append, Nat.add_sub_cancel, List.take_append_of_le_length (Nat.sub_le _ _),
      List.dropLast_eq_take]
  rw [FileName.splitExtension, h.takeWhile, hbefore]
  congr 1
  rcases h.front with rfl | hlast
  · simp
  · have hdot : (front ++ back).contains '.' = true :=
      List.contains_iff_mem.mpr (List.mem_append_left back (List.mem_of_getLast? hlast))
    rw [hdot, Bool.true_and]

theorem splitSlash_append (path : List Char) :
    (splitSlash path).1 ++ (splitSlash path).2 = path := by
  obtain ⟨directory, name, rfl, hcut⟩ := exists_lastCut '/' path
  rw [hcut.splitSlash]

/-- The extension is empty, or starts with a dot. -/
theorem splitExtension_append (name : List Char) :
    (splitExtension name).1 ++ (splitExtension name).2 = name ∧
      ((splitExtension name).2 = [] ∨ ∃ rest, (splitExtension name).2 = '.' :: rest) := by
  obtain ⟨front, back, rfl, hcut⟩ := exists_lastCut '.' name
  rw [hcut.splitExtension]
  split
  next hsolid =>
    refine ⟨?_, .inr ⟨back, rfl⟩⟩
    rcases hcut.front with rfl | hlast
    · cases hsolid
    · have hfront := List.dropLast_append_getLast? '.' hlast
      calc front.dropLast ++ '.' :: back = front.dropLast ++ ['.'] ++ back := by simp
        _ = front ++ back := by rw [hfront]
  next => exact ⟨List.append_nil _, .inl rfl⟩

/-! ### Paths of scores -/

/-- What the path of scores has before the extension. -/
def scoresMark : List Char := "_SCORES".toList

/-- The name of the scores of an artifact that has the name. -/
def scoresName (name : List Char) : List Char :=
  (splitExtension name).1 ++ scoresMark ++ (splitExtension name).2

theorem toList_scoresPath (path : String) :
    (scoresPath path).toList = (splitSlash path.toList).1 ++ scoresName (splitSlash path.toList).2 := by
  rw [scoresPath, String.toList_ofList, List.append_assoc, List.append_assoc, scoresName,
    List.append_assoc]
  rfl

theorem scoresName_noSlash {name : List Char} (h : '/' ∉ name) : '/' ∉ scoresName name := by
  rw [← (splitExtension_append name).1, List.mem_append, not_or] at h
  rw [scoresName, List.mem_append, List.mem_append, not_or, not_or]
  exact ⟨⟨h.1, by decide⟩, h.2⟩

/-- The mark has no dot, and so does not move the extension. -/
theorem splitExtension_scoresName (name : List Char) :
    splitExtension (scoresName name) =
      ((splitExtension name).1 ++ scoresMark, (splitExtension name).2) := by
  obtain ⟨front, back, rfl, hcut⟩ := exists_lastCut '.' name
  rw [scoresName, hcut.splitExtension]
  split
  next hsolid =>
    have hmarked : LastCut '.' (front.dropLast ++ scoresMark ++ ['.']) back :=
      ⟨.inr (by simp), hcut.back⟩
    have hsolid' : (front.dropLast ++ scoresMark).any (· ≠ '.') = true := by
      rw [List.any_append, hsolid, Bool.true_or]
    have h := hmarked.splitExtension
    rw [List.dropLast_concat, if_pos hsolid'] at h
    rwa [List.append_assoc, List.singleton_append] at h
  next hdots =>
    have hmarked : LastCut '.' front (back ++ scoresMark) := by
      refine ⟨hcut.front, ?_⟩
      rw [List.mem_append, not_or]
      exact ⟨hcut.back, by decide⟩
    have h := hmarked.splitExtension
    rw [if_neg hdots] at h
    rwa [List.append_nil, List.append_assoc]

/-- Nor does it move the directory. -/
theorem splitSlash_scoresPath (path : String) :
    splitSlash (scoresPath path).toList =
      ((splitSlash path.toList).1, scoresName (splitSlash path.toList).2) := by
  obtain ⟨directory, name, hpath, hcut⟩ := exists_lastCut '/' path.toList
  rw [toList_scoresPath, hpath, hcut.splitSlash]
  exact LastCut.splitSlash ⟨hcut.front, scoresName_noSlash hcut.back⟩

theorem scoresName_injective {name name' : List Char} (h : scoresName name = scoresName name') :
    name = name' := by
  have hcuts := congrArg splitExtension h
  rw [splitExtension_scoresName, splitExtension_scoresName] at hcuts
  obtain ⟨hstem, hextension⟩ := Prod.mk.inj hcuts
  rw [← (splitExtension_append name).1, List.append_cancel_right hstem, hextension,
    (splitExtension_append name').1]

theorem lt_scoresPath (path : String) : path < scoresPath path := by
  obtain ⟨hname, hextension⟩ := splitExtension_append (splitSlash path.toList).2
  rw [Text.lt_iff_toList, toList_scoresPath, scoresName, List.append_assoc]
  nth_rewrite 1 [← splitSlash_append path.toList, ← hname]
  refine List.append_left_lt (List.append_left_lt ?_)
  have hunderscore : scoresMark = '_' :: "SCORES".toList := by decide
  rw [hunderscore, List.cons_append]
  -- Either the path ends where the underscore is put in, or a dot follows.
  rcases hextension with hnone | ⟨rest, hdot⟩
  · rw [hnone]
    exact List.nil_lt_cons _ _
  · rw [hdot]
    exact List.cons_lt_cons_iff.mpr (.inl (by decide))

/-- **Scores come after their rules, in the same directory, and scores of different rules have
different paths**, whatever dots and slashes the paths have. -/
theorem scoresPath_separates (p q : String) :
    sortsAfter (scoresPath p) (some p) = true ∧
      (splitSlash (scoresPath p).toList).1 = (splitSlash p.toList).1 ∧
      (scoresPath p = scoresPath q ↔ p = q) := by
  refine ⟨decide_eq_true (lt_scoresPath p), by rw [splitSlash_scoresPath], fun h => ?_, congrArg _⟩
  have hcuts := congrArg (splitSlash ∘ String.toList) h
  simp only [Function.comp_apply, splitSlash_scoresPath] at hcuts
  obtain ⟨hdirectory, hname⟩ := Prod.mk.inj hcuts
  rw [← String.toList_inj, ← splitSlash_append p.toList, hdirectory, scoresName_injective hname,
    splitSlash_append]

/-- A name of which the only dot is the first has no extension. -/
example : scoresPath "rules.d/.cf" = "rules.d/.cf_SCORES" := by decide +kernel

end MailRules.FileName

namespace MailRules.Layout

theorem padded_lt : ∀ n : Fin 99,
    (Value.padded 2 n).toList < (Value.padded 2 (n + 1)).toList ∧
      (Value.padded 2 n).toList.length = (Value.padded 2 (n + 1)).toList.length := by
  decide +kernel

theorem path_lt_next (l : Layout) {n : Nat} (h : n < 99) (parts parts' : List String) :
    l.path n parts < l.path (n + 1) parts' := by
  obtain ⟨hlt, hlen⟩ := padded_lt ⟨n, h⟩
  rw [Text.lt_iff_toList]
  simp only [path, String.toList_append, List.append_assoc]
  exact List.append_left_lt (List.append_left_lt (Text.append_lt_append hlen hlt))

end MailRules.Layout
