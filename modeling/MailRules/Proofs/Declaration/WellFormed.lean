import MailRules.Proofs.Declaration.RoundTrip

/-! Declarations that have a line.

A declaration may be put together by hand. With a whole score it is what some line declares exactly
if its parts are well formed, and then its own line declares it (`has_line_iff`). The parts that a
line leaves are those of `IsCanonical`; here they are said of the declaration alone, without the
reading of lines. -/
namespace MailRules.Declaration

open Text

/-- A capital or an underscore, and after it capitals, digits and underscores. -/
def isCapitalName (name : List Char) : Bool :=
  match name with
  | [] => false
  | c :: rest => (c.isUpper || c = '_') && rest.all fun d => d.isUpper || d.isDigit || d = '_'

/-- The declaration has parts that a line can have. -/
structure IsWellFormed (d : Declaration) : Prop where
  word_ne : d.word ≠ ""
  word_solid : ∀ c ∈ d.word.toList, isBlank c = false
  word_head : ∀ c, d.word.toList.head? = some c → isDigit c = false ∧ c ≠ '#'
  word_low : Text.lower d.word = d.word
  score : ∃ n : Int, d.score = .whole n ∧ 0 ≤ n
  groups_ne : d.groups ≠ []
  groups_nodup : d.groups.Nodup
  groups_name : ∀ g ∈ d.groups, isCapitalName g.toList = true
  comment : d.comment = String.ofList (List.intercalate [' '] (Text.fields d.comment.toList))

/-! ### Parts -/

theorem isCapitalName_cons {c : Char} {rest : List Char} : isCapitalName (c :: rest) = true ↔
    (c.isUpper = true ∨ c = '_') ∧ ∀ d ∈ rest, d.isUpper = true ∨ d.isDigit = true ∨ d = '_' := by
  simp only [isCapitalName, Bool.and_eq_true, Bool.or_eq_true, decide_eq_true_eq, List.all_eq_true,
    or_assoc]

/-- Capitals, digits and underscores are the characters of names that are in upper case. -/
theorem capital_iff {c : Char} : c.isUpper = true ∨ c.isDigit = true ∨ c = '_' ↔
    isNameChar c = true ∧ c.toUpper = c := by
  constructor
  · intro h
    have hname : isNameChar c = true := by
      show (((c.isUpper || c.isLower) || c.isDigit) || decide (c = '_')) = true
      rcases h with h | h | h <;> simp [h]
    exact ⟨hname, forall_nameChar (P := fun c =>
      c.isUpper = true ∨ c.isDigit = true ∨ c = '_' → c.toUpper = c) (by decide +kernel) hname h⟩
  · rintro ⟨hname, hupper⟩
    exact forall_nameChar (P := fun c =>
      c.toUpper = c → c.isUpper = true ∨ c.isDigit = true ∨ c = '_') (by decide +kernel) hname hupper

/-- Of these, all but the digits can come first. -/
theorem capital_first_iff {c : Char} : c.isUpper = true ∨ c = '_' ↔
    (c.isAlpha = true ∨ c = '_') ∧ c.toUpper = c := by
  have hfirst (c : Char) (hc : isNameChar c = true) : c.isUpper = true ∨ c = '_' ↔
      (c.isAlpha = true ∨ c = '_') ∧ c.toUpper = c :=
    forall_nameChar (P := fun c => c.isUpper = true ∨ c = '_' ↔
      (c.isAlpha = true ∨ c = '_') ∧ c.toUpper = c) (by decide +kernel) hc
  constructor
  · exact fun h => (hfirst c (capital_iff.mp (h.imp_right .inr)).1).mp h
  · exact fun h => (hfirst c (isNameChar_of_alpha h.1)).mpr h

theorem isCapitalName_iff {name : List Char} : isCapitalName name = true ↔
    isGroupName name = true ∧ name.map Char.toUpper = name := by
  cases name with
  | nil => exact iff_of_false Bool.false_ne_true fun h => Bool.false_ne_true h.1
  | cons c rest =>
    have hsame : rest.map Char.toUpper = rest ↔ ∀ d ∈ rest, d.toUpper = d := by
      have hid := List.map_inj_left (l := rest) (f := Char.toUpper) (g := id)
      rwa [List.map_id] at hid
    rw [isCapitalName_cons, isGroupName_cons, List.map_cons, List.cons.injEq, capital_first_iff, hsame]
    simp only [capital_iff, forall_and]
    exact and_and_and_comm

theorem canonicalGroup_iff {g : String} : IsCanonicalGroup g ↔ isCapitalName g.toList = true :=
  ⟨fun h => isCapitalName_iff.mpr ⟨h.name, h.high⟩,
    fun h => ⟨(isCapitalName_iff.mp h).1, (isCapitalName_iff.mp h).2⟩⟩

theorem canonicalWord_iff {w : String} : IsCanonicalWord w ↔
    w ≠ "" ∧ (∀ c ∈ w.toList, isBlank c = false) ∧
      (∀ c, w.toList.head? = some c → isDigit c = false ∧ c ≠ '#') ∧ Text.lower w = w := by
  have hempty : w.toList = [] ↔ w = "" := String.toList_eq_nil_iff
  have hlow : lowerChars w.toList = w.toList ↔ Text.lower w = w := by
    rw [← String.toList_inj, Text.lower, String.toList_ofList]
  constructor
  · exact fun h => ⟨mt hempty.mpr h.field.nonempty, h.field.solid, h.head, hlow.mp h.low⟩
  · rintro ⟨hne, hsolid, hhead, hsame⟩
    exact ⟨⟨mt hempty.mp hne, hsolid⟩, hlow.mpr hsame, hhead⟩

/-- A natural number that is not too long can be typed. -/
theorem isTyped_whole {n : Nat} (h : (Nat.toDigits 10 n).length ≤ digitLimit) :
    IsTyped (.whole n) :=
  ⟨Nat.toDigits 10 n, ofNumeral?_toDigits h⟩

/-- A whole number that equals a typed score is not negative. -/
theorem nonneg_of_typed {n : Int} {x : Score} (hx : x = .whole 0 ∨ IsTyped x)
    (hsame : (Score.whole n).sameNumber x = true) : 0 ≤ n := by
  rcases hx with rfl | htyped
  · exact Int.le_of_eq (of_decide_eq_true hsame).symm
  cases htyped.cases with
  | whole k =>
    rw [of_decide_eq_true hsame]
    exact Int.natCast_nonneg k
  | @finite m e =>
    have hunits : (Binary64.units m e : Int) = n * Binary64.one := of_decide_eq_true hsame
    by_contra hneg
    have hone : (0 : Int) < Binary64.one := Int.natCast_pos.mpr Binary64.one_pos
    have hless := Int.mul_neg_of_neg_of_pos (Int.not_le.mp hneg) hone
    rw [← hunits] at hless
    exact absurd (Int.natCast_nonneg _) (Int.not_le.mpr hless)
  | infinite => cases hsame

/-! ### Lines of declarations -/

variable {d e : Declaration} {n : Int}

theorem canonical_of_wellFormed (h : d.IsWellFormed)
    (hshort : ∀ n : Int, d.score = .whole n → (Nat.toDigits 10 n.natAbs).length ≤ digitLimit) :
    d.IsCanonical := by
  obtain ⟨n, hn, hpos⟩ := h.score
  obtain ⟨k, rfl⟩ := Int.eq_ofNat_of_zero_le hpos
  exact {
    word := canonicalWord_iff.mpr ⟨h.word_ne, h.word_solid, h.word_head, h.word_low⟩
    score := .inr (hn ▸ isTyped_whole (hshort k hn))
    groups := fun g hg => canonicalGroup_iff.mpr (h.groups_name g hg)
    groups_ne := h.groups_ne
    nodup := h.groups_nodup
    comment := ⟨_, fun _ hf => isField_of_mem hf, h.comment⟩ }

/-- What equals a declaration that a line leaves is well formed. -/
theorem wellFormed_of_same (hn : d.score = .whole n) (he : e.IsCanonical)
    (hsame : d.same e = true) : d.IsWellFormed := by
  rw [same, Bool.and_eq_true, Bool.and_eq_true, Bool.and_eq_true, decide_eq_true_eq,
    decide_eq_true_eq, decide_eq_true_eq, hn] at hsame
  obtain ⟨⟨⟨hword, hscore⟩, hcomment⟩, hgroups⟩ := hsame
  obtain ⟨hne, hsolid, hhead, hlow⟩ := canonicalWord_iff.mp he.word
  obtain ⟨kept, hkept, hjoined⟩ := he.comment
  exact {
    word_ne := hword ▸ hne
    word_solid := hword ▸ hsolid
    word_head := hword ▸ hhead
    word_low := hword ▸ hlow
    score := ⟨n, hn, nonneg_of_typed he.score hscore⟩
    groups_ne := hgroups ▸ he.groups_ne
    groups_nodup := hgroups ▸ he.nodup
    groups_name := fun g hg => canonicalGroup_iff.mp (he.groups g (hgroups ▸ hg))
    comment := by rw [hcomment, hjoined, String.toList_ofList, fields_join_fields hkept] }

/-- The line of a declaration with a whole score says all that it has. -/
theorem read_toLine_whole (h : d.IsCanonical) (hn : d.score = .whole n) :
    read d.toLine = .ok (.declared d) := by
  have hplain : d.score.IsPlain := hn ▸ trivial
  have hscore : (if d.isScored then some d.score else none).getD (.whole 0) = d.score := by
    split
    next => rfl
    next hzero =>
      have hnone : n = 0 := by simpa [isScored, hn, Score.isZero] using hzero
      rw [hn, hnone]
      rfl
  rw [read_toLine h, foldl_clauses h hplain, Outcome.ok_bind, Draft.finish]
  dsimp only
  rw [List.isEmpty_nil, List.isEmpty_eq_false_iff.mpr h.groups_ne, hscore]
  rfl

/-- **A declaration with a whole score has a line exactly if it is well formed**, and then its own
line declares it. -/
theorem has_line_iff (hn : d.score = .whole n)
    (hshort : (Nat.toDigits 10 n.natAbs).length ≤ digitLimit) :
    ((∃ line e, read line = .ok (.declared e) ∧ d.same e = true) ↔ d.IsWellFormed) ∧
      (d.IsWellFormed → read d.toLine = .ok (.declared d)) := by
  have hown (h : d.IsWellFormed) : read d.toLine = .ok (.declared d) := by
    refine read_toLine_whole (canonical_of_wellFormed h fun k hk => ?_) hn
    cases hn.symm.trans hk
    exact hshort
  refine ⟨⟨?_, fun h => ⟨d.toLine, d, hown h, ?_⟩⟩, hown⟩
  · rintro ⟨line, e, hread, hsame⟩
    exact wellFormed_of_same hn (canonical_of_read hread) hsame
  · have hscore : d.score.sameNumber d.score = true := by
      refine Score.sameNumber_self ?_
      rw [hn]
      exact fun h => by cases h
    simp [same, hscore]

/-- The comment begins with the sign of a comment. -/
def handmade : Declaration :=
  { word := "naïve", score := .whole 3, comment := "# see #4", groups := ["LOCAL", "_A1"] }

theorem has_line_handmade :
    handmade.score = .whole 3 ∧ (Nat.toDigits 10 (3 : Int).natAbs).length ≤ digitLimit ∧
      handmade.IsWellFormed ∧ handmade.toLine = "naïve 3 LOCAL _A1 # # see #4" ∧
      read handmade.toLine = .ok (.declared handmade) := by
  have hshort : (Nat.toDigits 10 (3 : Int).natAbs).length ≤ digitLimit := by decide
  obtain ⟨hiff, hown⟩ := has_line_iff (d := handmade) (n := 3) rfl hshort
  have hwell : handmade.IsWellFormed :=
    hiff.mp ⟨"NAÏVE 3.0 LOCAL _a1 # # see #4",
      { handmade with score := .real (.finite false 6755399441055744 1023) },
      by decide +kernel, by decide +kernel⟩
  exact ⟨rfl, hshort, hwell, by decide +kernel, hown hwell⟩

end MailRules.Declaration
