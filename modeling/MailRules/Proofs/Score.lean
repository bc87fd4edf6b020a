import MailRules.Proofs.Text.Numeral
import MailRules.Score

/-! Scores as they are typed.

A numeral is a run of digits, or two with a point between them (`isNumeral_iff`). One with a point
always has a value (`ofNumeral?_point`), one without a point unless it is too long
(`ofNumeral?_whole`). -/
namespace MailRules

open Text

namespace Score

/-- What a score is typed as. -/
inductive Numeral : List Char → Prop
  | whole {digits : List Char} : AllDigits digits → digits ≠ [] → Numeral digits
  | point {whole fraction : List Char} : AllDigits whole → whole ≠ [] → AllDigits fraction →
      fraction ≠ [] → Numeral (whole ++ '.' :: fraction)

theorem not_isDigit_point : isDigit '.' = false := by decide

theorem isNumeral_iff {s : List Char} : isNumeral s = true ↔ Numeral s := by
  rw [isNumeral, Bool.and_eq_true, Bool.not_eq_true', List.isEmpty_eq_false_iff]
  constructor
  · rintro ⟨hne, hrest⟩
    have hw : AllDigits (s.takeWhile isDigit) := List.all_eq_true.mp List.all_takeWhile
    have hsplit := List.takeWhile_append_dropWhile (p := isDigit) (l := s)
    split at hrest
    next hnil =>
      rw [hnil, List.append_nil] at hsplit
      rw [← hsplit]
      exact .whole hw hne
    next fraction hpoint =>
      rw [Bool.and_eq_true, Bool.not_eq_true', List.isEmpty_eq_false_iff, List.all_eq_true] at hrest
      rw [hpoint] at hsplit
      rw [← hsplit]
      exact .point hw hne hrest.2 hrest.1
    next => cases hrest
  · rintro (⟨hw, hne⟩ | @⟨whole, fraction, hw, hne, hf, hfne⟩)
    · obtain ⟨htake, hdrop⟩ := span_all hw
      rw [htake, hdrop]
      exact ⟨hne, rfl⟩
    · obtain ⟨htake, hdrop⟩ := span_front ('.' :: fraction) hw
        fun c hc => Option.some.inj hc ▸ not_isDigit_point
      rw [htake, hdrop]
      refine ⟨hne, ?_⟩
      show (!fraction.isEmpty && fraction.all isDigit) = true
      rw [Bool.and_eq_true, Bool.not_eq_true', List.isEmpty_eq_false_iff, List.all_eq_true]
      exact ⟨hfne, hf⟩

theorem ofNumeral?_whole {s : List Char} (hs : AllDigits s) (hne : s ≠ []) {n : Nat}
    (hn : digitsValue? s = some n) :
    ofNumeral? s = if digitLimit < s.length then none else some (.whole n) := by
  have hpoint : s.contains '.' = false := by
    rw [Bool.eq_false_iff]
    intro hpoint
    have hdigit := hs '.' (List.contains_iff_mem.mp hpoint)
    rw [not_isDigit_point] at hdigit
    cases hdigit
  rw [ofNumeral?, hpoint, if_neg Bool.false_ne_true, readInt?_digits hs hne hn]
  split <;> rfl

/-! ### Numerals with a point -/

/-- Basic digits around a point. -/
theorem readDecimal?_point {whole fraction : List Char} (hw : ∀ c ∈ whole, c.isDigit = true)
    (hne : whole ≠ []) (hf : ∀ c ∈ fraction, c.isDigit = true) {n : Nat}
    (hn : digitsValue? (whole ++ fraction) = some n) :
    Binary64.readDecimal? (whole ++ '.' :: fraction) = some ⟨n, -fraction.length⟩ := by
  obtain ⟨htake, hdrop⟩ := span_front (p := Char.isDigit) ('.' :: fraction) hw
    fun c hc => Option.some.inj hc ▸ by decide
  obtain ⟨hall, hend⟩ := span_all (p := Char.isDigit) hf
  have hsome : (whole.isEmpty && fraction.isEmpty) = false := by
    rw [List.isEmpty_eq_false_iff.mpr hne]
    rfl
  rw [Binary64.readDecimal?, htake, hdrop]
  simp only [hall, hend, hsome, Bool.false_eq_true, if_false, hn, Binary64.readExponent?]
  exact congrArg some (congrArg (Binary64.Decimal.mk n) (by omega))

/-- What begins with a digit is no name. -/
theorem read?_digit {s : List Char} {c : Char} {rest : List Char}
    (hplain : plainNumeral? s = some (c :: rest)) (hc : c.isDigit = true) :
    Binary64.read? s =
      (Binary64.readDecimal? (c :: rest)).map (Binary64.Decimal.nearest false) := by
  have hname {name : String} (hname : name ∈ ["inf", "infinity", "nan"]) :
      String.ofList ((c :: rest).map Char.toLower) ≠ name := by
    rintro rfl
    have hlower : c.toLower.isDigit = true :=
      forall_basic (P := fun c => c.toLower.isDigit = true) (by decide) hc
    have hfirst : ∀ name ∈ ["inf", "infinity", "nan"],
        (name.toList.head?.map Char.isDigit).getD false = false := by
      decide
    have hhead := hfirst _ hname
    rw [String.toList_ofList, List.map_cons, List.head?_cons] at hhead
    exact Bool.false_ne_true (hhead.symm.trans hlower)
  rw [Binary64.read?, hplain]
  simp only [Option.bind_eq_bind, Option.bind_some, splitSign_digit _ hc]
  rw [if_neg (not_or_intro (hname (by simp)) (hname (by simp))), if_neg (hname (by simp)),
    Option.map_eq_bind]
  rfl

/-- A numeral with a point is the nearest floating point number. -/
theorem ofNumeral?_point {whole fraction : List Char} (hw : AllDigits whole) (hne : whole ≠ [])
    (hf : AllDigits fraction) {n : Nat} (hn : digitsValue? (whole ++ fraction) = some n) :
    ofNumeral? (whole ++ '.' :: fraction) =
      some (.real (Binary64.Decimal.nearest false ⟨n, -fraction.length⟩)) := by
  have hpoint : (whole ++ '.' :: fraction).contains '.' = true :=
    List.contains_iff_mem.mpr (List.mem_append_right _ List.mem_cons_self)
  have hplain : plainNumeral? (whole ++ '.' :: fraction) =
      some (whole.map plainChar ++ '.' :: fraction.map plainChar) := by
    rw [plainNumeral?_eq, List.map_append, List.map_cons, plainChar_point]
    intro c hc
    rcases List.mem_append.mp hc with hc | hc
    · exact .inl (hw c hc)
    · exact (List.mem_cons.mp hc).elim .inr fun hc => .inl (hf c hc)
  have hbasic {s : List Char} (hs : AllDigits s) : ∀ c ∈ s.map plainChar, c.isDigit = true := by
    intro c hc
    obtain ⟨d, hd, rfl⟩ := List.mem_map.mp hc
    exact (plainChar_digit (hs d hd)).1
  have hvalue : digitsValue? (whole.map plainChar ++ fraction.map plainChar) = some n := by
    rw [← List.map_append, digitsValue?_plain (hw.append hf), hn]
  have hdecimal := readDecimal?_point (hbasic hw) (by simpa using hne) (hbasic hf) hvalue
  obtain ⟨c, rest, rfl⟩ := List.exists_cons_of_ne_nil hne
  have hfirst := hbasic hw (plainChar c) List.mem_cons_self
  rw [List.map_cons, List.cons_append] at hdecimal
  rw [List.map_cons, @List.cons_append _ (plainChar c) (rest.map plainChar)] at hplain
  rw [ofNumeral?, hpoint, if_pos rfl, read?_digit hplain hfirst, hdecimal, List.length_map]
  rfl

/-- A numeral without a value has too many digits. -/
theorem length_of_ofNumeral?_none {s : List Char} (hs : isNumeral s = true)
    (h : ofNumeral? s = none) : digitLimit < s.length := by
  rcases isNumeral_iff.mp hs with ⟨hw, hne⟩ | ⟨hw, hne, hf, -⟩
  · obtain ⟨n, hn⟩ := digitsValue?_isSome hw
    rw [ofNumeral?_whole hw hne hn] at h
    split at h
    next hlong => exact hlong
    next => cases h
  · obtain ⟨n, hn⟩ := digitsValue?_isSome (hw.append hf)
    rw [ofNumeral?_point hw hne hf hn] at h
    cases h

end Score

end MailRules
