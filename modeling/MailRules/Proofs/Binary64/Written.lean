import MailRules.Proofs.Binary64.Decimal
import MailRules.Proofs.Score

/-! Floating point numbers that are written and read back.

Written without an exponent, a number is a numeral that reads back as it (`ofNumeral?_written`);
written with an exponent, or as a name, it is no numeral (`not_isNumeral_exponent`). -/
namespace MailRules.Binary64

open Decimal Text

/-- What the digits stand for, read as one whole number. -/
def natOf (digits : List Char) : Nat := Nat.ofDigitChars 10 digits 0

theorem natOf_append (s t : List Char) : natOf (s ++ t) = natOf s * 10 ^ t.length + natOf t := by
  rw [natOf, Nat.ofDigitChars_append, Nat.ofDigitChars_eq_ofDigitChars_zero, Nat.mul_comm]
  rfl

theorem natOf_zeros (s : List Char) (n : Nat) :
    natOf (s ++ List.replicate n '0') = natOf s * 10 ^ n := by
  rw [natOf_append, List.length_replicate, natOf, natOf, Nat.ofDigitChars_replicate_zero,
    Nat.mul_zero, Nat.add_zero]

/-- The zeros at the end are split off. -/
theorem dropZeros_eq (digits : List Char) :
    (dropZeros digits).1 ++ List.replicate (dropZeros digits).2 '0' = digits := by
  have hsplit := List.takeWhile_append_dropWhile (p := fun c => decide (c = '0'))
    (l := digits.reverse)
  have hzeros : digits.reverse.takeWhile (· = '0') =
      List.replicate (digits.reverse.takeWhile (· = '0')).length '0' := by
    refine List.eq_replicate_of_mem fun c hc => ?_
    exact of_decide_eq_true (List.all_eq_true.mp List.all_takeWhile c hc)
  have hlength := congrArg List.length hsplit
  rw [List.length_append, List.length_reverse] at hlength
  have hdropped : (dropZeros digits).2 = (digits.reverse.takeWhile (· = '0')).length := by
    show digits.length - (digits.reverse.dropWhile (· = '0')).reverse.length = _
    rw [List.length_reverse]
    omega
  rw [hdropped]
  show (digits.reverse.dropWhile (· = '0')).reverse ++ _ = digits
  rw [← List.reverse_inj, List.reverse_append, List.reverse_reverse, List.reverse_replicate,
    ← hzeros, hsplit]

/-! ### Without an exponent -/

/-- Digits around a point. -/
structure Pointed (s whole fraction : List Char) : Prop where
  shape : s = whole ++ '.' :: fraction
  before : ∀ c ∈ whole, c.isDigit = true
  before_ne : whole ≠ []
  after : ∀ c ∈ fraction, c.isDigit = true
  after_ne : fraction ≠ []

/-- The decimal number that digits around a point write. -/
def pointedDecimal (whole fraction : List Char) : Decimal :=
  ⟨natOf (whole ++ fraction), -fraction.length⟩

theorem value_shift (n k : Nat) (exponent : Int) :
    (⟨n * 10 ^ k, exponent⟩ : Decimal).value = (⟨n, k + exponent⟩ : Decimal).value := by
  rw [value, value, zpow_add₀ (by norm_num), zpow_natCast]
  push_cast
  ring

/-- The point that is placed among digits keeps their value. -/
theorem placePoint_pointed {digits : List Char} (hdigits : ∀ c ∈ digits, c.isDigit = true)
    (hne : digits ≠ []) {point : Int} (hpoint : -4 < point ∧ point ≤ 16) :
    ∃ whole fraction, Pointed (placePoint digits point) whole fraction ∧
      (pointedDecimal whole fraction).value =
        (⟨natOf digits, point - digits.length⟩ : Decimal).value := by
  have hzeros (n : Nat) : ∀ c ∈ List.replicate n '0', c.isDigit = true := by
    intro c hc
    rw [List.eq_of_mem_replicate hc]
    decide
  have happend {s t : List Char} (hs : ∀ c ∈ s, c.isDigit = true) (ht : ∀ c ∈ t, c.isDigit = true) :
      ∀ c ∈ s ++ t, c.isDigit = true := fun c hc => (List.mem_append.mp hc).elim (hs c) (ht c)
  unfold placePoint
  rw [if_pos hpoint]
  split
  next hsmall =>
    obtain ⟨k, hk⟩ := Int.eq_ofNat_of_zero_le (show 0 ≤ -point by omega)
    refine ⟨['0'], List.replicate (-point).toNat '0' ++ digits, ⟨rfl, hzeros 1, by decide,
      happend (hzeros _) hdigits, by simp [hne]⟩, ?_⟩
    rw [pointedDecimal, ← List.append_assoc, natOf_append, List.length_append,
      List.length_replicate, hk, Int.toNat_natCast]
    have hzero : natOf (['0'] ++ List.replicate k '0') = 0 := by
      rw [natOf_zeros]
      exact Nat.zero_mul _
    rw [hzero, Nat.zero_mul, Nat.zero_add]
    congr 2
    omega
  next hlarge =>
    obtain ⟨k, rfl⟩ := Int.eq_ofNat_of_zero_le (show 0 ≤ point by omega)
    rw [Int.toNat_natCast]
    split
    next hlong =>
      refine ⟨digits ++ List.replicate (k - digits.length) '0', ['0'],
        ⟨by simp, happend hdigits (hzeros _), by simp [hne], hzeros 1, by decide⟩, ?_⟩
      have hone : ['0'] = List.replicate 1 '0' := rfl
      rw [pointedDecimal, hone, natOf_zeros, natOf_zeros, Nat.mul_assoc, ← Nat.pow_add,
        value_shift, List.length_replicate]
      congr 2
      omega
    next hshort =>
      refine ⟨digits.take k, digits.drop k, ⟨rfl, fun c hc => hdigits c (List.mem_of_mem_take hc),
        ?_, fun c hc => hdigits c (List.mem_of_mem_drop hc), ?_⟩, ?_⟩
      · intro hnil
        have hlength := congrArg List.length hnil
        rw [List.length_take, List.length_nil] at hlength
        omega
      · intro hnil
        have hlength := congrArg List.length hnil
        rw [List.length_drop, List.length_nil] at hlength
        omega
      · rw [pointedDecimal, List.take_append_drop, List.length_drop]
        congr 2
        omega

/-- A number that is written without an exponent reads back. -/
theorem ofNumeral?_pointed {s whole fraction : List Char} (h : Pointed s whole fraction) :
    Score.isNumeral s = true ∧
      Score.ofNumeral? s = some (.real ((pointedDecimal whole fraction).nearest false)) := by
  have hw : AllDigits whole := fun c hc => isDigit_basic (h.before c hc)
  have hf : AllDigits fraction := fun c hc => isDigit_basic (h.after c hc)
  have hvalue : digitsValue? (whole ++ fraction) = some (natOf (whole ++ fraction)) :=
    digitsValue?_basic fun c hc => (List.mem_append.mp hc).elim (h.before c) (h.after c)
  rw [h.shape]
  exact ⟨Score.isNumeral_iff.mpr (.point hw h.before_ne hf h.after_ne),
    Score.ofNumeral?_point hw h.before_ne hf hvalue⟩

/-! ### With an exponent -/

/-- A letter stands in no numeral. -/
theorem not_isNumeral_of_mem {s : List Char} {c : Char} (hc : c ∈ s) (hdigit : isDigit c = false)
    (hpoint : c ≠ '.') : Score.isNumeral s = false := by
  by_contra hnumeral
  rw [Bool.not_eq_false] at hnumeral
  have hno (hmem : isDigit c = true) : False := by
    rw [hdigit] at hmem
    cases hmem
  cases Score.isNumeral_iff.mp hnumeral with
  | whole hw => exact hno (hw c hc)
  | point hw _ hf =>
    rcases List.mem_append.mp hc with hc | hc
    · exact hno (hw c hc)
    · rcases List.mem_cons.mp hc with rfl | hc
      · exact hpoint rfl
      · exact hno (hf c hc)

theorem not_isNumeral_exponent {digits : List Char} {point : Int}
    (hpoint : ¬ (-4 < point ∧ point ≤ 16)) : Score.isNumeral (placePoint digits point) = false := by
  unfold placePoint
  rw [if_neg hpoint]
  exact not_isNumeral_of_mem (c := 'e') (List.mem_append_right _ List.mem_cons_self) (by decide)
    (by decide)

/-- What a number is written with: digits, a point, and the letter and the signs of an exponent. -/
def IsWritten (s : List Char) : Prop :=
  s ≠ [] ∧ ∀ c ∈ s, c.isDigit = true ∨ c ∈ ['.', 'e', '+', '-']

theorem not_blank_of_written {c : Char} (h : c.isDigit = true ∨ c ∈ ['.', 'e', '+', '-']) :
    isBlank c = false ∧ c ≠ '#' := by
  rcases h with hdigit | hsign
  · exact forall_basic (P := fun c => isBlank c = false ∧ c ≠ '#') (by decide) hdigit
  · simp only [List.mem_cons, List.not_mem_nil, or_false] at hsign
    rcases hsign with rfl | rfl | rfl | rfl <;> decide

theorem exponentText_written (k : Int) : IsWritten (exponentText k) := by
  refine ⟨List.cons_ne_nil _ _, fun c hc => ?_⟩
  rcases List.mem_cons.mp hc with rfl | hc
  · refine .inr ?_
    split <;> decide
  · refine .inl ?_
    have hdigit : ∀ c ∈ Nat.toDigits 10 k.natAbs, c.isDigit = true := fun _ => isDigit_toDigits
    split at hc
    next => exact (List.mem_cons.mp hc).elim (fun he => he ▸ by decide) (hdigit c)
    next => exact hdigit c hc

/-- Digits are written with such characters wherever the point stands, even if there are none. -/
theorem placePoint_chars {digits : List Char} (hdigits : ∀ c ∈ digits, c.isDigit = true)
    (point : Int) : ∀ c ∈ placePoint digits point, c.isDigit = true ∨ c ∈ ['.', 'e', '+', '-'] := by
  have hzeros (n : Nat) : ∀ c ∈ List.replicate n '0', c.isDigit = true := fun c hc =>
    List.eq_of_mem_replicate hc ▸ by decide
  intro c hc
  unfold placePoint at hc
  split at hc
  next =>
    split at hc
    next =>
      rcases List.mem_cons.mp hc with rfl | hc
      · exact .inl (by decide)
      · refine (List.mem_cons.mp hc).symm.imp (fun hc => ?_) fun he => by simp [he]
        exact (List.mem_append.mp hc).elim (hzeros _ c) (hdigits c)
    next =>
      split at hc
      next =>
        rcases List.mem_append.mp hc with hc | hc
        · exact .inl ((List.mem_append.mp hc).elim (hdigits c) (hzeros _ c))
        · simp only [List.mem_cons, List.not_mem_nil, or_false] at hc
          rcases hc with rfl | rfl
          · exact .inr (by decide)
          · exact .inl (by decide)
      next =>
        rcases List.mem_append.mp hc with hc | hc
        · exact .inl (hdigits c (List.mem_of_mem_take hc))
        · exact (List.mem_cons.mp hc).symm.imp (fun hc => hdigits c (List.mem_of_mem_drop hc))
            fun he => by simp [he]
  next =>
    rcases List.mem_append.mp hc with hc | hc
    · split at hc
      next => cases hc
      next d => exact .inl (hdigits c hc)
      next first later _ _ =>
        rcases List.mem_cons.mp hc with rfl | hc
        · exact .inl (hdigits _ List.mem_cons_self)
        · exact (List.mem_cons.mp hc).symm.imp
            (fun hc => hdigits c (List.mem_cons_of_mem first hc)) fun he => by simp [he]
    · rcases List.mem_cons.mp hc with rfl | hc
      · exact .inr (by decide)
      · exact (exponentText_written _).2 c hc

theorem placePoint_written {digits : List Char} (hdigits : ∀ c ∈ digits, c.isDigit = true)
    (hne : digits ≠ []) (point : Int) : IsWritten (placePoint digits point) := by
  refine ⟨?_, placePoint_chars hdigits point⟩
  by_cases hpoint : -4 < point ∧ point ≤ 16
  · obtain ⟨whole, fraction, h, -⟩ := placePoint_pointed hdigits hne hpoint
    rw [h.shape]
    simp
  · unfold placePoint
    rw [if_neg hpoint]
    simp

/-! ### The written number -/

/-- The digits of a number and where its point stands. -/
theorem magnitudeText_eq {m : Nat} (e : Nat) (hm : 0 < m) (hdigits : 0 < (shortest m e).digits) :
    ∃ digits : List Char, (∀ c ∈ digits, c.isDigit = true) ∧ digits ≠ [] ∧
      magnitudeText m e = placePoint digits (shortest m e).size ∧
      (⟨natOf digits, (shortest m e).size - digits.length⟩ : Decimal).value =
        (shortest m e).value := by
  generalize hd : shortest m e = d at *
  have hsplit := dropZeros_eq (Nat.toDigits 10 d.digits)
  have hvalue : natOf (Nat.toDigits 10 d.digits) = d.digits := Nat.ofDigitChars_ten_toDigits
  have hlength := congrArg List.length hsplit
  rw [List.length_append, List.length_replicate] at hlength
  have htext : magnitudeText m e = placePoint (dropZeros (Nat.toDigits 10 d.digits)).1
      ((dropZeros (Nat.toDigits 10 d.digits)).1.length +
        (dropZeros (Nat.toDigits 10 d.digits)).2 + d.exponent) := by
    rw [magnitudeText, if_neg (by omega), hd]
  generalize hkept : (dropZeros (Nat.toDigits 10 d.digits)).1 = kept at *
  generalize (dropZeros (Nat.toDigits 10 d.digits)).2 = dropped at *
  have hdigit : d.digits = natOf kept * 10 ^ dropped := by
    rw [← natOf_zeros, hsplit, hvalue]
  have hsize : d.size = kept.length + dropped + d.exponent := by
    rw [size, ← hlength]
    push_cast
    ring
  refine ⟨kept, fun c hc => ?_, ?_, ?_, ?_⟩
  · exact isDigit_toDigits (hsplit ▸ List.mem_append_left _ hc)
  · rintro rfl
    have hzero : natOf [] = 0 := rfl
    rw [hzero, Nat.zero_mul] at hdigit
    omega
  · rw [htext, hsize]
  · have hexponent : d.size - kept.length = dropped + d.exponent := by omega
    rw [hexponent, ← value_shift, ← hdigit]

/-- Whatever the number, its text has no other characters. -/
theorem magnitudeText_chars (m e : Nat) :
    ∀ c ∈ magnitudeText m e, c.isDigit = true ∨ c ∈ ['.', 'e', '+', '-'] := by
  rw [magnitudeText]
  split
  next =>
    intro c hc
    simp only [List.mem_cons, List.not_mem_nil, or_false] at hc
    rcases hc with rfl | rfl | rfl
    · exact .inl (by decide)
    · exact .inr (by decide)
    · exact .inl (by decide)
  next =>
    have hsplit := dropZeros_eq (Nat.toDigits 10 (shortest m e).digits)
    exact placePoint_chars (fun c hc => isDigit_toDigits (hsplit ▸ List.mem_append_left _ hc)) _

theorem magnitudeText_written {m e : Nat} (h : Normal m e) (hm : 0 < m) :
    IsWritten (magnitudeText m e) := by
  obtain ⟨digits, hdigits, hne, htext, -⟩ := magnitudeText_eq e hm (shortest_positional h hm).1
  rw [htext]
  exact placePoint_written hdigits hne _

/-- A positive number is written as a numeral that reads back as it, if it is neither too small
nor too large for that, and as no numeral otherwise. -/
theorem ofNumeral?_written {m e : Nat} (h : Normal m e) (hm : 0 < m) :
    (IsPositional m e → Score.isNumeral (magnitudeText m e) = true ∧
        Score.ofNumeral? (magnitudeText m e) = some (.real (.finite false m e))) ∧
      (¬ IsPositional m e → Score.isNumeral (magnitudeText m e) = false) := by
  obtain ⟨hpos, hpositional, hreads⟩ := shortest_positional h hm
  obtain ⟨digits, hdigits, hne, htext, hvalue⟩ := magnitudeText_eq e hm hpos
  rw [htext]
  constructor
  · intro hplain
    obtain ⟨whole, fraction, hpointed, hsame⟩ :=
      placePoint_pointed hdigits hne (hpositional.mpr hplain)
    obtain ⟨hnumeral, hscore⟩ := ofNumeral?_pointed hpointed
    refine ⟨hnumeral, ?_⟩
    rw [hscore, nearest_congr false (hsame.trans hvalue), hreads hplain]
  · exact fun hplain => not_isNumeral_exponent fun hpoint => hplain (hpositional.mp hpoint)

end MailRules.Binary64
