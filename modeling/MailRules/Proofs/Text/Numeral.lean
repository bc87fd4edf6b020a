import Mathlib.Algebra.Order.Ring.Nat
import MailRules.Proofs.Outcome
import MailRules.Text.Numeral

/-! Numerals as text.

A run of digits, of whatever script, has a number (`digitsValue?_isSome`). The basic digits that a
number is written with give it back (`digitsValue?_toDigits`), and what is typed with digits and
points alone is taken as it is, digit by digit (`plainNumeral?_eq`). -/
namespace MailRules.Text

/-! ### Digits -/

theorem digitValue?_lt {c : Char} {v : Nat} (h : digitValue? c = some v) : v < 10 := by
  obtain ⟨z, hz, rfl⟩ := Option.map_eq_some_iff.mp h
  have hin := List.find?_some hz
  rw [Bool.and_eq_true, decide_eq_true_eq, decide_eq_true_eq] at hin
  omega

theorem basic_bounds {c : Char} (h : c.isDigit = true) : 48 ≤ c.toNat ∧ c.toNat ≤ 57 := by
  rw [Char.isDigit, Bool.and_eq_true, decide_eq_true_eq, decide_eq_true_eq] at h
  exact ⟨UInt32.le_iff_toNat_le.mp h.1, UInt32.le_iff_toNat_le.mp h.2⟩

/-- What holds of the ten basic digits, one by one. -/
theorem forall_basic {P : Char → Prop} (h : ∀ v : Fin 10, P (Char.ofNat (48 + v.val))) {c : Char}
    (hc : c.isDigit = true) : P c := by
  obtain ⟨hlow, hhigh⟩ := basic_bounds hc
  have hcode := h ⟨c.toNat - 48, by omega⟩
  have hsame : 48 + (c.toNat - 48) = c.toNat := by omega
  rwa [hsame, Char.ofNat_toNat] at hcode

theorem digitValue?_basic {c : Char} (h : c.isDigit = true) :
    digitValue? c = some (c.toNat - 48) :=
  forall_basic (P := fun c => digitValue? c = some (c.toNat - 48)) (by decide) h

theorem isDigit_basic {c : Char} (h : c.isDigit = true) : isDigit c = true := by
  rw [isDigit, digitValue?_basic h]
  rfl

theorem isDigit_ofNat {v : Nat} (h : v < 10) :
    (Char.ofNat (48 + v)).isDigit = true ∧ (Char.ofNat (48 + v)).toNat = 48 + v := by
  have hall : ∀ v : Fin 10, (Char.ofNat (48 + v.val)).isDigit = true ∧
      (Char.ofNat (48 + v.val)).toNat = 48 + v.val := by
    decide
  exact hall ⟨v, h⟩

/-- Every digit stands for a basic one. -/
theorem plainChar_digit {c : Char} (h : isDigit c = true) :
    (plainChar c).isDigit = true ∧ digitValue? (plainChar c) = digitValue? c := by
  obtain ⟨v, hv⟩ := Option.isSome_iff_exists.mp h
  obtain ⟨hbasic, hcode⟩ := isDigit_ofNat (digitValue?_lt hv)
  have hplain : plainChar c = Char.ofNat (48 + v) := by rw [plainChar, hv]
  rw [hplain, digitValue?_basic hbasic, hcode, hv]
  exact ⟨hbasic, congrArg some (by omega)⟩

theorem plainChar_point : plainChar '.' = '.' := by decide

/-! ### Runs of digits -/

/-- What is at the front of a list, up to something of another kind. -/
theorem span_front {α : Type} {p : α → Bool} {front : List α} (rest : List α)
    (hfront : ∀ x ∈ front, p x = true) (hrest : ∀ x, rest.head? = some x → p x = false) :
    (front ++ rest).takeWhile p = front ∧ (front ++ rest).dropWhile p = rest := by
  have hstop : rest.takeWhile p = [] ∧ rest.dropWhile p = rest := by
    cases rest with
    | nil => exact ⟨rfl, rfl⟩
    | cons x later =>
      have hx := hrest x rfl
      exact ⟨List.takeWhile_cons_of_neg (by simp [hx]), List.dropWhile_cons_of_neg (by simp [hx])⟩
  rw [List.takeWhile_append_of_pos hfront, List.dropWhile_append_of_pos hfront, hstop.1, hstop.2,
    List.append_nil]
  exact ⟨rfl, rfl⟩

theorem span_all {α : Type} {p : α → Bool} {s : List α} (hs : ∀ x ∈ s, p x = true) :
    s.takeWhile p = s ∧ s.dropWhile p = [] := by
  have hspan := span_front [] hs fun x hx => by cases hx
  rwa [List.append_nil] at hspan

/-- All characters are digits, of whatever script. -/
def AllDigits (s : List Char) : Prop := ∀ c ∈ s, isDigit c = true

theorem AllDigits.append {s t : List Char} (hs : AllDigits s) (ht : AllDigits t) :
    AllDigits (s ++ t) := by
  intro c hc
  exact (List.mem_append.mp hc).elim (hs c) (ht c)

theorem digitsValue?_isSome {s : List Char} (h : AllDigits s) : ∃ n, digitsValue? s = some n := by
  have hrun : ∀ (s : List Char) (k : Nat), AllDigits s →
      ∃ n, s.foldlM (fun n c => (digitValue? c).map (n * 10 + ·)) k = some n := by
    intro s
    induction s with
    | nil => exact fun k _ => ⟨k, rfl⟩
    | cons c rest ih =>
      intro k hs
      obtain ⟨v, hv⟩ := Option.isSome_iff_exists.mp (hs c List.mem_cons_self)
      rw [List.foldlM_cons, hv]
      exact ih (k * 10 + v) fun d hd => hs d (List.mem_cons_of_mem c hd)
  exact hrun s 0 h

/-- Digits of another script have the value of the basic ones. -/
theorem digitsValue?_plain {s : List Char} (h : AllDigits s) :
    digitsValue? (s.map plainChar) = digitsValue? s := by
  rw [digitsValue?, List.foldlM_map, digitsValue?]
  generalize 0 = k
  induction s generalizing k with
  | nil => rfl
  | cons c rest ih =>
    rw [List.foldlM_cons, List.foldlM_cons, (plainChar_digit (h c List.mem_cons_self)).2]
    exact congrArg _ (funext fun n => ih (fun d hd => h d (List.mem_cons_of_mem c hd)) n)

theorem digitsValue?_basic {s : List Char} (h : ∀ c ∈ s, c.isDigit = true) :
    digitsValue? s = some (Nat.ofDigitChars 10 s 0) := by
  rw [digitsValue?]
  generalize 0 = k
  induction s generalizing k with
  | nil => rfl
  | cons c rest ih =>
    rw [List.foldlM_cons, digitValue?_basic (h c List.mem_cons_self), Nat.ofDigitChars_cons,
      Nat.mul_comm 10]
    exact ih (fun d hd => h d (List.mem_cons_of_mem c hd)) (k * 10 + (c.toNat - 48))

theorem isDigit_toDigits {n : Nat} {c : Char} (h : c ∈ Nat.toDigits 10 n) : c.isDigit = true :=
  Nat.isDigit_of_mem_toDigits (by decide) (by decide) h

/-- The digits of a number give it back. -/
theorem digitsValue?_toDigits (n : Nat) : digitsValue? (Nat.toDigits 10 n) = some n := by
  rw [digitsValue?_basic fun _ h => isDigit_toDigits h, Nat.ofDigitChars_ten_toDigits]

/-- A number has no more digits than it was typed with. -/
theorem digitsValue?_lt {s : List Char} {n : Nat} (h : digitsValue? s = some n) :
    n < 10 ^ s.length := by
  have hrun : ∀ (s : List Char) (k n : Nat),
      s.foldlM (fun n c => (digitValue? c).map (n * 10 + ·)) k = some n →
        n < (k + 1) * 10 ^ s.length := by
    intro s
    induction s with
    | nil =>
      intro k n hn
      cases hn
      rw [List.length_nil, Nat.pow_zero]
      omega
    | cons c rest ih =>
      intro k n hn
      rw [List.foldlM_cons] at hn
      obtain ⟨j, hj, hn⟩ := Option.bind_eq_some_iff.mp hn
      obtain ⟨v, hv, rfl⟩ := Option.map_eq_some_iff.mp hj
      have hstep : (k * 10 + v + 1) * 10 ^ rest.length ≤ ((k + 1) * 10) * 10 ^ rest.length :=
        Nat.mul_le_mul_right _ (by have := digitValue?_lt hv; omega)
      calc n < (k * 10 + v + 1) * 10 ^ rest.length := ih _ _ hn
        _ ≤ ((k + 1) * 10) * 10 ^ rest.length := hstep
        _ = (k + 1) * 10 ^ (rest.length + 1) := by rw [Nat.mul_assoc, Nat.pow_succ, Nat.mul_comm 10]
  have hn := hrun s 0 n h
  rwa [Nat.zero_add, Nat.one_mul] at hn

/-! ### Typed numbers -/

theorem joinDigits?_eq {s : List Char} (h : '_' ∉ s) : joinDigits? s = some s := by
  induction s with
  | nil => rfl
  | cons c rest ih =>
    rw [List.mem_cons, not_or] at h
    have hrest := ih h.2
    cases rest with
    | nil =>
      rw [joinDigits?]
      · rfl
      · exact fun hc => h.1 hc.symm
      · rintro d later hnil
        cases hnil
    | cons d later =>
      rw [joinDigits?, hrest]
      · rfl
      · exact fun hc => h.1 hc.symm
      · rintro _ _ hlater
        exact h.2 ((List.cons.inj hlater).1 ▸ List.mem_cons_self)

/-- What is typed with digits and points is taken as it is. -/
theorem plainNumeral?_eq {s : List Char} (h : ∀ c ∈ s, isDigit c = true ∨ c = '.') :
    plainNumeral? s = some (s.map plainChar) := by
  have hkept : ∀ c ∈ s.map plainChar, isNumeralBlank c = false ∧ c ≠ '_' := by
    intro c hc
    obtain ⟨d, hd, rfl⟩ := List.mem_map.mp hc
    rcases h d hd with hdigit | rfl
    · exact forall_basic (P := fun c => isNumeralBlank c = false ∧ c ≠ '_') (by decide)
        (plainChar_digit hdigit).1
    · rw [plainChar_point]
      decide
  have hdrop {l : List Char} (hl : ∀ c ∈ l, isNumeralBlank c = false) :
      l.dropWhile isNumeralBlank = l := by
    cases l with
    | nil => rfl
    | cons c rest => rw [List.dropWhile_cons_of_neg (by simp [hl c List.mem_cons_self])]
  rw [plainNumeral?, hdrop fun c hc => (hkept c hc).1,
    hdrop fun c hc => (hkept c (List.mem_reverse.mp hc)).1, List.reverse_reverse]
  exact joinDigits?_eq fun hbar => (hkept '_' hbar).2 rfl

theorem splitSign_digit {c : Char} (rest : List Char) (h : c.isDigit = true) :
    splitSign (c :: rest) = (false, c :: rest) := by
  obtain ⟨hminus, hplus⟩ := forall_basic (P := fun c => c ≠ '-' ∧ c ≠ '+') (by decide) h
  unfold splitSign
  split
  next heq => exact absurd (List.cons.inj heq).1 hminus
  next heq => exact absurd (List.cons.inj heq).1 hplus
  next => rfl

/-- A run of digits is a whole number, unless it is too long. -/
theorem readInt?_digits {s : List Char} (hs : AllDigits s) (hne : s ≠ []) {n : Nat}
    (hn : digitsValue? s = some n) :
    readInt? s = if digitLimit < s.length then none else some (n : Int) := by
  obtain ⟨c, rest, rfl⟩ := List.exists_cons_of_ne_nil hne
  have hbasic := (plainChar_digit (hs c List.mem_cons_self)).1
  rw [readInt?, plainNumeral?_eq fun d hd => .inl (hs d hd), Option.bind_eq_bind, Option.bind_some,
    List.map_cons, splitSign_digit _ hbasic]
  dsimp only
  rw [← List.map_cons, readNat?, digitsValue?_plain hs, hn, List.length_map]
  simp only [List.map_cons, List.isEmpty_cons, Bool.false_or, decide_eq_true_eq]
  split
  · rfl
  · rfl

end MailRules.Text
