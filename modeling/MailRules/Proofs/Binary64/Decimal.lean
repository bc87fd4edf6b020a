import Mathlib.Algebra.Order.Field.Power
import Mathlib.Data.Rat.Cast.Order
import Mathlib.Tactic.FieldSimp
import Mathlib.Tactic.Linarith
import Mathlib.Tactic.Positivity
import MailRules.Binary64.Decimal
import MailRules.Proofs.Binary64.Rounding

/-! Decimal numbers near floating point ones.

The floating point number nearest to a decimal one depends on its value alone (`nearest_congr`).
The decimal number that a floating point number is written with lies between the powers of ten
around it, and reads back as it or equals it (`shortest_near`). So its point stands where it is
written without an exponent exactly if the number itself is neither too small nor too large for
that (`shortest_positional`). -/
namespace MailRules.Binary64

namespace Decimal

/-- The value of a decimal number. -/
def value (d : Decimal) : ℚ := d.digits * (10 : ℚ) ^ d.exponent

/-- Where the point stands, counted from the first digit. -/
def size (d : Decimal) : Int := (Nat.toDigits 10 d.digits).length + d.exponent

theorem ten_pow_pos (k : Int) : (0 : ℚ) < 10 ^ k := zpow_pos (by norm_num) k

theorem toDigits_bounds {n : Nat} (hn : 0 < n) :
    10 ^ ((Nat.toDigits 10 n).length - 1) ≤ n ∧ n < 10 ^ (Nat.toDigits 10 n).length := by
  have hpos : 0 < (Nat.toDigits 10 n).length := Nat.length_toDigits_pos
  constructor
  · rcases Nat.eq_or_lt_of_le (Nat.succ_le_of_lt hpos) with hone | hmore
    · rw [← hone]
      exact hn
    · by_contra hlt
      have hle := (Nat.length_toDigits_le_iff (by decide) (by omega)).mpr (Nat.lt_of_not_le hlt)
      omega
  · exact (Nat.length_toDigits_le_iff (by decide) hpos).mp (Nat.le_refl _)

theorem size_bounds {d : Decimal} (h : 0 < d.digits) :
    (10 : ℚ) ^ (d.size - 1) ≤ d.value ∧ d.value < 10 ^ d.size := by
  obtain ⟨hlow, hhigh⟩ := toDigits_bounds h
  have hpos : 0 < (Nat.toDigits 10 d.digits).length := Nat.length_toDigits_pos
  have hten : (10 : ℚ) ≠ 0 := by norm_num
  rw [value, size]
  constructor
  · rw [show ((Nat.toDigits 10 d.digits).length : Int) + d.exponent - 1 =
      (((Nat.toDigits 10 d.digits).length - 1 : Nat) : Int) + d.exponent by omega,
      zpow_add₀ hten, zpow_natCast]
    exact mul_le_mul_of_nonneg_right (by exact_mod_cast hlow) (ten_pow_pos _).le
  · rw [zpow_add₀ hten, zpow_natCast]
    exact mul_lt_mul_of_pos_right (by exact_mod_cast hhigh) (ten_pow_pos _)

/-- Two powers of ten around one number. -/
theorem power_unique {x : ℚ} {s t : Int} (hs : (10 : ℚ) ^ (s - 1) ≤ x ∧ x < 10 ^ s)
    (ht : (10 : ℚ) ^ (t - 1) ≤ x ∧ x < 10 ^ t) : s = t := by
  have hst := (zpow_lt_zpow_iff_right₀ (by norm_num)).mp (hs.1.trans_lt ht.2)
  have hts := (zpow_lt_zpow_iff_right₀ (by norm_num)).mp (ht.1.trans_lt hs.2)
  omega

theorem ratio_value (d : Decimal) :
    0 < d.ratio.2 ∧ (d.ratio.1 : ℚ) = d.value * d.ratio.2 := by
  have hten : (10 : ℚ) ≠ 0 := by norm_num
  rw [ratio, value]
  split
  next hpos =>
    refine ⟨Nat.one_pos, ?_⟩
    obtain ⟨k, hk⟩ := Int.eq_ofNat_of_zero_le hpos
    rw [hk]
    push_cast [Nat.pow_eq]
    simp
  next hneg =>
    obtain ⟨k, hk⟩ := Int.eq_ofNat_of_zero_le (show 0 ≤ -d.exponent by omega)
    have hexponent : d.exponent = -(k : Int) := by omega
    refine ⟨Nat.pow_pos (by decide), ?_⟩
    rw [hk, hexponent]
    push_cast [Nat.pow_eq]
    simp only [Int.toNat_natCast, zpow_neg, zpow_natCast]
    field_simp

/-- The nearest floating point number depends on the value alone. -/
theorem nearest_congr (s : Bool) {d d' : Decimal} (h : d.value = d'.value) :
    d.nearest s = d'.nearest s := by
  have hzero (d : Decimal) : d.digits = 0 ↔ d.value = 0 := by
    rw [value, mul_eq_zero, Nat.cast_eq_zero]
    exact (or_iff_left (ten_pow_pos _).ne').symm
  have hsame : d.digits = 0 ↔ d'.digits = 0 := by rw [hzero d, hzero d', h]
  by_cases hnone : d.digits = 0
  · rw [nearest, nearest]
    rw [if_pos (.inl hnone), if_pos (.inl (hsame.mp hnone))]
  · have hnone' : d'.digits ≠ 0 := fun h' => hnone (hsame.mpr h')
    have hsize : d.size = d'.size := by
      refine power_unique (size_bounds (Nat.pos_of_ne_zero hnone)) ?_
      rw [h]
      exact size_bounds (Nat.pos_of_ne_zero hnone')
    have hratio : ofRatio s d.ratio.1 d.ratio.2 = ofRatio s d'.ratio.1 d'.ratio.2 := by
      obtain ⟨hpos, hvalue⟩ := ratio_value d
      obtain ⟨hpos', hvalue'⟩ := ratio_value d'
      refine ofUnits_congr s hpos hpos' ?_
      have hcross : (d.ratio.1 : ℚ) * d'.ratio.2 = d'.ratio.1 * d.ratio.2 := by
        rw [hvalue, hvalue', h]
        ring
      have hcross' : d.ratio.1 * d'.ratio.2 = d'.ratio.1 * d.ratio.2 := by exact_mod_cast hcross
      calc d.ratio.1 * one * d'.ratio.2 = d.ratio.1 * d'.ratio.2 * one := by ring
        _ = d'.ratio.1 * one * d.ratio.2 := by
          rw [hcross']
          ring
    have hsize' : ((Nat.toDigits 10 d.digits).length : Int) + d.exponent =
        (Nat.toDigits 10 d'.digits).length + d'.exponent := hsize
    rw [nearest, nearest]
    rw [hsize', hratio]
    simp only [hnone, hnone', false_or]

end Decimal

open Decimal

/-! ### Powers of ten around a number -/

/-- A finite number without its sign. -/
def absolute (m e : Nat) : ℚ := (units m e : ℚ) / one

theorem one_pos : 0 < one := by decide +kernel

theorem cast_one_pos : (0 : ℚ) < one := Nat.cast_pos.mpr one_pos

/-- A quotient of natural numbers against a power of ten, with natural numbers alone. -/
theorem lt_ten_pow_iff (n : Nat) {d : Nat} (hd : 0 < d) (k : Int) :
    (if 0 ≤ k then decide (n < d * Nat.pow 10 k.toNat)
      else decide (n * Nat.pow 10 (-k).toNat < d)) = true ↔ (n : ℚ) / d < 10 ^ k := by
  have hd' : (0 : ℚ) < d := by exact_mod_cast hd
  rw [div_lt_iff₀ hd']
  split
  next hpos =>
    obtain ⟨j, rfl⟩ := Int.eq_ofNat_of_zero_le hpos
    rw [decide_eq_true_eq, Int.toNat_natCast, zpow_natCast, Nat.pow_eq, mul_comm d]
    exact_mod_cast Iff.rfl
  next hneg =>
    obtain ⟨j, hj⟩ := Int.eq_ofNat_of_zero_le (show 0 ≤ -k by omega)
    have hk : k = -(j : Int) := by omega
    have hpow : (0 : ℚ) < 10 ^ j := by positivity
    rw [decide_eq_true_eq, hj, Int.toNat_natCast, hk, zpow_neg, zpow_natCast, Nat.pow_eq,
      inv_mul_eq_div, lt_div_iff₀ hpow]
    exact_mod_cast Iff.rfl

theorem magnitude_bounds {n d : Nat} (hn : 0 < n) (hd : 0 < d) :
    (10 : ℚ) ^ (magnitude n d - 1) ≤ (n : ℚ) / d ∧ (n : ℚ) / d < 10 ^ magnitude n d := by
  have hten : (10 : ℚ) ≠ 0 := by norm_num
  have hd' : (0 : ℚ) < d := by exact_mod_cast hd
  obtain ⟨hnlow, hnhigh⟩ := toDigits_bounds hn
  obtain ⟨hdlow, hdhigh⟩ := toDigits_bounds hd
  have hnpos : 0 < (Nat.toDigits 10 n).length := Nat.length_toDigits_pos
  have hdpos : 0 < (Nat.toDigits 10 d).length := Nat.length_toDigits_pos
  unfold magnitude
  dsimp only
  simp only [lt_ten_pow_iff n hd]
  generalize (Nat.toDigits 10 n).length = ln at *
  generalize (Nat.toDigits 10 d).length = ld at *
  have hlow : (10 : ℚ) ^ ((ln : Int) - ld - 1) ≤ (n : ℚ) / d := by
    rw [le_div_iff₀ hd']
    calc (10 : ℚ) ^ ((ln : Int) - ld - 1) * d ≤ 10 ^ ((ln : Int) - ld - 1) * 10 ^ ld :=
          mul_le_mul_of_nonneg_left (by exact_mod_cast hdhigh.le) (ten_pow_pos _).le
      _ = 10 ^ (ln - 1) := by
          rw [← zpow_natCast, ← zpow_natCast, ← zpow_add₀ hten]
          congr 1
          omega
      _ ≤ n := by exact_mod_cast hnlow
  have hhigh : (n : ℚ) / d < 10 ^ ((ln : Int) - ld + 1) := by
    rw [div_lt_iff₀ hd']
    calc (n : ℚ) < 10 ^ ln := by exact_mod_cast hnhigh
      _ = 10 ^ ((ln : Int) - ld + 1) * 10 ^ (ld - 1) := by
          rw [← zpow_natCast, ← zpow_natCast, ← zpow_add₀ hten]
          congr 1
          omega
      _ ≤ 10 ^ ((ln : Int) - ld + 1) * d :=
          mul_le_mul_of_nonneg_left (by exact_mod_cast hdlow) (ten_pow_pos _).le
  split
  next hbelow => exact ⟨hlow, hbelow⟩
  next habove =>
    refine ⟨?_, hhigh⟩
    rw [add_sub_cancel_right]
    exact not_lt.mp habove

/-- A number as a quotient counted in the power `exponent` of ten. -/
def scaled (m e : Nat) (exponent : Int) : Nat × Nat :=
  if 0 ≤ exponent then (units m e, one * Nat.pow 10 exponent.toNat)
  else (units m e * Nat.pow 10 (-exponent).toNat, one)

theorem scaled_value (m e : Nat) (exponent : Int) :
    0 < (scaled m e exponent).2 ∧
      ((scaled m e exponent).1 : ℚ) / (scaled m e exponent).2 = absolute m e / 10 ^ exponent := by
  have hone := cast_one_pos
  rw [scaled, absolute]
  split
  next hpos =>
    obtain ⟨j, rfl⟩ := Int.eq_ofNat_of_zero_le hpos
    dsimp only
    refine ⟨Nat.mul_pos one_pos (Nat.pow_pos (by decide)), ?_⟩
    push_cast [Int.toNat_natCast, Nat.pow_eq, zpow_natCast]
    field_simp
  next hneg =>
    obtain ⟨j, hj⟩ := Int.eq_ofNat_of_zero_le (show 0 ≤ -exponent by omega)
    have hexponent : exponent = -(j : Int) := by omega
    dsimp only
    refine ⟨one_pos, ?_⟩
    rw [hj, hexponent]
    push_cast [Int.toNat_natCast, Nat.pow_eq, zpow_neg, zpow_natCast]
    field_simp

theorem neighbours_eq (m e : Nat) (exponent : Int) :
    neighbours m e exponent =
      let r := scaled m e exponent
      let near := roundDiv r.1 r.2
      [⟨near, exponent⟩, ⟨if near = r.1 / r.2 then near + 1 else near - 1, exponent⟩] := by
  by_cases hpos : 0 ≤ exponent
  · simp only [neighbours, scaled, if_pos hpos]
  · simp only [neighbours, scaled, if_neg hpos]

theorem mem_neighbours {m e : Nat} {exponent : Int} {d : Decimal}
    (hd : d ∈ neighbours m e exponent) :
    d.exponent = exponent ∧ ((d.digits = (scaled m e exponent).1 / (scaled m e exponent).2) ∨
      d.digits = (scaled m e exponent).1 / (scaled m e exponent).2 + 1) := by
  rw [neighbours_eq] at hd
  generalize scaled m e exponent = r at *
  have hround := roundDiv_cases r.1 r.2
  simp only [List.mem_cons, List.not_mem_nil, or_false] at hd
  rcases hd with rfl | rfl
  · exact ⟨rfl, hround⟩
  · refine ⟨rfl, ?_⟩
    dsimp only
    split <;> omega

/-- The neighbours of a number stay between the powers of ten around it. -/
theorem neighbours_bounds {m e k : Nat} {top : Int}
    (htop : (10 : ℚ) ^ (top - 1) ≤ absolute m e ∧ absolute m e < 10 ^ top) {d : Decimal}
    (hd : d ∈ neighbours m e (top - (k + 1 : Nat))) :
    0 < d.digits ∧ (10 : ℚ) ^ (top - 1) ≤ d.value ∧ d.value ≤ 10 ^ top := by
  have hten : (10 : ℚ) ≠ 0 := by norm_num
  obtain ⟨hexponent, hdigits⟩ := mem_neighbours hd
  obtain ⟨hpos, hscaled⟩ := scaled_value m e (top - (k + 1 : Nat))
  generalize scaled m e (top - (k + 1 : Nat)) = r at hdigits hpos hscaled
  have hpos' : (0 : ℚ) < r.2 := by exact_mod_cast hpos
  have hpow := ten_pow_pos (top - (k + 1 : Nat))
  have hlow : (10 : ℚ) ^ (top - 1) = 10 ^ k * 10 ^ (top - (k + 1 : Nat)) := by
    rw [← zpow_natCast, ← zpow_add₀ hten]
    congr 1
    omega
  have hhigh : (10 : ℚ) ^ top = 10 ^ (k + 1) * 10 ^ (top - (k + 1 : Nat)) := by
    rw [← zpow_natCast, ← zpow_add₀ hten]
    congr 1
    omega
  have hfloor : 10 ^ k ≤ r.1 / r.2 ∧ r.1 / r.2 < 10 ^ (k + 1) := by
    rw [Nat.le_div_iff_mul_le hpos, Nat.div_lt_iff_lt_mul hpos]
    rw [hlow, hhigh, ← le_div_iff₀ hpow, ← div_lt_iff₀ hpow, ← hscaled, le_div_iff₀ hpos',
      div_lt_iff₀ hpos'] at htop
    exact_mod_cast htop
  have hten_k : 0 < 10 ^ k := Nat.pow_pos (by decide)
  have hbetween : 10 ^ k ≤ d.digits ∧ d.digits ≤ 10 ^ (k + 1) := by omega
  refine ⟨by omega, ?_, ?_⟩
  · rw [hlow, value, hexponent]
    exact mul_le_mul_of_nonneg_right (by exact_mod_cast hbetween.1) hpow.le
  · rw [hhigh, value, hexponent]
    exact mul_le_mul_of_nonneg_right (by exact_mod_cast hbetween.2) hpow.le

/-! ### The written number -/

theorem dyadic_value (u k : Nat) :
    (⟨u * Nat.pow 5 k, -(k : Int)⟩ : Decimal).value = (u : ℚ) / (Nat.pow 2 k : Nat) := by
  rw [value]
  push_cast [Nat.pow_eq]
  rw [zpow_neg, zpow_natCast, show (10 : ℚ) = 2 * 5 by norm_num, mul_pow]
  field_simp

theorem exactDecimal_value (m e : Nat) : (exactDecimal m e).value = absolute m e := by
  rw [exactDecimal, absolute, one]
  exact dyadic_value (units m e) 1074

theorem exactDecimal_pos {m e : Nat} (h : 0 < units m e) : 0 < (exactDecimal m e).digits :=
  Nat.mul_pos h (by decide +kernel)

/-- The written number lies between the powers of ten around a number and reads back as it, or it
equals the number. -/
theorem shortest_near {m e : Nat} {top : Int} (hpos : 0 < units m e)
    (htop : (10 : ℚ) ^ (top - 1) ≤ absolute m e ∧ absolute m e < 10 ^ top) :
    0 < (shortest m e).digits ∧
      ((10 : ℚ) ^ (top - 1) ≤ (shortest m e).value ∧ (shortest m e).value ≤ 10 ^ top ∧
          (shortest m e).nearest false = .finite false m e ∨
        (shortest m e).value = absolute m e) := by
  have hmagnitude : magnitude (units m e) one = top :=
    power_unique (magnitude_bounds hpos one_pos) htop
  unfold shortest
  dsimp only
  rw [hmagnitude]
  cases hfind : ((List.range 17).flatMap fun k => neighbours m e (top - (k + 1 : Nat))).find?
      fun d => d.nearest false = .finite false m e with
  | some d =>
    have hreads := List.find?_some
      (p := fun d : Decimal => decide (d.nearest false = .finite false m e)) hfind
    obtain ⟨k, -, hd⟩ := List.mem_flatMap.mp (List.mem_of_find?_eq_some hfind)
    obtain ⟨hdigits, hlow, hhigh⟩ := neighbours_bounds htop hd
    exact ⟨hdigits, .inl ⟨hlow, hhigh, of_decide_eq_true hreads⟩⟩
  | none => exact ⟨exactDecimal_pos hpos, .inr (exactDecimal_value m e)⟩

/-- A decimal number that equals a normal one reads back as it. -/
theorem nearest_exact {m e : Nat} (h : Normal m e) {d : Decimal} (hdigits : 0 < d.digits)
    (hvalue : d.value = absolute m e) (hsize : -400 ≤ d.size ∧ d.size ≤ 400) :
    d.nearest false = .finite false m e := by
  obtain ⟨hpos, hratio⟩ := ratio_value d
  have hcross : d.ratio.1 * one * 1 = units m e * 1 * d.ratio.2 := by
    have hcast : (d.ratio.1 : ℚ) * one = units m e * d.ratio.2 := by
      rw [hratio, hvalue, absolute]
      have hone := cast_one_pos
      field_simp
    rw [Nat.mul_one, Nat.mul_one]
    exact_mod_cast hcast
  have hround : ofRatio false d.ratio.1 d.ratio.2 = .finite false m e :=
    (ofUnits_congr false hpos Nat.one_pos hcross).trans (ofUnits_exact false h Nat.one_pos)
  have hlow : ¬ (d.digits = 0 ∨ d.size < -400) := by omega
  have hhigh : ¬ 400 < d.size := by omega
  rw [size] at hlow hhigh
  rw [nearest, if_neg hlow, if_neg hhigh, hround]

/-- Neither too small nor too large to be written without an exponent. -/
def IsPositional (m e : Nat) : Prop :=
  one ≤ units m e * 10 ^ 4 ∧ units m e < 10 ^ 16 * one

theorem isPositional_iff {m e : Nat} {top : Int}
    (htop : (10 : ℚ) ^ (top - 1) ≤ absolute m e ∧ absolute m e < 10 ^ top) :
    IsPositional m e ↔ -4 < top ∧ top ≤ 16 := by
  have hone := cast_one_pos
  have hten : (1 : ℚ) < 10 := by norm_num
  have hlow : one ≤ units m e * 10 ^ 4 ↔ (10 : ℚ) ^ (-4 : Int) ≤ absolute m e := by
    rw [absolute, le_div_iff₀ hone, zpow_neg, inv_mul_le_iff₀ (ten_pow_pos 4), mul_comm]
    exact_mod_cast Iff.rfl
  have hhigh : units m e < 10 ^ 16 * one ↔ absolute m e < (10 : ℚ) ^ (16 : Int) := by
    rw [absolute, div_lt_iff₀ hone]
    exact_mod_cast Iff.rfl
  rw [IsPositional, hlow, hhigh]
  constructor
  · rintro ⟨hfour, hsixteen⟩
    have hfour' := (zpow_lt_zpow_iff_right₀ hten).mp (hfour.trans_lt htop.2)
    have hsixteen' := (zpow_lt_zpow_iff_right₀ hten).mp (htop.1.trans_lt hsixteen)
    omega
  · rintro ⟨hfour, hsixteen⟩
    exact ⟨(zpow_le_zpow_right₀ hten.le (by omega)).trans htop.1,
      htop.2.trans_le (zpow_le_zpow_right₀ hten.le hsixteen)⟩

/-- At the two limits of the positional notation the power of ten itself reads back as a number
that is not below it. -/
theorem limits_not_below {m e : Nat} {top : Int} (hlimit : top = 16 ∨ top = -4) {d : Decimal}
    (hvalue : d.value = 10 ^ top) (hreads : d.nearest false = .finite false m e) :
    (10 : ℚ) ^ top ≤ absolute m e := by
  have hone := cast_one_pos
  have hpower : d.value = (⟨1, top⟩ : Decimal).value := by
    rw [hvalue, value, Nat.cast_one, one_mul]
  rw [nearest_congr false hpower] at hreads
  rw [absolute, le_div_iff₀ hone]
  rcases hlimit with rfl | rfl
  · have hnearest : (⟨1, 16⟩ : Decimal).nearest false = .finite false 5000000000000000 1075 := by
      decide +kernel
    rw [hnearest] at hreads
    obtain ⟨-, rfl, rfl⟩ := Binary64.finite.inj hreads
    have hunits : 10 ^ 16 * one ≤ units 5000000000000000 1075 := by decide +kernel
    exact_mod_cast hunits
  · have hnearest : (⟨1, -4⟩ : Decimal).nearest false = .finite false 7378697629483821 1008 := by
      decide +kernel
    rw [hnearest] at hreads
    obtain ⟨-, rfl, rfl⟩ := Binary64.finite.inj hreads
    have hunits : one ≤ units 7378697629483821 1008 * 10 ^ 4 := by decide +kernel
    rw [zpow_neg, inv_mul_le_iff₀ (ten_pow_pos 4), mul_comm]
    exact_mod_cast hunits

/-- The point of the written number stands where it is written without an exponent exactly if the
number itself is neither too small nor too large, and then it reads back. -/
theorem shortest_positional {m e : Nat} (h : Normal m e) (hm : 0 < m) :
    0 < (shortest m e).digits ∧
      ((-4 < (shortest m e).size ∧ (shortest m e).size ≤ 16) ↔ IsPositional m e) ∧
      (IsPositional m e → (shortest m e).nearest false = .finite false m e) := by
  have hpos : 0 < units m e := Nat.mul_pos hm (two_pow_pos e)
  have htop := magnitude_bounds hpos one_pos
  generalize magnitude (units m e) one = top at htop
  obtain ⟨hdigits, hnear⟩ := shortest_near hpos htop
  have hsize := size_bounds hdigits
  generalize shortest m e = d at *
  have hplain := isPositional_iff htop
  refine ⟨hdigits, ?_⟩
  rcases hnear with ⟨hlow, hhigh, hreads⟩ | hvalue
  · refine ⟨?_, fun _ => hreads⟩
    rw [hplain]
    rcases hhigh.lt_or_eq with hlt | heq
    · rw [power_unique hsize ⟨hlow, hlt⟩]
    · have hnext : d.size = top + 1 := by
        refine power_unique hsize ?_
        rw [heq, add_sub_cancel_right]
        exact ⟨le_rfl, zpow_lt_zpow_right₀ (by norm_num) (by omega)⟩
      have hno : ¬ (top = 16 ∨ top = -4) := fun hlimit =>
        absurd htop.2 (not_lt.mpr (limits_not_below hlimit heq hreads))
      rw [hnext]
      omega
  · have hsame : d.size = top := power_unique hsize (hvalue ▸ htop)
    rw [hplain, hsame]
    refine ⟨Iff.rfl, fun hrange => nearest_exact h hdigits hvalue ?_⟩
    rw [hsame]
    omega

end MailRules.Binary64
