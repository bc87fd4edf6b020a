import Mathlib.Algebra.Order.Ring.Nat
import Mathlib.Tactic.Ring
import MailRules.Binary64.Basic

/-! Rounding.

A rounded quotient, and so a rounded number, depends on the value of the quotient alone
(`roundDiv_congr`, `ofUnits_congr`). What rounding gives is normal or infinite
(`ofUnits_normal`), and a normal number is its own rounding (`ofUnits_exact`). A number is rounded
to infinity from half a unit above the largest finite number on (`ofUnits_eq_infinite_iff`). -/
namespace MailRules

/-! ### Quotients -/

theorem roundDiv_cases (n d : Nat) : roundDiv n d = n / d ∨ roundDiv n d = n / d + 1 := by
  unfold roundDiv
  dsimp only
  split
  · exact .inl rfl
  · split
    · exact .inr rfl
    · split
      · exact .inl rfl
      · exact .inr rfl

theorem roundDiv_scale (n d : Nat) {k : Nat} (hk : 0 < k) :
    roundDiv (k * n) (k * d) = roundDiv n d := by
  have hhalf : 2 * (k * (n % d)) = k * (2 * (n % d)) := by ring
  unfold roundDiv
  dsimp only
  rw [Nat.mul_div_mul_left n d hk, Nat.mul_mod_mul_left, hhalf]
  simp only [Nat.mul_lt_mul_left hk]

/-- The rounded quotient depends on the quotient alone. -/
theorem roundDiv_congr {n d n' d' : Nat} (hd : 0 < d) (hd' : 0 < d') (h : n * d' = n' * d) :
    roundDiv n d = roundDiv n' d' := by
  rw [← roundDiv_scale n d hd', ← roundDiv_scale n' d' hd, Nat.mul_comm d' n, h,
    Nat.mul_comm n' d, Nat.mul_comm d' d]

theorem roundDiv_exact (n : Nat) {d : Nat} (hd : 0 < d) : roundDiv (n * d) d = n := by
  unfold roundDiv
  dsimp only
  rw [Nat.mul_mod_left, Nat.mul_div_cancel n hd, if_pos (by omega)]

/-- A quotient below `2 ^ 53` rounds up to it from half a unit below. -/
theorem roundDiv_eq_carry_iff {n k : Nat} (hk : 0 < k) (h : n / (2 * k) < 2 ^ 53) :
    roundDiv n (2 * k) = 2 ^ 53 ↔ (2 ^ 54 - 1) * k ≤ n := by
  have hmod : n % (2 * k) < 2 * k := Nat.mod_lt n (by omega)
  have hn : 2 * k * (n / (2 * k)) + n % (2 * k) = n := Nat.div_add_mod n (2 * k)
  by_cases htop : n / (2 * k) = 2 ^ 53 - 1
  · have hvalue : n = (2 ^ 54 - 2) * k + n % (2 * k) := by
      rw [htop] at hn
      omega
    have hodd : n / (2 * k) % 2 = 1 := by
      rw [htop]
      decide
    unfold roundDiv
    dsimp only
    split
    next => omega
    next =>
      split
      next => omega
      next =>
        rw [hodd, if_neg (by decide)]
        omega
  · have hless : n / (2 * k) + 1 < 2 ^ 53 := by omega
    have hbelow : n < (2 ^ 53 - 1) * (2 * k) := by
      rw [← Nat.div_lt_iff_lt_mul (by omega)]
      omega
    refine iff_of_false ?_ (by omega)
    rcases roundDiv_cases n (2 * k) with hround | hround <;> omega

namespace Binary64

/-- A significand and an exponent as rounding leaves them. -/
structure Normal (m e : Nat) : Prop where
  lt : m < 2 ^ 53
  high : e = 0 ∨ 2 ^ 52 ≤ m
  le : e ≤ 2045

/-- The exponent that a whole number of units is rounded at. -/
def exponentOf (whole : Nat) : Nat := if whole < 2 ^ 53 then 0 else whole.log2 - 52

/-- The number of a rounded significand, which may have grown by a bit. -/
def pack (s : Bool) (m e : Nat) : Binary64 :=
  if m = 2 ^ 53 then if 2045 < e + 1 then .infinite s else .finite s (2 ^ 52) (e + 1)
  else if 2045 < e then .infinite s else .finite s m e

theorem ofUnits_eq (s : Bool) (n d : Nat) :
    ofUnits s n d = pack s (roundDiv n (d * 2 ^ exponentOf (n / d))) (exponentOf (n / d)) := by
  unfold ofUnits
  dsimp only
  by_cases hcarry : roundDiv n (d * 2 ^ exponentOf (n / d)) = 2 ^ 53
  · rw [pack, if_pos hcarry]
    exact congrArg (fun p : Nat × Nat => if 2045 < p.2 then infinite s else finite s p.1 p.2)
      (if_pos hcarry)
  · rw [pack, if_neg hcarry]
    exact congrArg (fun p : Nat × Nat => if 2045 < p.2 then infinite s else finite s p.1 p.2)
      (if_neg hcarry)

theorem two_pow_pos (e : Nat) : 0 < 2 ^ e := Nat.pow_pos (by decide)

theorem div_congr {n d n' d' : Nat} (hd : 0 < d) (hd' : 0 < d') (h : n * d' = n' * d) :
    n / d = n' / d' := by
  rw [← Nat.mul_div_mul_right n d hd', ← Nat.mul_div_mul_right n' d' hd, h, Nat.mul_comm d' d]

/-- The rounded number depends on the quotient alone. -/
theorem ofUnits_congr (s : Bool) {n d n' d' : Nat} (hd : 0 < d) (hd' : 0 < d')
    (h : n * d' = n' * d) : ofUnits s n d = ofUnits s n' d' := by
  have hround (e : Nat) : roundDiv n (d * 2 ^ e) = roundDiv n' (d' * 2 ^ e) := by
    refine roundDiv_congr (Nat.mul_pos hd (two_pow_pos e)) (Nat.mul_pos hd' (two_pow_pos e)) ?_
    rw [← Nat.mul_assoc, h, Nat.mul_assoc]
  rw [ofUnits_eq, ofUnits_eq, div_congr hd hd' h, hround]

/-- The exponent puts a number of at least 53 bits between `2 ^ 52` and `2 ^ 53`. -/
theorem scaled_bounds {whole : Nat} (h : 2 ^ 53 ≤ whole) :
    2 ^ 52 ≤ whole / 2 ^ exponentOf whole ∧ whole / 2 ^ exponentOf whole < 2 ^ 53 := by
  have hne : whole ≠ 0 := by
    rintro rfl
    exact absurd h (by decide)
  have hlog : 53 ≤ whole.log2 := (Nat.le_log2 hne).mpr h
  have hlow : 2 ^ whole.log2 ≤ whole := Nat.log2_self_le hne
  have hhigh : whole < 2 ^ (whole.log2 + 1) := Nat.lt_log2_self
  rw [exponentOf, if_neg (Nat.not_lt.mpr h)]
  constructor
  · rw [Nat.le_div_iff_mul_le (two_pow_pos _), ← Nat.pow_add]
    rwa [show 52 + (whole.log2 - 52) = whole.log2 by omega]
  · rw [Nat.div_lt_iff_lt_mul (two_pow_pos _), ← Nat.pow_add]
    rwa [show 53 + (whole.log2 - 52) = whole.log2 + 1 by omega]

theorem pack_normal (s : Bool) {m e : Nat} (hm : m ≤ 2 ^ 53) (he : e = 0 ∨ 2 ^ 52 ≤ m) :
    pack s m e = .infinite s ∨ ∃ k f, Normal k f ∧ pack s m e = .finite s k f := by
  unfold pack
  split
  next =>
    split
    next => exact .inl rfl
    next hle => exact .inr ⟨_, _, ⟨by decide, .inr (by decide), Nat.le_of_not_lt hle⟩, rfl⟩
  next hcarry =>
    split
    next => exact .inl rfl
    next hle =>
      exact .inr ⟨m, e, ⟨Nat.lt_of_le_of_ne hm hcarry, he, Nat.le_of_not_lt hle⟩, rfl⟩

/-- Rounding gives a normal number, unless the number is too large. -/
theorem ofUnits_normal (s : Bool) (n d : Nat) :
    ofUnits s n d = .infinite s ∨ ∃ m e, Normal m e ∧ ofUnits s n d = .finite s m e := by
  rw [ofUnits_eq]
  by_cases hsmall : n / d < 2 ^ 53
  · have hexponent : exponentOf (n / d) = 0 := if_pos hsmall
    rw [hexponent, Nat.pow_zero, Nat.mul_one]
    refine pack_normal s ?_ (.inl rfl)
    rcases roundDiv_cases n d with h | h <;> omega
  · obtain ⟨hlow, hhigh⟩ := scaled_bounds (Nat.le_of_not_lt hsmall)
    have hquotient : n / (d * 2 ^ exponentOf (n / d)) = n / d / 2 ^ exponentOf (n / d) :=
      (Nat.div_div_eq_div_mul _ _ _).symm
    have hround := roundDiv_cases n (d * 2 ^ exponentOf (n / d))
    rw [hquotient] at hround
    refine pack_normal s ?_ (.inr ?_) <;> omega

theorem exponentOf_units {m e : Nat} (h : Normal m e) : exponentOf (units m e) = e := by
  have hunits : units m e = m * 2 ^ e := rfl
  rw [exponentOf, hunits]
  rcases h.high with rfl | hhigh
  · rw [Nat.pow_zero, Nat.mul_one, if_pos h.lt]
  · have hne : m * 2 ^ e ≠ 0 :=
      Nat.ne_of_gt (Nat.mul_pos (Nat.lt_of_lt_of_le (by decide) hhigh) (two_pow_pos e))
    have hlog : (m * 2 ^ e).log2 = 52 + e := by
      refine (Nat.log2_eq_iff hne).mpr ⟨?_, ?_⟩
      · rw [Nat.pow_add]
        exact Nat.mul_le_mul_right _ hhigh
      · rw [show 52 + e + 1 = 53 + e by omega, Nat.pow_add]
        exact (Nat.mul_lt_mul_right (two_pow_pos e)).mpr h.lt
    rw [hlog]
    split
    next hsmall =>
      have hbits := (Nat.log2_lt hne).mpr hsmall
      omega
    next => omega

/-- A normal number is its own rounding. -/
theorem ofUnits_exact (s : Bool) {m e d : Nat} (h : Normal m e) (hd : 0 < d) :
    ofUnits s (units m e * d) d = .finite s m e := by
  have hproduct : units m e * d = m * (d * 2 ^ e) := by
    show m * 2 ^ e * d = _
    ring
  rw [ofUnits_eq, Nat.mul_div_cancel _ hd, exponentOf_units h, hproduct,
    roundDiv_exact m (Nat.mul_pos hd (two_pow_pos e)), pack, if_neg (Nat.ne_of_lt h.lt),
    if_neg (Nat.not_lt.mpr h.le)]

/-! ### Overflow -/

theorem pack_eq_infinite_iff {s : Bool} {m e : Nat} :
    pack s m e = .infinite s ↔ 2045 < e ∨ e = 2045 ∧ m = 2 ^ 53 := by
  unfold pack
  split
  next hcarry =>
    split
    next h => exact iff_of_true rfl (by omega)
    next h => exact iff_of_false (fun heq => nomatch heq) (by omega)
  next hcarry =>
    split
    next h => exact iff_of_true rfl (.inl h)
    next h => exact iff_of_false (fun heq => nomatch heq) (by omega)

theorem two_pow_le {i j : Nat} (h : i ≤ j) : 2 ^ i ≤ 2 ^ j := Nat.pow_le_pow_right (by decide) h

/-- A number is rounded to infinity from half a unit above the largest finite number on. The power
stays closed: `2 ^ 2044` is nothing to compute with. -/
theorem ofUnits_eq_infinite_iff (s : Bool) (n : Nat) {t : Nat} (ht : t = 2044) :
    ofUnits s n 1 = .infinite s ↔ (2 ^ 54 - 1) * 2 ^ t ≤ n := by
  rw [ofUnits_eq, pack_eq_infinite_iff, Nat.div_one, Nat.one_mul]
  have hlarge (h : exponentOf n ≠ 0) : 2 ^ 53 ≤ n := by
    by_contra hsmall
    exact h (if_pos (Nat.not_le.mp hsmall))
  rcases Nat.lt_trichotomy (exponentOf n) (t + 1) with hlow | htop | hhigh
  · refine iff_of_false (by omega) (Nat.not_le.mpr ?_)
    have hpow : 2 ^ exponentOf n ≤ 2 ^ t := two_pow_le (by omega)
    have hbelow : n < 2 ^ 53 * 2 ^ exponentOf n := by
      rw [← Nat.div_lt_iff_lt_mul (two_pow_pos _)]
      by_cases hsmall : n < 2 ^ 53
      · exact Nat.lt_of_le_of_lt (Nat.div_le_self _ _) hsmall
      · exact (scaled_bounds (Nat.le_of_not_lt hsmall)).2
    omega
  · have hbound := (scaled_bounds (hlarge (by omega))).2
    rw [htop, Nat.pow_succ'] at hbound
    rw [htop, Nat.pow_succ', roundDiv_eq_carry_iff (two_pow_pos t) hbound]
    omega
  · refine iff_of_true (.inl (by omega)) ?_
    have habove := (Nat.le_div_iff_mul_le (two_pow_pos _)).mp
      (scaled_bounds (hlarge (by omega))).1
    have hpow : 2 ^ (t + 2) ≤ 2 ^ exponentOf n := two_pow_le (by omega)
    rw [Nat.pow_add] at hpow
    omega

theorem ofInt?_eq_none_iff_ofUnits {n : Int} :
    ofInt? n = none ↔ ofUnits (n < 0) (n.natAbs * one) 1 = .infinite (n < 0) := by
  rw [ofInt?, ofRatio]
  rcases ofUnits_normal (n < 0) (n.natAbs * one) 1 with h | ⟨m, e, -, h⟩
  · rw [h]
    exact iff_of_true rfl rfl
  · rw [h]
    exact iff_of_false (fun heq => nomatch heq) (fun heq => nomatch heq)

/-- The least whole number that is rounded to infinity: half a unit above the largest finite one. -/
def overflow : Nat := Nat.pow 2 1024 - Nat.pow 2 970

/-- An integer has no floating point number from half a unit above the largest finite one on. -/
theorem ofInt?_eq_none_iff {n : Int} : ofInt? n = none ↔ overflow ≤ n.natAbs := by
  have hscaled (i j k : Nat) (hone : one = Nat.pow 2 j) (hsum : i + j = 2044)
      (hover : overflow = Nat.pow 2 k - Nat.pow 2 i) (hk : i + 54 = k) :
      ofInt? n = none ↔ overflow ≤ n.natAbs := by
    replace hone : one = 2 ^ j := hone
    replace hover : overflow = 2 ^ k - 2 ^ i := hover
    rw [ofInt?_eq_none_iff_ofUnits, ofUnits_eq_infinite_iff _ _ hsum, hone, Nat.pow_add,
      ← Nat.mul_assoc, Nat.mul_le_mul_right_iff (two_pow_pos j), hover, ← hk, Nat.pow_add]
    omega
  exact hscaled 970 1074 1024 (by rw [one]) rfl (by rw [overflow]) rfl

end Binary64

end MailRules
