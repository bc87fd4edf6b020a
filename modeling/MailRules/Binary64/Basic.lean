/-! Binary floating point numbers of 64 bits, and exact rounding to them.

A finite number is `± m · 2 ^ (e - 1074)` with natural numbers `m` and `e`: the smallest spacing,
`2 ^ -1074`, is the unit. `ofRatio` gives the number nearest to a quotient of natural numbers,
which is all that reading, adding and multiplying need. -/
namespace MailRules

/-- The quotient nearest to `n / d`; of two equally near, the even one. -/
def roundDiv (n d : Nat) : Nat :=
  let q := n / d
  let r := n % d
  if 2 * r < d then q
  else if d < 2 * r then q + 1
  else if q % 2 = 0 then q else q + 1

/-- A floating point number with a significand of 53 bits. -/
inductive Binary64
  /-- The number `± m · 2 ^ (e - 1074)`; `m` below `2 ^ 53`, and `e` zero if `m` is below
  `2 ^ 52`. -/
  | finite (negative : Bool) (m e : Nat)
  | infinite (negative : Bool)
  | nan
deriving DecidableEq, Repr

namespace Binary64

/-- How many units of `2 ^ -1074` make one. -/
def one : Nat := Nat.pow 2 1074

def zero : Binary64 := .finite false 0 0

/-- The number itself, if it is finite. -/
def finite? : Binary64 → Option Binary64
  | .finite negative m e => some (.finite negative m e)
  | _ => none

/-- The number with `units` units, a quotient `n / d`, rounded to nearest. -/
def ofUnits (negative : Bool) (n d : Nat) : Binary64 :=
  let whole := n / d
  let e := if whole < Nat.pow 2 53 then 0 else whole.log2 - 52
  let m := roundDiv n (d * Nat.pow 2 e)
  let (m, e) := if m = Nat.pow 2 53 then (Nat.pow 2 52, e + 1) else (m, e)
  if 2045 < e then .infinite negative else .finite negative m e

/-- The number nearest to `n / d`. -/
def ofRatio (negative : Bool) (n d : Nat) : Binary64 :=
  ofUnits negative (n * one) d

/-- The number nearest to an integer; nothing if it lies beyond the largest finite one. -/
def ofInt? (n : Int) : Option Binary64 :=
  (ofRatio (n < 0) n.natAbs 1).finite?

/-- The units of a finite number, without its sign. -/
def units (m e : Nat) : Nat :=
  m * Nat.pow 2 e

/-- The value in units, signed; zero for what is not finite. -/
def signedUnits : Binary64 → Int
  | .finite negative m e => if negative then -(units m e : Int) else units m e
  | _ => 0

def isZero : Binary64 → Bool
  | .finite _ m _ => m = 0
  | _ => false

def negate : Binary64 → Binary64
  | .finite negative m e => .finite (!negative) m e
  | .infinite negative => .infinite (!negative)
  | .nan => .nan

/-- Equal as numbers: both zeros are one number, and a NaN equals nothing. -/
def sameNumber : Binary64 → Binary64 → Bool
  | .finite s m e, .finite t k f =>
    signedUnits (.finite s m e) = signedUnits (.finite t k f)
  | .infinite s, .infinite t => s = t
  | _, _ => false

/-- Equal to an integer as a number. -/
def isInt (x : Binary64) (n : Int) : Bool :=
  match x with
  | .finite s m e => signedUnits (.finite s m e) = n * one
  | _ => false

/-- The rounded product with a natural number. -/
def scale (x : Binary64) (k : Nat) : Binary64 :=
  match x with
  | .finite negative m e => ofUnits negative (units m e * k) 1
  | .infinite negative => if k = 0 then .nan else .infinite negative
  | .nan => .nan

/-- The rounded quotient by a positive natural number. -/
def divide (x : Binary64) (k : Nat) : Binary64 :=
  match x with
  | .finite negative m e => ofUnits negative (units m e) k
  | other => other

/-- The rounded sum. -/
def add : Binary64 → Binary64 → Binary64
  | .nan, _ => .nan
  | _, .nan => .nan
  | .infinite s, .infinite t => if s = t then .infinite s else .nan
  | .infinite s, .finite .. => .infinite s
  | .finite .., .infinite t => .infinite t
  | .finite s m e, .finite t k f =>
    let sum := signedUnits (.finite s m e) + signedUnits (.finite t k f)
    if sum = 0 then .finite (s && t) 0 0 else ofUnits (sum < 0) sum.natAbs 1

end Binary64

end MailRules
