import MailRules.Binary64.Basic
import MailRules.Text.Numeral

/-! Floating point numbers as decimal text.

Written, a number shows the fewest digits that read back as the same number, and of those the
ones nearest to it. From the fourth place after the point to the sixteenth before it the notation
is positional, elsewhere it has an exponent of at least two digits. -/
namespace MailRules.Binary64

/-! ### Digits -/

/-- The decimal number `digits · 10 ^ exponent`. -/
structure Decimal where
  digits : Nat
  exponent : Int
deriving DecidableEq, Repr

namespace Decimal

/-- The numerator and the denominator of a decimal number. -/
def ratio (d : Decimal) : Nat × Nat :=
  if 0 ≤ d.exponent then (d.digits * Nat.pow 10 d.exponent.toNat, 1)
  else (d.digits, Nat.pow 10 (-d.exponent).toNat)

/-- The floating point number nearest to a decimal one. Beyond the powers of ten that occur the
answer is known, and no large power is formed. -/
def nearest (negative : Bool) (d : Decimal) : Binary64 :=
  let size : Int := (Nat.toDigits 10 d.digits).length + d.exponent
  if d.digits = 0 ∨ size < -400 then .finite negative 0 0
  else if 400 < size then .infinite negative
  else ofRatio negative d.ratio.1 d.ratio.2

end Decimal

/-- The least `k` with `n / d < 10 ^ k`, for a positive quotient. -/
def magnitude (n d : Nat) : Int :=
  let guess : Int := (Nat.toDigits 10 n).length - (Nat.toDigits 10 d).length
  let below (k : Int) : Bool :=
    if 0 ≤ k then n < d * Nat.pow 10 k.toNat else n * Nat.pow 10 (-k).toNat < d
  if below guess then guess else guess + 1

/-- The two decimal numbers around a positive number that have their last digit at the power
`exponent` of ten; the nearer one first, and of two equally near the even one. -/
def neighbours (m e : Nat) (exponent : Int) : List Decimal :=
  let (n, d) :=
    if 0 ≤ exponent then (units m e, one * Nat.pow 10 exponent.toNat)
    else (units m e * Nat.pow 10 (-exponent).toNat, one)
  let near := roundDiv n d
  let other := if near = n / d then near + 1 else near - 1
  [⟨near, exponent⟩, ⟨other, exponent⟩]

/-- The decimal number that equals a finite one. -/
def exactDecimal (m e : Nat) : Decimal :=
  ⟨units m e * Nat.pow 5 1074, -1074⟩

/-- The decimal number with the fewest digits that reads back as a positive number. -/
def shortest (m e : Nat) : Decimal :=
  let top := magnitude (units m e) one
  let candidates := (List.range 17).flatMap fun k => neighbours m e (top - (k + 1 : Nat))
  (candidates.find? fun d => d.nearest false = .finite false m e).getD (exactDecimal m e)

/-! ### Written form -/

/-- The digits without the zeros at their end, and how many zeros went. -/
def dropZeros (digits : List Char) : List Char × Nat :=
  let kept := (digits.reverse.dropWhile (· = '0')).reverse
  (kept, digits.length - kept.length)

/-- An exponent with its sign and at least two digits. -/
def exponentText (k : Int) : List Char :=
  let digits := Nat.toDigits 10 k.natAbs
  (if k < 0 then '-' else '+') :: (if digits.length < 2 then '0' :: digits else digits)

/-- The decimal point stands after `point` of the digits. -/
def placePoint (digits : List Char) (point : Int) : List Char :=
  if -4 < point ∧ point ≤ 16 then
    if point ≤ 0 then '0' :: '.' :: (List.replicate (-point).toNat '0' ++ digits)
    else if digits.length ≤ point.toNat then
      digits ++ List.replicate (point.toNat - digits.length) '0' ++ ['.', '0']
    else digits.take point.toNat ++ '.' :: digits.drop point.toNat
  else
    let mantissa := match digits with
      | [] => []
      | [d] => [d]
      | d :: rest => d :: '.' :: rest
    mantissa ++ 'e' :: exponentText (point - 1)

/-- A finite number without its sign. -/
def magnitudeText (m e : Nat) : List Char :=
  if m = 0 then ['0', '.', '0']
  else
    let d := shortest m e
    let (digits, dropped) := dropZeros (Nat.toDigits 10 d.digits)
    placePoint digits (digits.length + dropped + d.exponent)

/-- The shortest text that reads back as the number. -/
def toText : Binary64 → String
  | .finite negative m e => String.ofList ((if negative then ['-'] else []) ++ magnitudeText m e)
  | .infinite negative => if negative then "-inf" else "inf"
  | .nan => "nan"

/-- The number with one digit after the point; a half goes to the even neighbour. -/
def toTenths : Binary64 → String
  | .finite negative m e =>
    let tenths := roundDiv (units m e * 10) one
    (if negative then "-" else "") ++ toString (tenths / 10) ++ "." ++ toString (tenths % 10)
  | other => other.toText

/-! ### Reading -/

/-- The exponent after a mantissa; zero if nothing follows. -/
def readExponent? : List Char → Option Int
  | [] => some 0
  | c :: rest =>
    if c = 'e' ∨ c = 'E' then
      let (negative, digits) := Text.splitSign rest
      if digits.isEmpty then none
      else (Text.digitsValue? digits).map fun n => if negative then -(n : Int) else n
    else none

/-- An unsigned decimal number: digits, a point among, before or after them, an exponent. -/
def readDecimal? (s : List Char) : Option Decimal :=
  let whole := s.takeWhile Char.isDigit
  let rest := s.dropWhile Char.isDigit
  let (fraction, tail) :=
    match rest with
    | '.' :: after => (after.takeWhile Char.isDigit, after.dropWhile Char.isDigit)
    | _ => ([], rest)
  if whole.isEmpty && fraction.isEmpty then none
  else do
    let digits ← Text.digitsValue? (whole ++ fraction)
    let exponent ← readExponent? tail
    return ⟨digits, exponent - fraction.length⟩

/-- A typed number: decimal, or a name of infinity or of no number, in any case. -/
def read? (s : List Char) : Option Binary64 := do
  let (negative, body) := Text.splitSign (← Text.plainNumeral? s)
  let name := String.ofList (body.map Char.toLower)
  if name = "inf" ∨ name = "infinity" then return .infinite negative
  else if name = "nan" then return .nan
  else return (← readDecimal? body).nearest negative

/-- A number typed in bytes: those beyond the basic characters are no blanks and no digits. -/
def readBytes? (data : List Nat) : Option Binary64 :=
  if data.all (· < 128) then read? (data.map Char.ofNat) else none

end MailRules.Binary64
