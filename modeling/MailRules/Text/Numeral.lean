import MailRules.Text.Basic
import MailRules.Text.Digit

/-! Numbers as they are typed: blanks around them, digits of any script, and single underscores
between digits. -/
namespace MailRules.Text

/-- The character with its digits and blanks brought to the basic ones. -/
def plainChar (c : Char) : Char :=
  match digitValue? c with
  | some v => Char.ofNat (48 + v)
  | none => if c.toNat ≥ 128 && isBlank c then ' ' else c

/-- The blanks that may surround a number. -/
def isNumeralBlank (c : Char) : Bool :=
  c = ' ' || ('\t' ≤ c && c ≤ '\r')

/-- Without the underscores between digits; nothing if one stands elsewhere. -/
def joinDigits? : List Char → Option (List Char)
  | [] => some []
  | '_' :: _ => none
  | c :: '_' :: d :: rest =>
    if c.isDigit && d.isDigit then (c :: ·) <$> joinDigits? (d :: rest) else none
  | c :: rest => (c :: ·) <$> joinDigits? rest

/-- The characters of a typed number, without blanks and underscores. -/
def plainNumeral? (s : List Char) : Option (List Char) :=
  let core := ((s.map plainChar).dropWhile isNumeralBlank).reverse
  joinDigits? (core.dropWhile isNumeralBlank).reverse

/-- The sign before a number, and what follows it. -/
def splitSign : List Char → Bool × List Char
  | '-' :: rest => (true, rest)
  | '+' :: rest => (false, rest)
  | rest => (false, rest)

/-- Integers are read and written up to this many digits. -/
def digitLimit : Nat := 4300

/-- The natural number that a run of decimal digits writes, if there are not too many. -/
def readNat? (digits : List Char) : Option Nat :=
  if digits.isEmpty || digitLimit < digits.length then none else digitsValue? digits

/-- A typed integer. -/
def readInt? (s : List Char) : Option Int := do
  let (negative, digits) := splitSign (← plainNumeral? s)
  let n ← readNat? digits
  return if negative then -(n : Int) else n

end MailRules.Text
