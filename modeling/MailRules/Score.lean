import MailRules.Binary64.Decimal

/-! Scores of rules: whole numbers, or numbers with a fraction. -/
namespace MailRules

inductive Score
  | whole (n : Int)
  | real (x : Binary64)
deriving DecidableEq, Repr

namespace Score

def isZero : Score → Bool
  | .whole n => n = 0
  | .real x => x.isZero

def toText : Score → String
  | .whole n => toString n
  | .real x => x.toText

/-- Equal as numbers, whichever way they are held. -/
def sameNumber : Score → Score → Bool
  | .whole m, .whole n => m = n
  | .whole m, .real y => y.isInt m
  | .real x, .whole n => x.isInt n
  | .real x, .real y => x.sameNumber y

/-- A run of decimal digits with, perhaps, a point between two of them. -/
def isNumeral (s : List Char) : Bool :=
  let rest := s.dropWhile Text.isDigit
  !(s.takeWhile Text.isDigit).isEmpty &&
    match rest with
    | [] => true
    | '.' :: fraction => !fraction.isEmpty && fraction.all Text.isDigit
    | _ => false

/-- The score that a numeral writes: a whole number, unless it has a point. -/
def ofNumeral? (s : List Char) : Option Score :=
  if s.contains '.' then (Binary64.read? s).map .real else (Text.readInt? s).map .whole

end Score

end MailRules
