import MailRules.Path
import MailRules.Store.Basic

/-! Values that a configuration may hold.

A configuration is written by hand, so a setting can hold anything; the checks decide what is
accepted. Besides plain data there are dates and times, and the two kinds of value that the
program itself puts in: paths and policies. -/
namespace MailRules

/-- A day of the calendar. -/
structure Date where
  year : Nat
  month : Nat
  day : Nat
deriving DecidableEq, Repr

/-- A time of day, with microseconds, and the distance from universal time in seconds if it is
known. -/
structure Clock where
  hour : Nat
  minute : Nat
  second : Nat
  micro : Nat := 0
  offset : Option Int := none
deriving DecidableEq, Repr

inductive Value
  | null
  | bool (b : Bool)
  | int (n : Int)
  | real (x : Binary64)
  | text (s : String)
  | list (items : List Value)
  | map (entries : List (Value × Value))
  | tuple (items : List Value)
  | set (items : List Value)
  | date (day : Date)
  | moment (day : Date) (time : Clock)
  | bytes (data : List Nat)
  | path (p : Path)
  | policy (p : ConflictPolicy)
  /-- A list or a map that holds itself, at the place where it comes again. -/
  | recurring (isMap : Bool)
deriving Repr, Inhabited

namespace Value

/-- Counts as true where a flag is asked for: all but the empty values and the zeros. -/
def isTrue : Value → Bool
  | .null => false
  | .bool b => b
  | .int n => n ≠ 0
  | .real x => !x.isZero
  | .text s => s ≠ ""
  | .list items => !items.isEmpty
  | .map entries => !entries.isEmpty
  | .tuple items => !items.isEmpty
  | .set items => !items.isEmpty
  | .bytes data => !data.isEmpty
  | _ => true

/-- A flag or a number as a number. -/
def number? : Value → Option Score
  | .bool b => some (.whole (if b then 1 else 0))
  | .int n => some (.whole n)
  | .real x => some (.real x)
  | _ => none

/-- Two keys that a map does not keep apart; numbers and flags are compared as numbers. -/
def sameKey (a b : Value) : Bool :=
  match a.number?, b.number? with
  | some m, some n => m.sameNumber n
  | none, none =>
    match a, b with
    | .null, .null => true
    | .text s, .text t => s = t
    | .date d, .date e => d = e
    | .moment d t, .moment e u => d = e && t = u
    | .bytes x, .bytes y => x = y
    | _, _ => false
  | _, _ => false

/-- Puts a value at a key of a map; the key keeps its place and its first form. -/
def putKey (k v : Value) : List (Value × Value) → List (Value × Value)
  | [] => [(k, v)]
  | (j, w) :: rest => if j.sameKey k then (j, v) :: rest else (j, w) :: putKey k v rest

end Value

end MailRules
