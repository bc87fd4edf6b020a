import MailRules.Value.Basic
import MailRules.Yaml.Node

/-! The value of a document.

A scalar is read as what it is taken for; a mapping under the merge key lends its pairs to the
mapping around it, which come first and give way to its own. Problems of content are looked for
level by level, scalars and marks before what lies deeper. -/
namespace MailRules.Yaml

/-! ### Scalars -/

/-- The digits of a number, without underscores, with its sign and the size of the text. -/
def signedText (text : String) : Except Problem (Bool × List Char) := do
  match text.toList.filter (· ≠ '_') with
  | [] => throw .emptyNumber
  | '-' :: rest => return (true, rest)
  | '+' :: rest => return (false, rest)
  | rest => return (false, rest)

def signed (negative : Bool) (n : Nat) : Int := if negative then -(n : Int) else n

/-- A typed number, as part of an integer. -/
def wholePart (s : List Char) : Except Problem Int :=
  match Text.readInt? s with
  | some n => .ok n
  | none => .error .noSuchNumber

/-- Digits to a base up to sixteen, with a sign perhaps; the letter that marks the base may come
once more. -/
def inBase (base : Nat) (mark : Char) (s : List Char) : Except Problem Int := do
  let (negative, body) := Text.splitSign ((Text.plainNumeral? s).getD [])
  let digits := match body with
    | '0' :: c :: rest => if c.toLower = mark then rest else body
    | _ => body
  let value (c : Char) : Nat := hexValue [c]
  if digits.isEmpty || !digits.all (fun c => isHexDigit c && value c < base) then
    throw .noSuchNumber
  return signed negative (digits.foldl (fun n c => base * n + value c) 0)

def intOf (text : String) : Except Problem Int := do
  let (negative, body) ← signedText text
  let sign (n : Int) : Int := if negative then -n else n
  match body with
  | [] => throw .emptyNumber
  | ['0'] => return 0
  | '0' :: 'b' :: digits => return sign (← inBase 2 'b' digits)
  | '0' :: 'x' :: digits => return sign (← inBase 16 'x' digits)
  | '0' :: _ => return sign (← inBase 8 'o' body)
  | _ =>
    if body.contains ':' then
      let pieces ← (Path.pieces ':' body).mapM wholePart
      return sign (pieces.foldl (fun n piece => 60 * n + piece) 0)
    else return sign (← wholePart body)

def realPart (s : List Char) : Except Problem Binary64 :=
  match Binary64.read? s with
  | some x => .ok x
  | none => .error .noSuchNumber

/-- Pieces to the base of sixty, the last one first, each rounded as it is added. -/
def addSixties (sum : Binary64) (base : Nat) : List Binary64 → Binary64
  | [] => sum
  | x :: rest => addSixties (sum.add (x.scale base)) (base * 60) rest

def realOf (text : String) : Except Problem Binary64 := do
  let (negative, body) ← signedText (String.ofList (Text.lowerChars text.toList))
  let sign (x : Binary64) : Binary64 := if negative then x.negate else x
  if body = ".inf".toList then return .infinite negative
  else if body = ".nan".toList then return .nan
  else if body.contains ':' then
    let pieces ← (Path.pieces ':' body).mapM realPart
    return sign (addSixties Binary64.zero 1 pieces.reverse)
  else return sign (← realPart body)

def flagOf (text : String) : Except Problem Bool :=
  let word := Text.lower text
  if word ∈ ["yes", "true", "on"] then .ok true
  else if word ∈ ["no", "false", "off"] then .ok false
  else .error (.noSuchFlag word)

/-- How many days a month has. -/
def monthLength (year month : Nat) : Nat :=
  if month = 2 then
    if year % 4 = 0 && (year % 100 ≠ 0 || year % 400 = 0) then 29 else 28
  else if month ∈ [4, 6, 9, 11] then 30 else 31

def number (digits : List Char) : Nat := (Text.digitsValue? digits).getD 0

/-- The distance from universal time in seconds; it is less than a day. -/
def offsetOf (t : Option Char × List Char × List Char) : Except Problem Int := do
  let (sign, hours, minutes) := t
  let size := number hours * 3600 + number minutes * 60
  if 86400 ≤ size then throw .noSuchNumber
  return signed (sign = some '-') size

/-- The first six digits of a fraction, filled up with zeros. -/
def microseconds (fraction : List Char) : Nat :=
  number ((fraction ++ List.replicate 6 '0').take 6)

def timeOf (text : String) : Except Problem Value := do
  match Tag.timeText? (Tag.recognised text) with
  | none => throw .noSuchTime
  | some t =>
    let day : Date := ⟨number t.year, number t.month, number t.day⟩
    let known := 1 ≤ day.year && 1 ≤ day.month && day.month ≤ 12 && 1 ≤ day.day
      && day.day ≤ monthLength day.year day.month
    match t.clock with
    | none => if known then return .date day else throw .noSuchNumber
    | some (hour, minute, second, fraction) =>
      let offset ← t.offset.mapM offsetOf
      let clock : Clock :=
        { hour := number hour, minute := number minute, second := number second
          micro := microseconds fraction, offset }
      if known && clock.hour < 24 && clock.minute < 60 && clock.second < 60 then
        return .moment day clock
      else throw .noSuchNumber

/-- The value of a character in a text to the base of sixty-four. -/
def sextet? (c : Char) : Option Nat :=
  if 'A' ≤ c ∧ c ≤ 'Z' then some (c.toNat - 65)
  else if 'a' ≤ c ∧ c ≤ 'z' then some (c.toNat - 71)
  else if c.isDigit then some (c.toNat + 4)
  else if c = '+' then some 62
  else if c = '/' then some 63
  else none

/-- The sextets up to the padding, and whether that came where it may. Other characters are passed
over. -/
def sextets (count pads : Nat) : List Char → List Nat × Bool
  | [] => ([], count % 4 = 0)
  | '=' :: rest =>
    if 2 ≤ count % 4 ∧ 4 ≤ count % 4 + pads + 1 then ([], true)
    else sextets count (if 2 ≤ count % 4 then pads + 1 else pads) rest
  | c :: rest =>
    match sextet? c with
    | none => sextets count pads rest
    | some n =>
      let (later, ok) := sextets (count + 1) 0 rest
      (n :: later, ok)

/-- The bytes that sextets make. -/
def bytesOf : List Nat → List Nat
  | a :: b :: c :: d :: rest =>
    (a * 4 + b / 16) :: (b % 16 * 16 + c / 4) :: (c % 4 * 64 + d) :: bytesOf rest
  | [a, b, c] => [a * 4 + b / 16, b % 16 * 16 + c / 4]
  | [a, b] => [a * 4 + b / 16]
  | _ => []

def binaryOf (text : String) : Except Problem (List Nat) :=
  let (found, ok) := sextets 0 0 text.toList
  if text.toList.all (·.toNat < 128) && ok then .ok (bytesOf found) else .error .malformed

/-- The text of a scalar; a mapping has one under the value key. -/
def scalarText : (fuel : Nat) → Node → Except Problem String
  | 0, _ => .error .malformed
  | _, .scalar _ text => .ok text
  | fuel + 1, .mapping _ pairs =>
    match pairs.find? fun p => match p.1 with
      | .scalar .value _ => true
      | _ => false with
    | some (_, v) => scalarText fuel v
    | none => .error .malformed
  | _, _ => .error .malformed

/-! ### Collections -/

/-- The pairs of a mapping with those under merge keys before them. -/
def flatten : (fuel : Nat) → List (Node × Node) → Except Problem (List (Node × Node))
  | 0, _ => .error .malformed
  | fuel + 1, pairs => do
    let isMerge (p : Node × Node) : Bool := match p.1 with
      | .scalar .merge _ | .sequence .merge _ | .mapping .merge _ => true
      | _ => false
    let lent (n : Node) : Except Problem (List (Node × Node)) := match n with
      | .mapping _ inner => flatten fuel inner
      | _ => .error .malformed
    let merged ← (pairs.filter isMerge).mapM fun p => match p.2 with
      | .mapping _ inner => flatten fuel inner
      | .sequence _ items => do return (← items.mapM lent).reverse.flatten
      | _ => .error .malformed
    let own := (pairs.filter (!isMerge ·)).map fun p => match p.1 with
      | .scalar .value text => (Node.scalar .text text, p.2)
      | _ => p
    return merged.flatten ++ own

def isCollection : Tag → Bool
  | .orderedMap | .pairs | .set | .list | .map => true
  | _ => false

def tagOf : Node → Tag
  | .scalar tag _ => tag
  | .sequence tag _ => tag
  | .mapping tag _ => tag
  | .enclosing isMapping => if isMapping then .map else .list

/-- The value of a node that is not taken for a collection. -/
def plainValue (fuel : Nat) (n : Node) : Except Problem Value := do
  match tagOf n with
  | .null => discard (scalarText fuel n); return .null
  | .flag => return .bool (← flagOf (← scalarText fuel n))
  | .int => return .int (← intOf (← scalarText fuel n))
  | .real => return .real (← realOf (← scalarText fuel n))
  | .binary => return .bytes (← binaryOf (← scalarText fuel n))
  | .time => timeOf (← scalarText fuel n)
  | .text => return .text (← scalarText fuel n)
  | _ => throw .malformed

/-- Checks a node itself; a collection is left for the next level. -/
def checkNode (fuel : Nat) (n : Node) : Except Problem (List Node) := do
  match n with
  | .enclosing _ => return []
  | n =>
    if isCollection (tagOf n) then return [n]
    else
      discard (plainValue fuel n)
      return []

/-- Checks a key, which may be no collection, and the value that belongs to it. -/
def checkPair (fuel : Nat) (p : Node × Node) : Except Problem (List Node) := do
  if isCollection (tagOf p.1) then throw .malformed
  discard (checkNode fuel p.1)
  checkNode fuel p.2

/-- The only pair of a mapping. -/
def onlyPair : Node → Except Problem (Node × Node)
  | .mapping _ [p] => .ok p
  | _ => .error .malformed

/-- Checks what a collection holds, and gives the collections among it. -/
def checkCollection (fuel : Nat) (n : Node) : Except Problem (List Node) := do
  match tagOf n, n with
  | .list, .sequence _ items => return (← items.mapM (checkNode fuel)).flatten
  | .map, .mapping _ pairs | .set, .mapping _ pairs =>
    return (← (← flatten fuel pairs).mapM (checkPair fuel)).flatten
  | .orderedMap, .sequence _ items | .pairs, .sequence _ items =>
    return (← items.mapM fun item => do
      let p ← onlyPair item
      return (← checkNode fuel p.1) ++ (← checkNode fuel p.2)).flatten
  | _, _ => throw .malformed

/-- Checks one level after the other. -/
def checkLevels : (fuel : Nat) → List Node → Except Problem Unit
  | _, [] => .ok ()
  | 0, _ => .error .malformed
  | fuel + 1, level => do
    checkLevels fuel (← level.mapM (checkCollection fuel)).flatten

/-- The value of a node that has passed the checks. -/
def valueOf : (fuel : Nat) → Node → Except Problem Value
  | 0, _ => .error .malformed
  | fuel + 1, n => do
    let pair (p : Node × Node) : Except Problem (Value × Value) := do
      return (← valueOf fuel p.1, ← valueOf fuel p.2)
    match tagOf n, n with
    | _, .enclosing isMapping => return .recurring isMapping
    | .list, .sequence _ items => return .list (← items.mapM (valueOf fuel))
    | .map, .mapping _ pairs =>
      let entries ← (← flatten fuel pairs).mapM pair
      return .map (entries.foldl (fun m e => Value.putKey e.1 e.2 m) [])
    | .set, .mapping _ pairs =>
      let entries ← (← flatten fuel pairs).mapM pair
      return .set ((entries.foldl (fun m e => Value.putKey e.1 e.2 m) []).map Prod.fst)
    | .orderedMap, .sequence _ items | .pairs, .sequence _ items =>
      return .list (← items.mapM fun item => do
        let (k, v) ← pair (← onlyPair item)
        return .tuple [k, v])
    | _, _ => plainValue fuel n

/-- The value of the only document of a text; null if there is no document. -/
def load (text : String) : Except Problem Value := do
  match ← Node.ofText? text with
  | none => return .null
  | some root =>
    let fuel := 4 * text.length + 8
    checkLevels fuel (← checkNode fuel root)
    valueOf fuel root

end MailRules.Yaml
