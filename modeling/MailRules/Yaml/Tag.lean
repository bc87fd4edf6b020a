import MailRules.Path
import MailRules.Yaml.Cursor

/-! What a node is taken for: by its tag, or, for a plain scalar, by its text.

The texts that are no strings are those of version 1.1 of the notation, with numbers to the base
of sixty among them. -/
namespace MailRules.Yaml

inductive Tag
  | null
  | flag
  | int
  | real
  | binary
  | time
  | orderedMap
  | pairs
  | set
  | text
  | list
  | map
  /-- The key under which other maps are merged in. -/
  | merge
  /-- The key that stands for the value of a whole map. -/
  | value
  | other (name : String)
deriving DecidableEq, Repr

namespace Tag

/-- What the standard tags have in common. -/
def standard : String := "tag:yaml.org,2002:"

def ofName (name : String) : Tag :=
  if name = standard ++ "null" then .null
  else if name = standard ++ "bool" then .flag
  else if name = standard ++ "int" then .int
  else if name = standard ++ "float" then .real
  else if name = standard ++ "binary" then .binary
  else if name = standard ++ "timestamp" then .time
  else if name = standard ++ "omap" then .orderedMap
  else if name = standard ++ "pairs" then .pairs
  else if name = standard ++ "set" then .set
  else if name = standard ++ "str" then .text
  else if name = standard ++ "seq" then .list
  else if name = standard ++ "map" then .map
  else if name = standard ++ "merge" then .merge
  else if name = standard ++ "value" then .value
  else .other name

/-! ### Plain scalars -/

/-- A word in lower case, in upper case, or with a capital. -/
def isWordOf (words : List String) (s : List Char) : Bool :=
  words.any fun w =>
    let cs := w.toList
    s = cs || s = cs.map Char.toUpper || s = (cs.take 1).map Char.toUpper ++ cs.drop 1

def isFlag (s : List Char) : Bool :=
  isWordOf ["yes", "no", "true", "false", "on", "off"] s

def isNull (s : List Char) : Bool :=
  s = [] || s = ['~'] || isWordOf ["null"] s

def isMark (c : Char) : Bool := c.isDigit || c = '_'

/-- Without the sign, if there is one. -/
def unsigned : List Char → List Char
  | '-' :: rest => rest
  | '+' :: rest => rest
  | rest => rest

/-- A number below sixty with one or two digits. -/
def isSixtieth : List Char → Bool
  | [a] => a.isDigit
  | [a, b] => '0' ≤ a && a ≤ '5' && b.isDigit
  | _ => false

/-- Pieces between colons: a number that does not begin with `0` unless `zero` allows it, and at
least one number below sixty. -/
def isBaseSixty (zero : Bool) (s : List Char) : Bool :=
  match Path.pieces ':' s with
  | (d :: first) :: later =>
    d.isDigit && (zero || d ≠ '0') && first.all isMark && !later.isEmpty && later.all isSixtieth
  | _ => false

def isInt (s : List Char) : Bool :=
  match unsigned s with
  | '0' :: 'b' :: digits => !digits.isEmpty && digits.all fun c => c = '0' || c = '1' || c = '_'
  | '0' :: 'x' :: digits => !digits.isEmpty && digits.all fun c => isHexDigit c || c = '_'
  | '0' :: digits => digits.all fun c => ('0' ≤ c && c ≤ '7') || c = '_'
  | d :: digits => (d.isDigit && digits.all isMark) || isBaseSixty false (d :: digits)
  | [] => false

/-- Nothing, or an exponent with a sign. -/
def isExponent : List Char → Bool
  | [] => true
  | e :: sign :: digits =>
    (e = 'e' || e = 'E') && (sign = '-' || sign = '+') && !digits.isEmpty && digits.all Char.isDigit
  | _ => false

def isReal (s : List Char) : Bool :=
  let body := unsigned s
  let whole := body.takeWhile fun c => isMark c || c = ':'
  match body.dropWhile fun c => isMark c || c = ':' with
  | '.' :: tail =>
    let fraction := tail.takeWhile isMark
    let rest := tail.dropWhile isMark
    if whole.isEmpty then
      isWordOf ["inf"] tail
        || (body = s && (["nan", "NaN", "NAN"].contains (String.ofList tail)
          || ((fraction.head?.map Char.isDigit).getD false && isExponent rest)))
    else if whole.contains ':' then isBaseSixty true whole && rest.isEmpty
    else (whole.head?.map Char.isDigit).getD false && isExponent rest
  | _ => false

/-- The parts of a day and, perhaps, a time. -/
structure TimeText where
  year : List Char
  month : List Char
  day : List Char
  clock : Option (List Char × List Char × List Char × List Char)
  /-- The distance from universal time: its sign, hours and minutes; no sign for `Z`. -/
  offset : Option (Option Char × List Char × List Char)

/-- Up to `most` digits, at least `least`, and what follows them. -/
def digits? (least most : Nat) (s : List Char) : Option (List Char × List Char) :=
  let found := (s.take most).takeWhile Char.isDigit
  if found.length < least then none else some (found, s.drop found.length)

def mark? (c : Char) : List Char → Option (List Char)
  | d :: rest => if d = c then some rest else none
  | [] => none

def isSpace (c : Char) : Bool := c = ' ' || c = '\t'

def offset? (s : List Char) : Option (Option (Option Char × List Char × List Char)) :=
  match s with
  | [] => some none
  | _ =>
    match s.dropWhile isSpace with
    | ['Z'] => some (some (none, [], []))
    | sign :: rest => do
      guard (sign = '-' ∨ sign = '+')
      let (hours, rest) ← digits? 1 2 rest
      match rest with
      | [] => return some (some sign, hours, [])
      | ':' :: rest => do
        let (minutes, rest) ← digits? 2 2 rest
        guard rest.isEmpty
        return some (some sign, hours, minutes)
      | _ => none
    | [] => none

/-- A time after a day. -/
def clock? (s : List Char) : Option TimeText := do
  let (hour, s) ← digits? 1 2 s
  let (minute, s) ← digits? 2 2 (← mark? ':' s)
  let (second, s) ← digits? 2 2 (← mark? ':' s)
  let (fraction, s) := match s with
    | '.' :: rest => (rest.takeWhile Char.isDigit, rest.dropWhile Char.isDigit)
    | _ => ([], s)
  return ⟨[], [], [], some (hour, minute, second, fraction), ← offset? s⟩

/-- The parts of a text that names a day or a time. -/
def timeText? (s : List Char) : Option TimeText := do
  let (year, s) ← digits? 4 4 s
  let (month, s) ← digits? 1 2 (← mark? '-' s)
  let (day, s) ← digits? 1 2 (← mark? '-' s)
  match s with
  | [] => return ⟨year, month, day, none, none⟩
  | c :: rest =>
    let after := if c = 'T' ∨ c = 't' then rest else s.dropWhile isSpace
    guard (c = 'T' ∨ c = 't' ∨ isSpace c)
    let t ← clock? after
    return { t with year, month, day }

/-- A day alone is taken for one only if month and day have two digits. -/
def isTime (s : List Char) : Bool :=
  match timeText? s with
  | some t => t.clock.isSome || s.length = 10
  | none => false

/-- The text by which a scalar is recognised: one line feed at its end does not count. -/
def recognised (text : String) : List Char :=
  match text.toList.reverse with
  | '\n' :: c :: rest => (c :: rest).reverse
  | _ => text.toList

/-- What a plain scalar is taken for. -/
def ofPlain (text : String) : Tag :=
  let s := recognised text
  if isNull s then .null
  else if isFlag s then .flag
  else if isReal s then .real
  else if isInt s then .int
  else if s = ['<', '<'] then .merge
  else if isTime s then .time
  else if s = ['='] then .value
  else if s = ['!'] ∨ s = ['&'] ∨ s = ['*'] then .other (standard ++ "yaml")
  else .text

end Tag

end MailRules.Yaml
