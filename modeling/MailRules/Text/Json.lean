import MailRules.Binary64.Decimal
import MailRules.Text.Quoted

/-! Structured text in the JSON notation, indented by two spaces. -/
namespace MailRules

inductive Json
  | null
  | bool (b : Bool)
  | int (n : Int)
  | real (x : Binary64)
  | text (s : String)
  | list (items : List Json)
  | object (members : List (String × Json))
deriving Inhabited

namespace Json

/-- Whether characters beyond the basic ones are written as escapes. -/
inductive Charset
  | basic
  | full
deriving DecidableEq, Repr

/-- The escape of a code point, in halves if it needs more than four digits. -/
def escapeCode (n : Nat) : List Char :=
  if n < 0x10000 then '\\' :: 'u' :: Text.hexDigits 4 n
  else
    let m := n - 0x10000
    '\\' :: 'u' :: Text.hexDigits 4 (0xd800 + m / 0x400)
      ++ '\\' :: 'u' :: Text.hexDigits 4 (0xdc00 + m % 0x400)

def escapeChar (charset : Charset) (c : Char) : List Char :=
  if c = '\"' ∨ c = '\\' then ['\\', c]
  else if c = '\n' then ['\\', 'n']
  else if c = '\r' then ['\\', 'r']
  else if c = '\t' then ['\\', 't']
  else if c = '\x08' then ['\\', 'b']
  else if c = '\x0c' then ['\\', 'f']
  else if c.toNat < 32 ∨ (charset = .basic ∧ 126 < c.toNat) then escapeCode c.toNat
  else [c]

def quote (charset : Charset) (s : String) : String :=
  String.ofList ('\"' :: s.toList.flatMap (escapeChar charset) ++ ['\"'])

def realText (x : Binary64) : String :=
  match x with
  | .infinite negative => if negative then "-Infinity" else "Infinity"
  | .nan => "NaN"
  | x => x.toText

/-- Items between brackets, one a line at the depth below `depth`. -/
def block (opening closing : String) (depth : Nat) (items : List String) : String :=
  if items.isEmpty then opening ++ closing
  else
    let inner := "\n" ++ "".pushn ' ' (2 * depth + 2)
    opening ++ inner ++ ("," ++ inner).intercalate items ++ "\n" ++ "".pushn ' ' (2 * depth)
      ++ closing

mutual

def render (charset : Charset) (depth : Nat) : Json → String
  | .null => "null"
  | .bool b => if b then "true" else "false"
  | .int n => toString n
  | .real x => realText x
  | .text s => quote charset s
  | .list items => block "[" "]" depth (renderAll charset (depth + 1) items)
  | .object members => block "\x7b" "\x7d" depth (renderMembers charset (depth + 1) members)

def renderAll (charset : Charset) (depth : Nat) : List Json → List String
  | [] => []
  | item :: rest => render charset depth item :: renderAll charset depth rest

def renderMembers (charset : Charset) (depth : Nat) : List (String × Json) → List String
  | [] => []
  | (name, item) :: rest =>
    (quote charset name ++ ": " ++ render charset depth item) :: renderMembers charset depth rest

end

/-- The text of a value that stands alone. -/
def toText (charset : Charset) (j : Json) : String := render charset 0 j

end Json

end MailRules
