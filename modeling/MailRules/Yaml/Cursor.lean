/-! A place in a text in the YAML notation, and the steps that a scan takes from there.

The end of the text shows as the null character, which no text holds. A line ends at a line feed,
a next-line control or one of the two Unicode separators. -/
namespace MailRules.Yaml

/-- Why a text gives no value. -/
inductive Problem
  /-- The text breaks a rule of the notation. -/
  | malformed
  /-- A number or a day that there is none of. -/
  | noSuchNumber
  /-- A character code beyond what a machine word holds. -/
  | hugeCode
  /-- A text that is marked as a flag and names none. -/
  | noSuchFlag (text : String)
  /-- An empty text that is marked as a number. -/
  | emptyNumber
  /-- A text that is marked as a time and is none. -/
  | noSuchTime
deriving DecidableEq, Repr

/-- The text from a place on, and how far that is from the start of the text and of the line. -/
structure Cursor where
  rest : List Char
  index : Nat := 0
  line : Nat := 0
  column : Nat := 0

/-- Ends a line. -/
def isBreak (c : Char) : Bool :=
  c = '\n' || c = '\u0085' || c = '\u2028' || c = '\u2029'

/-- Ends a line or the text. -/
def isEnd (c : Char) : Bool := c = '\x00' || isBreak c

/-- A space, or the end of a line or of the text. -/
def isGap (c : Char) : Bool := c = ' ' || isEnd c

/-- A gap or a tab. -/
def isWide (c : Char) : Bool := c = '\t' || isGap c

/-- Letters and digits of the basic alphabet, hyphens and underscores. -/
def isNameChar (c : Char) : Bool := c.isAlphanum || c = '-' || c = '_'

def isHexDigit (c : Char) : Bool :=
  c.isDigit || ('a' ≤ c && c ≤ 'f') || ('A' ≤ c && c ≤ 'F')

/-- The number that hexadecimal digits write. -/
def hexValue (digits : List Char) : Nat :=
  digits.foldl (fun n c =>
    16 * n + if c.isDigit then c.toNat - 48 else c.toLower.toNat - 87) 0

namespace Cursor

/-- The character `n` places ahead. -/
def peek (c : Cursor) (n : Nat) : Char := c.rest.getD n '\x00'

/-- One character further; a byte order mark takes up no column. -/
def next (c : Cursor) : Cursor :=
  match c.rest with
  | [] => c
  | ch :: rest =>
    if isBreak ch then { rest, index := c.index + 1, line := c.line + 1, column := 0 }
    else if ch = '\ufeff' then { c with rest, index := c.index + 1 }
    else { c with rest, index := c.index + 1, column := c.column + 1 }

def advance (c : Cursor) : Nat → Cursor
  | 0 => c
  | n + 1 => c.next.advance n

/-- A line that begins with three hyphens or three dots separates documents. -/
def atSeparator (c : Cursor) : Bool :=
  (c.rest.take 3 = ['-', '-', '-'] || c.rest.take 3 = ['.', '.', '.']) && isWide (c.peek 3)

end Cursor

/-- A scan: it moves a cursor, and ends early at a problem. -/
abbrev Scan (α : Type) := StateT Cursor (Except Problem) α

namespace Scan

def refuse {α : Type} : Scan α := throw .malformed

/-- The character `n` places ahead. -/
def peekAt (n : Nat) : Scan Char := return (← get).peek n

def peek : Scan Char := peekAt 0

def advance (n : Nat) : Scan Unit := modify (·.advance n)

/-- The run of characters that pass a test, passed over. -/
def takeWhile (test : Char → Bool) : Scan (List Char) := do
  let found := (← get).rest.takeWhile test
  advance found.length
  return found

def skip (test : Char → Bool) : Scan Unit := do
  discard (takeWhile test)

/-- A bound for loops that pass over a character at least each time. -/
def room : Scan Nat := return (← get).rest.length + 1

/-- The end of a line as it counts in a text; nothing if there is none. -/
def takeBreak : Scan (List Char) := do
  let c ← peek
  if !isBreak c then return []
  advance 1
  return [if c = '\u0085' then '\n' else c]

/-- Passes over spaces, a comment and the end of the line, which have to follow. -/
def finishLine : Scan Unit := do
  skip (· = ' ')
  if (← peek) = '#' then skip (!isEnd ·)
  if !isEnd (← peek) then refuse
  discard takeBreak

end Scan

end MailRules.Yaml
