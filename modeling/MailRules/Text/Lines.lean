/-! Lines of a text.

Beside the line feed, a text breaks at the vertical tab, the form feed, the information
separators, the next-line control and the two Unicode separators; a carriage return and the line
feed after it are one break. -/
namespace MailRules.Text

/-- Characters at which a line ends. -/
def isBreak (c : Char) : Bool :=
  c = '\n' || c = '\r' || c = '\x0b' || c = '\x0c' || c = '\x1c' || c = '\x1d' || c = '\x1e'
    || c = '\u0085' || c = '\u2028' || c = '\u2029'

/-- Puts one character before the first line. -/
def consLine (c : Char) : List (List Char) → List (List Char)
  | [] => [[c]]
  | line :: later => (c :: line) :: later

/-- The lines of a text, without their breaks; a break at the end opens no further line. -/
def lines : List Char → List (List Char)
  | [] => []
  | '\r' :: '\n' :: rest => [] :: lines rest
  | c :: rest => if isBreak c then [] :: lines rest else consLine c (lines rest)

/-- Each of the three usual line ends becomes a line feed. -/
def unifyNewlines : List Char → List Char
  | [] => []
  | '\r' :: '\n' :: rest => '\n' :: unifyNewlines rest
  | c :: rest => (if c = '\r' then '\n' else c) :: unifyNewlines rest

/-- `lines` on strings. -/
def linesOf (s : String) : List String :=
  (lines s.toList).map String.ofList

end MailRules.Text
