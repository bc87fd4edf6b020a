import MailRules.Text.Quoted
import MailRules.Value.Basic

/-! The written form of a value.

`display` is the form that tells values of different kinds apart, with quotes around texts;
`plain` is the form within a sentence, where a text stands for itself. -/
namespace MailRules.Value

def padded (width n : Nat) : String :=
  let digits := toString n
  "".pushn '0' (width - digits.length) ++ digits

/-- A byte within quotes of the kind `quote`. -/
def escapeByte (quote : Char) (b : Nat) : List Char :=
  let c := Char.ofNat b
  if c = quote ∨ c = '\\' then ['\\', c]
  else if c = '\n' then ['\\', 'n']
  else if c = '\r' then ['\\', 'r']
  else if c = '\t' then ['\\', 't']
  else if 32 ≤ b ∧ b < 127 then [c]
  else '\\' :: 'x' :: Text.hexDigits 2 b

def displayBytes (data : List Nat) : String :=
  let quote := Text.quoteFor (data.map Char.ofNat)
  String.ofList ('b' :: quote :: data.flatMap (escapeByte quote) ++ [quote])

/-- A distance in seconds as days and seconds of a day, the days rounded down. -/
def displayDistance (seconds : Int) : String :=
  let days := seconds.fdiv 86400
  let rest := seconds.fmod 86400
  let parts :=
    (if days = 0 then [] else ["days=" ++ toString days])
      ++ (if rest = 0 then [] else ["seconds=" ++ toString rest])
  "datetime.timedelta(" ++ (if parts.isEmpty then "0" else ", ".intercalate parts) ++ ")"

def displayOffset (seconds : Int) : String :=
  if seconds = 0 then "datetime.timezone.utc"
  else "datetime.timezone(" ++ displayDistance seconds ++ ")"

def displayDate (d : Date) : String :=
  ", ".intercalate [toString d.year, toString d.month, toString d.day]

def displayClock (t : Clock) : String :=
  ", ".intercalate <|
    [toString t.hour, toString t.minute]
      ++ (if t.second = 0 ∧ t.micro = 0 then [] else [toString t.second])
      ++ (if t.micro = 0 then [] else [toString t.micro])
      ++ (t.offset.map fun o => "tzinfo=" ++ displayOffset o).toList

def plainDate (d : Date) : String :=
  padded 4 d.year ++ "-" ++ padded 2 d.month ++ "-" ++ padded 2 d.day

def plainOffset (seconds : Int) : String :=
  let size := seconds.natAbs
  let rest := if size % 60 = 0 then "" else ":" ++ padded 2 (size % 60)
  (if seconds < 0 then "-" else "+") ++ padded 2 (size / 3600) ++ ":"
    ++ padded 2 (size / 60 % 60) ++ rest

def plainClock (t : Clock) : String :=
  padded 2 t.hour ++ ":" ++ padded 2 t.minute ++ ":" ++ padded 2 t.second
    ++ (if t.micro = 0 then "" else "." ++ padded 6 t.micro)
    ++ ((t.offset.map plainOffset).getD "")

def policyLabel (p : ConflictPolicy) : String :=
  match p with
  | .last => "GlobalConflict.LAST"
  | .error => "GlobalConflict.ERROR"

mutual

def display : Value → String
  | .null => "None"
  | .bool b => if b then "True" else "False"
  | .int n => toString n
  | .real x => x.toText
  | .text s => Text.quoted s
  | .list items => "[" ++ ", ".intercalate (displayAll items) ++ "]"
  | .map entries => "\x7b" ++ ", ".intercalate (displayEntries entries) ++ "\x7d"
  | .tuple [item] => "(" ++ display item ++ ",)"
  | .tuple items => "(" ++ ", ".intercalate (displayAll items) ++ ")"
  | .set [] => "set()"
  | .set items => "\x7b" ++ ", ".intercalate (displayAll items) ++ "\x7d"
  | .date d => "datetime.date(" ++ displayDate d ++ ")"
  | .moment d t => "datetime.datetime(" ++ displayDate d ++ ", " ++ displayClock t ++ ")"
  | .bytes data => displayBytes data
  | .path p => "PosixPath(" ++ Text.quoted p.text ++ ")"
  | .policy p => "<" ++ policyLabel p ++ ": " ++ Text.quoted p.name ++ ">"
  | .recurring isMap => if isMap then "\x7b...\x7d" else "[...]"

def displayAll : List Value → List String
  | [] => []
  | v :: rest => display v :: displayAll rest

def displayEntries : List (Value × Value) → List String
  | [] => []
  | (k, v) :: rest => (display k ++ ": " ++ display v) :: displayEntries rest

end

/-- The value as a part of a sentence. -/
def plain : Value → String
  | .text s => s
  | .date d => plainDate d
  | .moment d t => plainDate d ++ " " ++ plainClock t
  | .path p => p.text
  | .policy p => policyLabel p
  | other => display other

mutual

/-- No whole number in the value has more digits than are written. -/
def isWritable : Value → Bool
  | .int n => n.natAbs < Nat.pow 10 Text.digitLimit
  | .list items => allWritable items
  | .map entries => entriesWritable entries
  | .tuple items => allWritable items
  | .set items => allWritable items
  | _ => true

def allWritable : List Value → Bool
  | [] => true
  | v :: rest => isWritable v && allWritable rest

def entriesWritable : List (Value × Value) → Bool
  | [] => true
  | (k, v) :: rest => isWritable k && isWritable v && entriesWritable rest

end

end MailRules.Value
