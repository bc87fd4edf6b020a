import MailRules.Yaml.Cursor

/-! The text of a scalar: plain, in quotes, or as an indented block.

Lines of plain and quoted scalars are folded: a single line end counts as a space, and of several
the first does not count. A block keeps its lines or folds them, and its header tells what becomes
of the line ends after it. -/
namespace MailRules.Yaml.Scan

/-! ### Folding -/

/-- A line end and the empty lines after it, folded. -/
def fold (first : List Char) (later : List Char) : List Char :=
  (if first ≠ ['\n'] then first else if later.isEmpty then [' '] else []) ++ later

/-! ### Quotes -/

/-- The characters that an escape with one letter stands for. -/
def escapes : List (Char × Char) :=
  [('0', '\x00'), ('a', '\x07'), ('b', '\x08'), ('t', '\t'), ('\t', '\t'), ('n', '\n'),
    ('v', '\x0b'), ('f', '\x0c'), ('r', '\r'), ('e', '\x1b'), (' ', ' '), ('\"', '\"'),
    ('\\', '\\'), ('/', '/'), ('N', '\u0085'), ('_', '\u00a0'), ('L', '\u2028'), ('P', '\u2029')]

/-- How many hexadecimal digits an escape has. -/
def escapeWidth? (c : Char) : Option Nat :=
  if c = 'x' then some 2 else if c = 'u' then some 4 else if c = 'U' then some 8 else none

/-- The empty lines of a quoted scalar; no line may separate documents. -/
def quotedBreaks : (fuel : Nat) → Scan (List Char)
  | 0 => return []
  | fuel + 1 => do
    if (← get).atSeparator then refuse
    skip fun c => c = ' ' || c = '\t'
    if isBreak (← peek) then return (← takeBreak) ++ (← quotedBreaks fuel)
    else return []

/-- The character with a code that is written in hexadecimal digits. -/
def escapedCode (width : Nat) : Scan (List Char) := do
  let digits := (← get).rest.take width
  if digits.length ≠ width ∨ !digits.all isHexDigit then refuse
  let code := hexValue digits
  if 0x7fffffff < code then throw .hugeCode
  if 0x10ffff < code then throw .noSuchNumber
  advance width
  return [Char.ofNat code]

/-- What stands after a backslash. -/
def escaped : Scan (List Char) := do
  let c ← peek
  match escapes.lookup c with
  | some d =>
    advance 1
    return [d]
  | none =>
    match escapeWidth? c with
    | some width =>
      advance 1
      escapedCode width
    | none =>
      if !isBreak c then refuse
      discard takeBreak
      quotedBreaks (← room)

/-- Characters of a quoted scalar up to the next blank or the end of the scalar. -/
def quotedSolid (double : Bool) : (fuel : Nat) → Scan (List Char)
  | 0 => return []
  | fuel + 1 => do
    let run ← takeWhile fun c =>
      !(c = '\'' || c = '\"' || c = '\\' || c = '\t' || isGap c)
    let c ← peek
    if !double && c = '\'' && (← peekAt 1) = '\'' then
      advance 2
      return run ++ '\'' :: (← quotedSolid double fuel)
    else if (double && c = '\'') || (!double && (c = '\"' || c = '\\')) then
      advance 1
      return run ++ c :: (← quotedSolid double fuel)
    else if double && c = '\\' then
      advance 1
      let here ← escaped
      return run ++ here ++ (← quotedSolid double fuel)
    else return run

/-- Blanks of a quoted scalar; line ends among them are folded. -/
def quotedBlanks : Scan (List Char) := do
  let blanks ← takeWhile fun c => c = ' ' || c = '\t'
  let c ← peek
  if c = '\x00' then refuse
  else if isBreak c then
    let first ← takeBreak
    return fold first (← quotedBreaks (← room))
  else return blanks

/-- A quoted scalar from its opening quote on. -/
def quoted : Scan (List Char) := do
  let quote ← peek
  let double := quote = '\"'
  advance 1
  let rec parts : (fuel : Nat) → Scan (List Char)
    | 0 => return []
    | fuel + 1 => do
      if (← peek) = quote then return []
      let blanks ← quotedBlanks
      let solid ← quotedSolid double (← room)
      return blanks ++ solid ++ (← parts fuel)
  let first ← quotedSolid double (← room)
  let later ← parts (← room)
  advance 1
  return first ++ later

/-! ### Plain scalars -/

/-- How many characters of a plain scalar come next. -/
def plainRun (inFlow : Bool) : List Char → Nat
  | [] => 0
  | c :: rest =>
    let after := rest.headD '\x00'
    let isFlow (d : Char) : Bool :=
      inFlow && (d = ',' || d = '[' || d = ']' || d = '\x7b' || d = '\x7d')
    if isWide c || (c = ':' && (isWide after || isFlow after)) || isFlow c || (inFlow && c = '?')
    then 0
    else plainRun inFlow rest + 1

/-- Empty lines within a plain scalar; nothing if a separator of documents comes. -/
def plainBreaks : (fuel : Nat) → Scan (Option (List Char))
  | 0 => return some []
  | fuel + 1 => do
    let c ← peek
    if c = ' ' then
      advance 1
      plainBreaks fuel
    else if isBreak c then
      let one ← takeBreak
      if (← get).atSeparator then return none
      return (← plainBreaks fuel).map (one ++ ·)
    else return some []

/-- Blanks within a plain scalar, folded, and whether a line ended; no characters, if the scalar
ends here. -/
def plainBlanks : Scan (List Char × Bool) := do
  let spaces ← takeWhile (· = ' ')
  if isBreak (← peek) then
    let first ← takeBreak
    if (← get).atSeparator then return ([], true)
    match ← plainBreaks (← room) with
    | none => return ([], true)
    | some later => return (fold first later, true)
  else return (spaces, false)

/-- A plain scalar, and whether a line ended after its last characters. In the block context its
lines have to be indented by `indent` at least. -/
def plain (inFlow : Bool) (indent : Int) : Scan (List Char × Bool) := do
  let rec parts (spaces : List Char) (ended : Bool) : (fuel : Nat) → Scan (List Char × Bool)
    | 0 => return ([], ended)
    | fuel + 1 => do
      if (← peek) = '#' then return ([], ended)
      let here := plainRun inFlow (← get).rest
      if here = 0 then return ([], ended)
      let run := (← get).rest.take here
      advance here
      let (blanks, ended) ← plainBlanks
      let solid := spaces ++ run
      if blanks.isEmpty || (← peek) = '#' || (!inFlow && ((← get).column : Int) < indent) then
        return (solid, ended)
      let (later, ended) ← parts blanks ended fuel
      return (solid ++ later, ended)
  parts [] false (← room)

/-! ### Blocks -/

/-- What becomes of the line ends after a block. -/
inductive Chomp
  | strip
  | clip
  | keep
deriving DecidableEq, Repr

/-- The header of a block: what becomes of its last line ends, and its indentation if it tells. -/
def blockHeader : Scan (Chomp × Option Nat) := do
  let sign : Scan (Option Chomp) := do
    let c ← peek
    if c = '+' ∨ c = '-' then
      advance 1
      return some (if c = '+' then .keep else .strip)
    else return none
  let digit : Scan (Option Nat) := do
    let c ← peek
    if c = '0' then refuse
    else if c.isDigit then
      advance 1
      return some (c.toNat - 48)
    else return none
  let answer ← do
    match ← sign with
    | some chomp => pure (chomp, ← digit)
    | none =>
      match ← digit with
      | some n => pure ((← sign).getD .clip, some n)
      | none => pure (.clip, none)
  if !isGap (← peek) then refuse
  return answer

/-- Empty lines at the front of a block, and the greatest column that their spaces reach. -/
def leadingBreaks (widest : Nat) : (fuel : Nat) → Scan (List Char × Nat)
  | 0 => return ([], widest)
  | fuel + 1 => do
    let c ← peek
    if c = ' ' then
      advance 1
      leadingBreaks (max widest (← get).column) fuel
    else if isBreak c then
      let one ← takeBreak
      let (later, widest) ← leadingBreaks widest fuel
      return (one ++ later, widest)
    else return ([], widest)

/-- Passes over at most `n` spaces. -/
def skipSpaces : (n : Nat) → Scan Unit
  | 0 => return ()
  | n + 1 => do
    if (← peek) = ' ' then
      advance 1
      skipSpaces n

/-- Empty lines of a block that is indented by `indent`, and the indentation of the next line. -/
def blockBreaks (indent : Nat) : (fuel : Nat) → Scan (List Char)
  | 0 => return []
  | fuel + 1 => do
    skipSpaces (indent - (← get).column)
    if isBreak (← peek) then
      let one ← takeBreak
      return one ++ (← blockBreaks indent fuel)
    else return []

/-- The lines of a block from the cursor on; the empty lines before them are `breaks`. -/
def blockLines (folded : Bool) (chomp : Chomp) (indent : Nat) (breaks : List Char) :
    (fuel : Nat) → Scan (List Char)
  | 0 => return []
  | fuel + 1 => do
    let isBlank (c : Char) : Bool := c = ' ' || c = '\t'
    let solid := !isBlank (← peek)
    let run ← takeWhile (!isEnd ·)
    let ending ← takeBreak
    let later ← blockBreaks indent (← room)
    let c ← peek
    if (← get).column = indent && c ≠ '\x00' then
      let joint :=
        if folded && ending = ['\n'] && solid && !isBlank c then
          if later.isEmpty then [' '] else []
        else ending
      return breaks ++ run ++ joint ++ (← blockLines folded chomp indent later fuel)
    else
      let tail := match chomp with
        | .strip => []
        | .clip => ending
        | .keep => ending ++ later
      return breaks ++ run ++ tail

/-- A block from its indicator on, within a context that is indented by `outer`. -/
def block (outer : Int) : Scan (List Char) := do
  let folded := (← peek) = '>'
  advance 1
  let (chomp, increment) ← blockHeader
  finishLine
  let least := (outer + 1).toNat.max 1
  let (indent, breaks) ← do
    match increment with
    | none =>
      let (breaks, widest) ← leadingBreaks 0 (← room)
      pure (max least widest, breaks)
    | some n =>
      let indent := least + n - 1
      pure (indent, ← blockBreaks indent (← room))
  if (← get).column = indent && (← peek) ≠ '\x00' then
    blockLines folded chomp indent breaks (← room)
  else return if chomp = .keep then breaks else []

end MailRules.Yaml.Scan
