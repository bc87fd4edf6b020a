import MailRules.Yaml.ScalarText

/-! Tokens of the YAML notation.

Where a mapping begins shows only at its first colon: what stands before it on the line was a
key. So the scan keeps, for each level of brackets, the place of a token that may be a key, and
puts the marks of the key and of the mapping there once the colon comes. -/
namespace MailRules.Yaml

/-- The handle and the rest of a tag. -/
structure TagName where
  handle : Option String
  suffix : String
deriving DecidableEq, Repr

inductive Token
  | version (major : Nat)
  | tagHandle (handle path : String)
  | directive
  | documentStart
  | documentEnd
  | blockSequenceStart
  | blockMappingStart
  | blockEnd
  | flowSequenceStart
  | flowSequenceEnd
  | flowMappingStart
  | flowMappingEnd
  | flowEntry
  | blockEntry
  | key
  | value
  | alias (name : String)
  | anchor (name : String)
  | tag (name : TagName)
  | scalar (isPlain : Bool) (text : String)
  | streamEnd
deriving DecidableEq, Repr

/-- A token that may turn out to be a key. -/
structure PossibleKey where
  /-- How many tokens come before it. -/
  position : Nat
  /-- Without a colon after it the text is malformed. -/
  isRequired : Bool
  index : Nat
  line : Nat
  column : Nat

/-- A scan of tokens. -/
structure Lexer where
  tokens : Array Token := #[]
  /-- How many brackets are open. -/
  flow : Nat := 0
  indent : Int := -1
  /-- The indentations around the present one, the nearest first. -/
  outer : List Int := []
  keyAllowed : Bool := true
  /-- The possible key of each level of brackets. -/
  keys : List (Nat × PossibleKey) := []

/-- A step of the scan; what it found before a problem stays. -/
abbrev Lex (α : Type) := StateT Lexer (StateT Cursor (Except Problem)) α

namespace Lex

def scan {α : Type} (s : Scan α) : Lex α := liftM s

def refuse {α : Type} : Lex α := throw .malformed

def emit (t : Token) : Lex Unit := modify fun l => { l with tokens := l.tokens.push t }

def allowKey (b : Bool) : Lex Unit := modify fun l => { l with keyAllowed := b }

/-- Puts a token before those from `position` on. -/
def insertAt (position : Nat) (t : Token) : Lex Unit :=
  modify fun l => { l with tokens := l.tokens.insertIdxIfInBounds position t }

/-! ### Possible keys -/

/-- Forgets the possible keys that the scan has left behind. -/
def dropStaleKeys : Lex Unit := do
  let c ← scan get
  let isStale (k : PossibleKey) : Bool := k.line ≠ c.line || 1024 < c.index - k.index
  if (← get).keys.any fun e => isStale e.2 && e.2.isRequired then refuse
  modify fun l => { l with keys := l.keys.filter fun e => !isStale e.2 }

/-- Forgets the possible key of the present level. -/
def removeKey : Lex Unit := do
  let l ← get
  match l.keys.lookup l.flow with
  | none => return ()
  | some k =>
    if k.isRequired then refuse
    set { l with keys := l.keys.filter (·.1 ≠ l.flow) }

/-- The next token may be a key. -/
def saveKey : Lex Unit := do
  let l ← get
  let c ← scan get
  let isRequired := l.flow = 0 && l.indent = c.column
  if l.keyAllowed then
    removeKey
    modify fun l => { l with keys :=
      (l.flow, ⟨l.tokens.size, isRequired, c.index, c.line, c.column⟩) :: l.keys }

/-! ### Indentation -/

/-- Closes the blocks that are indented more than `column`. -/
def unwind (column : Int) : Lex Unit := do
  let l ← get
  if l.flow = 0 then
    let all := l.indent :: l.outer
    let closed := (all.takeWhile (column < ·)).length
    let left := all.drop closed
    set { l with
      tokens := l.tokens ++ Array.replicate closed Token.blockEnd
      indent := left.headD (-1)
      outer := left.drop 1 }

/-- Opens a block at `column`, if that is further in; says whether it did. -/
def indentTo (column : Int) : Lex Bool := do
  let l ← get
  if l.indent < column then
    set { l with indent := column, outer := l.indent :: l.outer }
    return true
  else return false

def column : Lex Int := return (← scan get).column

/-! ### Tokens -/

/-- A mark of the given length. -/
def mark (length : Nat) (t : Token) : Lex Unit := do
  scan (Scan.advance length)
  emit t

def streamEnd : Lex Unit := do
  unwind (-1)
  removeKey
  modify fun l => { l with keyAllowed := false, keys := [] }
  emit .streamEnd

/-- A mark between documents. -/
def documentMark (t : Token) : Lex Unit := do
  unwind (-1)
  removeKey
  allowKey false
  mark 3 t

def flowStart (t : Token) : Lex Unit := do
  saveKey
  modify fun l => { l with flow := l.flow + 1, keyAllowed := true }
  mark 1 t

/-- A closing bracket; one that closes nothing is refused. -/
def flowEnd (t : Token) : Lex Unit := do
  removeKey
  if (← get).flow = 0 then refuse
  modify fun l => { l with flow := l.flow - 1, keyAllowed := false }
  mark 1 t

def flowEntry : Lex Unit := do
  allowKey true
  removeKey
  mark 1 .flowEntry

def blockEntry : Lex Unit := do
  let l ← get
  if l.flow = 0 then
    if !l.keyAllowed then refuse
    if ← indentTo (← column) then emit .blockSequenceStart
  allowKey true
  removeKey
  mark 1 .blockEntry

/-- A question mark before a key. -/
def keyMark : Lex Unit := do
  let l ← get
  if l.flow = 0 then
    if !l.keyAllowed then refuse
    if ← indentTo (← column) then emit .blockMappingStart
  allowKey (l.flow = 0)
  removeKey
  mark 1 .key

/-- A colon: it makes the possible key before it a key. -/
def valueMark : Lex Unit := do
  let l ← get
  match l.keys.lookup l.flow with
  | some k =>
    set { l with keys := l.keys.filter (·.1 ≠ l.flow) }
    insertAt k.position .key
    if l.flow = 0 then
      if ← indentTo k.column then insertAt k.position .blockMappingStart
    allowKey false
  | none =>
    if l.flow = 0 then
      if !l.keyAllowed then refuse
      if ← indentTo (← column) then emit .blockMappingStart
    allowKey (l.flow = 0)
    removeKey
  mark 1 .value

/-- The name after an ampersand or a star. -/
def anchorName : Scan String := do
  Scan.advance 1
  let name ← Scan.takeWhile isNameChar
  let c ← Scan.peek
  if name.isEmpty then Scan.refuse
  if !(isWide c || ['?', ':', ',', ']', '\x7d', '%', '@', '\x60'].contains c) then Scan.refuse
  return String.ofList name

def named (t : String → Token) : Lex Unit := do
  saveKey
  allowKey false
  emit (t (← scan anchorName))

/-! ### Tags and directives -/

/-- The byte after a percent sign. -/
def escapedByte : Scan Nat := do
  Scan.advance 1
  let digits := (← get).rest.take 2
  if digits.length ≠ 2 ∨ !digits.all isHexDigit then Scan.refuse
  Scan.advance 2
  return hexValue digits

/-- Bytes that are written with percent signs. -/
def escapedBytes : (fuel : Nat) → Scan (List Nat)
  | 0 => return []
  | fuel + 1 => do
    if (← Scan.peek) = '%' then return (← escapedByte) :: (← escapedBytes fuel)
    else return []

def isTagChar (c : Char) : Bool :=
  c.isAlphanum || "-;/?:@&=+$,_.!~*'()[]".toList.contains c

/-- The text of a tag, with its escapes resolved. -/
def tagText : (fuel : Nat) → Scan (List Char)
  | 0 => return []
  | fuel + 1 => do
    let run ← Scan.takeWhile isTagChar
    if (← Scan.peek) = '%' then
      let bytes ← escapedBytes (← Scan.room)
      match String.fromUTF8? ⟨(bytes.map Nat.toUInt8).toArray⟩ with
      | some s => return run ++ s.toList ++ (← tagText fuel)
      | none => Scan.refuse
    else return run

def tagPath : Scan String := do
  let text ← tagText (← Scan.room)
  if text.isEmpty then Scan.refuse
  return String.ofList text

/-- A handle: one exclamation mark, or a name between two. -/
def tagHandle : Scan String := do
  if (← Scan.peek) ≠ '!' then Scan.refuse
  Scan.advance 1
  if (← Scan.peek) = ' ' then return "!"
  let name ← Scan.takeWhile isNameChar
  if (← Scan.peek) ≠ '!' then Scan.refuse
  Scan.advance 1
  return String.ofList ('!' :: name ++ ['!'])

def tagName : Scan TagName := do
  let c ← Scan.peekAt 1
  let name ← do
    if c = '<' then
      Scan.advance 2
      let suffix ← tagPath
      if (← Scan.peek) ≠ '>' then Scan.refuse
      Scan.advance 1
      pure ⟨none, suffix⟩
    else if isWide c then
      Scan.advance 1
      pure ⟨none, "!"⟩
    else
      let ahead := ((← get).rest.drop 1).takeWhile (!isGap ·)
      if ahead.contains '!' then
        let handle ← tagHandle
        pure ⟨some handle, ← tagPath⟩
      else
        Scan.advance 1
        pure ⟨some "!", ← tagPath⟩
  if !isGap (← Scan.peek) then Scan.refuse
  return name

def tag : Lex Unit := do
  saveKey
  allowKey false
  emit (.tag (← scan tagName))

def versionNumber : Scan Nat := do
  let digits ← Scan.takeWhile Char.isDigit
  if digits.isEmpty then Scan.refuse
  return digits.foldl (fun n c => 10 * n + (c.toNat - 48)) 0

/-- A line that begins with a percent sign. -/
def directiveLine : Scan Token := do
  Scan.advance 1
  let name ← Scan.takeWhile isNameChar
  if name.isEmpty then Scan.refuse
  if !isGap (← Scan.peek) then Scan.refuse
  let t ← do
    if name = "YAML".toList then
      Scan.skip (· = ' ')
      let major ← versionNumber
      if (← Scan.peek) ≠ '.' then Scan.refuse
      Scan.advance 1
      discard versionNumber
      if !isGap (← Scan.peek) then Scan.refuse
      pure (Token.version major)
    else if name = "TAG".toList then
      Scan.skip (· = ' ')
      let handle ← tagHandle
      if (← Scan.peek) ≠ ' ' then Scan.refuse
      Scan.skip (· = ' ')
      let path ← tagPath
      if !isGap (← Scan.peek) then Scan.refuse
      pure (Token.tagHandle handle path)
    else
      Scan.skip (!isEnd ·)
      pure Token.directive
  Scan.finishLine
  return t

def directive : Lex Unit := do
  unwind (-1)
  removeKey
  allowKey false
  emit (← scan directiveLine)

/-! ### Scalars -/

def blockScalar : Lex Unit := do
  allowKey true
  removeKey
  let text ← scan (Scan.block (← get).indent)
  emit (.scalar false (String.ofList text))

def quotedScalar : Lex Unit := do
  saveKey
  allowKey false
  emit (.scalar false (String.ofList (← scan Scan.quoted)))

def plainScalar : Lex Unit := do
  saveKey
  let l ← get
  let (text, ended) ← scan (Scan.plain (0 < l.flow) (l.indent + 1))
  allowKey ended
  emit (.scalar true (String.ofList text))

/-! ### The whole text -/

/-- Passes over spaces, comments and line ends; after a line end a key may come. -/
def skipGaps : (fuel : Nat) → Lex Unit
  | 0 => return ()
  | fuel + 1 => do
    scan (Scan.skip (· = ' '))
    if (← scan Scan.peek) = '#' then scan (Scan.skip (!isEnd ·))
    if isBreak (← scan Scan.peek) then
      discard (scan Scan.takeBreak)
      if (← get).flow = 0 then allowKey true
      skipGaps fuel

/-- A plain scalar may begin with the character `c` before `after`. -/
def startsPlain (inFlow : Bool) (c after : Char) : Bool :=
  let marks := "-?:,[]\x7b\x7d#&*!|>'\"%@\x60".toList
  !(isWide c || marks.contains c)
    || (!isWide after && (c = '-' || (!inFlow && (c = '?' || c = ':'))))

/-- Takes the next token; says whether there may be more. -/
def step : Lex Bool := do
  if (← scan get).index = 0 ∧ (← scan Scan.peek) = '\ufeff' then scan (Scan.advance 1)
  skipGaps (← scan Scan.room)
  dropStaleKeys
  let here ← scan get
  unwind here.column
  let c := here.peek 0
  let after := here.peek 1
  let inFlow := 0 < (← get).flow
  let closes := inFlow || isWide after
  if c = '\x00' then
    streamEnd
    return false
  if c = '%' ∧ here.column = 0 then directive
  else if here.column = 0 ∧ here.atSeparator then
    documentMark (if c = '-' then .documentStart else .documentEnd)
  else if c = '[' then flowStart .flowSequenceStart
  else if c = '\x7b' then flowStart .flowMappingStart
  else if c = ']' then flowEnd .flowSequenceEnd
  else if c = '\x7d' then flowEnd .flowMappingEnd
  else if c = ',' then flowEntry
  else if c = '-' ∧ isWide after then blockEntry
  else if c = '?' ∧ closes then keyMark
  else if c = ':' ∧ closes then valueMark
  else if c = '*' then named .alias
  else if c = '&' then named .anchor
  else if c = '!' then tag
  else if (c = '|' ∨ c = '>') ∧ !inFlow then blockScalar
  else if c = '\'' ∨ c = '\"' then quotedScalar
  else if startsPlain inFlow c after then plainScalar
  else refuse
  return true

end Lex

/-- Characters that a text may hold. -/
def isTextChar (c : Char) : Bool :=
  let n := c.toNat
  c = '\t' || c = '\n' || c = '\r' || (0x20 ≤ n && n ≤ 0x7e) || n = 0x85
    || (0xa0 ≤ n && n ≤ 0xd7ff) || (0xe000 ≤ n && n ≤ 0xfffd) || 0x10000 ≤ n

/-- The tokens of a text, with the problem that ended the scan if one did. -/
def scanTokens (cursor : Cursor) (lexer : Lexer) : (fuel : Nat) → List Token × Option Problem
  | 0 => (lexer.tokens.toList, none)
  | fuel + 1 =>
    match (Lex.step.run lexer).run cursor with
    | .error p => (lexer.tokens.toList, some p)
    | .ok ((more, lexer), cursor) =>
      if more then scanTokens cursor lexer fuel else (lexer.tokens.toList, none)

/-- The tokens of a whole text. -/
def tokensOf (text : String) : List Token × Option Problem :=
  if text.toList.all isTextChar then scanTokens { rest := text.toList } {} (text.length + 2)
  else ([], some .malformed)

end MailRules.Yaml
