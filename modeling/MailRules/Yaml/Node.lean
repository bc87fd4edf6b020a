import MailRules.Assoc
import MailRules.Yaml.Tag
import MailRules.Yaml.Token

/-! Nodes of a document: scalars, sequences and mappings, each with what it is taken for. -/
namespace MailRules.Yaml

inductive Node
  | scalar (tag : Tag) (text : String)
  | sequence (tag : Tag) (items : List Node)
  | mapping (tag : Tag) (pairs : List (Node × Node))
  /-- A sequence or a mapping that the node itself is part of. -/
  | enclosing (isMapping : Bool)
deriving Repr, Inhabited

/-- What is left to read, and what has been named so far. -/
structure Reader where
  tokens : List Token
  /-- What ended the scan after the last token. -/
  problem : Problem
  handles : Assoc String String := ∅
  anchors : Assoc String Node := ∅

abbrev Read (α : Type) := StateT Reader (Except Problem) α

namespace Read

def refuse {α : Type} : Read α := throw .malformed

/-- The next token. -/
def peek : Read Token := do
  match (← get).tokens with
  | t :: _ => return t
  | [] => throw (← get).problem

def drop : Read Unit := modify fun r => { r with tokens := r.tokens.drop 1 }

/-- Takes the next token, which has to be `t`. -/
def expect (t : Token) : Read Unit := do
  if (← peek) = t then drop else refuse

/-- The next token is one of these. -/
def isNext (ts : List Token) : Read Bool := return ts.contains (← peek)

/-- A node without text. -/
def empty : Node := .scalar .null ""

/-- What a tag stands for: its handle resolved, and its rest. -/
def resolveTag (t : TagName) : Read String := do
  match t.handle with
  | none => return t.suffix
  | some handle =>
    match (← get).handles.get? handle with
    | some path => return path ++ t.suffix
    | none => refuse

/-- Gives a node a name, which must be new if `fresh` says so. -/
def name (fresh : Bool) (anchor : Option String) (n : Node) : Read Unit := do
  match anchor with
  | none => return ()
  | some a =>
    if fresh && (← get).anchors.contains a then refuse
    modify fun r => { r with anchors := r.anchors.insert a n }

/-- An anchor and a tag before a node, in any order. -/
def properties : Read (Option String × Option String) := do
  match ← peek with
  | .anchor a =>
    drop
    match ← peek with
    | .tag t =>
      drop
      return (some a, some (← resolveTag t))
    | _ => return (some a, none)
  | .tag t =>
    drop
    match ← peek with
    | .anchor a =>
      drop
      return (some a, some (← resolveTag t))
    | _ => return (none, some (← resolveTag t))
  | _ => return (none, none)

/-- The tag of a node that is no scalar. -/
def tagOr (fresh : Tag) : Option String → Tag
  | none => fresh
  | some "!" => fresh
  | some t => Tag.ofName t

/-- The tag of a scalar; one without a tag of its own is taken by its text if it is plain. -/
def scalarTag (isPlain : Bool) (text : String) : Option String → Tag
  | none => if isPlain then Tag.ofPlain text else .text
  | some "!" => Tag.ofPlain text
  | some t => Tag.ofName t

mutual

/-- A node. Blocks count only where `block` says so, and hyphens without further indentation only
where `bare` does. -/
def node (block bare : Bool) : (fuel : Nat) → Read Node
  | 0 => refuse
  | fuel + 1 => do
    if let .alias a := ← peek then
      drop
      match (← get).anchors.get? a with
      | some n => return n
      | none => refuse
    let (anchor, tag) ← properties
    let sequence (items : Read (List Node)) : Read Node := do
      name true anchor (.enclosing false)
      let n := Node.sequence (tagOr .list tag) (← items)
      name false anchor n
      return n
    let mapping (pairs : Read (List (Node × Node))) : Read Node := do
      name true anchor (.enclosing true)
      let n := Node.mapping (tagOr .map tag) (← pairs)
      name false anchor n
      return n
    match ← peek with
    | .scalar isPlain text =>
      drop
      let n := Node.scalar (scalarTag isPlain text tag) text
      name true anchor n
      return n
    | .flowSequenceStart =>
      drop
      sequence (flowSequence true fuel)
    | .flowMappingStart =>
      drop
      mapping (flowMapping true fuel)
    | .blockEntry =>
      if bare then sequence (bareSequence fuel)
      else bareNode anchor tag
    | .blockSequenceStart =>
      if block then
        drop
        sequence (blockSequence fuel)
      else bareNode anchor tag
    | .blockMappingStart =>
      if block then
        drop
        mapping (blockMapping fuel)
      else bareNode anchor tag
    | _ => bareNode anchor tag
where
  /-- A node that has properties only. -/
  bareNode (anchor tag : Option String) : Read Node := do
    if anchor.isNone && tag.isNone then refuse
    let n := Node.scalar (match tag with
      | none => .null
      | some "!" => .null
      | some t => Tag.ofName t) ""
    name true anchor n
    return n

/-- A node, unless one of these tokens comes; then an empty one. -/
def nodeUnless (ts : List Token) (block bare : Bool) : (fuel : Nat) → Read Node
  | 0 => refuse
  | fuel + 1 => do
    if ← isNext ts then return empty else node block bare fuel

def blockSequence : (fuel : Nat) → Read (List Node)
  | 0 => refuse
  | fuel + 1 => do
    if ← isNext [.blockEntry] then
      drop
      let item ← nodeUnless [.blockEntry, .blockEnd] true false fuel
      return item :: (← blockSequence fuel)
    else
      expect .blockEnd
      return []

def bareSequence : (fuel : Nat) → Read (List Node)
  | 0 => refuse
  | fuel + 1 => do
    if ← isNext [.blockEntry] then
      drop
      let item ← nodeUnless [.blockEntry, .key, .value, .blockEnd] true false fuel
      return item :: (← bareSequence fuel)
    else return []

def blockMapping : (fuel : Nat) → Read (List (Node × Node))
  | 0 => refuse
  | fuel + 1 => do
    if ← isNext [.key] then
      drop
      let key ← nodeUnless [.key, .value, .blockEnd] true true fuel
      let value ← blockValue fuel
      return (key, value) :: (← blockMapping fuel)
    else if ← isNext [.blockEnd] then
      drop
      return []
    else refuse

/-- The value after a key of a block. -/
def blockValue : (fuel : Nat) → Read Node
  | 0 => refuse
  | fuel + 1 => do
    if ← isNext [.value] then
      drop
      nodeUnless [.key, .value, .blockEnd] true true fuel
    else return empty

def flowSequence (first : Bool) : (fuel : Nat) → Read (List Node)
  | 0 => refuse
  | fuel + 1 => do
    if !(← isNext [.flowSequenceEnd]) then
      if !first then expect .flowEntry
      if ← isNext [.key] then
        drop
        let key ← nodeUnless [.value, .flowEntry, .flowSequenceEnd] false false fuel
        let value ← flowValue [.flowEntry, .flowSequenceEnd] fuel
        return .mapping .map [(key, value)] :: (← flowSequence false fuel)
      else if !(← isNext [.flowSequenceEnd]) then
        let item ← node false false fuel
        return item :: (← flowSequence false fuel)
    expect .flowSequenceEnd
    return []

def flowMapping (first : Bool) : (fuel : Nat) → Read (List (Node × Node))
  | 0 => refuse
  | fuel + 1 => do
    if !(← isNext [.flowMappingEnd]) then
      if !first then expect .flowEntry
      if ← isNext [.key] then
        drop
        let key ← nodeUnless [.value, .flowEntry, .flowMappingEnd] false false fuel
        let value ← flowValue [.flowEntry, .flowMappingEnd] fuel
        return (key, value) :: (← flowMapping false fuel)
      else if !(← isNext [.flowMappingEnd]) then
        let key ← node false false fuel
        return (key, empty) :: (← flowMapping false fuel)
    expect .flowMappingEnd
    return []

/-- The value after a key between brackets; none, if one of these tokens comes. -/
def flowValue (ts : List Token) : (fuel : Nat) → Read Node
  | 0 => refuse
  | fuel + 1 => do
    if ← isNext [.value] then
      drop
      nodeUnless ts false false fuel
    else return empty

end

/-! ### Documents -/

/-- The directives before a document; `version` tells whether a version was named. -/
def directives (version : Bool) : (fuel : Nat) → Read Unit
  | 0 => refuse
  | fuel + 1 => do
    match ← peek with
    | .version major =>
      drop
      if version || major ≠ 1 then refuse
      directives true fuel
    | .tagHandle handle path =>
      drop
      if (← get).handles.contains handle then refuse
      modify fun r => { r with handles := r.handles.insert handle path }
      directives version fuel
    | .directive =>
      drop
      directives version fuel
    | _ => return ()

/-- The handles that need no directive. -/
def addHandles : Read Unit := do
  let add (r : Reader) (handle path : String) : Reader :=
    if r.handles.contains handle then r else { r with handles := r.handles.insert handle path }
  modify fun r => add (add r "!" "!") "!!" Tag.standard

def skipDocumentEnds : (fuel : Nat) → Read Unit
  | 0 => return ()
  | fuel + 1 => do
    if ← isNext [.documentEnd] then
      drop
      skipDocumentEnds fuel

/-- The next token can begin a document only by a mark of its own. -/
def isMarked : Read Bool := do
  match ← peek with
  | .version _ | .tagHandle .. | .directive | .documentStart | .streamEnd => return true
  | _ => return false

/-- The content of a document. -/
def content (fuel : Nat) : Read Node := do
  match ← peek with
  | .version _ | .tagHandle .. | .directive | .documentStart | .documentEnd | .streamEnd =>
    return empty
  | _ => node true false fuel

/-- The only document of a text; nothing if there is none. A second one is refused. -/
def document (fuel : Nat) : Read (Option Node) := do
  let finish (n : Node) : Read (Option Node) := do
    skipDocumentEnds fuel
    expect .streamEnd
    return some n
  if !(← isMarked) then
    addHandles
    finish (← node true false fuel)
  else
    skipDocumentEnds fuel
    if ← isNext [.streamEnd] then return none
    directives false fuel
    addHandles
    expect .documentStart
    finish (← content fuel)

end Read

/-- The root node of a text, if it has one. -/
def Node.ofText? (text : String) : Except Problem (Option Node) :=
  let (tokens, problem) := tokensOf text
  let fuel := 4 * tokens.length + 8
  (Read.document fuel).run' { tokens, problem := problem.getD .malformed }

end MailRules.Yaml
