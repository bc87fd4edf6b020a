import MailRules.Buffers
import MailRules.Generation.Emission
import MailRules.Generation.NameCheck
import MailRules.Layout.Basic

/-! Rules generated from a store into the buffers of a layout.

Nothing is written before all names and paths are checked. -/
namespace MailRules

/-- The layout and the lines of one generation. -/
structure Generation where
  layout : Layout
  buffers : Buffers Rule.Line := {}

namespace Generation

/-- An operation on the layout alone. -/
def place {α : Type} (a : Action Layout α) : Action Generation α :=
  a.on layout fun g layout => { g with layout }

/-- Puts each line into the buffer of its destination. -/
def write (rulesPath scoresPath : String) (lines : List Emission) : Action Generation Unit :=
  let put (b : Buffers Rule.Line) (e : Emission) : Buffers Rule.Line :=
    b.append (if e.toScores then scoresPath else rulesPath) [e.line]
  Action.modify fun g => { g with buffers := lines.foldl put g.buffers }

/-- Makes a path known to the buffers. -/
def openPath (path : String) : Action Generation Unit :=
  Action.modify fun g => { g with buffers := g.buffers.append path [] }

/-- The first part of the names of a source's rules. -/
def familyOf (source : String) : Action Generation String := do
  match Rule.family? (← Action.get).layout.config.id source with
  | some family => return family
  | none => Action.fail (.noFileName source)

/-- Opens the two paths of a source. -/
def openSource (source : String) : Action Generation (String × String) := do
  let rules ← place (Layout.rulesFile source)
  openPath rules
  let scores ← place (Layout.scoresFile source)
  openPath scores
  return (rules, scores)

def generateComponents (store : Store) (source : String) : Action Generation Unit := do
  let family ← familyOf source
  let path ← place (Layout.rulesFile source)
  openPath path
  Action.debug ("Writing metas for " ++ source)
  let single := (← Action.get).layout.config.isSingle
  let rules := (store.files.get? source).getD {}
  write path path (components single family rules (store.componentWords source))

def generateScored (store : Store) (source : String) : Action Generation Unit := do
  let rules := (store.files.get? source).getD {}
  if !rules.scored.isEmpty then
    let family ← familyOf source
    let (rulesPath, scoresPath) ← openSource source
    let single := (← Action.get).layout.config.isSingle
    write rulesPath scoresPath (scored single family rules)

def generateGroups (store : Store) (source : String) : Action Generation Unit := do
  let rules := (store.files.get? source).getD {}
  if !rules.groups.isEmpty then
    let family ← familyOf source
    let (rulesPath, scoresPath) ← openSource source
    let config := (← Action.get).layout.config
    let (lines, outcome) := groups config.isSingle family (.real config.groupScore) rules
    write rulesPath scoresPath lines
    if let some e := outcome then Action.fail (.template e)

/-- The component rules that stand for the global words, in the order of the words. -/
def globalRefs (id : String) (store : Store) : Except Fault (List String) :=
  (store.origins.entries.mergeSort fun a b => decide (a.1 ≤ b.1)).mapM fun e =>
    match Rule.family? id e.2 with
    | some family => .ok (Rule.componentName family e.1)
    | none => .error (.noFileName e.2)

def generateGlobals (store : Store) : Action Generation Unit := do
  if !store.origins.isEmpty then
    let rulesPath ← place Layout.globalFile
    openPath rulesPath
    let scoresPath ← place Layout.globalScoresFile
    openPath scoresPath
    let config := (← Action.get).layout.config
    write rulesPath scoresPath (heading config.isSingle "Globals")
    let refs ← Action.ofExcept (globalRefs config.id store)
    match globals config.id (.real config.groupScore) refs with
    | .ok lines => write rulesPath scoresPath lines
    | .error e => Action.fail (.template e)

/-- Checks all names, chooses all paths, and generates the rules of every source in order and
then those over all files. -/
def generate (store : Store) : Action Generation (Buffers Rule.Line) := do
  let sources := Text.sorted store.files.keys
  let config := (← Action.get).layout.config
  Action.ofExcept (checkNames config.id store sources)
  place (Layout.resolveAll sources (!store.origins.isEmpty || config.isSingle))
  for source in sources do
    generateComponents store source
    generateScored store source
    generateGroups store source
  generateGlobals store
  return (← Action.get).buffers

end Generation

end MailRules
