import MailRules.Inputs.Reading
import MailRules.Output.Files
import MailRules.Report
import MailRules.Session

/-! A generator at work on a machine: it reads keyword files and writes artifacts. -/
namespace MailRules

structure Workspace where
  host : Host
  session : Session

namespace Workspace

variable {α : Type}

/-- An operation of the machine. -/
def onHost (a : Action Host α) : Action Workspace α :=
  a.on host fun w host => { w with host }

/-- An operation of the generator. -/
def onSession (a : Action Session α) : Action Workspace α :=
  a.on session fun w session => { w with session }

/-- An operation on the store, after which the last generation is forgotten. -/
def onStore (a : Action Store α) : Action Workspace α := do
  Action.modify fun w => { w with session := w.session.stale }
  onSession (a.on Session.store fun s store => { s with store })

def read (path : String) : Action Workspace Nat := do
  onStore (Store.read (← Action.get).host path)

def readAll (inputs : List String) : Action Workspace (List String) := do
  onStore (Store.readAll (← Action.get).host inputs)

/-- Makes the output directory. -/
def createDirectory : Action Workspace (Option String) := do
  onHost (Host.createDirectory (← Action.get).session.config.outputDir.text)

/-- Removes the files at the paths of the artifacts. -/
def clean : Action Workspace Host.Cleaning := do
  let paths ← onSession Session.artifactPaths
  onHost (Host.clean paths)

/-- Writes the artifacts, generated anew if need be; answers with what went wrong. -/
def writeAll : Action Workspace (List String) := do
  let buffers ← match (← Action.get).session.buffers with
    | some b => pure b
    | none => onSession Session.generate
  match ← createDirectory with
  | some message => return [message]
  | none => return (← onHost (Host.writeBuffers Rule.Line.text buffers)).errors

def verify : Action Workspace Verification := do
  onHost (Host.verify (← Action.get).session.config.outputDir)

end Workspace

/-! ### A whole build -/

namespace Build

/-- The paths by the texts of their keys, in order; of two keys with one text the greater path
counts. -/
def namedArtifacts (m : Assoc ArtifactKey String) : Assoc String String :=
  let pairs := m.entries.map fun e => (e.1.text, e.2)
  Assoc.ofList <| pairs.mergeSort fun a b => decide (a.1 < b.1) || (a.1 = b.1 && decide (a.2 ≤ b.2))

/-- How many words have a component rule, over all files. -/
def wordCount (s : Store) : Nat :=
  s.files.keys.foldl (fun n key => n + (s.componentWords key).length) 0

/-- Reads the inputs, generates, removes what an earlier build left, writes, and checks what was
written. A naming error ends it before anything is changed. -/
def steps (inputs : List String) (clean verify : Bool) : Action Workspace Report := do
  let failures ← Workspace.readAll inputs
  let buffers ← Workspace.onSession Session.generate
  let cleaning ← if clean then Workspace.clean else pure {}
  if !cleaning.removed.isEmpty then
    Action.debug ("Removed " ++ toString cleaning.removed.length ++ " stale files")
  let writing ← match ← Workspace.createDirectory with
    | some message => pure { errors := [message] }
    | none => Workspace.onHost (Host.writeBuffers Rule.Line.text buffers)
  let verification ←
    if verify && !writing.written.isEmpty then some <$> Workspace.verify else pure none
  let s := (← Action.get).session
  return {
    filesRead := s.store.files.size
    words := wordCount s.store
    artifacts := namedArtifacts s.layout.artifacts
    written := writing.written
    failures
    writeErrors := cleaning.errors ++ writing.errors
    verification }

/-- A build by a generator of its own. -/
def run (config : Config) (inputs : List String) (clean verify : Bool) : Action Host Report := do
  let h ← Action.get
  let (answer, w, notices) :=
    (steps inputs clean verify).run { host := h, session := Session.new h.homePath config }
  Action.set w.host
  Action.say notices
  Action.ofExcept answer

end Build

end MailRules
