import MailRules.Buffers
import MailRules.Tree.Host

/-! Artifacts as files: made, written and removed. A file that is refused does not stop the
others. -/
namespace MailRules.Host

/-- Makes a directory with its parents; answers with a message if that is refused. -/
def createDirectory (name : String) : Action Host (Option String) := do
  let (h, outcome) := (← Action.get).makePath (Path.ofString name)
  Action.set h
  match outcome with
  | .ok () => return none
  | .error r => return some ("Failed to mkdir '" ++ name ++ "': " ++ r.message)

/-- What cleaning removed, and the messages about what it could not. -/
structure Cleaning where
  removed : List String := []
  errors : List String := []
deriving DecidableEq, Repr

/-- Removes the files at the paths, in order. -/
def removeFiles : List String → Action Host Cleaning
  | [] => return {}
  | path :: rest => do
    let h ← Action.get
    let target := Path.ofString path
    if !(← Action.ofExcept (h.isFile target)) then removeFiles rest
    else
      Action.debug ("Removing old file " ++ path)
      match h.unlink target with
      | .ok h =>
        Action.set h
        let later ← removeFiles rest
        return { later with removed := path :: later.removed }
      | .error r =>
        Action.debug ("Could not remove " ++ path ++ ": " ++ r.message)
        let later ← removeFiles rest
        return { later with errors := ("Could not remove " ++ path) :: later.errors }

/-- Removes the files at the paths, each once, in the order of the paths. -/
def clean (paths : List String) : Action Host Cleaning :=
  removeFiles (Text.sortedUnique paths)

/-- Writes a text to a file, whose directory is made if need be. -/
def writeInto (h : Host) (target : Path) (text : String) : Host × Except Refusal Unit :=
  match h.makePath target.parent with
  | (h, .error r) => (h, .error r)
  | (h, .ok ()) =>
    match h.writeText target text with
    | .error r => (h, .error r)
    | .ok h => (h, .ok ())

/-- Writes lines to a file; without lines nothing is done. Answers with a message if the file is
refused. -/
def writeFile (path : String) (lines : List String) : Action Host (Option String) := do
  if lines.isEmpty then return none
  let (h, outcome) := (← Action.get).writeInto (Path.ofString path) (String.join lines)
  Action.set h
  match outcome with
  | .ok () => return none
  | .error r =>
    Action.debug ("Could not write " ++ path ++ ": " ++ r.message)
    return some ("Could not open " ++ path ++ " for writing")

/-- What was written, and the messages about what could not be. -/
structure Writing where
  written : List String := []
  errors : List String := []
deriving DecidableEq, Repr

/-- Writes the lines at the paths, one path after the other. -/
def writePaths {α : Type} (render : α → String) (b : Buffers α) :
    List String → Action Host Writing
  | [] => return {}
  | path :: rest => do
    let message ← writeFile path (((b.get? path).getD []).map render)
    let later ← writePaths render b rest
    match message with
    | none => return { later with written := path :: later.written }
    | some m => return { later with errors := m :: later.errors }

/-- Writes every path that has lines, in load order. -/
def writeBuffers {α : Type} (render : α → String) (b : Buffers α) : Action Host Writing :=
  writePaths render b b.nonEmpty

/-- Checks the rules in a directory. -/
def verify (directory : Path) : Action Host Verification := do
  Action.say [Linter.notice (Linter.command Linter.program directory)]
  return (← Action.get).linter.verify Linter.program Linter.patience

end MailRules.Host
