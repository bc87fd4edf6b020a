import MailRules.Command.Run

/-! The program on the machine that it is run on.

The files below the working directory, and those that the arguments name elsewhere, are read
before the run, and what the run has changed is written after it. The checking program is not run
from here: a check finds it missing. -/
namespace MailRules

/-- The path of a place. -/
def Location.path (place : Location) : String := "/" ++ "/".intercalate place

/-- The places outside the working directory that an argument may name. -/
def Location.ofArgument? (home : Location) (argument : String) : Option Location :=
  let text := ((Command.splitValue argument).2).getD argument
  let p := Path.ofString text
  if p.isAbsolute || p.parts.contains ".." then some (Tree.locate home p) else none

namespace Tree

/-- Adds the directories on the way to a place. -/
def putAbove (t : Tree) (place : Location) : Tree :=
  (List.range place.length).foldl (fun t n => t.put (place.take n) .directory) t

/-- Adds what the machine has at a place and below it. -/
partial def load (t : Tree) (place : Location) : IO Tree := do
  let real ← IO.FS.realPath place.path
  if real.toString ≠ place.path then return t.put place (.link real.toString)
  match (← real.metadata).type with
  | .dir =>
    let mut t := t.put place .directory
    for entry in ← real.readDir do
      t ← (t.load (place ++ [entry.fileName])) <|> pure t
    return t
  | .file => return t.put place (.file (← IO.FS.readBinFile place.path))
  | _ => return t.put place .pipe

/-- Makes the machine agree with a tree where that differs from an earlier one. -/
def store (before after : Tree) : IO Unit := do
  for (place, entry) in after.entries.entries do
    match entry, before.at? place with
    | .directory, some .directory => pure ()
    | .directory, _ => IO.FS.createDirAll place.path
    | .file content, some (.file held) =>
      if content.data ≠ held.data then IO.FS.writeBinFile place.path content
    | .file content, _ => IO.FS.writeBinFile place.path content
    | _, _ => pure ()
  for place in before.entries.keys do
    if (after.at? place).isNone then IO.FS.removeFile place.path

end Tree

/-- Runs the command line; answers with the status. -/
def runProgram (arguments : List String) : IO UInt32 := do
  let home := (Path.ofString (← IO.currentDir).toString).parts
  let places := home :: arguments.filterMap (Location.ofArgument? home)
  let mut tree : Tree := {}
  for place in places do
    tree ← ((tree.putAbove place).load place) <|> pure tree
  let terminal : Terminal :=
    { host := { tree, home }, interactive := ← (← IO.getStdout).isTty }
  let (answer, after, notices) := (Terminal.run arguments).run terminal
  Tree.store tree after.host.tree
  for n in notices do
    if n.level = .warning then IO.eprintln n.toLine
  IO.print (Terminal.printed after.output)
  IO.eprint (Terminal.printed after.errors)
  match answer with
  | .ok status => return status.toUInt32
  | .error f =>
    IO.eprintln f.message
    return 1

end MailRules

def main (arguments : List String) : IO UInt32 := MailRules.runProgram arguments
