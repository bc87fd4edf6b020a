import MailRules.Command.Help
import MailRules.Command.Request
import MailRules.Config.File
import MailRules.Declaration.Listing
import MailRules.Workspace

/-! The commands at work.

A command prints, changes files, and ends with a status: 0 if all went well, 1 if something in the
input or the output is wrong, 2 if the command line or the configuration is, or if the rules cannot
be named. -/
namespace MailRules

/-- A machine, and what a command has printed on it. -/
structure Terminal where
  host : Host
  /-- Somebody reads along, so that reports are made for people. -/
  interactive : Bool := false
  output : List String := []
  errors : List String := []

namespace Terminal

variable {α : Type}

def onHost (a : Action Host α) : Action Terminal α :=
  a.on host fun t host => { t with host }

/-- Prints texts, each on lines of its own. -/
def print (texts : List String) : Action Terminal Unit :=
  Action.modify fun t => { t with output := t.output ++ texts }

def printErrors (texts : List String) : Action Terminal Unit :=
  Action.modify fun t => { t with errors := t.errors ++ texts }

/-- All that was printed, in lines. -/
def printed (texts : List String) : String := String.join (texts.map (· ++ "\n"))

/-- Ends with a message. -/
def refuse (message : String) : Action Terminal Nat := do
  printErrors ["Error: " ++ message]
  return 2

/-! ### Commands -/

/-- Goes on with the configuration of a command; a setting that is wrong ends it. -/
def withConfig (s : Command.Settings) (next : Config → Action Terminal Nat) :
    Action Terminal Nat := do
  let load : Action Host Config := do
    let c ← Config.load s.config (← Action.get).homePath
    Action.ofExcept (c.withOverrides s.fields)
  match ← Action.attempt (onHost load) with
  | .ok c => next c
  | .error (.config e) => refuse e.message
  | .error f => Action.fail f

def generate (inputs : List String) (s : Command.Settings) : Action Terminal Nat :=
  withConfig s fun c => do
    match ← Action.attempt (onHost (Build.run c inputs true s.verify)) with
    | .error (.generation e) => refuse e.message
    | .error f => Action.fail f
    | .ok report =>
      let usual := if (← Action.get).interactive then Report.Format.rich else .porcelain
      let text := report.inFormat (s.format.getD usual)
      if !text.isEmpty then print [text]
      let verified := (report.verification.map Verification.ok).getD true
      return if !verified || (s.strict && !report.isOk) then 1 else 0

/-- Shows how the lines of a file are understood. -/
def parse (file : Path) (s : Command.Settings) : Action Terminal Nat := do
  let bytes ← match (← Action.get).host.readBytes file with
    | .ok bytes => pure bytes
    | .error r => Action.fail (.system r.trouble file.text)
  match Host.decode? bytes with
  | none => Action.fail .badEncoding
  | some text =>
    match Declaration.rowsOf text with
    | .error _ => Action.fail .oversized
    | .ok rows =>
      print [if s.json then (Json.list (rows.map Declaration.Row.toJson)).toText .full
        else (Declaration.gridOf file.text rows).toText]
      return if rows.all fun r => r.declaration?.isSome then 0 else 1

/-- Checks the rules in a directory, or in the one that the configuration names. -/
def verify (directory : Option Path) (s : Command.Settings) : Action Terminal Nat := do
  let check (target : Path) : Action Terminal Nat := do
    let v ← onHost (Host.verify target)
    if !v.output.isEmpty then print [v.output]
    if v.ok then
      print ["✓ " ++ target.text ++ " passed lint"]
      return 0
    else
      printErrors ["Verification failed for " ++ target.text]
      return 1
  match directory with
  | some target => check target
  | none => withConfig s fun c => check c.outputDir

/-- An operation of a generator at work on the machine. -/
def onWorkspace (session : Session) (a : Action Workspace α) : Action Terminal α :=
  a.on (fun t => ⟨t.host, session⟩) fun t w => { t with host := w.host }

/-- Removes the files that a generation would write. -/
def clean (inputs : List String) (s : Command.Settings) : Action Terminal Nat :=
  withConfig s fun c => do
    let reading : Action Workspace (List String × Session) := do
      let failures ← Workspace.readAll inputs
      return (failures, (← Action.get).session)
    let (failures, session) ← onWorkspace (Session.new (← Action.get).host.homePath c) reading
    printErrors (failures.map ("  [warn] " ++ ·))
    match ← Action.attempt (onWorkspace session Workspace.clean) with
    | .error (.generation e) => refuse e.message
    | .error f => Action.fail f
    | .ok cleaning =>
      print (cleaning.removed.map ("Removed " ++ ·))
      printErrors (cleaning.errors.map ("Error: " ++ ·))
      if cleaning.removed.isEmpty && cleaning.errors.isEmpty then print ["Nothing to remove."]
      return if cleaning.errors.isEmpty then 0 else 1

/-- The name and the version of the program. -/
def versionText : String := "kwrulegen, version 0.1.0"

/-- Carries out what the arguments ask for. Diagnostics reach a generation alone, as a field of
its configuration. -/
def run (arguments : List String) : Action Terminal Nat := do
  if arguments.isEmpty then
    printErrors [Command.help none]
    return 2
  match Invocation.ofArguments (← Action.get).host arguments with
  | .error e => refuse e.message
  | .ok i =>
    match i.request with
    | .generate inputs s =>
      generate inputs (if i.debug then s.setField "debug" (.bool true) else s)
    | .parse file s => parse file s
    | .verify directory s => verify directory s
    | .clean inputs s => clean inputs s
    | .version => print [versionText]; return 0
    | .help command => print [Command.help command]; return 0

end Terminal

end MailRules
