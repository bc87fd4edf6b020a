import MailRules.Command.Settings

/-! What a command line asks for.

The words are told apart first; then a switch that is answered at once decides, then the values
of the switches are read, then those of the arguments, and words that are left over come last. -/
namespace MailRules

inductive Request
  | generate (inputs : List String) (s : Command.Settings)
  | parse (file : Path) (s : Command.Settings)
  | verify (directory : Option Path) (s : Command.Settings)
  | clean (inputs : List String) (s : Command.Settings)
  | version
  /-- Asks how a command is used, or the whole program. -/
  | help (command : Option Command)

/-- A request, with whether diagnostics are asked for. -/
structure Invocation where
  debug : Bool := false
  request : Request

namespace Invocation

/-- Nothing may be left over. -/
def ending (left : List String) (r : Request) : Except UsageError Request :=
  if left.isEmpty then .ok r else .error (.surplus left)

/-- The request that the arguments of a command make. -/
def ofCommand (h : Host) (c : Command) (arguments : List String) : Except UsageError Request := do
  let w ← Command.tellApart c.switches true arguments
  if w.urgent?.isSome then return .help c
  let s ← Command.Settings.ofWords h w
  let invalid {α : Type} (r : Except ValueError α) : Except UsageError α :=
    r.mapError (.invalid c.argument)
  match c, w.others with
  | .generate, [] | .clean, [] | .parse, [] => throw (.missingArgument c.argument)
  | .generate, inputs => return .generate inputs s
  | .clean, inputs => return .clean inputs s
  | .parse, file :: left => ending left (.parse (← invalid (Command.readFilePath h file)) s)
  | .verify, [] => return .verify none s
  | .verify, directory :: left =>
    ending left (.verify (some (← invalid (Command.readDirectoryPath h true directory))) s)

/-- The words before the command, which are told apart again if the first other word names no
command: what follows two hyphens may turn out to be a switch. -/
def ofArguments (h : Host) (arguments : List String) : Except UsageError Invocation := do
  let outer := Command.tellApart Command.outerSwitches false
  let w ← outer arguments
  let answer (w : Command.Words) : Option Request :=
    w.urgent?.map fun s => if s = .version then .version else .help none
  if let some r := answer w then return { request := r }
  match w.others with
  | [] => throw .missingCommand
  | name :: rest =>
    match Command.ofName? name with
    | some c =>
      return { debug := (w.get? .debug).isSome, request := ← ofCommand h c rest }
    | none =>
      if let some r := answer (← outer (name :: rest)) then return { request := r }
      throw (.unknownCommand name)

end Invocation

end MailRules
