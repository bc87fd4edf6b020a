import MailRules.Text.Quoted

/-! Why a command line is refused. -/
namespace MailRules

/-- What kind of thing a path has to be. -/
inductive PathKind
  | file
  | directory
deriving DecidableEq, Repr

def PathKind.label : PathKind → String
  | .file => "File"
  | .directory => "Directory"

/-- What is wrong with one value. -/
inductive ValueError
  | missingPath (kind : PathKind) (path : String)
  /-- The path is there, but is of the other kind. -/
  | wrongKind (kind : PathKind) (path : String)
  | notInteger (value : String)
  | notAmong (value : String) (choices : List String)
deriving DecidableEq, Repr

def ValueError.message : ValueError → String
  | .missingPath kind path => kind.label ++ " " ++ Text.quoted path ++ " does not exist."
  | .wrongKind kind path =>
    let other := match kind with
      | .file => "directory"
      | .directory => "file"
    kind.label ++ " " ++ Text.quoted path ++ " is a " ++ other ++ "."
  | .notInteger value => Text.quoted value ++ " is not a valid integer."
  | .notAmong value choices =>
    Text.quoted value ++ " is not one of " ++ ", ".intercalate (choices.map Text.quoted) ++ "."

inductive UsageError
  | missingCommand
  | unknownCommand (name : String)
  /-- The spellings that are like it come along. -/
  | unknownSwitch (name : String) (similar : List String)
  | missingValue (switch : String)
  | needlessValue (switch : String)
  | missingArgument (name : String)
  | surplus (arguments : List String)
  /-- The value of a switch or of an argument, as it is called. -/
  | invalid (place : String) (e : ValueError)
deriving DecidableEq, Repr

/-- What is added to the message on an unknown switch. -/
def UsageError.suggestion : List String → String
  | [] => ""
  | [one] => " Did you mean " ++ one ++ "?"
  | many => " (Possible options: " ++ ", ".intercalate many ++ ")"

def UsageError.message : UsageError → String
  | .missingCommand => "Missing command."
  | .unknownCommand name => "No such command " ++ Text.quoted name ++ "."
  | .unknownSwitch name similar => "No such option: " ++ name ++ suggestion similar
  | .missingValue switch => "Option " ++ Text.quoted switch ++ " requires an argument."
  | .needlessValue switch => "Option " ++ Text.quoted switch ++ " does not take a value."
  | .missingArgument name => "Missing argument '" ++ name ++ "'."
  | .surplus arguments =>
    "Got unexpected extra argument" ++ (if arguments.length = 1 then "" else "s") ++ " ("
      ++ " ".intercalate arguments ++ ")"
  | .invalid place e => "Invalid value for '" ++ place ++ "': " ++ e.message

end MailRules
