/-! The commands, and the switches that may stand among their arguments. -/
namespace MailRules

/-- A switch of the command line. Some have two spellings, one for either setting. -/
inductive Switch
  | config
  | id
  | priority
  | dir
  | outfile
  | scores
  | globalConflict
  | strict
  | verify
  | format
  | json
  | debug
  | version
  | help
deriving DecidableEq, Repr

namespace Switch

/-- The spellings of a switch, with what each sets; one that sets nothing takes a value. -/
def spellings : Switch → List (String × Option Bool)
  | .config => [("--config", none)]
  | .id => [("--id", none)]
  | .priority => [("--priority", none)]
  | .dir => [("--dir", none)]
  | .outfile => [("--single-outfile", some true), ("--multi-outfile", some false)]
  | .scores => [("--join-scores", some true), ("--separate-scores", some false)]
  | .globalConflict => [("--global-conflict", none)]
  | .strict => [("--strict", some true)]
  | .verify => [("--verify", some true)]
  | .format => [("--format", none)]
  | .json => [("--json", some true)]
  | .debug => [("--debug", some true)]
  | .version => [("--version", some true)]
  | .help => [("--help", some true)]

/-- The spelling that messages use. -/
def name (s : Switch) : String := (s.spellings.head?.map Prod.fst).getD ""

/-- Answered before anything else is looked at. -/
def isUrgent (s : Switch) : Bool := s = .version || s = .help

end Switch

inductive Command
  | generate
  | parse
  | verify
  | clean
deriving DecidableEq, Repr

namespace Command

def all : List Command := [.generate, .parse, .verify, .clean]

def name : Command → String
  | .generate => "generate"
  | .parse => "parse"
  | .verify => "verify"
  | .clean => "clean"

def ofName? (name : String) : Option Command := all.find? fun c => c.name = name

/-- The switches that a command knows. -/
def switches : Command → List Switch
  | .generate =>
    [.config, .id, .priority, .dir, .outfile, .scores, .globalConflict, .strict, .verify, .format,
      .help]
  | .parse => [.json, .help]
  | .verify => [.config, .help]
  | .clean => [.config, .id, .priority, .dir, .outfile, .scores, .help]

/-- The switches that stand before the command. -/
def outerSwitches : List Switch := [.version, .debug, .help]

/-- The arguments of a command, as messages call them. -/
def argument : Command → String
  | .generate | .clean => "INPUTS..."
  | .parse => "FILE"
  | .verify => "[DIRECTORY]"

/-- A command that takes any number of arguments, but needs one. -/
def isVariadic : Command → Bool
  | .generate | .clean => true
  | .parse | .verify => false

end Command

end MailRules
