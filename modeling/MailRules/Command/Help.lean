import MailRules.Command.Switch

/-! How the program and its commands are used. -/
namespace MailRules

/-- What a switch is for. -/
def Switch.purpose : Switch → String
  | .config => "YAML config file (default: ./kwrulegen.yml if present)."
  | .id => "Rule name prefix (default: KW)."
  | .priority => "Load-order number (default: 50)."
  | .dir => "Output directory (default: ./<ID>)."
  | .outfile => "Write every input's rules to one file."
  | .scores => "Keep scores beside rule definitions or in *_SCORES.cf files."
  | .globalConflict => "Handling of a word declared GLOBAL in several files."
  | .strict => "Exit 1 on any input failure."
  | .verify => "Lint output with spamassassin."
  | .format => "Output format (default: rich if TTY, porcelain if piped)."
  | .json => "Output as JSON."
  | .debug => "Verbose diagnostics."
  | .version => "Show the version and exit."
  | .help => "Show this message and exit."

namespace Command

def purpose : Command → String
  | .generate => "Generate rule files from keyword lists, directories or globs."
  | .parse => "Show how each line of FILE is understood."
  | .verify => "Lint generated rules in DIRECTORY with spamassassin."
  | .clean => "Remove the files a generation from INPUTS would write."

def switchLine (s : Switch) : String :=
  "  " ++ " / ".intercalate (s.spellings.map Prod.fst) ++ "  " ++ s.purpose

def commandLine (c : Command) : String := "  " ++ c.name ++ "  " ++ c.purpose

/-- The help on a command, or on the whole program. -/
def help (command : Option Command) : String :=
  let (usage, purpose, switches, commands) := match command with
    | some c => (c.name ++ " [OPTIONS] " ++ c.argument, c.purpose, c.switches, [])
    | none =>
      ("[OPTIONS] COMMAND [ARGS]...", "kwrulegen - SpamAssassin keyword rule generator.",
        outerSwitches, ["", "Commands:"] ++ all.map commandLine)
  "\n".intercalate <|
    ["Usage: kwrulegen " ++ usage, "", "  " ++ purpose, "", "Options:"]
      ++ switches.map switchLine ++ commands

end Command

end MailRules
