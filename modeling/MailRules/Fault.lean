import MailRules.Config.Basic
import MailRules.Text.Template
import MailRules.Tree.Basic
import MailRules.Yaml.Cursor

/-! Everything that can end an operation early. -/
namespace MailRules

/-- Why names cannot be chosen. -/
inductive NamingError
  | noGlobalPath
  | noGlobalScoresPath
  /-- Two artifacts that are not meant to share a file would share `path`. -/
  | sharedPath (path first second : String)
  /-- Two sources give the rules the same first part of their names. -/
  | sharedFamily (first second family : String)
  /-- Two words of a source give rules of the same name. -/
  | sharedName (first second source name : String)
  | definedTwice (name first second : String)
deriving DecidableEq, Repr

def NamingError.message : NamingError → String
  | .noGlobalPath => "Cannot determine a valid GLOBAL output file"
  | .noGlobalScoresPath => "Cannot determine a valid GLOBAL output file for scores"
  | .sharedPath path first second =>
    "Output file " ++ path ++ " would be shared by " ++ first ++ " and " ++ second
  | .sharedFamily first second family =>
    "Input files " ++ first ++ " and " ++ second ++ " share rule prefix " ++ family
  | .sharedName first second source name =>
    "Words '" ++ first ++ "' and '" ++ second ++ "' in " ++ source ++ " share rule name " ++ name
  | .definedTwice name first second =>
    "Rule name " ++ name ++ " is defined by both " ++ first ++ " and " ++ second

inductive Fault
  | config (e : ConfigError)
  | ingest (e : IngestError)
  | naming (e : NamingError)
  /-- Generation stopped at a naming error. -/
  | generation (e : NamingError)
  /-- No rule set is known for a file. -/
  | noRules (key : String)
  | template (e : Text.TemplateError)
  /-- A path has no name to make a file name of. -/
  | noFileName (path : String)
  /-- A whole number has too many digits to be read or written. -/
  | oversized
  /-- A text in a configuration file is marked as something that it is not. -/
  | content (p : Yaml.Problem)
  /-- A whole number lies beyond the floating point numbers. -/
  | overflow
  /-- A field that no configuration has, or a directory that is no text. -/
  | badField
  /-- A file is not encoded as it has to be. -/
  | badEncoding
  /-- The system refuses an operation on a path. -/
  | system (t : Trouble) (path : String)

/-- A text for whoever runs the program. -/
def Fault.message : Fault → String
  | .config e => e.message
  | .ingest e => e.message
  | .naming e | .generation e => e.message
  | .noRules key => "No rules loaded for " ++ key
  | .template _ => "A name of a group is no template"
  | .noFileName path => Text.quoted path ++ " has no file name"
  | .oversized => "A number has too many digits"
  | .content _ => "The configuration file holds a value that is none"
  | .overflow => "A number is too big"
  | .badField => "A field of the configuration is of the wrong kind"
  | .badEncoding => "A file is not encoded as UTF-8"
  | .system t path => t.message ++ ": " ++ Text.quoted path

end MailRules
