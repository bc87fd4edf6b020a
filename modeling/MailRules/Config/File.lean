import MailRules.Config.Fields
import MailRules.Tree.Host
import MailRules.Yaml.Load

/-! The configuration file.

It holds a mapping from field names to values. A file that is missing, unreadable or no mapping
gives the defaults, and a field that is not known is passed over, each with a warning. -/
namespace MailRules.Config

/-- The name of the file that is looked for in the root. -/
def fileName : String := "kwrulegen.yml"

/-- The field that a key of the file means; hyphens count as underscores. -/
def fieldOf (key : String) : String :=
  if key = "singleOutfile" then "single_outfile"
  else if key = "joinScores" then "join_scores"
  else key.map fun c => if c = '-' then '_' else c

/-- The root is not a field that a file sets. -/
def isFileField (name : String) : Bool := name ≠ "root" && fieldNames.contains name

/-- The fields of a mapping, the last value of each. -/
def fieldsOf (file : Path) (fields : Assoc String Value) :
    List (Value × Value) → Action Host (Assoc String Value)
  | [] => return fields
  | (key, value) :: rest => do
    let key ← Action.ofExcept (writable key)
    let name := fieldOf key.plain
    if isFileField name then fieldsOf file (fields.insert name value) rest
    else
      Action.say [.warning ("Ignoring unknown config key '" ++ key.plain ++ "' in " ++ file.text)]
      fieldsOf file fields rest

/-- The value of a configuration file; null, with a warning, if it cannot be read as one. -/
def readFile (file : Path) : Action Host Value := do
  let unreadable : Action Host Value := do
    Action.say [.warning ("Failed to read " ++ file.text ++ ", using defaults")]
    return .null
  match (← Action.get).readBytes file with
  | .error _ => unreadable
  | .ok bytes =>
    match Host.decode? bytes with
    | none => Action.fail .badEncoding
    | some text =>
      match Yaml.load text with
      | .ok value => return value
      | .error .malformed => unreadable
      | .error p => Action.fail (.content p)

/-- The configuration of a file, or of the file with the usual name in the root. -/
def load (path : Option Path) (root : Path) : Action Host Config := do
  let defaults := Action.ofExcept (ofFields root ∅)
  let file := path.getD (root.child fileName)
  if !(← Action.ofExcept ((← Action.get).isFile file)) then
    if path.isSome then
      Action.say [.warning ("Config file " ++ file.text ++ " not found, using defaults")]
    defaults
  else
    match ← readFile file with
    | .null => defaults
    | .map entries => Action.ofExcept (ofFields root (← fieldsOf file ∅ entries))
    | _ =>
      Action.say [.warning (file.text ++ " is not a mapping, using defaults")]
      defaults

end MailRules.Config
