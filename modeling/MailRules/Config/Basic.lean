import MailRules.Value.Text

/-! The configuration of a generator, and what can be wrong with a setting. -/
namespace MailRules

/-- A checked configuration. The flags hold what was written and count by their truth. -/
structure Config where
  id : String := "KW"
  priority : Fin 100 := 50
  debug : Value := .bool false
  singleOutfile : Value := .bool false
  joinScores : Value := .bool true
  /-- The output directory, if one was named. -/
  dir : Option Path := none
  root : Path
  policy : ConflictPolicy := .last
  groupScore : Binary64

namespace Config

/-- All rules go to one file. -/
def isSingle (c : Config) : Bool := c.singleOutfile.isTrue

/-- Scores stand beside the rules they belong to. -/
def isJoined (c : Config) : Bool := c.joinScores.isTrue

/-- The directory that the artifacts go to: the named one, seen from the root, or the one below
the root that bears the identifier. -/
def outputDir (c : Config) : Path :=
  match c.dir with
  | some dir => c.root.join dir
  | none => c.root.join (Path.ofString c.id)

end Config

/-! ### Errors -/

inductive ConfigError
  | idStart (id : Value)
  | idCharacters (id : Value)
  | priorityKind (priority : Value)
  | priorityRange (priority : Int)
  | policyName (policy : Value)
  | groupScoreKind (score : Value)

def ConfigError.message : ConfigError → String
  | .idStart id => "id must start with a letter, got '" ++ id.plain ++ "'"
  | .idCharacters id => "id may only contain letters, digits and '_', got '" ++ id.plain ++ "'"
  | .priorityKind p => "priority must be an integer, got " ++ p.display
  | .priorityRange n => "priority must be between 0 and 99, got " ++ toString n
  | .policyName p =>
    "global_conflict must be one of ['last', 'error'], got '" ++ p.plain ++ "'"
  | .groupScoreKind v => "group_score must be a number, got " ++ v.display

end MailRules
