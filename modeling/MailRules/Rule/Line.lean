import MailRules.Declaration.Basic
import MailRules.Rule.Name
import MailRules.Text.Template

/-! Lines of a rule file.

A line is kept as what it says, and written out only at the end. -/
namespace MailRules.Rule

/-- When a composite rule holds. -/
inductive Condition
  | either (a b : String)
  | only (a : String)
  /-- At least `count` of the rules hold. -/
  | atLeast (refs : List String) (count : Nat)
deriving DecidableEq, Repr

def Condition.text : Condition → String
  | .either a b => "( " ++ a ++ " || " ++ b ++ " )"
  | .only a => "( " ++ a ++ " )"
  | .atLeast refs count => "( " ++ " + ".intercalate refs ++ " ) >= " ++ toString count

inductive Line
  /-- The pattern is looked for in the body. -/
  | body (name pattern : String)
  /-- The pattern is looked for in the subject. -/
  | subject (name pattern : String)
  | composite (name : String) (condition : Condition)
  | description (name text : String)
  | score (name : String) (score : Score)
  | comment (text : String)
  /-- A line of number signs. -/
  | bar (width : Nat)
  | blank
deriving DecidableEq, Repr

/-- A directive: its kind, padded to a width of twelve, a name and the rest. -/
def directive (kind name rest : String) : String :=
  kind ++ "".pushn ' ' (12 - kind.length) ++ name ++ " " ++ rest ++ "\n"

def Line.text : Line → String
  | .body name pattern => directive "body" name pattern
  | .subject name pattern => directive "header" name ("Subject =~ " ++ pattern)
  | .composite name condition => directive "meta" name condition.text
  | .description name text => directive "describe" name text
  | .score name s => directive "score" name s.toText
  | .comment text => "# " ++ text ++ "\n"
  | .bar width => "".pushn '#' width ++ "\n"
  | .blank => "\n"

/-- A title between two bars. -/
def banner (title : String) : List Line :=
  [.bar (title.length + 2), .comment title, .bar (title.length + 2), .blank]

/-! ### Thresholds -/

/-- The rule that at least `count` of the rules hold. -/
def thresholdRule (name : String) (refs : List String) (count : Nat) : List Line :=
  [.composite (thresholdName name count) (.atLeast refs count), .blank]

/-- Its description and its score. -/
def thresholdScore (name text : String) (score : Score) (count : Nat) : List Line :=
  [.description (thresholdName name count) text, .score (thresholdName name count) score, .blank]

/-- The values that the description of a threshold may name. -/
def thresholdValue (count : Nat) (name : String) : Option String :=
  if name = "count" then some (toString count)
  else if name = "plural" then some (if count > 1 then "s" else "")
  else none

/-- The rules that 1, 2, … all of `refs` hold, and the lines with their scores; `describe` is a
template for the descriptions. -/
def thresholds (name : String) (refs : List String) (describe : String) (score : Score) :
    Except Text.TemplateError (List Line × List Line) := do
  let counts := (List.range refs.length).map (· + 1)
  let scores ← counts.mapM fun count => do
    return thresholdScore name (← Text.fill (thresholdValue count) describe) score count
  return (counts.flatMap (thresholdRule name refs), scores.flatten)

end MailRules.Rule
