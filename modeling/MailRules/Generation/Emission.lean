import MailRules.Config.Basic
import MailRules.Rule.Line
import MailRules.Store.Basic

/-! The lines that a source and the global words give rise to.

For every word there is a component rule; words with a score of their own get a public rule that
repeats it, and each group gets a rule for every count of its words. Descriptions and scores may
go to a file of their own, so each line bears its destination. -/
namespace MailRules.Generation

open Rule

/-- A line, for the file of the rules or for that of the scores. -/
structure Emission where
  toScores : Bool
  line : Line
deriving DecidableEq, Repr

def toRules (lines : List Line) : List Emission := lines.map (⟨false, ·⟩)

def toScores (lines : List Line) : List Emission := lines.map (⟨true, ·⟩)

/-- A banner, where all rules share a file. -/
def heading (single : Bool) (title : String) : List Emission :=
  if single then toRules (banner title) else []

/-! ### Words -/

/-- The component rule of a word: found in the body or in the subject. -/
def componentLines (family : String) (comment : Option String) (word : String) : List Line :=
  let name := componentName family word
  ((comment.filter (· ≠ "")).map Line.comment).toList
    ++ [.body (bodyName name) (wordPattern word), .subject (subjectName name) (wordPattern word),
      .composite name (.either (bodyName name) (subjectName name)), .blank]

/-- The component rules of a source. -/
def components (single : Bool) (family : String) (rules : RuleSet) (words : List String) :
    List Emission :=
  heading single ("Metas for " ++ family)
    ++ toRules (words.flatMap fun w => componentLines family (rules.comments.get? w) w)

/-- What a scored word is described by: its comment, if it has one. -/
def scoredText (rules : RuleSet) (word : String) : String :=
  ((rules.comments.get? word).filter (· ≠ "")).getD ("Keyword '" ++ word ++ "' found")

/-- The public rule of a scored word, with its description and score. -/
def scoredLines (family : String) (rules : RuleSet) (word : String) (score : Score) :
    List Emission :=
  let name := scoredName family word
  toRules [.composite name (.only (componentName family word))]
    ++ toScores [.description name (scoredText rules word), .score name score, .blank]

/-- The scored words of a source, in the order of the words. -/
def scored (single : Bool) (family : String) (rules : RuleSet) : List Emission :=
  heading single ("Scored words for " ++ family)
    ++ (rules.scored.entries.mergeSort fun a b => decide (a.1 ≤ b.1)).flatMap
      fun e => scoredLines family rules e.1 e.2

/-! ### Groups -/

/-- The template of a threshold's description. -/
def thresholdText (group family : String) : String :=
  "Found \x7bcount\x7d " ++ group ++ " word\x7bplural\x7d from " ++ family

/-- The thresholds of a group. A name that is no template ends them. -/
def groupLines (family : String) (score : Score) (group : String) (words : List String) :
    List Emission × Option Text.TemplateError :=
  let head := toRules [.comment group]
  match thresholds (groupName family group) (words.map (componentName family))
      (thresholdText group family) score with
  | .ok (rules, scores) => (head ++ toRules rules ++ toScores scores, none)
  | .error e => (head, some e)

/-- The thresholds of one group after the other, up to one that fails. -/
def groupsFrom (family : String) (score : Score) :
    List (String × List String) → List Emission × Option Text.TemplateError
  | [] => ([], none)
  | (group, words) :: rest =>
    match groupLines family score group words with
    | (lines, some e) => (lines, some e)
    | (lines, none) =>
      let (later, outcome) := groupsFrom family score rest
      (lines ++ later, outcome)

/-- The groups of a source, in the order of their names. -/
def groups (single : Bool) (family : String) (score : Score) (rules : RuleSet) :
    List Emission × Option Text.TemplateError :=
  let (lines, outcome) := groupsFrom family score
    (rules.groups.entries.mergeSort fun a b => decide (a.1 ≤ b.1))
  (heading single ("Groups for " ++ family) ++ lines, outcome)

/-! ### Global words -/

/-- The thresholds over the components of the global words. -/
def globals (id : String) (score : Score) (refs : List String) :
    Except Text.TemplateError (List Emission) := do
  let (rules, scores) ← thresholds id refs (thresholdText globalGroup id) score
  return toRules rules ++ toScores scores

end MailRules.Generation
