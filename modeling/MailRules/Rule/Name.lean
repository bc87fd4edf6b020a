import MailRules.Declaration.Basic
import MailRules.Layout.FileName

/-! Names of rules. -/
namespace MailRules.Rule

/-- May stand in the name of a rule: letters and digits of the basic alphabet, underscores. -/
def isNameChar (c : Char) : Bool := c.isAlphanum || c = '_'

/-- A text as part of a rule name: in upper case, an underscore for what a name may not hold. -/
def segment (text : String) : String :=
  String.ofList ((Text.upperChars text.toList).map fun c => if isNameChar c then c else '_')

/-- The first part of the names of a source's rules; nothing if the source has no file name. -/
def family? (id source : String) : Option String :=
  (FileName.segment? source).map fun s => segment (id ++ "_" ++ s)

/-- The rule that finds a word in the body or in the subject. -/
def componentName (family word : String) : String := "__" ++ family ++ "_" ++ segment word

def bodyName (component : String) : String := component ++ "_BODY"

def subjectName (component : String) : String := component ++ "_SUBJ"

/-- The rule of a word that scores on its own. -/
def scoredName (family word : String) : String := family ++ "_" ++ segment word

/-- What the names of a group's rules have before their counts. -/
def groupName (family group : String) : String :=
  if group = localGroup then family else family ++ "_" ++ group

/-- The rule that asks for `count` words. -/
def thresholdName (name : String) (count : Nat) : String := name ++ "_" ++ toString count

/-! ### Patterns -/

/-- Characters that have a meaning of their own in a pattern. -/
def isOperator (c : Char) : Bool :=
  c ∈ ['(', ')', '[', ']', '\x7b', '\x7d', '?', '*', '+', '-', '|', '^', '$', '\\', '.', '&',
    '~', '#', ' ', '\t', '\n', '\r', '\x0b', '\x0c']

/-- A backslash before every character of a kind. -/
def backslashed (kind : Char → Bool) (s : List Char) : List Char :=
  s.flatMap fun c => if kind c then ['\\', c] else [c]

/-- A text that stands for itself in a pattern between slashes: first the operators get a backslash,
then the slashes. -/
def escape (s : List Char) : List Char := backslashed (· = '/') (backslashed isOperator s)

/-- The pattern that finds a word as a whole, in any case. -/
def wordPattern (word : String) : String :=
  "/\\b" ++ String.ofList (escape word.toList) ++ "\\b/i"

end MailRules.Rule
