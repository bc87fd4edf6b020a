import MailRules.Text.Digit

/-! Text with named places.

A name between braces is a place to fill, and a brace written twice stands for itself. -/
namespace MailRules.Text

inductive TemplateError
  /-- A brace without its partner, or a malformed place. -/
  | unbalanced
  /-- A place without a name, or with a number for one. -/
  | unnamed
  /-- A name that has no value. -/
  | unknown (name : String)
deriving DecidableEq, Repr

/-- Where the reading of a template stands. -/
inductive TemplatePlace
  /-- In the literal text. -/
  | text
  /-- After one opening brace. -/
  | opened
  /-- After one closing brace. -/
  | closed
  /-- In the name of a place; its characters so far, the last one first. -/
  | name (read : List Char)

/-- The name in a place, which a dot or a bracket ends, or a mark that says how the value is shown;
all that is passed over. -/
def placeName (place : List Char) : List Char :=
  place.takeWhile (· ∉ ['.', '[', '!', ':'])

/-- Fills the places of a template from `place` on, with the values that `value` gives. -/
def fillFrom (value : String → Option String) :
    TemplatePlace → List Char → Except TemplateError (List Char)
  | .text, [] => .ok []
  | _, [] => .error .unbalanced
  | .text, '\x7b' :: rest => fillFrom value .opened rest
  | .text, '\x7d' :: rest => fillFrom value .closed rest
  | .text, c :: rest => (c :: ·) <$> fillFrom value .text rest
  | .opened, '\x7b' :: rest => ('\x7b' :: ·) <$> fillFrom value .text rest
  | .opened, '\x7d' :: _ => .error .unnamed
  | .opened, c :: rest => fillFrom value (.name [c]) rest
  | .closed, '\x7d' :: rest => ('\x7d' :: ·) <$> fillFrom value .text rest
  | .closed, _ :: _ => .error .unbalanced
  | .name _, '\x7b' :: _ => .error .unbalanced
  | .name read, '\x7d' :: rest =>
    let key := placeName read.reverse
    if key.all isDigit then .error .unnamed
    else match value (String.ofList key) with
      | none => .error (.unknown (String.ofList key))
      | some filled => (filled.toList ++ ·) <$> fillFrom value .text rest
  | .name read, c :: rest => fillFrom value (.name (c :: read)) rest

/-- The template with its places filled. -/
def fill (value : String → Option String) (template : String) : Except TemplateError String :=
  String.ofList <$> fillFrom value .text template.toList

end MailRules.Text
