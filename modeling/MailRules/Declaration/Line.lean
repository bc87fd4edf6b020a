import MailRules.Declaration.Basic
import MailRules.Text.Basic
import MailRules.Text.Case
import MailRules.Text.Quoted

/-! The line that declares a keyword.

    word [score] [GROUP ...] [# comment]

The word comes first and does not begin with a digit; one score and any number of groups follow
in any order. `read` understands a line and `toLine` writes a declaration as one. -/
namespace MailRules.Declaration

/-- Why a line that is neither blank nor a comment declares nothing. -/
inductive LineFault
  /-- These fields have no place in the line. -/
  | invalidClauses (clauses : List String)
  /-- There is no field but the comment. -/
  | noWord
deriving DecidableEq, Repr

/-- What a line says. -/
inductive Reading
  | skipped
  | declared (d : Declaration)
  | malformed (fault : LineFault)
deriving DecidableEq, Repr

/-- A whole number in a line has more digits than are read. -/
structure Oversized where
  digits : Nat
deriving DecidableEq, Repr

def LineFault.message (line : String) : LineFault → String
  | .invalidClauses clauses =>
    "Invalid clauses " ++ ", ".intercalate (clauses.map Text.quoted) ++ " in line "
      ++ Text.quoted line
  | .noWord => "No keyword found in line " ++ Text.quoted line

def Reading.declaration? : Reading → Option Declaration
  | .declared d => some d
  | _ => none

/-! ### Fields -/

def opensComment (field : List Char) : Bool :=
  field.head? = some '#'

/-- Letters of the basic alphabet, digits and underscores, no digit first. -/
def isGroupName (field : List Char) : Bool :=
  match field with
  | [] => false
  | c :: rest => (c.isAlpha || c = '_') && rest.all fun d => d.isAlphanum || d = '_'

/-- A word begins with no decimal digit. -/
def isWord (field : List Char) : Bool :=
  match field with
  | [] => false
  | c :: _ => !Text.isDigit c && c ≠ '#'

/-- What the fields read so far have given. -/
structure Draft where
  word : Option String := none
  score : Option Score := none
  groups : List String := []
  invalid : List String := []

/-- Takes one field before the comment into the draft. -/
def Draft.take (d : Draft) (field : List Char) : Except Oversized Draft :=
  let refused := { d with invalid := d.invalid ++ [String.ofList field] }
  if Score.isNumeral field then
    if d.word.isNone || d.score.isSome then .ok refused
    else match Score.ofNumeral? field with
      | some score => .ok { d with score := some score }
      | none => .error ⟨field.length⟩
  else if d.word.isNone then
    if isWord field then .ok { d with word := some (String.ofList (Text.lowerChars field)) }
    else .ok refused
  else if isGroupName field then
    let group := String.ofList (field.map Char.toUpper)
    .ok (if group ∈ d.groups then d else { d with groups := d.groups ++ [group] })
  else .ok refused

/-- The fields of a comment as one text, without the sign that opens it. -/
def commentOf : List (List Char) → String
  | [] => ""
  | first :: rest =>
    let opened := first.drop 1
    let fields := if opened.isEmpty then rest else opened :: rest
    String.ofList (List.intercalate [' '] fields)

/-- The declaration that a draft and the comment make, if nothing in it was out of place. -/
def Draft.finish (d : Draft) (comment : String) : Reading :=
  if !d.invalid.isEmpty then .malformed (.invalidClauses d.invalid)
  else match d.word with
    | none => .malformed .noWord
    | some word => .declared
        { word, comment
          score := d.score.getD (.whole 0)
          groups := if d.groups.isEmpty then [localGroup] else d.groups }

/-! ### Lines -/

/-- Blank lines and lines that begin with a comment. -/
def isSkippable (line : String) : Bool :=
  let text := Text.trim line.toList
  text.isEmpty || opensComment text

/-- What the fields of a line say. -/
def readFields (fields : List (List Char)) : Except Oversized Reading := do
  let clauses := fields.takeWhile (!opensComment ·)
  let comment := fields.dropWhile (!opensComment ·)
  let draft ← clauses.foldlM Draft.take {}
  return draft.finish (commentOf comment)

def read (line : String) : Except Oversized Reading :=
  if isSkippable line then .ok .skipped else readFields (Text.fields line.toList)

/-- The declaration as a line, its parts separated by single spaces. -/
def toLine (d : Declaration) : String :=
  " ".intercalate <|
    [d.word] ++ (if d.isScored then [d.score.toText] else []) ++ d.groups
      ++ (if d.comment.isEmpty then [] else ["# " ++ d.comment])

end MailRules.Declaration
