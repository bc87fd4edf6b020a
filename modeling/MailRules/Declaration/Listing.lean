import MailRules.Declaration.Line
import MailRules.Text.Grid
import MailRules.Text.Json
import MailRules.Text.Lines

/-! How each line of a keyword file is understood.

Lines that are blank or only a comment are left out. -/
namespace MailRules.Declaration

/-- A line with its number, counted from one, and the declaration it makes, if it makes one. -/
structure Row where
  number : Nat
  line : String
  declaration? : Option Declaration

/-- The rows of lines, the first of which has the given number. -/
def rowsFrom (number : Nat) : List String → Except Oversized (List Row)
  | [] => .ok []
  | line :: later => do
    let reading ← read line
    let rows ← rowsFrom (number + 1) later
    return match reading with
      | .skipped => rows
      | r => ⟨number, line, r.declaration?⟩ :: rows

/-- The rows of a text. -/
def rowsOf (text : String) : Except Oversized (List Row) := rowsFrom 1 (Text.linesOf text)

def scoreJson : Score → Json
  | .whole n => .int n
  | .real x => .real x

def Row.toJson (r : Row) : Json :=
  let given {α : Type} (f : α → Json) (v : Option α) : Json := (v.map f).getD .null
  let d := r.declaration?
  .object
    [("line", .int r.number), ("text", .text r.line), ("valid", .bool d.isSome),
      ("word", given .text (d.map Declaration.word)),
      ("score", given scoreJson (d.map Declaration.score)),
      ("groups", .list (((d.map Declaration.groups).getD []).map .text)),
      ("comment", given .text (d.map Declaration.comment))]

/-- The cells of a row; a score of zero is not shown. -/
def Row.cells (r : Row) : List String :=
  match r.declaration? with
  | none => [toString r.number, "invalid: " ++ r.line, "", "", ""]
  | some d =>
    [toString r.number, d.word, if d.isScored then d.score.toText else "",
      ", ".intercalate d.groups, d.comment]

/-- The rows as a grid under the name of the file. -/
def gridOf (title : String) (rows : List Row) : Grid where
  title
  columns := [⟨"line", .right⟩, ⟨"word", .left⟩, ⟨"score", .right⟩, ⟨"groups", .left⟩,
    ⟨"comment", .left⟩]
  rows := rows.map Row.cells

end MailRules.Declaration
