import MailRules.Text.Wrap

/-! Grids: rows of cells in a drawn frame, under a title.

A column is as wide as its widest cell or its heading; a tab has no width of its own then, so a
cell with tabs may need several lines. -/
namespace MailRules

namespace Grid

inductive Side
  | left
  | right
deriving DecidableEq, Repr

structure Column where
  heading : String
  side : Side := .left
deriving DecidableEq, Repr

/-- The signs of one horizontal line of the frame. -/
structure Rule where
  first : Char
  fill : Char
  between : Char
  last : Char

def topRule : Rule := ⟨'┏', '━', '┳', '┓'⟩
def headRule : Rule := ⟨'┡', '━', '╇', '┩'⟩
def bottomRule : Rule := ⟨'└', '─', '┴', '┘'⟩

/-- Pieces between signs. -/
def enclose (first between last : Char) (pieces : List (List Char)) : List Char :=
  first :: List.intercalate [between] pieces ++ [last]

def Rule.draw (r : Rule) (widths : List Nat) : List Char :=
  enclose r.first r.between r.last (widths.map fun w => List.replicate (w + 2) r.fill)

/-- The lines of one cell, each as wide as its column. -/
def cellLines (side : Side) (width : Nat) (cell : List Char) : List (List Char) :=
  (Text.wrap width cell).map fun line =>
    match side with
    | .left => Text.padRight width line
    | .right => Text.padLeft width (Text.trimEnd line)

/-- The lines of a row; cells with fewer lines are filled with blank ones. -/
def rowLines (edge : Char) (sides : List Side) (widths : List Nat) (cells : List (List Char)) :
    List (List Char) :=
  let blocks := (sides.zip (widths.zip cells)).map fun (side, width, cell) =>
    cellLines side width cell
  let height := (blocks.map List.length).foldl max 1
  (List.range height).map fun n =>
    enclose edge edge edge <| (widths.zip blocks).map fun (width, block) =>
      ' ' :: (block[n]?.getD (List.replicate width ' ')) ++ [' ']

end Grid

/-- A title, columns with their headings, and rows with a cell for each column. -/
structure Grid where
  title : String
  columns : List Grid.Column
  rows : List (List String)

namespace Grid

def shown (s : String) : List Char := s.toList.filter Text.isShown

/-- The widths of the columns, without the blank on either side. -/
def widths (g : Grid) : List Nat :=
  g.rows.foldl (fun widths row => (widths.zip row).map fun (w, cell) =>
      max w (Text.columns (shown cell)))
    (g.columns.map fun c => Text.columns (shown c.heading))

/-- All lines of the grid. -/
def lines (g : Grid) : List (List Char) :=
  let widths := g.widths
  let sides := g.columns.map Column.side
  let total := widths.foldl (fun n width => n + width + 3) 1
  (Text.wrap total (shown g.title)).map (fun line => Text.centre total (Text.trimEnd line))
    ++ [topRule.draw widths]
    ++ rowLines '┃' sides widths (g.columns.map fun c => shown c.heading)
    ++ [headRule.draw widths]
    ++ g.rows.flatMap (fun row => rowLines '│' sides widths (row.map shown))
    ++ [bottomRule.draw widths]

def toText (g : Grid) : String :=
  "\n".intercalate (g.lines.map String.ofList)

end Grid

end MailRules
