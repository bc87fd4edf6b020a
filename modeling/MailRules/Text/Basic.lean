/-! Characters by their code points, texts in order, and texts cut at blanks.

The tables of character classes are lists of intervals (`covered`), and texts are in the order of
their code points (`sorted`). `fields` lists the maximal runs of characters that are not blank;
`trim` drops the blank characters at both ends. -/
namespace MailRules.Text

/-- The code points from the first to the second number, both included. -/
abbrev CodeRange := Nat × Nat

def CodeRange.covers (r : CodeRange) (c : Char) : Bool :=
  r.1 ≤ c.toNat && c.toNat ≤ r.2

/-- Some interval of the table holds the character. -/
def covered (table : List CodeRange) (c : Char) : Bool :=
  table.any (CodeRange.covers · c)

/-! ### Order -/

def sorted (l : List String) : List String :=
  l.mergeSort fun a b => decide (a ≤ b)

/-- Each text once, in order. -/
def sortedUnique (l : List String) : List String :=
  sorted l.eraseDups

/-- The greatest text of a list. -/
def greatest? : List String → Option String
  | [] => none
  | a :: rest => some (rest.foldl (fun m b => if m < b then b else m) a)

/-! ### Blanks -/

/-- White space and the separators that count as it; the zero-width characters do not. -/
def blankRanges : List CodeRange := [
  (9, 13), (28, 32), (133, 133), (160, 160), (5760, 5760), (8192, 8202), (8232, 8233),
  (8239, 8239), (8287, 8287), (12288, 12288)]

def isBlank (c : Char) : Bool :=
  covered blankRanges c

/-- The field that is open at the front of the text, and the fields after it. -/
def fieldsFrom : List Char → List Char × List (List Char)
  | [] => ([], [])
  | c :: rest =>
    let (open_, later) := fieldsFrom rest
    if isBlank c then
      ([], if open_.isEmpty then later else open_ :: later)
    else (c :: open_, later)

/-- The maximal runs of characters that are not blank, in order. -/
def fields (s : List Char) : List (List Char) :=
  let (first, later) := fieldsFrom s
  if first.isEmpty then later else first :: later

def trimStart (s : List Char) : List Char :=
  s.dropWhile isBlank

def trimEnd (s : List Char) : List Char :=
  (s.reverse.dropWhile isBlank).reverse

/-- Without the blank characters at both ends. -/
def trim (s : List Char) : List Char :=
  trimEnd (trimStart s)

end MailRules.Text
