/-! Names with wildcards.

A star stands for any run of characters, a question mark for one, and brackets for one of a set.
A set is negated by an exclamation mark; a closing bracket that comes first belongs to the set,
and a bracket that is never closed stands for itself. -/
namespace MailRules.Text

/-- A run of characters of a set; a single character is a run of its own. -/
structure CharRun where
  first : Char
  last : Char
deriving DecidableEq, Repr

def CharRun.covers (r : CharRun) (c : Char) : Bool := r.first ≤ c && c ≤ r.last

inductive Glyph
  | star
  | one
  | literal (c : Char)
  | oneOf (negated : Bool) (runs : List CharRun)
deriving DecidableEq, Repr

/-- The text has a character that may be a wildcard. -/
def hasWildcard (s : String) : Bool :=
  s.toList.any fun c => c = '*' || c = '?' || c = '['

/-! ### Sets -/

/-- The pieces from `piece` on of a set that is cut at the hyphens which join two ends of a run.
The two characters after such a hyphen belong to the next piece, whatever they are, and a hyphen
at the end to the last one. -/
def setPiecesFrom (piece : List Char) : List Char → List (List Char)
  | [] => [piece]
  | '-' :: [] => [piece ++ ['-']]
  | '-' :: d :: [] => [piece, [d]]
  | '-' :: d :: e :: rest => piece :: setPiecesFrom [d, e] rest
  | c :: rest => setPiecesFrom (piece ++ [c]) rest

/-- The first character of a set joins nothing, even if it is a hyphen. -/
def setPieces : List Char → List (List Char)
  | [] => []
  | c :: rest => setPiecesFrom [c] rest

/-- Joins the pieces whose ends would make a run backwards; the two ends go with it. -/
def joinBackwards : List (List Char) → List (List Char)
  | [] => []
  | piece :: rest =>
    match joinBackwards rest with
    | [] => [piece]
    | next :: later =>
      match piece.getLast?, next.head? with
      | some a, some b =>
        if b < a then (piece.dropLast ++ next.drop 1) :: later else piece :: next :: later
      | _, _ => piece :: next :: later

/-- The runs of pieces whose ends are joined. -/
def pieceRuns : List (List Char) → List CharRun
  | [] => []
  | [piece] => piece.map fun c => ⟨c, c⟩
  | piece :: next :: later =>
    let run : List CharRun := match piece.getLast?, next.head? with
      | some a, some b => [⟨a, b⟩]
      | _, _ => []
    piece.map (fun c => ⟨c, c⟩) ++ run ++ pieceRuns (next :: later)

/-- The set of a body without its mark of negation. An exclamation mark that comes to the front
because what was before it made a run backwards negates the set all the same; a hyphen after it
then stands for itself. -/
def setOf (negated : Bool) (body : List Char) : Glyph :=
  match negated, joinBackwards (setPieces body) with
  | false, ['!'] :: next :: later => .oneOf true (pieceRuns (('-' :: next) :: later))
  | false, ('!' :: piece) :: later => .oneOf true (pieceRuns (piece :: later))
  | negated, pieces => .oneOf negated (pieceRuns pieces)

/-- The set after an opening bracket, and what follows it; nothing if it is never closed. -/
def readSet? (s : List Char) : Option (Glyph × List Char) :=
  let (negated, s) := match s with
    | '!' :: rest => (true, rest)
    | _ => (false, s)
  let (first, s) := match s with
    | ']' :: rest => ([']'], rest)
    | _ => ([], s)
  match s.dropWhile (· ≠ ']') with
  | [] => none
  | _ :: rest => some (setOf negated (first ++ s.takeWhile (· ≠ ']')), rest)

/-! ### Patterns -/

/-- The glyphs of a pattern; `fuel` bounds their number. -/
def glyphsFrom : (fuel : Nat) → List Char → List Glyph
  | 0, _ => []
  | _, [] => []
  | fuel + 1, c :: rest =>
    if c = '*' then .star :: glyphsFrom fuel rest
    else if c = '?' then .one :: glyphsFrom fuel rest
    else if c = '[' then
      match readSet? rest with
      | some (set, after) => set :: glyphsFrom fuel after
      | none => .literal c :: glyphsFrom fuel rest
    else .literal c :: glyphsFrom fuel rest

def glyphs (pattern : String) : List Glyph :=
  glyphsFrom pattern.length pattern.toList

/-- A glyph other than the star stands for the character. -/
def Glyph.accepts (c : Char) : Glyph → Bool
  | .star => false
  | .one => true
  | .literal d => c = d
  | .oneOf negated runs => (runs.any (·.covers c)) != negated

/-- Some end of the text passes, the whole text and the empty one among them. -/
def anyEnd (test : List Char → Bool) : List Char → Bool
  | [] => test []
  | c :: rest => test (c :: rest) || anyEnd test rest

/-- The text splits into parts that the glyphs stand for. -/
def glyphsMatch : List Glyph → List Char → Bool
  | [], s => s.isEmpty
  | .star :: rest, s => anyEnd (glyphsMatch rest) s
  | g :: rest, s =>
    match s with
    | [] => false
    | c :: s => g.accepts c && glyphsMatch rest s

/-- The pattern stands for the name. A dot at the front of a name has to be written. -/
def wildcardMatch (pattern name : String) : Bool :=
  (name.toList.head? ≠ some '.' || pattern.toList.head? = some '.')
    && glyphsMatch (glyphs pattern) name.toList

end MailRules.Text
