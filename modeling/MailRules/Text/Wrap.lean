import MailRules.Text.Basic

/-! Text on a screen of columns: its width, its tabs, and its lines when room is short.

A line breaks between words; the blanks after a word belong to it and are cut if they do not fit.
A word too wide for any line is broken where the room ends. -/
namespace MailRules.Text

/-- Control characters take no room, every other character one column. -/
def columnsOf (c : Char) : Nat :=
  if c.toNat < 32 ∨ (127 ≤ c.toNat ∧ c.toNat < 160) then 0 else 1

def columns (s : List Char) : Nat := s.foldl (fun n c => n + columnsOf c) 0

/-- Controls that would ring or move the cursor are not shown. -/
def isShown (c : Char) : Bool :=
  c ≠ '\x07' && c ≠ '\x08' && c ≠ '\x0b' && c ≠ '\x0c' && c ≠ '\r'

/-- Each tab becomes blanks up to the next multiple of eight; `at_` columns stand before. -/
def expandTabsFrom (at_ : Nat) : List Char → List Char
  | [] => []
  | c :: rest =>
    if c = '\t' then
      let gap := 8 - at_ % 8
      List.replicate gap ' ' ++ expandTabsFrom (at_ + gap) rest
    else c :: expandTabsFrom (at_ + columnsOf c) rest

def expandTabs (s : List Char) : List Char := expandTabsFrom 0 s

/-- The words, each with the blanks after it; blanks at the front stand alone. -/
def wordsFrom : List Char → List (List Char)
  | [] => []
  | c :: rest =>
    match wordsFrom rest with
    | [] => [[c]]
    | [] :: later => [c] :: later
    | (d :: w) :: later =>
      if isBlank c && !isBlank d then [c] :: (d :: w) :: later else (c :: d :: w) :: later

/-- The words, each with the blanks after it, the first also with those before it. -/
def words (s : List Char) : List (List Char) :=
  match wordsFrom s with
  | first :: second :: later =>
    if first.all isBlank then (first ++ second) :: later else first :: second :: later
  | ws => ws

/-- A word cut into pieces that fit; `used` columns of the piece at the front are taken. -/
def chop (width : Nat) (used : Nat) : List Char → List (List Char)
  | [] => [[]]
  | c :: rest =>
    if width < used + columnsOf c then [] :: consPiece c (chop width (columnsOf c) rest)
    else consPiece c (chop width (used + columnsOf c) rest)
where
  consPiece (c : Char) : List (List Char) → List (List Char)
    | [] => [[c]]
    | piece :: later => (c :: piece) :: later

/-- The lines of the words; `line` is the one being filled. -/
def wrapWords (width : Nat) (line : List Char) : List (List Char) → List (List Char)
  | [] => [line]
  | word :: later =>
    let room := columns (trimEnd word)
    if columns line + room ≤ width then wrapWords width (line ++ word) later
    else
      let before := if line.isEmpty then [] else [line]
      if width < room then
        let pieces := chop width 0 word
        before ++ pieces.dropLast ++ wrapWords width (pieces.getLast?.getD []) later
      else before ++ wrapWords width word later

/-- Blanks at the end that do not fit are cut. -/
def cutBlanks (width : Nat) (line : List Char) : List Char :=
  line.take (max width (trimEnd line).length)

/-- The lines of a text in the given width. -/
def wrap (width : Nat) (s : List Char) : List (List Char) :=
  (wrapWords width [] (words (expandTabs s))).map (cutBlanks width)

/-- Blanks after a line, up to the width. -/
def padRight (width : Nat) (line : List Char) : List Char :=
  line ++ List.replicate (width - columns line) ' '

/-- Blanks before a line, up to the width. -/
def padLeft (width : Nat) (line : List Char) : List Char :=
  List.replicate (width - columns line) ' ' ++ line

/-- Blanks on both sides; of an odd number the right side has one more. -/
def centre (width : Nat) (line : List Char) : List Char :=
  padRight width (List.replicate ((width - columns line) / 2) ' ' ++ line)

end MailRules.Text
