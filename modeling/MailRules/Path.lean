/-! Paths as lists of parts.

Reading a path drops empty parts and single dots; double dots stay, since what they mean depends
on the links of a tree. Exactly two slashes at the front are kept apart from one. -/
namespace MailRules

/-- Where a path starts. -/
inductive Anchor
  | relative
  | root
  | doubleRoot
deriving DecidableEq, Repr

structure Path where
  anchor : Anchor := .relative
  parts : List String
deriving DecidableEq, Repr

namespace Path

/-- The pieces of a text between the separators. -/
def pieces (separator : Char) : List Char → List (List Char)
  | [] => [[]]
  | c :: rest =>
    if c = separator then [] :: pieces separator rest
    else match pieces separator rest with
      | [] => [[c]]
      | piece :: later => (c :: piece) :: later

def anchorOf : List Char → Anchor
  | '/' :: '/' :: '/' :: _ => .root
  | '/' :: '/' :: _ => .doubleRoot
  | '/' :: _ => .root
  | _ => .relative

def ofChars (s : List Char) : Path where
  anchor := anchorOf s
  parts := ((pieces '/' s).filter fun p => p ≠ [] ∧ p ≠ ['.']).map String.ofList

def ofString (s : String) : Path := ofChars s.toList

def Anchor.text : Anchor → String
  | .relative => ""
  | .root => "/"
  | .doubleRoot => "//"

/-- The path as text; the empty path is a single dot. -/
def text (p : Path) : String :=
  if p.anchor = .relative ∧ p.parts = [] then "."
  else Anchor.text p.anchor ++ "/".intercalate p.parts

def isAbsolute (p : Path) : Bool := p.anchor ≠ .relative

/-- The second path seen from the first: an absolute one is itself. -/
def join (p q : Path) : Path :=
  if q.isAbsolute then q else { p with parts := p.parts ++ q.parts }

/-- A part below a path. -/
def child (p : Path) (name : String) : Path := { p with parts := p.parts ++ [name] }

def parent (p : Path) : Path := { p with parts := p.parts.dropLast }

/-- The last part, if there is one. -/
def name? (p : Path) : Option String := p.parts.getLast?

/-- The path `p` as seen from `base`, if it lies at or below it. -/
def relativeTo? (p base : Path) : Option Path :=
  if p.anchor = base.anchor then
    if base.parts.isPrefixOf p.parts then some ⟨.relative, p.parts.drop base.parts.length⟩ else none
  else none

/-- A name without its suffix: what starts at the last dot, unless that is the first or the last
character. -/
def stem (name : List Char) : List Char :=
  let suffix := (name.reverse.takeWhile (· ≠ '.')).length
  let before := name.take (name.length - suffix - 1)
  if suffix = 0 ∨ before = [] then name else before

/-- The path with the suffix of its name dropped; nothing if it has no name. -/
def withoutSuffix? (p : Path) : Option Path :=
  p.name?.map fun name =>
    { p with parts := p.parts.dropLast ++ [String.ofList (stem name.toList)] }

end Path

end MailRules
