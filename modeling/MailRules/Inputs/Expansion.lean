import MailRules.Inputs.Pattern

/-! From the given paths to the files they denote.

A directory stands for the files below it, hidden ones left out; a link stands for its target, if
that lies inside the root; what does not exist is tried as a pattern. Each file comes once. What
cannot be taken is noted, and the expansion goes on. -/
namespace MailRules

/-- How far an expansion has come. -/
structure Expansion where
  /-- Paths still to be taken, the next one first. -/
  pending : List Path
  /-- Links followed so far, by their paths from the root. -/
  links : List String := []
  /-- Places of the files and directories taken so far. -/
  places : List Location := []
  files : List Path := []
  failures : List String := []
  notices : List Notice := []

namespace Expansion

def note (e : Expansion) (text : String) : Expansion :=
  { e with notices := e.notices ++ [.debug text] }

def fail (e : Expansion) (text : String) : Expansion :=
  { e.note text with failures := e.failures ++ [text] }

/-- Puts paths before those that are pending. -/
def push (e : Expansion) (paths : List Path) : Expansion :=
  { e with pending := paths ++ e.pending }

/-- A link's target lies outside the root. An absolute target has to begin with the text of the
root and a slash; a relative one is resolved. -/
def escapes (h : Host) (root link : Path) (target : String) : Bool :=
  if target.toList.head? = some '/' then !(root.text ++ "/").isPrefixOf target
  else !(h.resolve root).isPrefixOf (h.resolve (link.parent.join (Path.ofString target)))

/-- Takes a link. -/
def takeLink (h : Host) (root path : Path) (target : String) (e : Expansion) : Expansion :=
  let identity := (h.absolute path).text
  if identity ∈ e.links then e.note ("Skipping symlink loop at " ++ path.text)
  else
    let e := { e with links := identity :: e.links }
    if escapes h root path target then
      e.fail ("Symlink outside of working root: " ++ path.text)
    else e.push [path.parent.join (Path.ofString target)]

/-- Takes a path at which there is nothing. -/
def takeMissing (h : Host) (path : Path) (e : Expansion) : Expansion :=
  if Host.hasWildcard path then
    match h.matchPattern path with
    | [] => e.fail ("No files match " ++ path.text)
    | found => e.push found
  else e.fail (path.text ++ " does not exist")

/-- The entries of a directory that are not hidden, in order. -/
def children (h : Host) (directory : Path) : List Path :=
  let shown := (h.names directory).filter fun n => n.toList.head? ≠ some '.'
  (Text.sorted shown).map directory.child

/-- Takes a path at which there is something other than a link. -/
def takePresent (h : Host) (path : Path) (e : Expansion) : Except Fault Expansion := do
  let place := h.resolve path
  if place ∈ e.places then return e.note ("Skipping already visited " ++ path.text)
  let e := { e with places := place :: e.places }
  if ← h.isDirectory path then return e.push (children h path)
  else if ← h.isFile path then return { e with files := e.files ++ [path] }
  else return e.fail (path.text ++ " is not a regular file")

/-- Takes one path. -/
def take (h : Host) (root path : Path) (e : Expansion) : Except Fault Expansion := do
  match ← h.linkTarget? path with
  | some target => return takeLink h root path target e
  | none =>
    if ← h.exists? path then takePresent h path e else return takeMissing h path e

/-- Takes pending paths, at most `steps` of them. What was noted before a failure stays. -/
def run (h : Host) (root : Path) : (steps : Nat) → Expansion → Expansion × Option Fault
  | 0, e => (e, none)
  | steps + 1, e =>
    match e.pending with
    | [] => (e, none)
    | path :: rest =>
      match take h root path { e with pending := rest } with
      | .ok next => run h root steps next
      | .error f => (e, some f)

/-! No link is followed twice under one path from the root, no place is taken twice, and a pattern
stands for no more paths than there are ways to choose its parts. -/

/-- More texts than the paths from the root of links have: such a text is no longer than the working
directory and the limit together. -/
def linkBound (h : Host) : Nat :=
  Nat.pow 256 (Tree.pathLimit + h.homePath.text.utf8ByteSize + 1)

/-- The most places there are: those of entries, and the working directory with those above it. -/
def placeBound (h : Host) : Nat := h.tree.entries.size + h.home.length + 1

/-- The most paths that a pattern stands for. -/
def matchBound (h : Host) : Nat := Nat.pow (placeBound h) Tree.pathLimit

/-- More steps than an expansion can take. -/
def bound (h : Host) (inputs : List Path) : Nat :=
  (inputs.length + linkBound h) * (1 + matchBound h) + placeBound h * placeBound h + 1

/-- The files that the inputs denote, with what could not be taken. -/
def ofInputs (h : Host) (root : Path) (inputs : List Path) : Expansion × Option Fault :=
  run h root (bound h inputs) { pending := inputs }

end Expansion

end MailRules
