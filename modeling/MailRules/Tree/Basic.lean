import MailRules.Assoc
import MailRules.Path

/-! A tree of files as a value.

Every place is known by the names that lead to it from the root, with no link among them. A path
is walked from a place, part by part; links on the way are followed, up to a limit. -/
namespace MailRules

/-- The names from the root down to a place. -/
abbrev Location := List String

inductive Entry
  | directory
  | file (content : ByteArray)
  | link (target : String)
  | pipe

/-- What the system refuses. -/
inductive Trouble
  | noEntry
  | denied
  | exists
  | notDirectory
  | isDirectory
  | nameTooLong
  | linkLoop
deriving DecidableEq, Repr

def Trouble.number : Trouble → Nat
  | .noEntry => 2
  | .denied => 13
  | .exists => 17
  | .notDirectory => 20
  | .isDirectory => 21
  | .nameTooLong => 36
  | .linkLoop => 40

def Trouble.name : Trouble → String
  | .noEntry => "No such file or directory"
  | .denied => "Permission denied"
  | .exists => "File exists"
  | .notDirectory => "Not a directory"
  | .isDirectory => "Is a directory"
  | .nameTooLong => "File name too long"
  | .linkLoop => "Too many levels of symbolic links"

def Trouble.message (t : Trouble) : String :=
  "[Errno " ++ toString t.number ++ "] " ++ t.name

structure Tree where
  entries : Assoc Location Entry := ∅

namespace Tree

/-- The entry at a place; the root is a directory. -/
def at? (t : Tree) (place : Location) : Option Entry :=
  if place = [] then some .directory else t.entries.get? place

def put (t : Tree) (place : Location) (e : Entry) : Tree :=
  ⟨t.entries.insert place e⟩

def remove (t : Tree) (place : Location) : Tree :=
  ⟨t.entries.erase place⟩

/-- The names in a directory. -/
def names (t : Tree) (place : Location) : List String :=
  t.entries.keys.filterMap fun k =>
    if k.dropLast = place then k.getLast? else none

/-! ### Walking a path -/

/-- Where a path leads. -/
inductive Goal
  | found (place : Location) (entry : Entry)
  /-- Nothing is there yet, but the directory is. -/
  | vacant (directory : Location) (name : String)

/-- The longest name that a directory holds, in bytes. -/
def nameLimit : Nat := 255

/-- A path as long as this, in bytes, is refused. -/
def pathLimit : Nat := 4096

/-- How many links a walk follows. -/
def linkLimit : Nat := 40

/-- Stays where it is: a single dot, or the empty name after a slash at the end. -/
def isStay (name : String) : Bool := name = "." || name.isEmpty

/-- The parts of a link's target; a slash at the end leaves an empty name, and so asks for a
directory. -/
def targetParts (target : String) : List String :=
  let parts := ((Path.pieces '/' target.toList).filter (· ≠ [])).map String.ofList
  if target.toList.getLast? = some '/' then parts ++ [""] else parts

/-- The place that a link's target is seen from, for a link in `directory`. -/
def targetBase (directory : Location) (target : String) : Location :=
  if target.toList.head? = some '/' then [] else directory

/-- Walks the parts from a directory; a link on the way goes on with `onLink`. The last part is
followed, if it is a link, only if `follow` says so. A slash after the last name asks for a
directory, and is refused as if one were there if there is none. -/
def walkWith (t : Tree) (follow : Bool)
    (onLink : Location → List String → Except Trouble Goal) (here : Location) :
    List String → Except Trouble Goal
  | [] => .ok (.found here .directory)
  | name :: rest =>
    if isStay name then t.walkWith follow onLink here rest
    else if name = ".." then t.walkWith follow onLink here.dropLast rest
    else if nameLimit < name.utf8ByteSize then .error .nameTooLong
    else match t.at? (here ++ [name]) with
      | none =>
        if rest = [] then .ok (.vacant here name)
        else .error (if rest.all String.isEmpty then .isDirectory else .noEntry)
      | some (.link target) =>
        if rest = [] ∧ !follow then .ok (.found (here ++ [name]) (.link target))
        else onLink (targetBase here target) (targetParts target ++ rest)
      | some .directory => t.walkWith follow onLink (here ++ [name]) rest
      | some e =>
        if rest = [] then .ok (.found (here ++ [name]) e)
        else .error (if rest.all String.isEmpty then .isDirectory else .notDirectory)

/-- Walks the parts from a directory, following at most `links` links. -/
def walk (t : Tree) (follow : Bool) : (links : Nat) → Location → List String → Except Trouble Goal
  | 0 => t.walkWith follow fun _ _ => .error .linkLoop
  | links + 1 => t.walkWith follow (t.walk follow links)

/-- Where a path leads, seen from the directory `home`. -/
def goal (t : Tree) (home : Location) (follow : Bool) (p : Path) : Except Trouble Goal :=
  if pathLimit ≤ p.text.utf8ByteSize then .error .nameTooLong
  else t.walk follow linkLimit (if p.isAbsolute then [] else home) p.parts

/-- The place and the entry that a path leads to. -/
def find (t : Tree) (home : Location) (follow : Bool) (p : Path) :
    Except Trouble (Location × Entry) := do
  match ← t.goal home follow p with
  | .found place e => return (place, e)
  | .vacant .. => throw .noEntry

/-! ### Resolving links

A resolution keeps its place as a path, seen from the root or from the working directory. A link
that is met under two such paths counts as two, which shows only where links run in a circle. -/

/-- Work left in a resolution: a name to go down, or a link whose target is reached. -/
inductive Leg
  | down (name : String)
  | reached (link : Path)
deriving DecidableEq, Repr

def Leg.name? : Leg → Option String
  | .down name => some name
  | .reached _ => none

/-- Single and double dots taken out of a list of names. -/
def normalize (names : List String) : Location :=
  names.foldl (fun place name =>
    if isStay name then place
    else if name = ".." then place.dropLast
    else place ++ [name]) []

/-- The place of a path whose parts are no links. -/
def locate (home : Location) (p : Path) : Location :=
  normalize (if p.isAbsolute then p.parts else home ++ p.parts)

/-- One directory up from a path whose parts are no links. -/
def above (p : Path) : Path :=
  match p.parts.getLast? with
  | none => if p.isAbsolute then p else p.child ".."
  | some name => if name = ".." then p.child ".." else p.parent

/-- Goes down the legs from `here`, where missing names count as plain ones. `known` holds the
links met so far, with what they lead to once that is known; a link met again before that is a
loop, and the rest of the path is kept as it is. A new link goes on with `onLink`. -/
def resolveWith (t : Tree) (home : Location)
    (onLink : Assoc Path (Option Path) → Path → List Leg → Path)
    (known : Assoc Path (Option Path)) (here : Path) : List Leg → Path
  | [] => here
  | .reached link :: rest => t.resolveWith home onLink (known.insert link (some here)) here rest
  | .down name :: rest =>
    if isStay name then t.resolveWith home onLink known here rest
    else if name = ".." then t.resolveWith home onLink known (above here) rest
    else
      let place := here.child name
      match t.at? (locate home place) with
      | some (.link target) =>
        match known.get? place with
        | some (some resolved) => t.resolveWith home onLink known resolved rest
        | some none => place.join ⟨.relative, rest.filterMap Leg.name?⟩
        | none =>
          let base := if target.toList.head? = some '/' then ⟨.root, []⟩ else here
          onLink (known.insert place none) base
            ((targetParts target).map .down ++ .reached place :: rest)
      | _ => t.resolveWith home onLink known place rest

/-- Resolves the legs, with at most `links` new links. -/
def resolveLegs (t : Tree) (home : Location) :
    (links : Nat) → Assoc Path (Option Path) → Path → List Leg → Path
  | 0 => t.resolveWith home fun _ here rest => here.join ⟨.relative, rest.filterMap Leg.name?⟩
  | links + 1 => t.resolveWith home (t.resolveLegs home links)

/-- The place that a path stands for when all its links are followed, whether it exists or not.
A walk follows no more links than the limit; beyond that, a link has a name for each directory from
the root down to the working directory, and one from the root. -/
def resolve (t : Tree) (home : Location) (p : Path) : Location :=
  let bound := linkLimit + t.entries.size * (home.length + 2)
  let start : Path := ⟨if p.isAbsolute then .root else .relative, []⟩
  locate home (t.resolveLegs home bound ∅ start (p.parts.map .down))

end Tree

end MailRules
