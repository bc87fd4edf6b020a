import MailRules.Action
import MailRules.Lint
import MailRules.Text.Lines
import MailRules.Text.Quoted

/-! A machine with a tree of files, as far as the program sees it.

Questions about a path have no answer if the path is refused for its length; whatever else stands
in the way means that nothing is there. Operations that change the tree report what refuses them
and at which path.

Paths with a NUL are left out: the system takes none, and neither questions nor operations say here
what becomes of one. -/
namespace MailRules

structure Host where
  tree : Tree := {}
  /-- The working directory. -/
  home : Location := []
  /-- Paths that may not be removed. -/
  locked : List String := []
  linter : Linter := .missing

/-- A refusal, with the path it is about if that is told. -/
structure Refusal where
  trouble : Trouble
  path : Option String
deriving DecidableEq, Repr

def Refusal.message (r : Refusal) : String :=
  r.trouble.message ++ (r.path.map fun p => ": " ++ Text.quoted p).getD ""

namespace Host

/-- The working directory as a path. -/
def homePath (h : Host) : Path := ⟨.root, h.home⟩

/-- A path seen from the working directory. -/
def absolute (h : Host) (p : Path) : Path := h.homePath.join p

/-! ### Questions -/

/-- The entry that a path leads to, if there is one. -/
def entry? (h : Host) (follow : Bool) (p : Path) : Except Fault (Option Entry) :=
  match h.tree.find h.home follow p with
  | .ok (_, e) => .ok (some e)
  | .error .nameTooLong => .error (.system .nameTooLong p.text)
  | .error _ => .ok none

def isLink (h : Host) (p : Path) : Except Fault Bool := do
  match ← h.entry? false p with
  | some (.link _) => return true
  | _ => return false

/-- The target of a link. -/
def linkTarget? (h : Host) (p : Path) : Except Fault (Option String) := do
  match ← h.entry? false p with
  | some (.link target) => return some target
  | _ => return none

def exists? (h : Host) (p : Path) : Except Fault Bool :=
  return (← h.entry? true p).isSome

def isDirectory (h : Host) (p : Path) : Except Fault Bool := do
  match ← h.entry? true p with
  | some .directory => return true
  | _ => return false

def isFile (h : Host) (p : Path) : Except Fault Bool := do
  match ← h.entry? true p with
  | some (.file _) => return true
  | _ => return false

/-- The names in the directory that a path leads to; none if it leads to no directory. -/
def names (h : Host) (p : Path) : List String :=
  match h.tree.find h.home true p with
  | .ok (place, .directory) => h.tree.names place
  | _ => []

/-- The place that a path stands for. -/
def resolve (h : Host) (p : Path) : Location := h.tree.resolve h.home p

/-! ### Reading -/

/-- The bytes of the file that a path leads to. -/
def readBytes (h : Host) (p : Path) : Except Refusal ByteArray :=
  match h.tree.find h.home true p with
  | .ok (_, .file content) => .ok content
  | .ok (_, .directory) => .error ⟨.isDirectory, p.text⟩
  | .ok _ => .error ⟨.denied, p.text⟩
  | .error t => .error ⟨t, p.text⟩

/-- The text of bytes, with its line ends unified; nothing if they do not encode a text. -/
def decode? (content : ByteArray) : Option String :=
  (String.fromUTF8? content).map fun s => String.ofList (Text.unifyNewlines s.toList)

/-! ### Writing -/

/-- Makes one directory. -/
def makeDirectory (h : Host) (p : Path) : Except Refusal Host :=
  match h.tree.goal h.home false p with
  | .ok (.vacant place name) => .ok { h with tree := h.tree.put (place ++ [name]) .directory }
  | .ok (.found ..) => .error ⟨.exists, p.text⟩
  | .error t => .error ⟨t, p.text⟩

/-- A refusal, unless the path leads to a directory anyway. -/
def unlessDirectory (h : Host) (p : Path) (r : Refusal) : Except Refusal Unit :=
  match h.tree.find h.home true p with
  | .ok (_, .directory) => .ok ()
  | _ => .error r

/-- Makes a directory, unless it is there, with up to `depth` of its parents. Parents that were
made before a refusal stay. -/
def makeDirectories : (depth : Nat) → Path → Host → Host × Except Refusal Unit
  | depth, p, h =>
    match h.makeDirectory p with
    | .ok h => (h, .ok ())
    | .error r =>
      if r.trouble ≠ .noEntry then (h, h.unlessDirectory p r)
      else match depth with
        | 0 => (h, .error r)
        | depth + 1 =>
          match makeDirectories depth p.parent h with
          | (h, .error r) => (h, .error r)
          | (h, .ok ()) =>
            match h.makeDirectory p with
            | .ok h => (h, .ok ())
            | .error r => (h, if r.trouble = .noEntry then .error r else h.unlessDirectory p r)

/-- Makes a directory with its parents. -/
def makePath (h : Host) (p : Path) : Host × Except Refusal Unit :=
  makeDirectories p.parts.length p h

/-- Writes a text to the file that a path leads to. -/
def writeText (h : Host) (p : Path) (text : String) : Except Refusal Host :=
  match h.tree.goal h.home true p with
  | .ok (.found _ .directory) => .error ⟨.isDirectory, p.text⟩
  | .ok (.found place _) => .ok { h with tree := h.tree.put place (.file text.toUTF8) }
  | .ok (.vacant place name) =>
    .ok { h with tree := h.tree.put (place ++ [name]) (.file text.toUTF8) }
  | .error t => .error ⟨t, p.text⟩

/-- Removes a file, or a link to one. -/
def unlink (h : Host) (p : Path) : Except Refusal Host :=
  if p.text ∈ h.locked then .error ⟨.denied, none⟩
  else match h.tree.find h.home false p with
    | .ok (_, .directory) => .error ⟨.isDirectory, p.text⟩
    | .ok (place, _) => .ok { h with tree := h.tree.remove place }
    | .error t => .error ⟨t, p.text⟩

end Host

end MailRules
