import MailRules.Notice
import MailRules.Path
import MailRules.Store.RuleSet

/-! The store of everything declared, file by file.

A file is known by its key, the path seen from the root. A word declared global belongs to one
file, its origin; the policy says what happens when a second file claims it. -/
namespace MailRules

/-- Who keeps a global word that two files claim. -/
inductive ConflictPolicy
  /-- The file that claimed it last. -/
  | last
  /-- The file that claimed it first; the later claim is an error. -/
  | error
deriving DecidableEq, Repr

def ConflictPolicy.name : ConflictPolicy → String
  | .last => "last"
  | .error => "error"

def ConflictPolicy.all : List ConflictPolicy := [.last, .error]

def ConflictPolicy.ofName? (s : String) : Option ConflictPolicy :=
  all.find? fun p => p.name = s

/-- A claim to a global word that was refused. -/
structure Conflict where
  word : String
  key : String
  holder : String
deriving DecidableEq, Repr

def Conflict.message (c : Conflict) : String :=
  "GLOBAL word '" ++ c.word ++ "' in " ++ c.key ++ " already declared in " ++ c.holder

/-- Why a file contributes no rules, or not all of them. -/
inductive IngestError
  | unreadable (key : String)
  | noRules (key : String)
  | conflicts (all : List Conflict)
deriving DecidableEq, Repr

def IngestError.message : IngestError → String
  | .unreadable key => "Failed to read " ++ key
  | .noRules key => "No rules found in " ++ key
  | .conflicts all => "; ".intercalate (all.map Conflict.message)

structure Store where
  root : Path
  policy : ConflictPolicy := .last
  files : Assoc String RuleSet := ∅
  /-- The origin of each global word. -/
  origins : Assoc String String := ∅
deriving DecidableEq

/-- What became of one claim to a global word. -/
inductive Claim
  | kept
  | moved (holder : String)
  | refused (holder : String)
deriving DecidableEq, Repr

namespace Store

/-- The key of a path: seen from the root if it lies there, and as it is otherwise. -/
def fileKey (s : Store) (path : String) : String :=
  let p := Path.ofString path
  ((p.relativeTo? s.root).getD p).text

/-- One claim of the file `key` to `word`. -/
def claim (s : Store) (word key : String) : Store × Claim :=
  match s.origins.get? word with
  | none => ({ s with origins := s.origins.insert word key }, .kept)
  | some holder =>
    if holder = key then ({ s with origins := s.origins.insert word key }, .kept)
    else match s.policy with
      | .error => (s, .refused holder)
      | .last => ({ s with origins := s.origins.insert word key }, .moved holder)

/-- The claims of a declaration, one for each time it names the global group. -/
def claims (s : Store) (word key : String) : List String → Store × List Claim
  | [] => (s, [])
  | group :: rest =>
    if group = globalGroup then
      let (s, first) := s.claim word key
      let (s, later) := s.claims word key rest
      (s, first :: later)
    else s.claims word key rest

/-- Merges a declaration into the rule set of a file; the outcome of its claims comes with it. -/
def add (s : Store) (key : String) (d : Declaration) : Store × List Claim :=
  ({ s with files := s.files.update key {} (·.add d) }).claims d.word key d.groups

/-- The refused claim, if the last of the claims is one. -/
def conflict? (key word : String) (outcome : List Claim) : Option Conflict :=
  match outcome.getLast? with
  | some (.refused holder) => some ⟨word, key, holder⟩
  | _ => none

/-- The notices of the claims to a word. -/
def claimNotices (key word : String) (outcome : List Claim) : List Notice :=
  outcome.filterMap fun
    | .moved holder =>
      some (.warning ("GLOBAL word '" ++ word ++ "' moved from " ++ holder ++ " to " ++ key))
    | _ => none

/-- The global words that the file `key` is the origin of. -/
def originated (s : Store) (key : String) : List String :=
  (s.origins.entries.filter (·.2 = key)).map Prod.fst

/-- The words that need a component rule in the artifact of a file, in order: its own, and the
global words that it is the origin of. -/
def componentWords (s : Store) (key : String) : List String :=
  let own := ((s.files.get? key).map RuleSet.words).getD []
  Text.sortedUnique (own ++ s.originated key)

/-- Drops a file and the global words that came from it; nothing if the file is not known. -/
def clear? (s : Store) (key : String) : Option Store :=
  if s.files.contains key then
    some { s with
      files := s.files.erase key
      origins := s.origins.filter fun _ origin => origin ≠ key }
  else none

/-- Drops every file. -/
def clearAll (s : Store) : Store :=
  { s with files := ∅, origins := ∅ }

end Store

end MailRules
