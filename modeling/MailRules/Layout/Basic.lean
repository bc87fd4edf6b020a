import MailRules.Action
import MailRules.Config.Basic
import MailRules.Layout.FileName

/-! Which artifact goes to which file.

Files are loaded in the order of their paths, and a rule may refer only to rules that are loaded
before it. The rules over all files refer to those of every file, so their artifact has to come
after all others; `globalFile` tries three names for it. -/
namespace MailRules

/-- The rules or the scores of one source, or of the words that are counted over all files. -/
structure ArtifactKey where
  source : Option String
  scores : Bool := false
deriving DecidableEq, Repr

namespace ArtifactKey

def isGlobal (k : ArtifactKey) : Bool := k.source.isNone

def text (k : ArtifactKey) : String :=
  k.source.getD "GLOBAL" ++ if k.scores then "_SCORES" else ""

/-- The rules over all files. -/
def global : ArtifactKey := ⟨none, false⟩

/-- Their scores. -/
def globalScores : ArtifactKey := ⟨none, true⟩

end ArtifactKey

/-- The paths chosen so far. -/
structure Layout where
  config : Config
  artifacts : Assoc ArtifactKey String := ∅

namespace Layout

/-- The directory of all chosen names. -/
def directory (l : Layout) : String := l.config.outputDir.text

/-- A path in the output directory: two digits of priority, then the parts of the name. -/
def path (l : Layout) (priority : Nat) (parts : List String) : String :=
  l.directory ++ "/" ++ Value.padded 2 priority ++ "_" ++ "_".intercalate parts ++ ".cf"

/-- The path without a source in its name: the only one, or that of the rules over all files. -/
def sharedPath (l : Layout) : String := l.path l.config.priority.val [l.config.id]

/-- Another artifact has the path. -/
def isTaken (l : Layout) (path : String) (except : ArtifactKey) : Bool :=
  l.artifacts.entries.any fun e => e.1 ≠ except && e.2 = path

/-- The greatest path of the rules of a source. -/
def lastRulesPath? (l : Layout) : Option String :=
  Text.greatest? <|
    (l.artifacts.entries.filter fun e => !e.1.isGlobal && !e.1.scores).map Prod.snd

def assign (l : Layout) (k : ArtifactKey) (path : String) : Layout :=
  { l with artifacts := l.artifacts.insert k path }

/-- Every path once, in load order. -/
def uniquePaths (l : Layout) : List String := Text.sortedUnique l.artifacts.values

/-! ### Artifacts of a source -/

/-- The path of the rules of a source: the pinned or chosen one, or else a new one. -/
def rulesFile (source : String) : Action Layout String := do
  let l ← Action.get
  match l.artifacts.get? ⟨some source, false⟩ with
  | some path => return path
  | none =>
    let path ←
      if l.config.isSingle then pure l.sharedPath
      else match FileName.segment? source with
        | some segment => pure (l.path l.config.priority.val [l.config.id, segment])
        | none => Action.fail (.noFileName source)
    Action.modify (·.assign ⟨some source, false⟩ path)
    return path

/-- The path of the scores of a source; that of its rules, if scores stand beside the rules. -/
def scoresFile (source : String) : Action Layout String := do
  let l ← Action.get
  match l.artifacts.get? ⟨some source, true⟩ with
  | some path => return path
  | none =>
    let path ←
      if l.config.isJoined then rulesFile source
      else if l.config.isSingle then pure (FileName.scoresPath l.sharedPath)
      else FileName.scoresPath <$> rulesFile source
    Action.modify (·.assign ⟨some source, true⟩ path)
    return path

/-! ### Artifacts over all files -/

/-- The first that fits of the shared path, the shared path of the next priority, and the shared
path with its first underscore doubled. -/
def globalChoice? (l : Layout) : Option String :=
  if l.config.isSingle then some l.sharedPath
  else
    let last := l.lastRulesPath?
    let free (p : String) : Bool := !l.isTaken p .global
    let bumped := l.path (l.config.priority.val + 1) [l.config.id]
    let doubled := FileName.doubledPath l.sharedPath
    if FileName.sortsAfter l.sharedPath last && free l.sharedPath then some l.sharedPath
    else if l.config.priority.val < 99 && free bumped then some bumped
    else if FileName.sortsAfter doubled last && free doubled then some doubled
    else none

def globalFile : Action Layout String := do
  let l ← Action.get
  match l.artifacts.get? .global with
  | some path => return path
  | none =>
    match l.globalChoice? with
    | none => Action.fail (.naming .noGlobalPath)
    | some path =>
      Action.debug ("GLOBAL rules -> " ++ path)
      Action.modify (·.assign .global path)
      return path

/-- The number that the first two characters of a file name write. -/
def leadingPriority? (name : List Char) : Option Nat :=
  match name with
  | a :: b :: _ => Text.digitsValue? [a, b]
  | _ => none

/-- The names that are tried for the scores over all files, whose rules are at `rules`. -/
def globalScoresCandidates (l : Layout) (rules : String) : List String :=
  let next :=
    match leadingPriority? (FileName.baseName rules) with
    | some n => if n < 99 then [l.path (n + 1) [l.config.id, "SCORES"]] else []
    | none => []
  FileName.scoresPath rules :: l.path l.config.priority.val [l.config.id, "SCORES"]
    :: next ++ [FileName.doubledPath rules]

def globalScoresChoice? (l : Layout) (rules : String) : Option String :=
  if l.config.isJoined then some rules
  else if l.config.isSingle then some (FileName.scoresPath l.sharedPath)
  else (l.globalScoresCandidates rules).find? fun p =>
    FileName.sortsAfter p (some rules) && !l.isTaken p .globalScores

def globalScoresFile : Action Layout String := do
  let l ← Action.get
  match l.artifacts.get? .globalScores with
  | some path => return path
  | none =>
    let rules ← globalFile
    match (← Action.get).globalScoresChoice? rules with
    | none => Action.fail (.naming .noGlobalScoresPath)
    | some path =>
      Action.debug ("GLOBAL scores -> " ++ path)
      Action.modify (·.assign .globalScores path)
      return path

/-! ### The whole layout -/

/-- Artifacts of the same class may share a path. -/
structure ShareClass where
  source : Option String
  scores : Bool
deriving DecidableEq, Repr

def shareClass (l : Layout) (k : ArtifactKey) : ShareClass :=
  ⟨if l.config.isSingle then some "" else k.source, k.scores && !l.config.isJoined⟩

/-- Looks for the first artifact whose path an earlier one of another class has; `owners` holds
the first artifact of each path so far. -/
def findClash (l : Layout) (owners : Assoc String ArtifactKey) :
    List (ArtifactKey × String) → Option NamingError
  | [] => none
  | (key, path) :: rest =>
    match owners.get? path with
    | none => findClash l (owners.insert path key) rest
    | some owner =>
      if l.shareClass owner = l.shareClass key then findClash l owners rest
      else some (.sharedPath path owner.text key.text)

/-- The artifacts by the text of their keys; of equal texts, in the order of their insertion. -/
def byText (l : Layout) : List (ArtifactKey × String) :=
  l.artifacts.entries.mergeSort fun a b => decide (a.1.text ≤ b.1.text)

/-- The first two artifacts that share a path without being meant to. -/
def clash? (l : Layout) : Option NamingError := l.findClash ∅ l.byText

def validate : Action Layout Unit := do
  match (← Action.get).clash? with
  | some e => Action.fail (.naming e)
  | none => return ()

/-- Chooses every path, of the sources first, and checks that no two clash. -/
def resolveAll (sources : List String) (withGlobal : Bool) : Action Layout Unit := do
  for source in sources do
    discard (rulesFile source)
    discard (scoresFile source)
  if withGlobal then
    discard globalFile
    discard globalScoresFile
  validate

end Layout

end MailRules
