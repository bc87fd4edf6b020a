import MailRules.Fault
import MailRules.Rule.Name

/-! No rule name is defined twice.

Names lose what they may not hold, so different words, groups and sources can come to the same
name. The check goes through the sources in order and stops at the first clash. -/
namespace MailRules.Generation

open Rule

/-- Who defines a rule name. -/
inductive Owner
  | word (word source : String)
  | scored (word source : String)
  | group (group source : String)
  | global
deriving DecidableEq, Repr

def Owner.text : Owner → String
  | .word w source => "word '" ++ w ++ "' in " ++ source
  | .scored w source => "scored word '" ++ w ++ "' in " ++ source
  | .group g source => "group " ++ g ++ " in " ++ source
  | .global => "GLOBAL"

/-- The names that a source's component rules define. -/
def componentNames (family source word : String) : List (String × Owner) :=
  let name := componentName family word
  [name, bodyName name, subjectName name].map (·, .word word source)

/-- The names of `size` thresholds. -/
def thresholdNames (name : String) (size : Nat) (owner : Owner) : List (String × Owner) :=
  (List.range size).map fun n => (thresholdName name (n + 1), owner)

/-- Every name that the rules of a source define, with its owner. -/
def definedNames (family source : String) (words : List String) (rules : RuleSet) :
    List (String × Owner) :=
  words.flatMap (componentNames family source)
    ++ rules.scored.keys.map (fun w => (scoredName family w, .scored w source))
    ++ rules.groups.entries.flatMap fun e =>
      thresholdNames (groupName family e.1) e.2.length (.group e.1 source)

/-- Enters names with their owners; the first that is there already is an error. -/
def enter (defined : Assoc String Owner) :
    List (String × Owner) → Except NamingError (Assoc String Owner)
  | [] => .ok defined
  | (name, owner) :: rest =>
    match defined.get? name with
    | some first => .error (.definedTwice name first.text owner.text)
    | none => enter (defined.insert name owner) rest

/-- The first two words that come to the same part of a name. -/
def checkWords (family source : String) (seen : Assoc String String) :
    List String → Except NamingError Unit
  | [] => .ok ()
  | word :: rest =>
    let part := segment word
    match seen.get? part with
    | some first => .error (.sharedName first word source (family ++ "_" ++ part))
    | none => checkWords family source (seen.insert part word) rest

/-- The families and the rule names entered so far. -/
structure Names where
  families : Assoc String String := ∅
  defined : Assoc String Owner := ∅

/-- Enters a source. -/
def Names.enterSource (names : Names) (id : String) (store : Store) (source : String) :
    Except Fault Names := do
  match family? id source with
  | none => throw (.noFileName source)
  | some family =>
    if let some first := names.families.get? family then
      throw (.naming (.sharedFamily first source family))
    let words := store.componentWords source
    (checkWords family source ∅ words).mapError .naming
    let rules := (store.files.get? source).getD {}
    let defined ← (enter names.defined (definedNames family source words rules)).mapError .naming
    return { families := names.families.insert family source, defined }

/-- The check of all sources and of the global words. -/
def checkNames (id : String) (store : Store) (sources : List String) : Except Fault Unit := do
  let names ← sources.foldlM (fun (n : Names) source => n.enterSource id store source) {}
  discard <|
    (enter names.defined (thresholdNames id store.origins.size .global)).mapError .naming

end MailRules.Generation
