import MailRules.Command.Error
import MailRules.Command.Switch
import MailRules.Text.Likeness

/-! Arguments told apart: switches with what they are given, and the other words. -/
namespace MailRules.Command

/-- What a switch is given. -/
inductive Given
  | flag (on : Bool)
  | value (text : String)
deriving DecidableEq, Repr

/-- The words of a command line. -/
structure Words where
  /-- In the order of the line. -/
  given : List (Switch × Given) := []
  others : List String := []
deriving DecidableEq, Repr

namespace Words

def give (w : Words) (s : Switch) (g : Given) : Words := { w with given := (s, g) :: w.given }

/-- The switches that are given, each once, in the order in which they first come. -/
def switches (w : Words) : List Switch := (w.given.map Prod.fst).eraseDups

/-- What a switch is given last. -/
def get? (w : Words) (s : Switch) : Option Given := (w.given.reverse.find? (·.1 = s)).map Prod.snd

/-- The first switch that is answered before anything else. -/
def urgent? (w : Words) : Option Switch := (w.given.map Prod.fst).find? Switch.isUrgent

end Words

/-- A switch begins with a hyphen, and is more than that. -/
def isSwitchLike (argument : String) : Bool :=
  match argument.toList with
  | '-' :: _ :: _ => true
  | _ => false

/-- The part before the first equals sign, and the part after it if there is one. -/
def splitValue (argument : String) : String × Option String :=
  let cs := argument.toList
  let name := cs.takeWhile (· ≠ '=')
  match cs.drop name.length with
  | [] => (argument, none)
  | _ :: value => (String.ofList name, some (String.ofList value))

/-- The switch that a spelling stands for, with what the spelling sets. -/
def lookup? (allowed : List Switch) (name : String) : Option (Switch × Option Bool) :=
  allowed.findSome? fun s => (s.spellings.lookup name).map fun sets => (s, sets)

/-- An unknown switch; only one with two hyphens is compared with those that are known. -/
def unknown (allowed : List Switch) (argument name : String) : UsageError :=
  match argument.toList with
  | '-' :: '-' :: _ =>
    .unknownSwitch name (Text.closest name (allowed.flatMap fun s => s.spellings.map Prod.fst))
  | cs => .unknownSwitch (String.ofList (cs.take 2)) []

/-- Tells the arguments apart. Two hyphens end the switches; so does the first other word, unless
switches may be `mixed` with the others. -/
def tellApart (allowed : List Switch) (mixed : Bool) : List String → Except UsageError Words
  | [] => .ok {}
  | argument :: rest =>
    if argument = "--" then .ok { others := rest }
    else if isSwitchLike argument then
      let (name, value) := splitValue argument
      match lookup? allowed name, value with
      | none, _ => .error (unknown allowed argument name)
      | some (s, some on), none => (·.give s (.flag on)) <$> tellApart allowed mixed rest
      | some (_, some _), some _ => .error (.needlessValue name)
      | some (s, none), some value => (·.give s (.value value)) <$> tellApart allowed mixed rest
      | some (s, none), none =>
        match rest with
        | [] => .error (.missingValue name)
        | value :: rest => (·.give s (.value value)) <$> tellApart allowed mixed rest
    else if mixed then
      (fun w => { w with others := argument :: w.others }) <$> tellApart allowed mixed rest
    else .ok { others := argument :: rest }

end MailRules.Command
