import MailRules.Generation.Basic

/-! A generator at work: a store being filled, pinned paths, and the last generation.

The buffers of a generation are kept until an operation of the generator changes what they were
made from. -/
namespace MailRules

structure Session where
  config : Config
  store : Store
  layout : Layout
  /-- The lines of the last generation, unless something has been read or pinned since. -/
  buffers : Option (Buffers Rule.Line) := none
  pins : Assoc ArtifactKey String := ∅

namespace Session

/-- A generator with nothing read; `home` is the directory that a relative root is seen from. -/
def new (home : Path) (config : Config) : Session where
  config
  store := { root := home.join config.root, policy := config.policy }
  layout := { config }

/-- Forgets the last generation. -/
def stale (s : Session) : Session := { s with buffers := none }

/-- Pins the rules or the scores of a source to a path. -/
def pin (s : Session) (source path : String) (scores : Bool) : Session :=
  { s with pins := s.pins.insert ⟨some (s.store.fileKey source), scores⟩ path, buffers := none }

/-- Generates everything anew. A naming error leaves the generator without buffers; any other
failure leaves those it had. -/
def generate : Action Session (Buffers Rule.Line) := do
  let s ← Action.get
  let fresh : Generation := { layout := { config := s.config, artifacts := s.pins } }
  let (answer, g, notices) := (Generation.generate s.store).run fresh
  Action.say notices
  match answer with
  | .ok buffers =>
    Action.set { s with layout := g.layout, buffers := some buffers }
    return buffers
  | .error (.naming e) =>
    Action.set { s with layout := g.layout, buffers := none }
    Action.fail (.generation e)
  | .error e =>
    Action.set { s with layout := g.layout }
    Action.fail e

/-- The paths of the last generation, or of a new one if there is none. -/
def artifactPaths : Action Session (List String) := do
  if (← Action.get).buffers.isNone then discard generate
  return (← Action.get).layout.uniquePaths

end Session

end MailRules
