import MailRules.Fault
import MailRules.Notice

/-! Operations on a state that may fail and have something to say.

What an operation did and said before it failed stays. -/
namespace MailRules

/-- A state, with the notices so far. -/
structure Stage (σ : Type) where
  state : σ
  notices : List Notice := []

/-- An operation on a state `σ` that answers with `α` or fails. -/
abbrev Action (σ α : Type) := ExceptT Fault (StateM (Stage σ)) α

namespace Action

variable {σ τ α : Type}

def get : Action σ σ := do
  return (← getThe (Stage σ)).state

def set (s : σ) : Action σ Unit :=
  modifyThe (Stage σ) fun stage => { stage with state := s }

def modify (f : σ → σ) : Action σ Unit :=
  modifyThe (Stage σ) fun stage => { stage with state := f stage.state }

/-- Adds notices. -/
def say (notices : List Notice) : Action σ Unit :=
  modifyThe (Stage σ) fun stage => { stage with notices := stage.notices ++ notices }

def debug (text : String) : Action σ Unit := say [.debug text]

def fail (f : Fault) : Action σ α := throw f

def ofExcept : Except Fault α → Action σ α
  | .ok a => pure a
  | .error f => throw f

/-- What an operation answers, be it a failure. -/
def attempt (a : Action σ α) : Action σ (Except Fault α) := ExceptT.lift (ExceptT.run a)

/-- Runs an operation, with what it answered, the state it left and what it said. -/
def run (a : Action σ α) (s : σ) : Except Fault α × σ × List Notice :=
  let (answer, stage) := (ExceptT.run a).run ⟨s, []⟩
  (answer, stage.state, stage.notices)

/-- An operation on a part of the state. -/
def on (part : τ → σ) (put : τ → σ → τ) (a : Action σ α) : Action τ α := do
  let whole ← get
  let (answer, s, notices) := a.run (part whole)
  set (put whole s)
  say notices
  ofExcept answer

end Action

end MailRules
