import MailRules.Inputs.Expansion
import MailRules.Store.Ingest

/-! Keyword files read into a store. -/
namespace MailRules.Store

/-- Reads one file; answers with the number of its declarations. -/
def read (h : Host) (path : String) : Action Store Nat := do
  let s ← Action.get
  let key := s.fileKey path
  match (h.readBytes (Path.ofString path)).toOption.bind Host.decode? with
  | none => Action.fail (.ingest (.unreadable key))
  | some text =>
    let (p, oversized) := s.readText key text
    Action.set p.store
    Action.say p.notices
    if oversized.isSome then Action.fail .oversized
    match p.outcome key with
    | .ok count => return count
    | .error e => Action.fail (.ingest e)

/-- Reads the files one after the other; a file that contributes nothing, or not all it declares,
gives a message, and the rest are read all the same. -/
def readEach (h : Host) : List Path → Action Store (List String)
  | [] => return []
  | path :: rest => do
    let message ← tryCatch (do discard (read h path.text); return none) fun
      | .ingest e => do
        Action.debug e.message
        return some e.message
      | f => throw f
    return message.toList ++ (← readEach h rest)

/-- Reads every file that the inputs denote; answers with what went wrong. -/
def readAll (h : Host) (inputs : List String) : Action Store (List String) := do
  let (e, fault) := Expansion.ofInputs h (← Action.get).root (inputs.map Path.ofString)
  Action.say e.notices
  if let some f := fault then Action.fail f
  return e.failures ++ (← readEach h e.files)

end MailRules.Store
