import MailRules.Config.Basic
import MailRules.Fault
import MailRules.Text.Case
import MailRules.Text.Letter

/-! A configuration made from the fields that are given.

The checks run in a fixed order, and the first that fails decides. A checked configuration turned
back into fields passes them again, so that overriding is making a configuration from fields. -/
namespace MailRules.Config

/-- The field names, in the order of the checks. -/
def fieldNames : List String :=
  ["id", "priority", "debug", "single_outfile", "join_scores", "dir", "root", "global_conflict",
    "group_score"]

/-- A value as part of a message or of an identifier. -/
def writable (v : Value) : Except Fault Value :=
  if v.isWritable then .ok v else .error .oversized

def checkId (v : Value) : Except Fault String := do
  let ident := Text.upper (← writable v).plain
  if !(ident.toList.head?.map Text.isLetter).getD false then .error (.config (.idStart v))
  else if !(ident.toList.filter (· ≠ '_')).all Text.isAlphanumeric then
    .error (.config (.idCharacters v))
  else .ok ident

def checkPriority (v : Value) : Except Fault (Fin 100) := do
  match v with
  | .int n =>
    if h : 0 ≤ n ∧ n ≤ 99 then return ⟨n.toNat, by omega⟩
    else
      discard (writable v)
      throw (.config (.priorityRange n))
  | other => throw (.config (.priorityKind (← writable other)))

def checkPolicy (v : Value) : Except Fault ConflictPolicy := do
  match v with
  | .policy p => return p
  | other =>
    match ConflictPolicy.ofName? (← writable other).plain with
    | some p => return p
    | none => throw (.config (.policyName other))

def checkPath : Value → Except Fault Path
  | .path p => .ok p
  | .text s => .ok (Path.ofString s)
  | _ => .error .badField

def checkDir : Value → Except Fault (Option Path)
  | .null => .ok none
  | other => some <$> checkPath other

def checkScore (v : Value) : Except Fault Binary64 := do
  let typed (number : Option Binary64) : Except Fault Binary64 := do
    match number with
    | some x => return x
    | none => throw (.config (.groupScoreKind (← writable v)))
  match v with
  | .bool b => return (Binary64.ofInt? (if b then 1 else 0)).getD Binary64.zero
  | .int n => (Binary64.ofInt? n).elim (.error .overflow) .ok
  | .real x => return x
  | .text s => typed (Binary64.read? s.toList)
  | .bytes data => typed (Binary64.readBytes? data)
  | other => throw (.config (.groupScoreKind (← writable other)))

/-- The group score of a configuration that names none. -/
def defaultGroupScore : Binary64 :=
  Binary64.ofRatio false 1 100

/-- The configuration that the fields make; a missing field has its default, and the root is
`root` unless a field says otherwise. -/
def ofFields (root : Path) (fields : Assoc String Value) : Except Fault Config := do
  if fields.keys.any fun k => k ∉ fieldNames then throw .badField
  let field (name : String) (fresh : Value) : Value := (fields.get? name).getD fresh
  let id ← checkId (field "id" (.text "KW"))
  let priority ← checkPriority (field "priority" (.int 50))
  let policy ← checkPolicy (field "global_conflict" (.text "last"))
  let dir ← checkDir (field "dir" .null)
  let root ← checkPath (field "root" (.path root))
  let groupScore ← checkScore (field "group_score" (.real defaultGroupScore))
  return {
    id, priority, policy, dir, root, groupScore
    debug := field "debug" (.bool false)
    singleOutfile := field "single_outfile" (.bool false)
    joinScores := field "join_scores" (.bool true) }

/-- The fields of a checked configuration. -/
def toFields (c : Config) : Assoc String Value :=
  Assoc.ofList
    [("id", .text c.id), ("priority", .int c.priority.val), ("debug", c.debug),
      ("single_outfile", c.singleOutfile), ("join_scores", c.joinScores),
      ("dir", (c.dir.map Value.path).getD .null), ("root", .path c.root),
      ("global_conflict", .policy c.policy), ("group_score", .real c.groupScore)]

/-- The fields that say something: all but the null ones. -/
def givenFields (fields : Assoc String Value) : Assoc String Value :=
  fields.filter fun _ v => match v with
    | .null => false
    | _ => true

/-- The configuration with the given fields in place of its own. -/
def withOverrides (c : Config) (overrides : Assoc String Value) : Except Fault Config :=
  ofFields c.root (c.toFields.merge (givenFields overrides))

end MailRules.Config
