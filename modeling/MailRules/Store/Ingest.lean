import MailRules.Store.Basic
import MailRules.Text.Lines

/-! A file's text taken into the store, line by line.

Lines that declare nothing are passed over. A file without a declaration is an error, and so are
refused claims to global words, but the declarations read stay in the store. -/
namespace MailRules.Store

/-- What the lines read so far have come to. -/
structure Progress where
  store : Store
  count : Nat := 0
  conflicts : List Conflict := []
  notices : List Notice := []

/-- The notice of a line that was passed over. -/
def passedOver (key : String) (number : Nat) (line : String) : Notice :=
  .debug ("Invalid input in " ++ key ++ ", line " ++ toString number ++ ": " ++ line)

/-- The notice of a declaration. -/
def found (key : String) (d : Declaration) : Notice :=
  .debug ("Found '" ++ d.word ++ "' " ++ d.score.toText ++ " " ++ ",".intercalate d.groups
    ++ " in " ++ key)

/-- Takes in what one line says. -/
def Progress.take (p : Progress) (key : String) (number : Nat) (line : String) :
    Declaration.Reading → Progress
  | .skipped => p
  | .malformed fault =>
    { p with notices := p.notices ++ [.debug (fault.message line), passedOver key number line] }
  | .declared d =>
    let (store, outcome) := p.store.add key d
    { store
      count := p.count + 1
      conflicts := p.conflicts ++ (conflict? key d.word outcome).toList
      notices := p.notices ++ found key d :: claimNotices key d.word outcome }

/-- Takes in the lines from `number` on; a numeral that is too long ends it, and what was read
until then stays. -/
def Progress.read (p : Progress) (key : String) (number : Nat) :
    List String → Progress × Option Declaration.Oversized
  | [] => (p, none)
  | line :: rest =>
    match Declaration.read line with
    | .error e => (p, some e)
    | .ok reading => (p.take key number line reading).read key (number + 1) rest

/-- The number of declarations, or why there are none or not all of them. -/
def Progress.outcome (p : Progress) (key : String) : Except IngestError Nat :=
  if p.count = 0 then .error (.noRules key)
  else if p.conflicts ≠ [] then .error (.conflicts p.conflicts)
  else .ok p.count

/-- Takes in the text of a file. -/
def readText (s : Store) (key text : String) : Progress × Option Declaration.Oversized :=
  Progress.read { store := s } key 1 (Text.linesOf text)

end MailRules.Store
