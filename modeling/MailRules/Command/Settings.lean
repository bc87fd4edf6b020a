import MailRules.Command.Words
import MailRules.Report
import MailRules.Text.Numeral
import MailRules.Tree.Host
import MailRules.Value.Basic

/-! What the switches of a command line set, once their values are read. -/
namespace MailRules.Command

structure Settings where
  /-- The configuration file. -/
  config : Option Path := none
  /-- Fields of the configuration that the command line sets. -/
  fields : Assoc String Value := ∅
  strict : Bool := false
  verify : Bool := false
  format : Option Report.Format := none
  json : Bool := false

/-! ### Paths -/

/-- A slash or a single dot at the end of a path asks for a directory. -/
def asksForDirectory (path : String) : Bool :=
  match (Path.pieces '/' path.toList).getLast? with
  | some last => last = [] || last = ['.']
  | none => false

/-- What a path as it is typed leads to. -/
def entryAt? (h : Host) (path : String) : Option Entry := do
  if path.isEmpty then none
  match h.tree.find h.home true (Path.ofString path) with
  | .ok (_, .directory) => some .directory
  | .ok (_, e) => if asksForDirectory path then none else some e
  | .error _ => none

/-- A path at which there is something other than a directory. -/
def readFilePath (h : Host) (path : String) : Except ValueError Path :=
  match entryAt? h path with
  | none => .error (.missingPath .file path)
  | some .directory => .error (.wrongKind .file path)
  | some _ => .ok (Path.ofString path)

/-- A path at which there is no file; if it is `needed`, there has to be something. -/
def readDirectoryPath (h : Host) (needed : Bool) (path : String) : Except ValueError Path :=
  match entryAt? h path with
  | none => if needed then .error (.missingPath .directory path) else .ok (Path.ofString path)
  | some (.file _) => .error (.wrongKind .directory path)
  | some _ => .ok (Path.ofString path)

/-! ### Values -/

def readInteger (text : String) : Except ValueError Int :=
  match Text.readInt? text.toList with
  | some n => .ok n
  | none => .error (.notInteger text)

/-- One of the named things. -/
def readChoice {α : Type} (all : List α) (name : α → String) (text : String) :
    Except ValueError α :=
  match all.find? fun a => name a = text with
  | some a => .ok a
  | none => .error (.notAmong text (all.map name))

namespace Settings

def setField (s : Settings) (name : String) (v : Value) : Settings :=
  { s with fields := s.fields.insert name v }

/-- Takes what a switch is given. -/
def take (h : Host) (s : Settings) : Switch → Given → Except ValueError Settings
  | .config, .value text => (fun p => { s with config := some p }) <$> readFilePath h text
  | .id, .value text => .ok (s.setField "id" (.text text))
  | .priority, .value text => (fun n => s.setField "priority" (.int n)) <$> readInteger text
  | .dir, .value text => (fun p => s.setField "dir" (.path p)) <$> readDirectoryPath h false text
  | .outfile, .flag on => .ok (s.setField "single_outfile" (.bool on))
  | .scores, .flag on => .ok (s.setField "join_scores" (.bool on))
  | .globalConflict, .value text =>
    (fun p => s.setField "global_conflict" (.policy p)) <$>
      readChoice ConflictPolicy.all ConflictPolicy.name text
  | .strict, .flag on => .ok { s with strict := on }
  | .verify, .flag on => .ok { s with verify := on }
  | .format, .value text =>
    (fun f => { s with format := some f }) <$> readChoice Report.Format.all Report.Format.name text
  | .json, .flag on => .ok { s with json := on }
  | _, _ => .ok s

/-- Takes what the switches of a line are given, in the order in which they first come. -/
def ofWords (h : Host) (w : Words) : Except UsageError Settings :=
  w.switches.foldlM (fun s switch =>
    match w.get? switch with
    | some given => (s.take h switch given).mapError (.invalid switch.name)
    | none => .ok s) {}

end Settings

end MailRules.Command
