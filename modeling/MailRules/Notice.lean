import MailRules.Declaration.Line

/-! Notices: what a run has to say beside its results. -/
namespace MailRules

inductive Level
  | debug
  | warning
deriving DecidableEq, Repr

def Level.label : Level → String
  | .debug => "DEBUG"
  | .warning => "WARNING"

/-- A notice with the text that is shown. -/
structure Notice where
  level : Level
  text : String
deriving DecidableEq, Repr

def Notice.toLine (n : Notice) : String :=
  n.level.label ++ " " ++ n.text

def Notice.debug (text : String) : Notice := ⟨.debug, text⟩

def Notice.warning (text : String) : Notice := ⟨.warning, text⟩

/-- The notices of reading one line. -/
def Declaration.Reading.notices (line : String) : Declaration.Reading → List Notice
  | .malformed fault => [.debug (fault.message line)]
  | _ => []

end MailRules
