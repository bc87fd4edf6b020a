import MailRules.Notice
import MailRules.Path
import MailRules.Text.Basic

/-! Checking written rules with the filter's own program. -/
namespace MailRules

/-- What the program does when it is run. -/
inductive Linter
  | missing
  /-- It does not end in time. -/
  | slow
  | answers (status : Int) (stdout stderr : String)
deriving DecidableEq, Repr

/-- The outcome of a check. -/
structure Verification where
  ok : Bool
  output : String
deriving DecidableEq, Repr

namespace Linter

/-- The name of the program. -/
def program : String := "spamassassin"

/-- How many seconds it may take. -/
def patience : Int := 120

/-- The command that checks the rules in a directory. -/
def command (executable : String) (directory : Path) : List String :=
  [executable, "--lint", "--siteconfigpath=" ++ directory.text]

def notice (command : List String) : Notice :=
  .debug ("Running " ++ " ".intercalate command)

/-- What the program said on both channels, without the blanks around each. -/
def joinOutput (stdout stderr : String) : String :=
  let parts := [stdout, stderr].map fun s => String.ofList (Text.trim s.toList)
  "\n".intercalate (parts.filter (· ≠ ""))

/-- The outcome of a run; a program that is missing or too slow has failed. -/
def verify (linter : Linter) (executable : String) (seconds : Int) : Verification :=
  match linter with
  | .missing => ⟨false, executable ++ " executable not found"⟩
  | .slow => ⟨false, executable ++ " --lint timed out after " ++ toString seconds ++ "s"⟩
  | .answers status stdout stderr => ⟨status = 0, joinOutput stdout stderr⟩

end Linter

end MailRules
