import MailRules.Assoc
import MailRules.Lint
import MailRules.Text.Json

/-! The report of a build, in three forms. -/
namespace MailRules

structure Report where
  filesRead : Int := 0
  words : Int := 0
  /-- The path of each artifact, by the text of its key. -/
  artifacts : Assoc String String := ∅
  written : List String := []
  failures : List String := []
  writeErrors : List String := []
  verification : Option Verification := none
  elapsedMs : Binary64 := Binary64.zero

namespace Report

/-- Everything was read and written, and the check passed if there was one. -/
def isOk (r : Report) : Bool :=
  r.failures.isEmpty && r.writeErrors.isEmpty && (r.verification.map Verification.ok).getD true

/-- What went wrong, one text each. -/
def problems (r : Report) : List String :=
  let unverified := match r.verification with
    | some ⟨false, output⟩ => ["Verification failed: " ++ output]
    | _ => []
  r.failures ++ r.writeErrors ++ unverified

/-- The form for people. -/
def toSummary (r : Report) : String :=
  let problems := r.problems
  let elapsed := (r.elapsedMs.divide 1000).toTenths ++ "s"
  let last :=
    if problems.isEmpty then
      "✓ Rules generated" ++ (if r.verification.isSome then ", verified" else "")
        ++ " (" ++ elapsed ++ ")"
    else
      toString problems.length ++ " " ++ (if problems.length = 1 then "problem" else "problems")
        ++ " found (" ++ elapsed ++ ")"
  "\n".intercalate <|
    ["Inputs: " ++ toString r.filesRead ++ " files, " ++ toString r.words ++ " words",
      "Wrote: " ++ toString r.written.length ++ " files", ""]
      ++ r.written.map ("  " ++ ·) ++ (if r.written.isEmpty then [] else [""])
      ++ problems.map ("✗ " ++ ·) ++ (if problems.isEmpty then [] else [""])
      ++ [last]

def texts (items : List String) : Json := .list (items.map .text)

/-- The form for programs. -/
def toJson (r : Report) : Json :=
  .object
    [("artifacts", .object (r.artifacts.entries.map fun e => (e.1, .text e.2))),
      ("written", texts r.written), ("failures", texts r.failures),
      ("write_errors", texts r.writeErrors),
      ("verification", match r.verification with
        | some v => .object [("ok", .bool v.ok), ("output", .text v.output)]
        | none => .null),
      ("summary", .object
        [("files_read", .int r.filesRead), ("words", .int r.words), ("ok", .bool r.isOk),
          ("elapsed_ms", .real r.elapsedMs)])]

/-- The form for scripts: one event a line. -/
def toEvents (r : Report) : String :=
  "\n".intercalate <|
    r.written.map ("written:" ++ ·) ++ r.failures.map ("failure:" ++ ·)
      ++ r.writeErrors.map ("error:" ++ ·)
      ++ (r.verification.map fun v => "verify:" ++ if v.ok then "ok" else "failed").toList

/-! ### Forms -/

inductive Format
  | rich
  | json
  | porcelain
deriving DecidableEq, Repr

def Format.all : List Format := [.rich, .json, .porcelain]

def Format.name : Format → String
  | .rich => "rich"
  | .json => "json"
  | .porcelain => "porcelain"

/-- The report in a form. -/
def inFormat (r : Report) : Format → String
  | .rich => r.toSummary
  | .json => r.toJson.toText .basic
  | .porcelain => r.toEvents

end Report

end MailRules
