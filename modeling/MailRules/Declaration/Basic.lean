import MailRules.Score

/-! Keyword declarations: a word with its score, its groups and a comment. -/
namespace MailRules

/-- The group of words declared with no group of their own. -/
def localGroup : String := "LOCAL"

/-- The group whose words are counted over all files. -/
def globalGroup : String := "GLOBAL"

structure Declaration where
  word : String
  score : Score := .whole 0
  comment : String := ""
  groups : List String := [localGroup]
deriving DecidableEq, Repr

namespace Declaration

/-- The word scores on its own. -/
def isScored (d : Declaration) : Bool :=
  !d.score.isZero

/-- Equal field by field, the scores as numbers. -/
def same (d e : Declaration) : Bool :=
  d.word = e.word && d.score.sameNumber e.score && d.comment = e.comment && d.groups = e.groups

end Declaration

end MailRules
