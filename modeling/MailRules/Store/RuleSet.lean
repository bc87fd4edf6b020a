import MailRules.Assoc
import MailRules.Declaration.Basic
import MailRules.Text.Basic

/-! What the declarations of one file add up to. -/
namespace MailRules

/-- The words of each group, repeats kept, with the scores and the comments of single words. -/
structure RuleSet where
  groups : Assoc String (List String) := ∅
  scored : Assoc String Score := ∅
  comments : Assoc String String := ∅
deriving DecidableEq

namespace RuleSet

instance : Inhabited RuleSet := ⟨{}⟩

def addToGroup (r : RuleSet) (group word : String) : RuleSet :=
  { r with groups := r.groups.update group [] (· ++ [word]) }

/-- Every word that a group or a score names, in order. -/
def words (r : RuleSet) : List String :=
  Text.sortedUnique (r.scored.keys ++ r.groups.values.flatten)

/-- Takes in a declaration; the group over all files is not one of the file's own. -/
def add (r : RuleSet) (d : Declaration) : RuleSet :=
  let grouped := (d.groups.filter (· ≠ globalGroup)).foldl (fun r g => r.addToGroup g d.word) r
  { grouped with
    scored := if d.isScored then grouped.scored.insert d.word d.score else grouped.scored
    comments :=
      if d.comment.isEmpty then grouped.comments else grouped.comments.insert d.word d.comment }

end RuleSet

end MailRules
