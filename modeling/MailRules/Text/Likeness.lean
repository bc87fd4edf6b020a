import MailRules.Text.Basic

/-! How alike two texts are.

The longest run that both texts hold is set aside, then the longest run on either side of it, and
so on. The likeness of the texts is the share of their characters that is set aside; words like a
given one are those with a share of three fifths at least. -/
namespace MailRules.Text

/-- The length of the longest common start. -/
def sharedStart : List Char → List Char → Nat
  | a :: s, b :: t => if a = b then sharedStart s t + 1 else 0
  | _, _ => 0

/-- A run that two texts share, and where it starts in each. -/
structure SharedRun where
  left : Nat := 0
  right : Nat := 0
  length : Nat := 0
deriving DecidableEq, Repr

/-- The longest run that two texts share; of several the one that starts first in the left text,
then in the right one. -/
def longestRun (s t : List Char) : SharedRun :=
  (List.range s.length).foldl (fun best i =>
    (List.range t.length).foldl (fun best j =>
      let n := sharedStart (s.drop i) (t.drop j)
      if best.length < n then ⟨i, j, n⟩ else best) best) {}

/-- How many characters are set aside in each of two texts. -/
def sharedCount (s t : List Char) : Nat :=
  match longestRun s t with
  | ⟨left, right, length⟩ =>
    if _inside : 0 < length ∧ left < s.length then
      sharedCount (s.take left) (t.take right) + length
        + sharedCount (s.drop (left + length)) (t.drop (right + length))
    else 0
termination_by s.length
decreasing_by
  · simp only [List.length_take]; omega
  · simp only [List.length_drop]; omega

/-- A candidate with its likeness as a fraction. -/
structure Likeness where
  candidate : String
  shared : Nat
  total : Nat

def Likeness.of (word candidate : String) : Likeness :=
  ⟨candidate, sharedCount candidate.toList word.toList, candidate.length + word.length⟩

/-- Both texts count, so the share is twice what is set aside in one. -/
def Likeness.isClose (l : Likeness) : Bool := 3 * l.total ≤ 5 * (2 * l.shared)

/-- More alike first; of equally alike candidates the greater one first. -/
def Likeness.before (a b : Likeness) : Bool :=
  b.shared * a.total < a.shared * b.total
    || (b.shared * a.total = a.shared * b.total && decide (b.candidate ≤ a.candidate))

/-- The shorter of two texts holds enough of their characters for them to be close. -/
def isComparable (word candidate : String) : Bool :=
  3 * (candidate.length + word.length) ≤ 5 * (2 * min candidate.length word.length)

/-- The three candidates most like a word, if they are close, in the order of their texts. -/
def closest (word : String) (candidates : List String) : List String :=
  let comparable := candidates.filter (isComparable word)
  let close := (comparable.map (Likeness.of word)).filter Likeness.isClose
  sorted (((close.mergeSort Likeness.before).take 3).map Likeness.candidate)

end MailRules.Text
