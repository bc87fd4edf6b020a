import MailRules.Proofs.Rule.Pattern

/-! Where the pattern of a word is found.

The pattern matches a part of a text that has the characters of the word, in any case, and an edge
at either end (`matches_wordPattern_iff`). Beside a space or an end of the text there is an edge only
if the word has a word character there; so a word is found as a whole exactly if it begins and ends
with one (`found_iff`). A declared word need not (`plusses_not_found`). -/
namespace MailRules.Rule

/-- What the search makes of characters. -/
structure Alphabet where
  isWordChar : Char → Bool
  /-- The form that capitals and small letters have in common. -/
  fold : Char → Char
  isWordChar_space : isWordChar ' ' = false

namespace Alphabet

/-! ### Matching -/

/-- Between the two texts is an edge: a word character on one side, and on the other a character that
is none, or nothing. -/
def isEdge (A : Alphabet) (before after : List Char) : Bool :=
  before.getLast?.any A.isWordChar != after.head?.any A.isWordChar

def isSame (A : Alphabet) (ignoresCase : Bool) (c d : Char) : Bool :=
  if ignoresCase then A.fold c = A.fold d else c = d

/-- The atoms match the text `here`, which stands between the other two. -/
def matchesAt (A : Alphabet) (ignoresCase : Bool) :
    List Atom → (before here after : List Char) → Bool
  | [], _, here, _ => here.isEmpty
  | .edge :: atoms, before, here, after =>
    A.isEdge before (here ++ after) && A.matchesAt ignoresCase atoms before here after
  | .char _ :: _, _, [], _ => false
  | .char c :: atoms, before, d :: here, after =>
    A.isSame ignoresCase c d && A.matchesAt ignoresCase atoms (before ++ [d]) here after

/-- The written pattern matches `here` where it stands between the other two texts. -/
def Matches (A : Alphabet) (pattern before here after : String) : Prop :=
  ∃ p, Pattern.read? pattern = some p ∧
    A.matchesAt p.ignoresCase p.atoms before.toList here.toList after.toList = true

/-- The written pattern matches some part of the text. -/
def Finds (A : Alphabet) (pattern text : String) : Prop :=
  ∃ before here after, text = before ++ here ++ after ∧ A.Matches pattern before here after

variable {A : Alphabet}

/-- A last edge after characters: these are what is there, and the edge follows. -/
theorem matchesAt_chars {word before here after : List Char} :
    A.matchesAt true (word.map .char ++ [.edge]) before here after = true ↔
      here.map A.fold = word.map A.fold ∧ A.isEdge (before ++ here) after = true := by
  induction word generalizing before here with
  | nil =>
    cases here with
    | nil => simp [matchesAt]
    | cons => simp [matchesAt]
  | cons c word ih =>
    cases here with
    | nil => simp [matchesAt]
    | cons d here =>
      have hstep : A.matchesAt true ((c :: word).map .char ++ [.edge]) before (d :: here) after =
          (A.isSame true c d &&
            A.matchesAt true (word.map .char ++ [.edge]) (before ++ [d]) here after) := rfl
      rw [hstep, Bool.and_eq_true, ih, List.append_assoc, List.singleton_append, List.map_cons,
        List.map_cons, List.cons.injEq, and_assoc, isSame, if_pos rfl, decide_eq_true_eq, eq_comm]

theorem matches_wordPattern_iff {w before here after : String} :
    A.Matches (wordPattern w) before here after ↔
      here.toList.map A.fold = w.toList.map A.fold ∧
        A.isEdge before.toList (here.toList ++ after.toList) = true ∧
        A.isEdge (before.toList ++ here.toList) after.toList = true := by
  have hatoms : A.Matches (wordPattern w) before here after ↔
      A.matchesAt true (wordAtoms w) before.toList here.toList after.toList = true := by
    rw [Matches, read?_wordPattern]
    simp
  rw [hatoms, wordAtoms, matchesAt, Bool.and_eq_true, matchesAt_chars]
  exact and_left_comm

/-! ### Words as a whole -/

/-- The word begins and ends with a word character. -/
def Bounds (A : Alphabet) (w : String) : Prop :=
  w.toList.head?.any A.isWordChar = true ∧ w.toList.getLast?.any A.isWordChar = true

theorem isEdge_start {before after : List Char} (h : before.getLast?.any A.isWordChar = false) :
    A.isEdge before after = after.head?.any A.isWordChar := by
  rw [isEdge, h, Bool.false_bne]

theorem isEdge_stop {before after : List Char} (h : after.head?.any A.isWordChar = false) :
    A.isEdge before after = before.getLast?.any A.isWordChar := by
  rw [isEdge, h, Bool.bne_false]

/-- With no word character beside it, the word itself decides. -/
theorem matches_whole_iff {w before after : String}
    (hbefore : before.toList.getLast?.any A.isWordChar = false)
    (hafter : after.toList.head?.any A.isWordChar = false) :
    A.Matches (wordPattern w) before w after ↔ A.Bounds w := by
  rw [matches_wordPattern_iff, isEdge_start hbefore, isEdge_stop hafter, Bounds]
  cases hw : w.toList with
  | nil => simp [hbefore, hafter]
  | cons c rest =>
    rw [List.getLast?_append, List.getLast?_eq_some_getLast (List.cons_ne_nil c rest), Option.some_or]
    exact and_iff_right rfl

/-- A text as long as the word has no other part that the pattern could match. -/
theorem finds_self_iff {w : String} : A.Finds (wordPattern w) w ↔ A.Bounds w := by
  have hwhole : A.Matches (wordPattern w) "" w "" ↔ A.Bounds w := matches_whole_iff rfl rfl
  rw [← hwhole]
  constructor
  · rintro ⟨before, here, after, htext, hmatches⟩
    have hfold := (matches_wordPattern_iff.mp hmatches).1
    have hlength := congrArg List.length hfold
    rw [List.length_map, List.length_map] at hlength
    have hparts := congrArg (List.length ∘ String.toList) htext
    simp only [Function.comp_apply, String.toList_append, List.length_append] at hparts
    have hbefore : before = "" := by
      rw [← String.toList_eq_nil_iff, ← List.length_eq_zero_iff]
      omega
    have hafter : after = "" := by
      rw [← String.toList_eq_nil_iff, ← List.length_eq_zero_iff]
      omega
    subst hbefore hafter
    rw [String.empty_append, String.append_empty] at htext
    rwa [← htext] at hmatches
  · exact fun h => ⟨"", w, "", by simp, h⟩

/-- **A word is found as a whole exactly if it begins and ends with word characters**, be it all of a
text or a part between two spaces. -/
theorem found_iff (A : Alphabet) (w : String) :
    (A.Finds (wordPattern w) w ↔ A.Bounds w) ∧
      ∀ before after : String,
        A.Matches (wordPattern w) (before ++ " ") w (" " ++ after) ↔ A.Bounds w := by
  refine ⟨finds_self_iff, fun before after => matches_whole_iff ?_ ?_⟩
  · rw [String.toList_append, List.getLast?_append]
    exact A.isWordChar_space
  · rw [String.toList_append, List.head?_append]
    exact A.isWordChar_space

/-- Letters of the basic alphabet, digits and underscores. -/
def basic : Alphabet where
  isWordChar := isNameChar
  fold := Char.toLower
  isWordChar_space := by decide

/-- A keyword that ends with another character is not found as a whole, only in front of a letter. -/
theorem plusses_not_found : ∃ d, Declaration.read "c++ 1" = .ok (.declared d) ∧ d.word = "c++" ∧
    ¬ basic.Finds (wordPattern d.word) d.word ∧
    ¬ basic.Matches (wordPattern d.word) "a " d.word " b" ∧
    basic.Matches (wordPattern d.word) "a " d.word "b" := by
  refine ⟨{ word := "c++", score := .whole 1 }, by decide +kernel, rfl, ?_, ?_, ?_⟩
  · rw [finds_self_iff, Bounds]
    decide
  · rw [matches_whole_iff (by decide) (by decide), Bounds]
    decide
  · rw [matches_wordPattern_iff]
    decide

end Alphabet

end MailRules.Rule
