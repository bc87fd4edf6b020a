import Mathlib.Data.List.TakeWhile
import MailRules.Proofs.Declaration.Draft
import MailRules.Rule.Name

/-! What the pattern of a word says.

A pattern is read from the left, a backslash making the next character literal. So read, the
pattern of a word has the characters of the word between two edges, with a backslash before every
one that would mean something else (`wordPattern_literal`). -/
namespace MailRules.Rule

/-! ### Reading patterns -/

/-- A character of a pattern; a backslash may stand before it. -/
structure Mark where
  char : Char
  isEscaped : Bool
deriving DecidableEq, Repr

/-- A pattern read from the left; nothing if it ends with a backslash that escapes nothing. -/
def marks? : List Char → Option (List Mark)
  | [] => some []
  | ['\\'] => none
  | '\\' :: c :: rest => (marks? rest).map (⟨c, true⟩ :: ·)
  | c :: rest => (marks? rest).map (⟨c, false⟩ :: ·)

/-- The characters that are no literals where they stand bare. -/
def metacharacters : List Char :=
  ['\\', '^', '$', '.', '|', '?', '*', '+', '(', ')', '[', ']', '\x7b', '\x7d']

def isMeta (c : Char) : Bool := c ∈ metacharacters

/-- The text `e` of a pattern decodes to `s`, and the slashes and metacharacters of `s` are literals
in it. -/
def StandsFor (e s : String) : Prop :=
  ∃ marks, marks? e.toList = some marks ∧ marks.map Mark.char = s.toList ∧
    ∀ m ∈ marks, m.char = '/' ∨ isMeta m.char = true → m.isEscaped = true

/-- What a part of a pattern asks for. -/
inductive Atom
  /-- A place between a word character and none. -/
  | edge
  | char (c : Char)
deriving DecidableEq, Repr

/-- What a mark asks for. Operators and classes of characters are not read. -/
def Mark.atom? (m : Mark) : Option Atom :=
  if m.isEscaped then
    if m.char = 'b' then some .edge
    else if m.char.isAlphanum then none
    else some (.char m.char)
  else if isMeta m.char then none
  else some (.char m.char)

/-- The slash that ends a pattern. -/
def closing : Mark := ⟨'/', false⟩

structure Pattern where
  atoms : List Atom
  /-- Capitals and small letters count as the same. -/
  ignoresCase : Bool
deriving DecidableEq, Repr

/-- The marks up to the closing slash as a pattern, and the flag after it. -/
def Pattern.ofMarks? (marks : List Mark) : Option Pattern := do
  let atoms ← (marks.takeWhile (· ≠ closing)).mapM Mark.atom?
  match marks.dropWhile (· ≠ closing) with
  | [_] => some ⟨atoms, false⟩
  | [_, ⟨'i', false⟩] => some ⟨atoms, true⟩
  | _ => none

/-- A pattern that is written between slashes. -/
def Pattern.read? (s : String) : Option Pattern :=
  match s.toList with
  | '/' :: rest => (marks? rest).bind ofMarks?
  | _ => none

/-! ### Escaped texts -/

/-- The characters that are written with a backslash. -/
def isSpecial (c : Char) : Bool := isOperator c || c = '/'

/-- How a character of an escaped text is read. -/
def markOf (c : Char) : Mark := ⟨c, isSpecial c⟩

theorem backslashed_append (kind : Char → Bool) (s t : List Char) :
    backslashed kind (s ++ t) = backslashed kind s ++ backslashed kind t :=
  List.flatMap_append

/-- The second pass leaves the backslashes of the first where they are, before their characters. -/
theorem escape_cons (c : Char) (rest : List Char) :
    escape (c :: rest) = (if isSpecial c then ['\\', c] else [c]) ++ escape rest := by
  have hpasses : escape (c :: rest) =
      backslashed (· = '/') (if isOperator c then ['\\', c] else [c]) ++ escape rest := by
    rw [escape, escape, ← backslashed_append]
    rfl
  rw [hpasses]
  congr 1
  by_cases hslash : c = '/'
  · subst hslash
    decide
  · cases hoperator : isOperator c <;> simp [backslashed, isSpecial, hslash, hoperator]

theorem marks?_bare {c : Char} (h : c ≠ '\\') (rest : List Char) :
    marks? (c :: rest) = (marks? rest).map (⟨c, false⟩ :: ·) := by
  rw [marks?]
  · exact fun he => absurd he h
  · exact fun _ _ he => absurd he h

/-- An escaped text is read as the text. -/
theorem marks?_escape (s t : List Char) :
    marks? (escape s ++ t) = (marks? t).map (s.map markOf ++ ·) := by
  induction s with
  | nil => exact Option.map_id'.symm
  | cons c rest ih =>
    have hlater : ((marks? t).map (rest.map markOf ++ ·)).map (markOf c :: ·) =
        (marks? t).map ((c :: rest).map markOf ++ ·) := by
      rw [Option.map_map]
      rfl
    rw [escape_cons, List.append_assoc, ← hlater, ← ih, markOf]
    split
    next hspecial =>
      rw [hspecial]
      rfl
    next hplain =>
      have hc : c ≠ '\\' := by
        rintro rfl
        exact hplain rfl
      rw [Bool.eq_false_iff.mpr hplain]
      exact marks?_bare hc _

theorem isSpecial_of_isMeta {c : Char} (h : isMeta c = true) : isSpecial c = true := by
  have hall : metacharacters.all isSpecial = true := by decide
  exact List.all_eq_true.mp hall c (of_decide_eq_true h)

/-- No backslash makes an edge or a class of characters out of what it escapes. -/
theorem not_alphanum_of_isSpecial {c : Char} (h : isSpecial c = true) : c.isAlphanum = false := by
  rw [← Bool.not_eq_true]
  intro halphanum
  have hname : Declaration.isNameChar c = true := Bool.or_eq_true_iff.mpr (.inl halphanum)
  have hplain : isSpecial c = false :=
    Declaration.forall_nameChar (P := fun c => isSpecial c = false) (by decide +kernel) hname
  rw [hplain] at h
  cases h

/-- Every character of an escaped text asks for itself. -/
theorem atom?_markOf (c : Char) : (markOf c).atom? = some (.char c) := by
  rw [markOf, Mark.atom?]
  dsimp only
  split
  next hspecial =>
    have halphanum := not_alphanum_of_isSpecial hspecial
    have hb : c ≠ 'b' := by
      rintro rfl
      cases halphanum
    rw [if_neg hb, halphanum]
    rfl
  next hplain => rw [if_neg fun hmeta => hplain (isSpecial_of_isMeta hmeta)]

theorem markOf_ne_closing (c : Char) : markOf c ≠ closing := by
  intro h
  obtain ⟨rfl, hbare⟩ := Mark.mk.inj h
  revert hbare
  decide

/-! ### The pattern of a word -/

theorem toList_wordPattern (w : String) :
    (wordPattern w).toList = ['/', '\\', 'b'] ++ escape w.toList ++ ['\\', 'b', '/', 'i'] := by
  rw [wordPattern, String.toList_append, String.toList_append,
    String.toList_ofList (l := escape w.toList)]
  rfl

/-- What the pattern of a word asks for. -/
def wordAtoms (w : String) : List Atom := .edge :: (w.toList.map .char ++ [.edge])

theorem read?_wordPattern (w : String) :
    Pattern.read? (wordPattern w) = some ⟨wordAtoms w, true⟩ := by
  let edge : Mark := ⟨'b', true⟩
  let body : List Mark := edge :: (w.toList.map markOf ++ [edge])
  have hmarks : marks? (['\\', 'b'] ++ escape w.toList ++ ['\\', 'b', '/', 'i']) =
      some (body ++ [closing, ⟨'i', false⟩]) := by
    rw [List.append_assoc]
    show (marks? (escape w.toList ++ _)).map (edge :: ·) = _
    rw [marks?_escape]
    simp [body, edge, marks?, closing]
  have hinside (m : Mark) (hm : m ∈ body) : decide (m ≠ closing) = true := by
    have hcases : m = edge ∨ m ∈ w.toList.map markOf := by
      simpa [body, or_comm, or_assoc] using hm
    rcases hcases with rfl | hm
    · decide
    · obtain ⟨c, -, rfl⟩ := List.mem_map.mp hm
      exact decide_eq_true (markOf_ne_closing c)
  have hatoms : body.mapM Mark.atom? = some (wordAtoms w) := by
    have hword : (w.toList.map markOf).mapM Mark.atom? = some (w.toList.map .char) := by
      rw [List.mapM_map]
      exact (congrArg (w.toList.mapM ·) (funext atom?_markOf)).trans List.mapM_pure
    rw [List.mapM_cons, List.mapM_append, hword]
    rfl
  have hbody : (body ++ [closing, ⟨'i', false⟩]).takeWhile (· ≠ closing) = body :=
    (List.takeWhile_append_of_pos hinside).trans (List.append_nil body)
  have hflag : (body ++ [closing, ⟨'i', false⟩]).dropWhile (· ≠ closing) = [closing, ⟨'i', false⟩] :=
    List.dropWhile_append_of_pos hinside
  rw [Pattern.read?, toList_wordPattern]
  show (marks? (['\\', 'b'] ++ escape w.toList ++ ['\\', 'b', '/', 'i'])).bind Pattern.ofMarks? = _
  rw [hmarks, Option.bind_some, Pattern.ofMarks?, hbody, hatoms, hflag]
  rfl

theorem standsFor_escape (w : String) : StandsFor (String.ofList (escape w.toList)) w := by
  have hmarks : marks? (escape w.toList) = some (w.toList.map markOf) := by
    have h := marks?_escape w.toList []
    rwa [List.append_nil, marks?, Option.map_some, List.append_nil] at h
  refine ⟨w.toList.map markOf, by rw [String.toList_ofList, hmarks], ?_, ?_⟩
  · rw [List.map_map]
    exact List.map_id _
  · intro m hm hliteral
    obtain ⟨c, -, rfl⟩ := List.mem_map.mp hm
    rcases hliteral with rfl | hmeta
    · decide
    · exact isSpecial_of_isMeta hmeta

theorem wordAtoms_injective {v w : String} (h : wordAtoms v = wordAtoms w) : v = w := by
  have hchars := List.append_cancel_right (List.cons.inj h).2
  exact String.toList_inj.mp ((List.map_inj_right fun _ _ => Atom.char.inj).mp hchars)

/-- **The pattern of a word asks for the word and for nothing else.** Between its two edges stands a
text that decodes to the word, in which no slash ends the pattern and no character is an operator;
so words with one pattern are one word. -/
theorem wordPattern_literal (v w : String) :
    (∃ e, wordPattern w = "/\\b" ++ e ++ "\\b/i" ∧ StandsFor e w) ∧
      Pattern.read? (wordPattern w) = some ⟨wordAtoms w, true⟩ ∧
      (wordPattern v = wordPattern w ↔ v = w) := by
  refine ⟨⟨_, rfl, standsFor_escape w⟩, read?_wordPattern w, fun h => ?_, congrArg wordPattern⟩
  have hpatterns := congrArg Pattern.read? h
  rw [read?_wordPattern, read?_wordPattern] at hpatterns
  exact wordAtoms_injective (Pattern.mk.inj (Option.some.inj hpatterns)).1

example : wordPattern "a\\/b" = "/\\ba\\\\\\/b\\b/i" := by decide +kernel

end MailRules.Rule
