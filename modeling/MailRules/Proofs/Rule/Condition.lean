import MailRules.Proofs.Rule.Line
import MailRules.Proofs.Rule.Name
import MailRules.Proofs.Text.Fields

/-! Conditions read back from their text.

The text of a condition is fields with blanks between them: brackets, signs, names of rules and a
count. `Condition.read?` is told nothing but these fields. It takes the fields that conditions over
rule names are written with, and no others (`ofFields?_eq_some_iff`), so what is written is the
condition that was meant (`read?_text`). -/
namespace MailRules.Rule

open Text

/-- The text may be the name of a rule. -/
def isRuleName (s : String) : Bool := s ≠ "" && s.toList.all isNameChar

/-- A count, written as counts are written. -/
def readCount? (s : String) : Option Nat :=
  (digitsValue? s.toList).filter fun n => toString n = s

/-- The names up to the closing bracket, with a sign between any two, and the fields after it. -/
def readNames? (sign : String) : List String → Option (List String × List String)
  | name :: mark :: rest =>
    if isRuleName name then
      if mark = ")" then some ([name], rest)
      else if mark = sign then (readNames? sign rest).map fun r => (name :: r.1, r.2)
      else none
    else none
  | _ => none

namespace Condition

/-- The condition is over names of rules. -/
structure Readable (c : Condition) : Prop where
  nonempty : c.references ≠ []
  names : ∀ r ∈ c.references, isRuleName r = true

/-- What the text of a condition has between its blanks. -/
def fields : Condition → List String
  | .either a b => ["(", a, "||", b, ")"]
  | .only a => ["(", a, ")"]
  | .atLeast refs count => "(" :: refs.intersperse "+" ++ [")", ">=", toString count]

/-- A sum of rules, with the fields after its bracket. A rule alone is a sum. -/
def ofSum? : List String × List String → Option Condition
  | ([a], []) => some (.only a)
  | (refs, [">=", count]) => (readCount? count).map (.atLeast refs)
  | _ => none

/-- Two rules with bars between them. -/
def ofBars? : List String × List String → Option Condition
  | ([a, b], []) => some (.either a b)
  | _ => none

/-- The condition with the given fields. -/
def ofFields? : List String → Option Condition
  | "(" :: rest => ((readNames? "+" rest).bind ofSum?).or ((readNames? "||" rest).bind ofBars?)
  | _ => none

/-- The condition that a text says. -/
def read? (text : String) : Option Condition :=
  ofFields? ((Text.fields text.toList).map String.ofList)

end Condition

/-! ### Names and counts -/

theorem isRuleName_of_isCapitalText {s : String} (hne : s ≠ "") (h : isCapitalText s = true) :
    isRuleName s = true := by
  rw [isRuleName, Bool.and_eq_true, decide_eq_true_eq]
  exact ⟨hne, List.all_eq_true.mpr fun c hc => isNameChar_of_isCapital (List.all_eq_true.mp h c hc)⟩

theorem isField_of_isRuleName {s : String} (h : isRuleName s = true) : IsField s.toList := by
  rw [isRuleName, Bool.and_eq_true, decide_eq_true_eq, List.all_eq_true] at h
  refine ⟨fun hnil => h.1 (String.toList_inj.mp hnil), fun c hc => ?_⟩
  exact Declaration.forall_nameChar (P := fun c => isBlank c = false) (by decide +kernel) (h.2 c hc)

theorem isSolid_of_isRuleName {s : String} (h : isRuleName s = true) : isSolid s = true :=
  isSolid_iff.mpr (isField_of_isRuleName h).solid

theorem readCount?_eq_some_iff {s : String} {n : Nat} : readCount? s = some n ↔ s = toString n := by
  rw [readCount?, Option.filter_eq_some_iff, decide_eq_true_eq]
  constructor
  · rintro ⟨-, h⟩
    exact h.symm
  · rintro rfl
    rw [Nat.toString_eq_repr, Nat.toList_repr]
    exact ⟨digitsValue?_toDigits n, rfl⟩

/-- Names are read with their signs, up to the bracket. -/
theorem readNames?_eq_some_iff {sign : String} (hsign : sign ≠ ")")
    {fields names later : List String} :
    readNames? sign fields = some (names, later) ↔
      (names ≠ [] ∧ ∀ r ∈ names, isRuleName r = true) ∧
        fields = names.intersperse sign ++ ")" :: later := by
  constructor
  · intro h
    fun_induction readNames? sign fields generalizing names with
    | case1 name rest hname =>
      cases h
      exact ⟨⟨List.cons_ne_nil _ _, List.forall_mem_singleton.mpr hname⟩, rfl⟩
    | case2 name rest hname hmark ih =>
      obtain ⟨⟨more, _⟩, hmore, hpair⟩ := Option.map_eq_some_iff.mp h
      cases hpair
      obtain ⟨⟨hne, hnames⟩, hrest⟩ := ih hmore
      obtain ⟨next, others, rfl⟩ := List.exists_cons_of_ne_nil hne
      refine ⟨⟨List.cons_ne_nil _ _, List.forall_mem_cons.mpr ⟨hname, hnames⟩⟩, ?_⟩
      rw [hrest]
      rfl
    | case3 => cases h
    | case4 => cases h
    | case5 => cases h
  · rintro ⟨⟨hne, hnames⟩, rfl⟩
    induction names with
    | nil => exact absurd rfl hne
    | cons name more ih =>
      obtain ⟨hname, hmore⟩ := List.forall_mem_cons.mp hnames
      cases more with
      | nil => exact (if_pos hname).trans (if_pos rfl)
      | cons next others =>
        refine (if_pos hname).trans ((if_neg hsign).trans ((if_pos rfl).trans ?_))
        exact congrArg _ (ih (List.cons_ne_nil _ _) hmore)

namespace Condition

theorem ofSum?_eq_some_iff {r : List String × List String} {c : Condition} :
    ofSum? r = some c ↔ (∃ a, r = ([a], []) ∧ c = .only a) ∨
      ∃ refs count, r = (refs, [">=", toString count]) ∧ c = .atLeast refs count := by
  constructor
  · intro h
    unfold ofSum? at h
    split at h
    next a => exact .inl ⟨a, rfl, (Option.some.inj h).symm⟩
    next refs count =>
      obtain ⟨n, hn, rfl⟩ := Option.map_eq_some_iff.mp h
      exact .inr ⟨refs, n, by rw [readCount?_eq_some_iff.mp hn], rfl⟩
    next => cases h
  · rintro (⟨a, rfl, rfl⟩ | ⟨refs, count, rfl, rfl⟩)
    · rfl
    · rw [ofSum?, readCount?_eq_some_iff.mpr rfl]
      rfl

theorem ofBars?_eq_some_iff {r : List String × List String} {c : Condition} :
    ofBars? r = some c ↔ ∃ a b, r = ([a, b], []) ∧ c = .either a b := by
  constructor
  · intro h
    unfold ofBars? at h
    split at h
    next a b => exact ⟨a, b, rfl, (Option.some.inj h).symm⟩
    next => cases h
  · rintro ⟨a, b, rfl, rfl⟩
    rfl

/-- What begins with a bracket is read as a sum, or else as a choice. -/
theorem ofFields?_cons {rest : List String} {c : Condition} :
    ofFields? ("(" :: rest) = some c ↔
      (∃ r, readNames? "+" rest = some r ∧ ofSum? r = some c) ∨
        (readNames? "+" rest).bind ofSum? = none ∧
          ∃ r, readNames? "||" rest = some r ∧ ofBars? r = some c := by
  rw [ofFields?, Option.or_eq_some_iff, Option.bind_eq_some_iff, Option.bind_eq_some_iff]

/-- Exactly the fields of conditions over rule names are read. -/
theorem ofFields?_eq_some_iff {fields : List String} {c : Condition} :
    ofFields? fields = some c ↔ c.Readable ∧ fields = c.fields := by
  constructor
  · intro h
    obtain ⟨rest, rfl⟩ : ∃ rest, fields = "(" :: rest := by
      unfold ofFields? at h
      split at h
      next rest => exact ⟨rest, rfl⟩
      next => cases h
    rcases ofFields?_cons.mp h with ⟨⟨names, later⟩, hread, hsum⟩ | ⟨-, ⟨names, later⟩, hread, hbars⟩
    · obtain ⟨hnames, rfl⟩ := (readNames?_eq_some_iff (by decide)).mp hread
      rcases ofSum?_eq_some_iff.mp hsum with ⟨a, ha, rfl⟩ | ⟨refs, count, hrefs, rfl⟩
      · cases ha
        exact ⟨⟨hnames.1, hnames.2⟩, rfl⟩
      · cases hrefs
        exact ⟨⟨hnames.1, hnames.2⟩, rfl⟩
    · obtain ⟨hnames, rfl⟩ := (readNames?_eq_some_iff (by decide)).mp hread
      obtain ⟨a, b, hab, rfl⟩ := ofBars?_eq_some_iff.mp hbars
      cases hab
      exact ⟨⟨hnames.1, hnames.2⟩, rfl⟩
  · rintro ⟨⟨hne, hnames⟩, rfl⟩
    cases c with
    | either a b =>
      have ha : isRuleName a = true := hnames a List.mem_cons_self
      have hsum : readNames? "+" [a, "||", b, ")"] = none := by
        rw [readNames?, if_pos ha, if_neg (by decide), if_neg (by decide)]
      have hread : readNames? "||" [a, "||", b, ")"] = some ([a, b], []) :=
        (readNames?_eq_some_iff (by decide)).mpr ⟨⟨hne, hnames⟩, rfl⟩
      exact ofFields?_cons.mpr (.inr ⟨congrArg (Option.bind · ofSum?) hsum, _, hread, rfl⟩)
    | only a =>
      have hread : readNames? "+" [a, ")"] = some ([a], []) :=
        (readNames?_eq_some_iff (by decide)).mpr ⟨⟨hne, hnames⟩, rfl⟩
      exact ofFields?_cons.mpr (.inl ⟨_, hread, rfl⟩)
    | atLeast refs count =>
      have hread : readNames? "+" (refs.intersperse "+" ++ [")", ">=", toString count]) =
          some (refs, [">=", toString count]) :=
        (readNames?_eq_some_iff (by decide)).mpr ⟨⟨hne, hnames⟩, rfl⟩
      exact ofFields?_cons.mpr
        (.inl ⟨_, hread, ofSum?_eq_some_iff.mpr (.inr ⟨refs, count, rfl, rfl⟩)⟩)

/-! ### Texts -/

theorem fields_of_isRuleName {s : String} (h : isRuleName s = true) :
    Text.fields s.toList = [s.toList] :=
  fields_of_isField (isField_of_isRuleName h)

theorem fields_count (n : Nat) : Text.fields (toString n).toList = [(toString n).toList] := by
  refine fields_of_isField ⟨?_, isSolid_iff.mp (isSolid_natText n)⟩
  rw [Nat.toString_eq_repr, Nat.toList_repr]
  exact Nat.toDigits_ne_nil

/-- Names with signs between them. -/
theorem fields_sum {names : List String} (h : ∀ r ∈ names, isRuleName r = true) :
    Text.fields (" + ".intercalate names).toList = (names.intersperse "+").map String.toList := by
  rw [String.toList_intercalate]
  induction names with
  | nil => rfl
  | cons a rest ih =>
    obtain ⟨ha, hrest⟩ := List.forall_mem_cons.mp h
    cases rest with
    | nil => simp [fields_of_isRuleName ha]
    | cons b later =>
      have hjoined : List.intercalate " + ".toList ((a :: b :: later).map String.toList) =
          a.toList ++ ' ' :: ("+".toList ++ ' ' ::
            List.intercalate " + ".toList ((b :: later).map String.toList)) := by
        simp [List.intercalate_cons_cons]
      rw [hjoined, fields_append isBlank_space, fields_append isBlank_space, ih hrest,
        fields_of_isRuleName ha]
      rfl

/-- The text of a condition falls into its fields. -/
theorem fields_text {c : Condition} (h : ∀ r ∈ c.references, isRuleName r = true) :
    Text.fields c.text.toList = c.fields.map String.toList := by
  cases c with
  | either a b =>
    have htext : (either a b).text.toList = "(".toList ++ ' ' :: (a.toList ++ ' ' ::
        ("||".toList ++ ' ' :: (b.toList ++ ' ' :: ")".toList))) := by
      simp [text]
    have ha := fields_of_isRuleName (h a List.mem_cons_self)
    have hb := fields_of_isRuleName (h b (List.mem_cons_of_mem a List.mem_cons_self))
    simp only [htext, fields_append isBlank_space, ha, hb]
    rfl
  | only a =>
    have htext : (only a).text.toList = "(".toList ++ ' ' :: (a.toList ++ ' ' :: ")".toList) := by
      simp [text]
    have ha := fields_of_isRuleName (h a List.mem_cons_self)
    simp only [htext, fields_append isBlank_space, ha]
    rfl
  | atLeast refs count =>
    have htext : (atLeast refs count).text.toList = "(".toList ++ ' ' ::
        ((" + ".intercalate refs).toList ++ ' ' :: (")".toList ++ ' ' ::
          (">=".toList ++ ' ' :: (toString count).toList))) := by
      simp [text]
    have hsum : Text.fields (" + ".intercalate refs).toList = _ := fields_sum h
    simp only [htext, fields_append isBlank_space, hsum, fields_count, fields, List.map_cons,
      List.map_append]
    rfl

/-- **What is written is what is meant**: the text of a condition over rule names reads back as the
condition. -/
theorem read?_text {c : Condition} (h : c.Readable) : read? c.text = some c := by
  have hfields : (Text.fields c.text.toList).map String.ofList = c.fields := by
    simp [fields_text h.names]
  rw [read?, hfields]
  exact ofFields?_eq_some_iff.mpr ⟨h, rfl⟩

example : read? "( __A + __B + __A ) >= 2" = some (.atLeast ["__A", "__B", "__A"] 2) := by
  decide +kernel

end Condition

end MailRules.Rule
