import MailRules.Proofs.Binary64.Written
import MailRules.Proofs.Rule.Line
import MailRules.Proofs.Rule.Name

/-! Lines of a rule file as text.

A line is sound if its parts have nothing that breaks it: names without blanks, and texts without
breaks. A sound line is written as one line of text, which is blank, a comment or a directive
(`Line.Sound.isLine`). -/
namespace MailRules.Rule

open Text

/-- The kinds of directives. -/
def directiveKinds : List String := ["body", "header", "meta", "describe", "score"]

/-- The text is one line of a rule file, with the line feed that ends it. -/
structure IsLine (text : String) : Prop where
  /-- No line ends before the end. -/
  unbroken : ∃ body, text = body ++ "\n" ∧ isUnbroken body = true
  /-- The line is blank, a comment, or a directive with a name. -/
  shape : text = "\n" ∨ text.toList.head? = some '#' ∨
    ∃ kind ∈ directiveKinds, ∃ name rest, Text.IsField name.toList ∧ text = directive kind name rest

/-- A name has no blank, and is there. -/
theorem isField_iff {s : String} : Text.IsField s.toList ↔ s ≠ "" ∧ isSolid s = true := by
  rw [isSolid_iff]
  constructor
  · intro h
    exact ⟨fun hs => h.nonempty (by rw [hs]; rfl), h.solid⟩
  · rintro ⟨hne, hs⟩
    exact ⟨fun hnil => hne (String.toList_inj.mp hnil), hs⟩

theorem isLine_directive {kind name rest : String} (hkind : kind ∈ directiveKinds)
    (hname : Text.IsField name.toList) (hrest : isUnbroken rest = true) :
    IsLine (directive kind name rest) where
  unbroken := by
    refine ⟨kind ++ "".pushn ' ' (12 - kind.length) ++ name ++ " " ++ rest, rfl, ?_⟩
    have hkind' : isUnbroken kind = true := by
      simp only [directiveKinds, List.mem_cons, List.not_mem_nil, or_false] at hkind
      rcases hkind with rfl | rfl | rfl | rfl | rfl <;> decide
    have hname' : isUnbroken name = true := isUnbroken_of_isSolid (isField_iff.mp hname).2
    have hspace : isUnbroken " " = true := by decide
    simp only [isUnbroken_append, hkind', hname', hrest, hspace, Bool.and_true]
    exact isUnbroken_pushn (by decide) _
  shape := .inr (.inr ⟨kind, hkind, name, rest, hname, rfl⟩)

/-! ### Scores -/

theorem isSolid_magnitudeText (m e : Nat) :
    isSolid (String.ofList (Binary64.magnitudeText m e)) = true := by
  rw [isSolid_iff, String.toList_ofList]
  exact fun c hc => (Binary64.not_blank_of_written (Binary64.magnitudeText_chars m e c hc)).1

/-- Every score is written without blanks, be it infinite or no number. -/
theorem isSolid_score (score : Score) : isSolid score.toText = true := by
  cases score with
  | whole n => exact isSolid_intText n
  | real x =>
    cases x with
    | finite negative m e =>
      have htext : (Score.real (.finite negative m e)).toText =
          String.ofList (if negative then ['-'] else []) ++
            String.ofList (Binary64.magnitudeText m e) := by
        rw [← String.ofList_append]
        rfl
      rw [htext, isSolid_append, isSolid_magnitudeText, Bool.and_true]
      cases negative <;> decide
    | infinite negative => cases negative <;> decide
    | nan => decide

/-! ### Lines -/

/-- Nothing in the line breaks it. -/
def Line.Sound : Line → Prop
  | .body name pattern => Text.IsField name.toList ∧ isUnbroken pattern = true
  | .subject name pattern => Text.IsField name.toList ∧ isUnbroken pattern = true
  | .composite name condition => Text.IsField name.toList ∧ isUnbroken condition.text = true
  | .description name text => Text.IsField name.toList ∧ isUnbroken text = true
  | .score name _ => Text.IsField name.toList
  | .comment text => isUnbroken text = true
  | .bar _ | .blank => True

theorem isLine_comment {text : String} (h : isUnbroken text = true) : IsLine ("# " ++ text ++ "\n") where
  unbroken := by
    refine ⟨"# " ++ text, rfl, ?_⟩
    rw [isUnbroken_append, h]
    decide
  shape := by
    refine .inr (.inl ?_)
    rw [String.toList_append, String.toList_append]
    rfl

theorem isLine_bar (width : Nat) : IsLine ("".pushn '#' width ++ "\n") where
  unbroken := ⟨_, rfl, isUnbroken_pushn (by decide) width⟩
  shape := by
    cases width with
    | zero => exact .inl rfl
    | succ n =>
      refine .inr (.inl ?_)
      rw [String.toList_append, toList_pushn, List.replicate_succ]
      rfl

/-- A sound line is one line of text. -/
theorem Line.Sound.isLine {line : Line} (h : line.Sound) : IsLine line.text := by
  cases line with
  | body name pattern => exact isLine_directive (by simp [directiveKinds]) h.1 h.2
  | subject name pattern =>
    refine isLine_directive (by simp [directiveKinds]) h.1 ?_
    rw [isUnbroken_append, h.2]
    decide
  | composite name condition => exact isLine_directive (by simp [directiveKinds]) h.1 h.2
  | description name text => exact isLine_directive (by simp [directiveKinds]) h.1 h.2
  | score name score =>
    exact isLine_directive (by simp [directiveKinds]) h (isUnbroken_of_isSolid (isSolid_score score))
  | comment text => exact isLine_comment h
  | bar width => exact isLine_bar width
  | blank => exact ⟨⟨"", rfl, rfl⟩, .inl rfl⟩

/-- The conditions over names without blanks stand on one line. -/
theorem isUnbroken_condition {condition : Condition}
    (h : ∀ r ∈ condition.references, isSolid r = true) : isUnbroken condition.text = true := by
  have hparts (r : String) (hr : r ∈ condition.references) : isUnbroken r = true :=
    isUnbroken_of_isSolid (h r hr)
  cases condition with
  | either a b =>
    have ha := hparts a List.mem_cons_self
    have hb := hparts b (List.mem_cons_of_mem a List.mem_cons_self)
    simp only [Condition.text, isUnbroken_append, ha, hb]
    decide
  | only a =>
    have ha := hparts a List.mem_cons_self
    simp only [Condition.text, isUnbroken_append, ha]
    decide
  | atLeast refs count =>
    have hrefs : isUnbroken (" + ".intercalate refs) = true :=
      isUnbroken_intercalate (by decide) hparts
    have hcount := isUnbroken_of_isSolid (isSolid_natText count)
    simp only [Condition.text, isUnbroken_append, hrefs, hcount]
    decide

end MailRules.Rule
