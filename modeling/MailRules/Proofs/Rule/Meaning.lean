import Mathlib.Data.List.Pairwise
import MailRules.Proofs.Rule.Line

/-! What rules mean for a mail.

The mail decides which patterns are found. The value of a composite rule follows from the values of
the rules that it refers to, each looked up by its name among all lines, so it is only as good as
the names: where none is defined twice, a rule whose references have one value each has one value
itself (`hasValue_composite`). -/
namespace MailRules.Rule

/-- The condition holds where the rules have the given values; a rule counts as often as it is
referred to. -/
def Condition.holds (value : String → Bool) : Condition → Bool
  | .either a b => value a || value b
  | .only a => value a
  | .atLeast refs count => decide (count ≤ refs.countP value)

/-- What the lines make of a rule for a mail; `hit` tells which rules find their patterns in it. -/
inductive Evaluates (lines : List Line) (hit : String → Bool) : String → Bool → Prop
  | body {name pattern : String} :
      .body name pattern ∈ lines → Evaluates lines hit name (hit name)
  | subject {name pattern : String} :
      .subject name pattern ∈ lines → Evaluates lines hit name (hit name)
  | composite {name : String} {condition : Condition} (value : String → Bool) :
      .composite name condition ∈ lines →
      (∀ r ∈ condition.references, Evaluates lines hit r (value r)) →
      Evaluates lines hit name (condition.holds value)

/-- The rule has the value `v`, and no other. -/
def HasValue (lines : List Line) (hit : String → Bool) (name : String) (v : Bool) : Prop :=
  ∀ w, Evaluates lines hit name w ↔ w = v

variable {lines : List Line} {hit : String → Bool} {name : String}

theorem holds_congr {c : Condition} {v w : String → Bool} (h : ∀ r ∈ c.references, v r = w r) :
    c.holds v = c.holds w := by
  cases c with
  | either a b =>
    have ha := h a List.mem_cons_self
    have hb := h b (List.mem_cons_of_mem a List.mem_cons_self)
    rw [Condition.holds, Condition.holds, ha, hb]
  | only a => exact h a List.mem_cons_self
  | atLeast refs count =>
    have hcount : refs.countP v = refs.countP w := by
      refine List.countP_congr fun r hr => ?_
      rw [h r hr]
    rw [Condition.holds, Condition.holds, hcount]

/-- A name that is not defined twice leads to one line. -/
theorem line_unique (h : (definitions lines).Nodup) {a b : Line} (ha : a ∈ lines) (hb : b ∈ lines)
    (hna : a.defined? = some name) (hnb : b.defined? = some name) : a = b := by
  let Apart (a b : Line) : Prop := ∀ n, a.defined? = some n → ∀ m, b.defined? = some m → n ≠ m
  have hapart : lines.Pairwise Apart := List.pairwise_filterMap.mp h
  have hsymm : Std.Symm Apart := ⟨fun a b hab m hm n hn hne => hab n hn m hm hne.symm⟩
  by_contra hne
  exact hapart.forall ha hb hne name hna name hnb rfl

/-- A rule with a pattern has the value that the mail gives it. -/
theorem hasValue_pattern (h : (definitions lines).Nodup) {pattern : String}
    (hmem : .body name pattern ∈ lines ∨ .subject name pattern ∈ lines) :
    HasValue lines hit name (hit name) := by
  intro w
  constructor
  · intro hw
    cases hw with
    | body => rfl
    | subject => rfl
    | composite value hother =>
      rcases hmem with hbody | hsubject
      · cases line_unique h hbody hother rfl rfl
      · cases line_unique h hsubject hother rfl rfl
  · rintro rfl
    exact hmem.elim .body .subject

theorem hasValue_composite (h : (definitions lines).Nodup) {condition : Condition}
    (hmem : .composite name condition ∈ lines) {value : String → Bool}
    (hrefs : ∀ r ∈ condition.references, HasValue lines hit r (value r)) :
    HasValue lines hit name (condition.holds value) := by
  intro w
  constructor
  · intro hw
    cases hw with
    | body hother => cases line_unique h hmem hother rfl rfl
    | subject hother => cases line_unique h hmem hother rfl rfl
    | composite value' hother hvalues =>
      cases line_unique h hmem hother rfl rfl
      exact holds_congr fun r hr => (hrefs r hr _).mp (hvalues r hr)
  · rintro rfl
    exact .composite value hmem fun r hr => (hrefs r hr _).mpr rfl

end MailRules.Rule
