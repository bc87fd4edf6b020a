import MailRules.Proofs.Outcome
import MailRules.Rule.Line

/-! What a line of a rule file defines and what it refers to.

Three kinds of lines define a rule, of which the composite one refers to others; descriptions and
scores are about a rule that another line defines. `thresholds_eq_ok` gives the lines of thresholds
in closed form. -/
namespace MailRules.Rule

/-- The rules that a condition refers to. -/
def Condition.references : Condition → List String
  | .either a b => [a, b]
  | .only a => [a]
  | .atLeast refs _ => refs

namespace Line

/-- The rule that the line defines. -/
def defined? : Line → Option String
  | .body name _ | .subject name _ | .composite name _ => some name
  | _ => none

/-- The rules that the line refers to. -/
def references : Line → List String
  | .composite _ condition => condition.references
  | _ => []

/-- The rule that the line describes or scores. -/
def about? : Line → Option String
  | .description name _ | .score name _ => some name
  | _ => none

end Line

/-- The rules that lines define, in order. -/
def definitions (lines : List Line) : List String := lines.filterMap Line.defined?

theorem definitions_append (a b : List Line) :
    definitions (a ++ b) = definitions a ++ definitions b :=
  List.filterMap_append

theorem definitions_flatMap {α : Type} (l : List α) (f : α → List Line) :
    definitions (l.flatMap f) = l.flatMap fun a => definitions (f a) := by
  rw [definitions, List.filterMap_flatMap]
  rfl

/-! ### Thresholds -/

/-- The counts from one up to `n`. -/
def countsTo (n : Nat) : List Nat := (List.range n).map (· + 1)

theorem mem_countsTo {n k : Nat} : k ∈ countsTo n ↔ 1 ≤ k ∧ k ≤ n := by
  simp only [countsTo, List.mem_map, List.mem_range]
  constructor
  · rintro ⟨i, hi, rfl⟩
    omega
  · rintro ⟨h1, hn⟩
    exact ⟨k - 1, by omega, by omega⟩

/-- The rules that 1, 2, … all of `refs` hold. -/
def thresholdRules (name : String) (refs : List String) : List Line :=
  (countsTo refs.length).flatMap (thresholdRule name refs)

/-- What a threshold is described by, where the template can be filled. -/
def thresholdDescription (describe : String) (count : Nat) : String :=
  (Text.fill (thresholdValue count) describe).toOption.getD ""

/-- The descriptions and scores of `size` thresholds. -/
def thresholdScores (name : String) (size : Nat) (describe : String) (score : Score) : List Line :=
  (countsTo size).flatMap fun count =>
    thresholdScore name (thresholdDescription describe count) score count

/-- Thresholds that can be described are the rules and scores in closed form. -/
theorem thresholds_eq_ok {name describe : String} {refs : List String} {score : Score}
    {rules scores : List Line} (h : thresholds name refs describe score = .ok (rules, scores)) :
    rules = thresholdRules name refs ∧
      scores = thresholdScores name refs.length describe score := by
  have hfill (count : Nat) (lines : List Line)
      (hl : (do return thresholdScore name (← Text.fill (thresholdValue count) describe) score count)
        = Except.ok lines) :
      lines = thresholdScore name (thresholdDescription describe count) score count := by
    obtain ⟨text, htext, hlines⟩ := Outcome.bind_eq_ok.mp hl
    rw [← Outcome.pure_eq_ok.mp hlines, thresholdDescription, htext]
    rfl
  unfold thresholds at h
  obtain ⟨all, hall, hboth⟩ := Outcome.bind_eq_ok.mp h
  obtain ⟨rfl, rfl⟩ := Prod.mk.inj (Outcome.pure_eq_ok.mp hboth)
  rw [Outcome.mapM_eq_ok hfill hall]
  exact ⟨rfl, rfl⟩

theorem definitions_thresholdRules (name : String) (refs : List String) :
    definitions (thresholdRules name refs) =
      (countsTo refs.length).map (thresholdName name) := by
  rw [thresholdRules, definitions_flatMap, List.map_eq_flatMap]
  rfl

theorem mem_thresholdRules {name : String} {refs : List String} {count : Nat}
    (h1 : 1 ≤ count) (hn : count ≤ refs.length) :
    .composite (thresholdName name count) (.atLeast refs count) ∈ thresholdRules name refs :=
  List.mem_flatMap.mpr ⟨count, mem_countsTo.mpr ⟨h1, hn⟩, List.mem_cons_self⟩

/-- A line of the thresholds of `refs` refers to `refs` at most. -/
theorem thresholdRules_references {name : String} {refs : List String} {line : Line}
    (h : line ∈ thresholdRules name refs) :
    (∀ r ∈ line.references, r ∈ refs) ∧ line.about? = none := by
  obtain ⟨count, -, hline⟩ := List.mem_flatMap.mp h
  rcases List.mem_cons.mp hline with rfl | hline
  · exact ⟨fun r hr => hr, rfl⟩
  · rw [List.mem_singleton.mp hline]
    exact ⟨fun r hr => (List.not_mem_nil hr).elim, rfl⟩

/-- A line of the scores is about one of the thresholds, or about nothing. -/
theorem thresholdScores_about {name describe : String} {size : Nat} {score : Score} {line : Line}
    (h : line ∈ thresholdScores name size describe score) :
    line.defined? = none ∧ line.references = [] ∧
      ∃ count, 1 ≤ count ∧ count ≤ size ∧
        ∀ rule, line.about? = some rule → rule = thresholdName name count := by
  obtain ⟨count, hcount, hline⟩ := List.mem_flatMap.mp h
  obtain ⟨h1, hn⟩ := mem_countsTo.mp hcount
  simp only [thresholdScore, List.mem_cons, List.not_mem_nil, or_false] at hline
  rcases hline with rfl | rfl | rfl
  · exact ⟨rfl, rfl, count, h1, hn, fun rule hr => (Option.some.inj hr).symm⟩
  · exact ⟨rfl, rfl, count, h1, hn, fun rule hr => (Option.some.inj hr).symm⟩
  · exact ⟨rfl, rfl, count, h1, hn, fun rule hr => by cases hr⟩

end MailRules.Rule
