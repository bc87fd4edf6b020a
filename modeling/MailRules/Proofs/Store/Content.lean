import Mathlib.Data.List.DropRight
import MailRules.Proofs.Declaration.Draft
import MailRules.Proofs.Store.History

/-! What a store holds, said by what has been done to it.

Of everything done to a store, what counts for a file are the declarations that it has received
since it was last cleared (`standing`). The store has a rule set for exactly the files that have such
declarations, and the rule set is what these add up to (`RuleSet.Totals`): the words of each group
with all repeats, and the last score and the last comment of each word. Each step keeps this
(`step_holds`), so every run does (`run_holds`). -/
namespace MailRules

open Declaration

/-! ### One file -/

/-- The words that are declared with a group, in order. -/
def wordsOf (group : String) (ds : List Declaration) : List String :=
  (ds.filter fun d => group ∈ d.groups).map word

/-- The last declaration that scores a word. -/
def scoring? (word : String) (ds : List Declaration) : Option Declaration :=
  (ds.filter fun d => d.word = word ∧ d.isScored = true).getLast?

/-- The last declaration that comments on a word. -/
def commenting? (word : String) (ds : List Declaration) : Option Declaration :=
  (ds.filter fun d => d.word = word ∧ d.comment ≠ "").getLast?

namespace RuleSet

/-- What declarations add up to, taken in order. A group without words is none, and neither is the
group over all files. -/
structure Totals (r : RuleSet) (ds : List Declaration) : Prop where
  groups : ∀ g, r.groups.get? g =
    if g = globalGroup ∨ wordsOf g ds = [] then none else some (wordsOf g ds)
  scored : ∀ w, r.scored.get? w = (scoring? w ds).map score
  comments : ∀ w, r.comments.get? w = (commenting? w ds).map comment

variable {r : RuleSet} {ds : List Declaration} {d : Declaration}

theorem totals_empty : ({} : RuleSet).Totals [] where
  groups g := by
    rw [if_pos (.inr rfl)]
    rfl
  scored _ := rfl
  comments _ := rfl

/-- A word goes to the end of each of the groups, as often as that is named. -/
theorem foldl_addToGroup (groups : List String) (r : RuleSet) (word : String) :
    let grouped := groups.foldl (fun r g => r.addToGroup g word) r
    (∀ g, grouped.groups.get? g =
      if g ∈ groups then
        some ((r.groups.get? g).getD [] ++ List.replicate (groups.count g) word)
      else r.groups.get? g) ∧
      grouped.scored = r.scored ∧ grouped.comments = r.comments := by
  induction groups generalizing r with
  | nil => exact ⟨fun g => (if_neg List.not_mem_nil).symm, rfl, rfl⟩
  | cons first rest ih =>
    obtain ⟨hgroups, hscored, hcomments⟩ := ih (r.addToGroup first word)
    refine ⟨fun g => ?_, hscored, hcomments⟩
    have hfirst : (r.addToGroup first word).groups.get? g =
        if g = first then some ((r.groups.get? first).getD [] ++ [word]) else r.groups.get? g :=
      Assoc.get?_update _ _ _ _ _
    rw [List.foldl_cons, hgroups, hfirst]
    by_cases hg : g = first
    · subst hg
      rw [if_pos rfl, if_pos List.mem_cons_self, List.count_cons_self, List.replicate_succ]
      by_cases hrest : g ∈ rest
      · rw [if_pos hrest, Option.getD_some, List.append_assoc, List.singleton_append]
      · rw [if_neg hrest, List.count_eq_zero.mpr hrest, List.replicate_zero]
    · simp only [List.mem_cons, hg, false_or, if_false, List.count_cons_of_ne (Ne.symm hg)]

/-- What a declaration changes in the groups: those that it names grow, but for the one over all
files. -/
theorem add_groups (r : RuleSet) (d : Declaration) (g : String) :
    (r.add d).groups.get? g =
      if g ≠ globalGroup ∧ g ∈ d.groups then
        some ((r.groups.get? g).getD [] ++ List.replicate (d.groups.count g) d.word)
      else r.groups.get? g := by
  refine ((foldl_addToGroup (d.groups.filter (· ≠ globalGroup)) r d.word).1 g).trans ?_
  by_cases hg : g = globalGroup
  · simp [hg]
  · simp [hg, List.count_filter]

theorem add_scored (r : RuleSet) (d : Declaration) (w : String) :
    (r.add d).scored.get? w =
      if d.isScored = true ∧ w = d.word then some d.score else r.scored.get? w := by
  have hsame := (foldl_addToGroup (d.groups.filter (· ≠ globalGroup)) r d.word).2.1
  rw [add, hsame]
  by_cases hd : d.isScored = true
  · simp [hd, Assoc.get?_insert]
  · simp [hd]

theorem add_comments (r : RuleSet) (d : Declaration) (w : String) :
    (r.add d).comments.get? w =
      if d.comment ≠ "" ∧ w = d.word then some d.comment else r.comments.get? w := by
  have hsame := (foldl_addToGroup (d.groups.filter (· ≠ globalGroup)) r d.word).2.2
  rw [add, hsame]
  by_cases hd : d.comment = ""
  · simp [hd]
  · simp [hd, Assoc.get?_insert]

theorem wordsOf_concat (g : String) (ds : List Declaration) (d : Declaration) :
    wordsOf g (ds ++ [d]) = if g ∈ d.groups then wordsOf g ds ++ [d.word] else wordsOf g ds := by
  rw [wordsOf, List.filter_append, List.map_append, List.filter_singleton]
  by_cases hg : g ∈ d.groups
  · simp [hg, wordsOf]
  · simp [hg, wordsOf]

/-- The last that passes a test is the new one, if that does. -/
theorem getLast?_filter_concat {α : Type} (p : α → Bool) (l : List α) (a : α) :
    ((l ++ [a]).filter p).getLast? = if p a then some a else (l.filter p).getLast? := by
  rw [List.filter_append, List.filter_singleton]
  cases p a <;> simp

theorem Totals.add (h : r.Totals ds) (hnodup : d.groups.Nodup) : (r.add d).Totals (ds ++ [d]) := by
  refine ⟨fun g => ?_, fun w => ?_, fun w => ?_⟩
  · rw [add_groups, h.groups, wordsOf_concat]
    by_cases hglobal : g = globalGroup
    · simp [hglobal]
    · by_cases hg : g ∈ d.groups
      · have hcount : d.groups.count g = 1 := List.count_eq_one_of_mem hnodup hg
        by_cases hwords : wordsOf g ds = [] <;> simp [hglobal, hg, hwords, hcount]
      · simp [hglobal, hg]
  · rw [add_scored, scoring?, getLast?_filter_concat, ← scoring?, h.scored]
    by_cases hd : d.isScored = true ∧ w = d.word
    · simp [hd]
    · rw [if_neg hd, if_neg]
      exact fun h => hd ⟨(of_decide_eq_true h).2, (of_decide_eq_true h).1.symm⟩
  · rw [add_comments, commenting?, getLast?_filter_concat, ← commenting?, h.comments]
    by_cases hd : d.comment ≠ "" ∧ w = d.word
    · simp [hd]
    · rw [if_neg hd, if_neg]
      exact fun h => hd ⟨(of_decide_eq_true h).2, (of_decide_eq_true h).1.symm⟩

end RuleSet

/-! ### All files -/

namespace Store

/-- Forgets what a file has received. -/
def Step.clears (key : String) : Step → Bool
  | .add .. => false
  | .clear file => file = key
  | .clearAll => true

/-- What a file receives. -/
def Step.received? (key : String) : Step → Option Declaration
  | .add file d => if file = key then some d else none
  | .clear _ | .clearAll => none

/-- The declarations that a file has received since it was last cleared, in order. -/
def standing (key : String) (steps : List Step) : List Declaration :=
  (steps.rtakeWhile fun c => !c.clears key).filterMap (·.received? key)

/-- Every declaration that the steps add was read from a line. -/
def AllRead (steps : List Step) : Prop :=
  ∀ key d, .add key d ∈ steps → ∃ line, Declaration.read line = .ok (.declared d)

/-- The store holds what has been done to it, and every global word comes from one of its files. -/
structure Holds (s : Store) (steps : List Step) : Prop where
  files : ∀ key, key ∈ s.files.keys ↔ standing key steps ≠ []
  totals : ∀ key r, s.files.get? key = some r → r.Totals (standing key steps)
  origins : s.OriginsKnown

theorem standing_concat (key : String) (steps : List Step) (c : Step) :
    standing key (steps ++ [c]) =
      if c.clears key then [] else standing key steps ++ (c.received? key).toList := by
  rw [standing, standing, List.rtakeWhile_concat]
  cases hc : c.clears key with
  | true => simp
  | false => cases hr : c.received? key <;> simp [hr]

variable {s : Store} {steps : List Step}

/-- A file without declarations counts as one with an empty rule set. -/
theorem Holds.totalsAt (h : s.Holds steps) (key : String) :
    ((s.files.get? key).getD {}).Totals (standing key steps) := by
  cases hget : s.files.get? key with
  | some r => exact h.totals key r hget
  | none =>
    have hnone : standing key steps = [] :=
      not_not.mp fun hne => Assoc.get?_eq_none_iff.mp hget ((h.files key).mpr hne)
    rw [hnone]
    exact RuleSet.totals_empty

theorem Holds.add (h : s.Holds steps) (key : String) {d : Declaration} (hd : d.groups.Nodup) :
    (s.step (.add key d)).Holds (steps ++ [.add key d]) where
  files file := by
    show file ∈ (s.add key d).1.files.keys ↔ _
    rw [add_files, Assoc.update, Assoc.mem_keys_insert, h.files, standing_concat]
    by_cases hfile : file = key
    · simp [hfile, Step.clears, Step.received?]
    · simp [hfile, Ne.symm hfile, Step.clears, Step.received?]
  totals file r hr := by
    replace hr : (s.add key d).1.files.get? file = some r := hr
    rw [add_files, Assoc.get?_update] at hr
    rw [standing_concat]
    by_cases hfile : file = key
    · rw [if_pos hfile] at hr
      have hadded := (h.totalsAt key).add hd
      rw [← Option.some.inj hr, hfile]
      simpa [Step.clears, Step.received?] using hadded
    · rw [if_neg hfile] at hr
      simpa [Step.clears, Step.received?, Ne.symm hfile] using h.totals file r hr
  origins := originsKnown_step s _ h.origins

theorem Holds.clear (h : s.Holds steps) (key : String) :
    (s.step (.clear key)).Holds (steps ++ [.clear key]) where
  files file := by
    rw [Assoc.mem_keys_iff]
    simp only [clear_files, standing_concat, Step.clears, decide_eq_true_eq]
    by_cases hfile : file = key
    · simp [hfile]
    · simp only [if_neg hfile, if_neg (Ne.symm hfile), Step.received?, Option.toList_none,
        List.append_nil]
      rw [← Assoc.mem_keys_iff, h.files]
  totals file r hr := by
    rw [clear_files] at hr
    rw [standing_concat]
    split at hr
    next => cases hr
    next hfile =>
      simpa [Step.clears, Step.received?, Ne.symm hfile] using h.totals file r hr
  origins := originsKnown_step s _ h.origins

theorem Holds.clearAll (h : s.Holds steps) :
    (s.step .clearAll).Holds (steps ++ [.clearAll]) where
  files file := by
    rw [standing_concat, if_pos (show Step.clears file .clearAll = true from rfl)]
    exact iff_of_false List.not_mem_nil fun hne => hne rfl
  totals _ _ hr := by cases hr
  origins := originsKnown_step s _ h.origins

/-- Every step keeps the store in line with its history. -/
theorem step_holds (h : s.Holds steps) {c : Step} (hread : AllRead [c]) :
    (s.step c).Holds (steps ++ [c]) := by
  cases c with
  | add key d =>
    obtain ⟨line, hline⟩ := hread key d (List.mem_singleton_self _)
    exact h.add key (canonical_of_read hline).nodup
  | clear key => exact h.clear key
  | clearAll => exact h.clearAll

theorem holds_nil (root : Path) (policy : ConflictPolicy) : ({ root, policy } : Store).Holds [] where
  files _ := iff_of_false List.not_mem_nil fun hne => hne rfl
  totals _ _ hr := by cases hr
  origins _ _ ho := by cases ho

/-- **A store is a function of its history.** After any steps from an empty store, under either
policy, there are rule sets for exactly the files that have received a declaration since they were
last cleared; each holds what these declarations add up to; and every global word comes from a file
that is there. -/
theorem run_holds (root : Path) (policy : ConflictPolicy) {steps : List Step}
    (hread : AllRead steps) : (({ root, policy } : Store).run steps).Holds steps := by
  induction steps using List.reverseRecOn with
  | nil => exact holds_nil root policy
  | append_singleton rest c ih =>
    rw [run, List.foldl_append]
    refine step_holds (ih fun key d hd => ?_) fun key d hd => ?_
    · exact hread key d (List.mem_append_left _ hd)
    · exact hread key d (List.mem_append_right _ hd)

/-- A file that is declared in, cleared and declared in again, beside one that was never there. -/
def sampleHistory : List Step :=
  [.add "a.txt" ⟨"apple", .whole 3, "", ["LOCAL"]⟩, .clear "a.txt", .clear "gone.txt",
    .add "a.txt" ⟨"pear", .whole 0, "ripe", ["GLOBAL", "FRUIT"]⟩,
    .add "a.txt" ⟨"pear", .whole 2, "", ["FRUIT"]⟩]

theorem run_holds_sample :
    AllRead sampleHistory ∧
      (({ root := ⟨.root, []⟩ } : Store).run sampleHistory).Holds sampleHistory := by
  have hread : AllRead sampleHistory := by
    intro key d hd
    simp only [sampleHistory, List.mem_cons, List.not_mem_nil, or_false, reduceCtorEq, false_or,
      Step.add.injEq] at hd
    rcases hd with ⟨-, rfl⟩ | ⟨-, rfl⟩ | ⟨-, rfl⟩
    · exact ⟨"apple 3", by decide +kernel⟩
    · exact ⟨"pear GLOBAL FRUIT # ripe", by decide +kernel⟩
    · exact ⟨"pear 2 fruit", by decide +kernel⟩
  exact ⟨hread, run_holds ⟨.root, []⟩ .last hread⟩

end Store

end MailRules
