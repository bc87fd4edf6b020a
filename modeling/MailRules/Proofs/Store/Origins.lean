import Mathlib.Data.List.Infix
import MailRules.Proofs.Declaration.Draft
import MailRules.Proofs.Store.Content

/-! Who holds a global word, said by what has been done to the store.

A step either claims the word for a file, or it takes the word from a holder that it clears, or it
leaves the word alone (`step_origin`). Of a whole run the two policies then remember different
claims: one the last (`last_holder_iff`), the other the first that was made while nobody held the
word (`first_holder_iff`). A refused claim is refused alone: the rest of its declaration is merged
like that of any other. -/
namespace MailRules.Store

open Declaration

/-! ### One step -/

/-- The file that a step claims the word for. -/
def Step.claimant? (word : String) : Step → Option String
  | .add key d => if globalGroup ∈ d.groups ∧ word = d.word then some key else none
  | .clear _ | .clearAll => none

/-- None of the steps clears the file. -/
def Spared (key : String) (steps : List Step) : Prop := ∀ c ∈ steps, c.clears key = false

theorem clear_origins {s : Store} (hs : s.OriginsKnown) (key word : String) :
    (step s (.clear key)).origins.get? word =
      (s.origins.get? word).filter fun holder => !(Step.clear key).clears holder := by
  show ((s.clear? key).getD s).origins.get? word = _
  rw [clear?]
  split
  next =>
    refine (Assoc.get?_filter _ _ _).trans ?_
    congr 1
    funext holder
    simp [Step.clears, eq_comm]
  next habsent =>
    cases hget : s.origins.get? word with
    | none => exact hget
    | some holder =>
      have hne : holder ≠ key := by
        rintro rfl
        exact habsent (Assoc.contains_iff.mpr (hs word holder hget))
      refine hget.trans (Eq.symm ?_)
      rw [Option.filter_eq_some_iff]
      exact ⟨rfl, by simp [Step.clears, Ne.symm hne]⟩

/-- All a step can do to a word: give it to who claims it, as the policy has it, and otherwise take
it from a holder that is cleared. -/
theorem step_origin {s : Store} (hs : s.OriginsKnown) (c : Step) (word : String) :
    (step s c).origins.get? word =
      match c.claimant? word with
      | some key => some (award s.policy (s.origins.get? word) key)
      | none => (s.origins.get? word).filter fun holder => !c.clears holder := by
  cases c with
  | add key d =>
    refine (add_origins s key d word).trans ?_
    by_cases hclaim : globalGroup ∈ d.groups ∧ word = d.word
    · simp only [Step.claimant?, if_pos hclaim]
    · simp only [Step.claimant?, if_neg hclaim, Step.clears, Bool.not_false]
      cases s.origins.get? word <;> rfl
  | clear key => exact clear_origins hs key word
  | clearAll =>
    refine Eq.symm (Option.filter_eq_none_iff.mpr fun holder _ => ?_)
    simp [Step.clears]

theorem step_policy (s : Store) (c : Step) : (step s c).policy = s.policy := by
  cases c with
  | add key d => exact add_policy s key d
  | clear key =>
    show ((s.clear? key).getD s).policy = s.policy
    rw [clear?]
    split <;> rfl
  | clearAll => rfl

variable {s : Store} {c : Step} {word key holder : String}

/-- A holder keeps the word through a step that neither clears it nor claims the word. -/
theorem step_holder_iff (hs : s.OriginsKnown) (hc : c.claimant? word = none) :
    (step s c).origins.get? word = some holder ↔
      s.origins.get? word = some holder ∧ c.clears holder = false := by
  rw [step_origin hs, hc]
  simp [Option.filter_eq_some_iff]

theorem claimant_spares (hc : c.claimant? word = some key) (holder : String) :
    c.clears holder = false := by
  cases c with
  | add => rfl
  | clear | clearAll => cases hc

/-! ### Runs -/

/-- The store after the steps, from an empty one. -/
def after (root : Path) (policy : ConflictPolicy) (steps : List Step) : Store :=
  ({ root, policy } : Store).run steps

variable {root : Path} {policy : ConflictPolicy} {steps since : List Step}

theorem after_concat (root : Path) (policy : ConflictPolicy) (steps : List Step) (c : Step) :
    after root policy (steps ++ [c]) = step (after root policy steps) c := by
  rw [after, run, List.foldl_append]
  rfl

theorem after_originsKnown (root : Path) (policy : ConflictPolicy) (steps : List Step) :
    (after root policy steps).OriginsKnown :=
  reachable_origin ⟨root, policy, steps, rfl⟩

theorem after_policy (root : Path) (policy : ConflictPolicy) (steps : List Step) :
    (after root policy steps).policy = policy := by
  induction steps using List.reverseRecOn with
  | nil => rfl
  | append_singleton rest c ih => rw [after_concat, step_policy, ih]

theorem spared_concat : Spared key (steps ++ [c]) ↔ Spared key steps ∧ c.clears key = false := by
  simp only [Spared, List.forall_mem_append, List.forall_mem_singleton]

/-- Where a list that ends in `a` can be split: at its end, or before it. -/
theorem concat_eq_append_cons {α : Type} {l before rest : List α} {a b : α} :
    l ++ [a] = before ++ b :: rest ↔
      (rest = [] ∧ l = before ∧ a = b) ∨
        ∃ front, rest = front ++ [a] ∧ l = before ++ b :: front := by
  constructor
  · intro h
    rcases List.eq_nil_or_concat rest with rfl | ⟨front, last, rfl⟩
    · obtain ⟨hfront, hlast⟩ := List.append_inj' h rfl
      exact .inl ⟨rfl, hfront, List.singleton_inj.mp hlast⟩
    · rw [List.concat_eq_append, ← List.cons_append, ← List.append_assoc] at h
      obtain ⟨hfront, hlast⟩ := List.append_inj' h rfl
      exact .inr ⟨front, by rw [List.concat_eq_append, hlast], hfront⟩
  · rintro (⟨rfl, rfl, rfl⟩ | ⟨front, rfl, rfl⟩)
    · rfl
    · simp

/-! ### The last claim -/

/-- The last claim to the word is one of the file `key`, and the steps `since` have come after. -/
def LastClaim (word key : String) (steps since : List Step) : Prop :=
  ∃ before c, steps = before ++ c :: since ∧ c.claimant? word = some key ∧
    ∀ later ∈ since, later.claimant? word = none

theorem lastClaim_concat : LastClaim word key (steps ++ [c]) since ↔
    (since = [] ∧ c.claimant? word = some key) ∨
      ∃ rest, since = rest ++ [c] ∧ c.claimant? word = none ∧ LastClaim word key steps rest := by
  constructor
  · rintro ⟨before, c', hsteps, hc', hlater⟩
    obtain ⟨rfl, -, rfl⟩ | ⟨rest, rfl, rfl⟩ := concat_eq_append_cons.mp hsteps
    · exact .inl ⟨rfl, hc'⟩
    · rw [List.forall_mem_append, List.forall_mem_singleton] at hlater
      exact .inr ⟨rest, rfl, hlater.2, before, c', rfl, hc', hlater.1⟩
  · rintro (⟨rfl, hc⟩ | ⟨rest, rfl, hc, before, c', rfl, hc', hlater⟩)
    · exact ⟨steps, c, rfl, hc, fun _ hlater => absurd hlater List.not_mem_nil⟩
    · refine ⟨before, c', concat_eq_append_cons.mpr (.inr ⟨rest, rfl, rfl⟩), hc', ?_⟩
      rw [List.forall_mem_append, List.forall_mem_singleton]
      exact ⟨hlater, hc⟩

/-- There is no claim, or a last one. -/
theorem unclaimed_or_lastClaim (word : String) (steps : List Step) :
    (∀ c ∈ steps, c.claimant? word = none) ∨ ∃ key since, LastClaim word key steps since := by
  induction steps using List.reverseRecOn with
  | nil => exact .inl fun _ hc => absurd hc List.not_mem_nil
  | append_singleton rest c ih =>
    cases hc : c.claimant? word with
    | some key => exact .inr ⟨key, [], lastClaim_concat.mpr (.inl ⟨rfl, hc⟩)⟩
    | none =>
      rcases ih with hnone | ⟨key, since, hlast⟩
      · refine .inl ?_
        rw [List.forall_mem_append, List.forall_mem_singleton]
        exact ⟨hnone, hc⟩
      · exact .inr ⟨key, _, lastClaim_concat.mpr (.inr ⟨since, rfl, hc, hlast⟩)⟩

theorem LastClaim.unique {since' : List Step} (h : LastClaim word key steps since)
    (h' : LastClaim word holder steps since') : key = holder ∧ since = since' := by
  induction steps using List.reverseRecOn generalizing since since' with
  | nil =>
    obtain ⟨before, c, hsteps, -⟩ := h
    simp at hsteps
  | append_singleton rest c ih =>
    obtain ⟨rfl, hc⟩ | ⟨front, rfl, hc, hfront⟩ := lastClaim_concat.mp h <;>
      obtain ⟨rfl, hc'⟩ | ⟨front', rfl, hc', hfront'⟩ := lastClaim_concat.mp h'
    · exact ⟨Option.some.inj (hc.symm.trans hc'), rfl⟩
    · exact absurd (hc.symm.trans hc') (Option.some_ne_none _)
    · exact absurd (hc'.symm.trans hc) (Option.some_ne_none _)
    · obtain ⟨hkey, rfl⟩ := ih hfront hfront'
      exact ⟨hkey, rfl⟩

/-- If the last claim counts, a word is held by the file that made it, unless that has been cleared
since. -/
theorem last_holder_iff : (after root .last steps).origins.get? word = some key ↔
    ∃ since, LastClaim word key steps since ∧ Spared key since := by
  induction steps using List.reverseRecOn with
  | nil =>
    refine iff_of_false (fun h => by cases h) ?_
    rintro ⟨since, ⟨before, c, hsteps, -⟩, -⟩
    simp at hsteps
  | append_singleton rest c ih =>
    rw [after_concat]
    have hknown := after_originsKnown root .last rest
    cases hc : c.claimant? word with
    | some file =>
      rw [step_origin hknown, hc, after_policy]
      simp only [lastClaim_concat, hc, reduceCtorEq, false_and, and_false, exists_false, or_false]
      constructor
      · intro h
        exact ⟨[], ⟨rfl, h⟩, fun _ hc => absurd hc List.not_mem_nil⟩
      · rintro ⟨_, ⟨rfl, h⟩, -⟩
        exact h
    | none =>
      rw [step_holder_iff hknown hc, ih]
      constructor
      · rintro ⟨⟨since, hlast, hspared⟩, hclears⟩
        exact ⟨_, lastClaim_concat.mpr (.inr ⟨since, rfl, hc, hlast⟩),
          spared_concat.mpr ⟨hspared, hclears⟩⟩
      · rintro ⟨_, hlast, hspared⟩
        obtain ⟨-, hclaims⟩ | ⟨since, rfl, -, hlast⟩ := lastClaim_concat.mp hlast
        · exact absurd (hc.symm.trans hclaims).symm (Option.some_ne_none _)
        · obtain ⟨hspared, hclears⟩ := spared_concat.mp hspared
          exact ⟨⟨since, hlast, hspared⟩, hclears⟩

theorem last_absent_iff : (after root .last steps).origins.get? word = none ↔
    (∀ c ∈ steps, c.claimant? word = none) ∨
      ∃ key since, LastClaim word key steps since ∧ ¬ Spared key since := by
  rw [Option.eq_none_iff_forall_ne_some]
  simp only [ne_eq, last_holder_iff, not_exists, not_and]
  constructor
  · intro habsent
    rcases unclaimed_or_lastClaim word steps with hnone | ⟨key, since, hlast⟩
    · exact .inl hnone
    · exact .inr ⟨key, since, hlast, habsent key since hlast⟩
  · rintro (hnone | ⟨key, since, hlast, hcleared⟩) file rest hlast'
    · obtain ⟨before, c, rfl, hc, -⟩ := hlast'
      have hfree := hnone c (List.mem_append_right _ List.mem_cons_self)
      exact absurd (hc.symm.trans hfree) (Option.some_ne_none _)
    · obtain ⟨rfl, rfl⟩ := hlast.unique hlast'
      exact hcleared

/-! ### The first claim -/

/-- The file `key` has claimed the word while nobody held it, and the steps `since` have come
after. -/
def FirstClaim (root : Path) (word key : String) (steps since : List Step) : Prop :=
  ∃ before c, steps = before ++ c :: since ∧ c.claimant? word = some key ∧
    (after root .error before).origins.get? word = none

theorem firstClaim_concat : FirstClaim root word key (steps ++ [c]) since ↔
    (since = [] ∧ c.claimant? word = some key ∧
        (after root .error steps).origins.get? word = none) ∨
      ∃ rest, since = rest ++ [c] ∧ FirstClaim root word key steps rest := by
  constructor
  · rintro ⟨before, c', hsteps, hc', habsent⟩
    obtain ⟨rfl, rfl, rfl⟩ | ⟨rest, rfl, rfl⟩ := concat_eq_append_cons.mp hsteps
    · exact .inl ⟨rfl, hc', habsent⟩
    · exact .inr ⟨rest, rfl, before, c', rfl, hc', habsent⟩
  · rintro (⟨rfl, hc, habsent⟩ | ⟨rest, rfl, before, c', rfl, hc', habsent⟩)
    · exact ⟨steps, c, rfl, hc, habsent⟩
    · exact ⟨before, c', concat_eq_append_cons.mpr (.inr ⟨rest, rfl, rfl⟩), hc', habsent⟩

/-- If the first claim counts, a word is held by the file that claimed it when nobody held it,
unless that has been cleared since. -/
theorem first_holder_iff : (after root .error steps).origins.get? word = some key ↔
    ∃ since, FirstClaim root word key steps since ∧ Spared key since := by
  induction steps using List.reverseRecOn with
  | nil =>
    refine iff_of_false (fun h => by cases h) ?_
    rintro ⟨since, ⟨before, c, hsteps, -⟩, -⟩
    simp at hsteps
  | append_singleton rest c ih =>
    rw [after_concat]
    have hknown := after_originsKnown root .error rest
    -- A claim of another file made earlier stands through the step if nothing clears that file.
    have hearlier : (∃ since, (∃ front, since = front ++ [c] ∧
        FirstClaim root word key rest front) ∧ Spared key since) ↔
          (after root .error rest).origins.get? word = some key ∧ c.clears key = false := by
      rw [ih]
      constructor
      · rintro ⟨_, ⟨front, rfl, hfirst⟩, hspared⟩
        obtain ⟨hspared, hclears⟩ := spared_concat.mp hspared
        exact ⟨⟨front, hfirst, hspared⟩, hclears⟩
      · rintro ⟨⟨front, hfirst, hspared⟩, hclears⟩
        exact ⟨_, ⟨front, rfl, hfirst⟩, spared_concat.mpr ⟨hspared, hclears⟩⟩
    simp only [firstClaim_concat, or_and_right, exists_or, hearlier]
    cases hc : c.claimant? word with
    | some file =>
      have hspared : Spared key [] := fun _ hc => absurd hc List.not_mem_nil
      rw [step_origin hknown, hc, after_policy]
      cases hget : (after root .error rest).origins.get? word with
      | none => simp [award, hspared]
      | some held => simp [award, claimant_spares hc]
    | none => simp [step_holder_iff hknown hc]

/-! ### Refusals -/

theorem claim_refused_iff : (s.claim word key).2 = .refused holder ↔
    s.policy = .error ∧ s.origins.get? word = some holder ∧ holder ≠ key := by
  unfold claim
  split
  next hnone => simp [hnone]
  next held hsome =>
    by_cases hkey : held = key
    · rw [if_pos hkey, hsome]
      refine iff_of_false (fun h => by cases h) ?_
      rintro ⟨-, hheld, hne⟩
      exact hne ((Option.some.inj hheld).symm.trans hkey)
    · rw [if_neg hkey, hsome]
      cases hpolicy : s.policy with
      | last => exact iff_of_false (fun h => by cases h) fun h => by cases h.1
      | error =>
        constructor
        · rintro ⟨⟩
          exact ⟨rfl, rfl, hkey⟩
        · rintro ⟨-, hheld, -⟩
          rw [Option.some.inj hheld]

/-- A claim made again is refused if it was refused before. -/
theorem claim_refused_again :
    ((s.claim word key).1.claim word key).2 = .refused holder ↔
      (s.claim word key).2 = .refused holder := by
  rw [claim_refused_iff, claim_refused_iff, claim_origins, if_pos rfl, (claim_store s word key).2.1]
  refine and_congr_right fun hpolicy => ?_
  rw [hpolicy]
  cases s.origins.get? word with
  | none =>
    refine iff_of_false (fun h => h.2 (Option.some.inj h.1).symm) fun h => ?_
    cases h.1
  | some held => rfl

theorem length_claims (s : Store) (word key : String) (groups : List String) :
    (s.claims word key groups).2.length = groups.count globalGroup := by
  induction groups generalizing s with
  | nil => rfl
  | cons group rest ih =>
    unfold claims
    by_cases hg : group = globalGroup
    · rw [if_pos hg, hg, List.count_cons_self]
      exact congrArg (· + 1) (ih (s.claim word key).1)
    · rw [if_neg hg, List.count_cons_of_ne hg, ih]

/-- However often a declaration names the global group, its last claim is refused as its first. -/
theorem claims_refused_iff (s : Store) (groups : List String) :
    (s.claims word key groups).2.getLast? = some (.refused holder) ↔
      globalGroup ∈ groups ∧ (s.claim word key).2 = .refused holder := by
  induction groups generalizing s with
  | nil => simp [claims]
  | cons group rest ih =>
    unfold claims
    by_cases hg : group = globalGroup
    · rw [if_pos hg, hg]
      have hrest := ih (s.claim word key).1
      rw [claim_refused_again] at hrest
      have hlength := length_claims (s.claim word key).1 word key rest
      show (_ :: ((s.claim word key).1.claims word key rest).2).getLast? = _ ↔ _
      rw [List.getLast?_cons]
      cases hlater : ((s.claim word key).1.claims word key rest).2.getLast? with
      | none => simp
      | some last =>
        rw [hlater] at hrest
        have hmem : globalGroup ∈ rest := by
          by_contra habsent
          rw [List.count_eq_zero.mpr habsent, List.length_eq_zero_iff] at hlength
          rw [hlength] at hlater
          cases hlater
        simpa [hmem] using hrest
    · rw [if_neg hg, ih]
      simp [Ne.symm hg]

/-- A declaration is in conflict exactly if its word is global, another file holds it, and the first
claim counts. -/
theorem conflict_iff (s : Store) (key : String) (d : Declaration) (conflict : Conflict) :
    conflict? key d.word (s.add key d).2 = some conflict ↔
      s.policy = .error ∧ globalGroup ∈ d.groups ∧ ∃ holder, s.origins.get? d.word = some holder ∧
        holder ≠ key ∧ conflict = ⟨d.word, key, holder⟩ := by
  have hrefused (holder : String) : (s.add key d).2.getLast? = some (.refused holder) ↔
      globalGroup ∈ d.groups ∧ s.policy = .error ∧ s.origins.get? d.word = some holder ∧
        holder ≠ key := by
    rw [add, claims_refused_iff, claim_refused_iff]
  constructor
  · intro h
    rw [conflict?] at h
    split at h
    next holder hlast =>
      obtain ⟨hglobal, hpolicy, hheld, hne⟩ := (hrefused holder).mp hlast
      exact ⟨hpolicy, hglobal, holder, hheld, hne, (Option.some.inj h).symm⟩
    next => cases h
  · rintro ⟨hpolicy, hglobal, holder, hheld, hne, rfl⟩
    rw [conflict?, (hrefused holder).mpr ⟨hglobal, hpolicy, hheld, hne⟩]

/-! ### Merges -/

/-- The declaration is merged into the file: its word is at the end of each of its groups, as often
as it names them, and its score and its comment stand for the word if it has them. Nothing else
changes in the files. -/
structure Merged (s t : Store) (key : String) (d : Declaration) : Prop where
  groups : ∃ r, t.files.get? key = some r ∧ ∀ g, r.groups.get? g =
    let old := ((s.files.get? key).getD {}).groups.get? g
    if g ≠ globalGroup ∧ g ∈ d.groups then
      some (old.getD [] ++ List.replicate (d.groups.count g) d.word)
    else old
  scored : ∃ r, t.files.get? key = some r ∧ ∀ w, r.scored.get? w =
    if d.isScored = true ∧ w = d.word then some d.score
    else ((s.files.get? key).getD {}).scored.get? w
  comments : ∃ r, t.files.get? key = some r ∧ ∀ w, r.comments.get? w =
    if d.comment ≠ "" ∧ w = d.word then some d.comment
    else ((s.files.get? key).getD {}).comments.get? w
  others : ∀ file, file ≠ key → t.files.get? file = s.files.get? file

theorem add_merged (s : Store) (key : String) (d : Declaration) :
    s.Merged (s.add key d).1 key d := by
  have hget : (s.add key d).1.files.get? key = some (((s.files.get? key).getD {}).add d) := by
    rw [add_files, Assoc.get?_update, if_pos rfl]
  refine ⟨⟨_, hget, RuleSet.add_groups _ d⟩, ⟨_, hget, RuleSet.add_scored _ d⟩,
    ⟨_, hget, RuleSet.add_comments _ d⟩, fun file hne => ?_⟩
  rw [add_files, Assoc.get?_update, if_neg hne]

/-! ### Words that stay -/

/-- The word has a component in some file. -/
def Kept (s : Store) (word : String) : Prop := ∃ file ∈ s.files.keys, word ∈ s.componentWords file

theorem kept_iff (hs : s.OriginsKnown) : s.Kept word ↔
    (∃ file r, s.files.get? file = some r ∧ word ∈ r.words) ∨
      ∃ holder, s.origins.get? word = some holder := by
  constructor
  · rintro ⟨file, -, hword⟩
    exact (mem_componentWords.mp hword).imp (fun ⟨r, h⟩ => ⟨file, r, h⟩) fun h => ⟨file, h⟩
  · rintro (⟨file, r, hget, hword⟩ | ⟨holder, hheld⟩)
    · exact ⟨file, Assoc.mem_keys_iff.mpr ⟨r, hget⟩, mem_componentWords.mpr (.inl ⟨r, hget, hword⟩)⟩
    · exact ⟨holder, hs word holder hheld, mem_componentWords.mpr (.inr hheld)⟩

/-- A rule set does not lose words. -/
theorem words_add {r : RuleSet} (d : Declaration) (h : word ∈ r.words) :
    word ∈ (r.add d).words := by
  rw [mem_words] at h ⊢
  rcases h with hscored | ⟨g, words, hgroup, hword⟩
  · obtain ⟨x, hx⟩ := Assoc.mem_keys_iff.mp hscored
    refine .inl (Assoc.mem_keys_iff.mpr ?_)
    rw [RuleSet.add_scored, hx]
    split <;> exact ⟨_, rfl⟩
  · refine .inr ?_
    by_cases hg : g ≠ globalGroup ∧ g ∈ d.groups
    · refine ⟨g, _, (RuleSet.add_groups r d g).trans (if_pos hg), List.mem_append_left _ ?_⟩
      rw [hgroup]
      exact hword
    · exact ⟨g, words, (RuleSet.add_groups r d g).trans ((if_neg hg).trans hgroup), hword⟩

theorem Kept.add (hs : s.OriginsKnown) (h : s.Kept word) (key : String) (d : Declaration) :
    (s.add key d).1.Kept word := by
  have hadded : (s.add key d).1.OriginsKnown := originsKnown_step s (.add key d) hs
  rw [kept_iff hadded]
  rcases (kept_iff hs).mp h with ⟨file, r, hget, hword⟩ | ⟨holder, hheld⟩
  · refine .inl ⟨file, ?_⟩
    rw [add_files, Assoc.get?_update]
    by_cases hfile : file = key
    · rw [if_pos hfile, ← hfile, hget]
      exact ⟨_, rfl, words_add d hword⟩
    · rw [if_neg hfile]
      exact ⟨r, hget, hword⟩
  · refine .inr ?_
    rw [add_origins, hheld]
    split <;> exact ⟨_, rfl⟩

/-- The word of a declaration that names a group has a component. -/
theorem kept_of_add (hs : s.OriginsKnown) (key : String) {d : Declaration} (hd : d.groups ≠ []) :
    (s.add key d).1.Kept d.word := by
  have hadded : (s.add key d).1.OriginsKnown := originsKnown_step s (.add key d) hs
  rw [kept_iff hadded]
  obtain ⟨g, hg⟩ := List.exists_mem_of_ne_nil _ hd
  by_cases hglobal : g = globalGroup
  · exact .inr ⟨_, (add_origins s key d d.word).trans (if_pos ⟨hglobal ▸ hg, rfl⟩)⟩
  · obtain ⟨r, hget, hgroups⟩ := (add_merged s key d).groups
    have hcount : d.groups.count g ≠ 0 := List.count_pos_iff.mpr hg |>.ne'
    have hword := (hgroups g).trans (if_pos ⟨hglobal, hg⟩)
    refine .inl ⟨key, r, hget, mem_words.mpr (.inr ⟨g, _, hword, ?_⟩)⟩
    exact List.mem_append_right _ (List.mem_replicate.mpr ⟨hcount, rfl⟩)

theorem kept_of_declared (root : Path) (policy : ConflictPolicy) {steps : List Step}
    (hspared : ∀ file, Spared file steps) {key line : String} {d : Declaration}
    (hmem : .add key d ∈ steps) (hread : Declaration.read line = .ok (.declared d)) :
    (after root policy steps).Kept d.word := by
  induction steps using List.reverseRecOn with
  | nil => cases hmem
  | append_singleton rest c ih =>
    rw [after_concat]
    have hknown := after_originsKnown root policy rest
    rcases List.mem_append.mp hmem with hearlier | hnow
    · have hkept := ih (fun file => (spared_concat.mp (hspared file)).1) hearlier
      cases c with
      | add file e => exact hkept.add hknown file e
      | clear file =>
        have hclears := (spared_concat.mp (hspared file)).2
        simp [Step.clears] at hclears
      | clearAll => cases (spared_concat.mp (hspared key)).2
    · rw [← List.mem_singleton.mp hnow]
      exact kept_of_add hknown key (canonical_of_read hread).groups_ne

/-! ### Whole runs -/

/-- What the steps say of the global words, with either policy. -/
structure OriginHistory (root : Path) (steps : List Step) : Prop where
  last : ∀ word key, (after root .last steps).origins.get? word = some key ↔
    ∃ since, LastClaim word key steps since ∧ Spared key since
  last_absent : ∀ word, (after root .last steps).origins.get? word = none ↔
    (∀ c ∈ steps, c.claimant? word = none) ∨
      ∃ key since, LastClaim word key steps since ∧ ¬ Spared key since
  first : ∀ word key, (after root .error steps).origins.get? word = some key ↔
    ∃ since, FirstClaim root word key steps since ∧ Spared key since
  /-- The word has not been free since it was claimed. -/
  first_stands : ∀ word key before c since front, steps = before ++ c :: since →
    c.claimant? word = some key → (after root .error before).origins.get? word = none →
    Spared key since → front <+: since →
    (after root .error (before ++ c :: front)).origins.get? word = some key
  /-- Any declaration may come next. -/
  refused : ∀ policy key d conflict,
    conflict? key d.word ((after root policy steps).add key d).2 = some conflict ↔
      policy = .error ∧ globalGroup ∈ d.groups ∧
        ∃ holder, (after root policy steps).origins.get? d.word = some holder ∧ holder ≠ key ∧
          conflict = ⟨d.word, key, holder⟩
  merged : ∀ policy key d,
    (after root policy steps).Merged ((after root policy steps).add key d).1 key d
  kept : ∀ policy, (∀ file, Spared file steps) → ∀ key d line, .add key d ∈ steps →
    Declaration.read line = .ok (.declared d) → (after root policy steps).Kept d.word

/-- **The origin of a global word follows from the history.** After any steps from an empty store, a
word is held, if the last claim counts, by the file that made the last claim, and by nobody if there
is none or that file has been cleared since. If the first claim counts, it is held by the file that
claimed it when nobody held it, for as long as that file is not cleared; a declaration is refused
exactly if it claims a word that another file holds then, and is merged even so. Where nothing is
cleared, no word that was read is lost. -/
theorem origins_of_history (root : Path) (steps : List Step) : OriginHistory root steps where
  last _ _ := last_holder_iff
  last_absent _ := last_absent_iff
  first _ _ := first_holder_iff
  first_stands word key before c since front _ hc habsent hspared hfront :=
    first_holder_iff.mpr ⟨front, ⟨before, c, rfl, hc, habsent⟩,
      fun later hlater => hspared later (hfront.subset hlater)⟩
  refused policy key d conflict := by rw [conflict_iff, after_policy]
  merged policy key d := add_merged _ key d
  kept policy hspared _ _ _ hmem hread := kept_of_declared root policy hspared hmem hread

/-- The file that is refused has the word once the first holder is cleared and it asks again. -/
example :
    let claims : Declaration := ⟨"pear", .whole 2, "ripe", ["GLOBAL", "FRUIT"]⟩
    let steps : List Step := [.add "a.txt" claims, .add "b.txt" claims, .clear "a.txt",
      .add "c.txt" claims, .add "b.txt" claims]
    (steps.inits.map fun front => (after ⟨.root, []⟩ .error front).origins.get? "pear") =
      [none, some "a.txt", some "a.txt", none, some "c.txt", some "c.txt"] := by
  decide +kernel

end MailRules.Store
