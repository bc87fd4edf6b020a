import MailRules.Proofs.Assoc
import MailRules.Proofs.Text.Order
import MailRules.Store.Basic

/-! Stores and how they came about.

A store changes by three steps: a declaration is added, a file is dropped, everything is dropped.
Each step is said by what it does to look-ups, and `reachable_origin` is what all of them keep: the
origin of a global word is a file of the store. -/
namespace MailRules.Store

/-- A change of a store. -/
inductive Step
  | add (key : String) (d : Declaration)
  /-- Drops a file; a file that is not known changes nothing. -/
  | clear (key : String)
  | clearAll
deriving DecidableEq, Repr

def step (s : Store) : Step → Store
  | .add key d => (s.add key d).1
  | .clear key => (s.clear? key).getD s
  | .clearAll => s.clearAll

def run (s : Store) (steps : List Step) : Store := steps.foldl step s

/-- Steps lead to the store from an empty one. -/
def Reachable (s : Store) : Prop :=
  ∃ root policy steps, s = ({ root, policy } : Store).run steps

/-- What every step keeps holds of every reachable store if it holds of the empty ones. -/
theorem Reachable.keeps {P : Store → Prop} {s : Store} (h : s.Reachable)
    (hempty : ∀ root policy, P { root, policy }) (hstep : ∀ s c, P s → P (step s c)) : P s := by
  obtain ⟨root, policy, steps, rfl⟩ := h
  have hrun : ∀ (steps : List Step) (s : Store), P s → P (s.run steps) := by
    intro steps
    induction steps with
    | nil => exact fun s hs => hs
    | cons c rest ih => exact fun s hs => ih _ (hstep s c hs)
  exact hrun steps _ (hempty root policy)

/-! ### Claims -/

/-- Who holds a global word after a claim of the file `key`. -/
def award (policy : ConflictPolicy) (holder : Option String) (key : String) : String :=
  match policy, holder with
  | .error, some holder => holder
  | _, _ => key

theorem claim_store (s : Store) (word key : String) :
    (s.claim word key).1.files = s.files ∧ (s.claim word key).1.policy = s.policy ∧
      (s.claim word key).1.root = s.root := by
  unfold claim
  split
  · exact ⟨rfl, rfl, rfl⟩
  · split
    · exact ⟨rfl, rfl, rfl⟩
    · split <;> exact ⟨rfl, rfl, rfl⟩

theorem claim_origins (s : Store) (word key w : String) :
    (s.claim word key).1.origins.get? w =
      if w = word then some (award s.policy (s.origins.get? word) key) else s.origins.get? w := by
  unfold claim
  split
  next hnone =>
    rw [Assoc.get?_insert, hnone]
    cases s.policy <;> rfl
  next holder hsome =>
    split
    next he =>
      subst he
      rw [Assoc.get?_insert, hsome]
      cases s.policy <;> rfl
    next he =>
      cases hp : s.policy with
      | last =>
        rw [Assoc.get?_insert, hsome]
        rfl
      | error =>
        by_cases hw : w = word
        · subst hw
          rw [if_pos rfl, hsome]
          rfl
        · rw [if_neg hw]

/-- A claim made again changes nothing. -/
theorem claim_award (policy : ConflictPolicy) (holder : Option String) (key : String) :
    award policy (some (award policy holder key)) key = award policy holder key := by
  cases policy <;> cases holder <;> rfl

theorem claims_store (s : Store) (word key : String) (groups : List String) :
    (s.claims word key groups).1.files = s.files ∧
      (s.claims word key groups).1.policy = s.policy ∧
      (s.claims word key groups).1.root = s.root := by
  induction groups generalizing s with
  | nil => exact ⟨rfl, rfl, rfl⟩
  | cons group rest ih =>
    unfold claims
    split
    · obtain ⟨hf, hp, hr⟩ := claim_store s word key
      obtain ⟨hf', hp', hr'⟩ := ih (s.claim word key).1
      exact ⟨hf'.trans hf, hp'.trans hp, hr'.trans hr⟩
    · exact ih s

/-- However often a declaration names the global group, its word is claimed as by one claim. -/
theorem claims_origins (s : Store) (word key : String) (groups : List String) (w : String) :
    (s.claims word key groups).1.origins.get? w =
      if globalGroup ∈ groups ∧ w = word then some (award s.policy (s.origins.get? word) key)
      else s.origins.get? w := by
  induction groups generalizing s with
  | nil => simp [claims]
  | cons group rest ih =>
    unfold claims
    by_cases hg : group = globalGroup
    · subst hg
      rw [if_pos rfl]
      show ((s.claim word key).1.claims word key rest).1.origins.get? w = _
      rw [ih, claim_origins, claim_origins, if_pos rfl, (claim_store s word key).2.1, claim_award]
      by_cases hw : w = word <;> simp [hw]
    · rw [if_neg hg, ih]
      simp [Ne.symm hg]

/-! ### Steps -/

theorem add_files (s : Store) (key : String) (d : Declaration) :
    (s.add key d).1.files = s.files.update key {} (·.add d) :=
  (claims_store _ _ _ _).1

theorem add_policy (s : Store) (key : String) (d : Declaration) :
    (s.add key d).1.policy = s.policy :=
  (claims_store _ _ _ _).2.1

theorem add_root (s : Store) (key : String) (d : Declaration) : (s.add key d).1.root = s.root :=
  (claims_store _ _ _ _).2.2

theorem add_origins (s : Store) (key : String) (d : Declaration) (w : String) :
    (s.add key d).1.origins.get? w =
      if globalGroup ∈ d.groups ∧ w = d.word then some (award s.policy (s.origins.get? w) key)
      else s.origins.get? w := by
  rw [add, claims_origins]
  by_cases h : globalGroup ∈ d.groups ∧ w = d.word
  · rw [if_pos h, if_pos h, h.2]
  · rw [if_neg h, if_neg h]

theorem clear_files (s : Store) (key file : String) :
    (step s (.clear key)).files.get? file = if file = key then none else s.files.get? file := by
  show (((s.clear? key).getD s).files.get? file) = _
  rw [clear?]
  by_cases h : s.files.contains key = true
  · rw [if_pos h]
    exact Assoc.get?_erase _ _ _
  · rw [if_neg h]
    by_cases hf : file = key
    · rw [if_pos hf, hf]
      exact Assoc.get?_eq_none_iff.mpr fun hk => h (Assoc.contains_iff.mpr hk)
    · rw [if_neg hf]
      rfl

/-! ### Origins -/

/-- Every global word comes from a file of the store. -/
def OriginsKnown (s : Store) : Prop :=
  ∀ word key, s.origins.get? word = some key → key ∈ s.files.keys

theorem award_cases (policy : ConflictPolicy) (holder : Option String) (key : String) :
    award policy holder key = key ∨ holder = some (award policy holder key) := by
  cases policy with
  | last => exact .inl rfl
  | error =>
    cases holder with
    | none => exact .inl rfl
    | some h => exact .inr rfl

theorem originsKnown_step (s : Store) (c : Step) (h : s.OriginsKnown) :
    (step s c).OriginsKnown := by
  cases c with
  | add key d =>
    intro word origin ho
    show origin ∈ (s.add key d).1.files.keys
    rw [add_files]
    refine Assoc.mem_keys_insert.mpr ?_
    replace ho : (s.add key d).1.origins.get? word = some origin := ho
    rw [add_origins] at ho
    split at ho
    next =>
      rcases award_cases s.policy (s.origins.get? word) key with hkey | hheld
      · exact .inl ((Option.some.inj ho).symm.trans hkey)
      · exact .inr (h word origin (hheld.trans ho))
    next => exact .inr (h word origin ho)
  | clear key =>
    show ((s.clear? key).getD s).OriginsKnown
    rw [clear?]
    split
    next =>
      intro word origin ho
      replace ho : (s.origins.filter fun _ o => o ≠ key).get? word = some origin := ho
      rw [Assoc.get?_filter, Option.filter_eq_some_iff] at ho
      obtain ⟨v, hv⟩ := Assoc.mem_keys_iff.mp (h word origin ho.1)
      refine Assoc.mem_keys_iff.mpr ⟨v, ?_⟩
      show (s.files.erase key).get? origin = some v
      rw [Assoc.get?_erase, if_neg (of_decide_eq_true ho.2), hv]
    next => exact h
  | clearAll =>
    intro word origin ho
    cases ho

/-- The origin of a global word is a file of the store. -/
theorem reachable_origin {s : Store} (h : s.Reachable) : s.OriginsKnown :=
  h.keeps (fun _ _ _ _ ho => by cases ho) originsKnown_step

/-! ### Words with a component -/

theorem mem_originated {s : Store} {word key : String} :
    word ∈ s.originated key ↔ s.origins.get? word = some key := by
  rw [originated, List.mem_map]
  simp only [List.mem_filter, decide_eq_true_eq]
  constructor
  · rintro ⟨⟨w, k⟩, ⟨hm, rfl⟩, rfl⟩
    exact Assoc.get?_eq_some_iff.mpr hm
  · exact fun h => ⟨(word, key), ⟨Assoc.get?_eq_some_iff.mp h, rfl⟩, rfl⟩

/-- A word needs a component in the artifact of a file if it is a word of that file or comes
from it. -/
theorem mem_componentWords {s : Store} {word key : String} :
    word ∈ s.componentWords key ↔
      (∃ rules, s.files.get? key = some rules ∧ word ∈ rules.words) ∨
        s.origins.get? word = some key := by
  rw [componentWords, Text.mem_sortedUnique, List.mem_append, mem_originated]
  cases s.files.get? key <;> simp

theorem mem_words {r : RuleSet} {word : String} :
    word ∈ r.words ↔ word ∈ r.scored.keys ∨ ∃ group words, r.groups.get? group = some words ∧
      word ∈ words := by
  rw [RuleSet.words, Text.mem_sortedUnique, List.mem_append, List.mem_flatten]
  refine or_congr_right ⟨?_, ?_⟩
  · rintro ⟨words, hwords, hword⟩
    obtain ⟨⟨group, _⟩, hentry, rfl⟩ := List.mem_map.mp hwords
    exact ⟨group, _, Assoc.get?_eq_some_iff.mpr hentry, hword⟩
  · rintro ⟨group, words, hgroup, hword⟩
    exact ⟨words, List.mem_map.mpr ⟨_, Assoc.get?_eq_some_iff.mp hgroup, rfl⟩, hword⟩

end MailRules.Store
