import MailRules.Proofs.Generation.Plan
import MailRules.Proofs.Store.History

/-! What the lines of a generation need is there before them.

A composite rule needs the rules that it refers to, a description or a score the rule that it is
about. `entries_grounded`: in the order of the plan, each of these comes from an earlier entry, and
from a path that stands in a given relation to the path of the line, as long as the paths of the
layout do (`Related`). -/
namespace MailRules.Generation

open Rule Layout

/-- What the line of an entry needs comes from known entries, at paths related to its own. -/
structure Met (R : String → String → Prop) (known : List (String × Line)) (e : String × Line) :
    Prop where
  references : ∀ r ∈ e.2.references, ∃ d ∈ known, R d.1 e.1 ∧ d.2.defined? = some r
  about : ∀ n, e.2.about? = some n → ∃ d ∈ known, R d.1 e.1 ∧ ∃ c, d.2 = .composite n c

/-- Every entry needs only what is known or comes earlier. -/
def Grounded (R : String → String → Prop) (known es : List (String × Line)) : Prop :=
  ∀ es₁ e es₂, es = es₁ ++ e :: es₂ → Met R (known ++ es₁) e

variable {R : String → String → Prop} {known known' es fs : List (String × Line)}

theorem Met.mono {e : String × Line} (h : Met R known e) (hsub : known ⊆ known') :
    Met R known' e where
  references r hr := by
    obtain ⟨d, hd, hrest⟩ := h.references r hr
    exact ⟨d, hsub hd, hrest⟩
  about n hn := by
    obtain ⟨d, hd, hrest⟩ := h.about n hn
    exact ⟨d, hsub hd, hrest⟩

/-- A line that is about no rule. -/
theorem met_refers {e : String × Line}
    (href : ∀ r ∈ e.2.references, ∃ d ∈ known, R d.1 e.1 ∧ d.2.defined? = some r)
    (habout : e.2.about? = none) : Met R known e where
  references := href
  about n hn := by
    rw [habout] at hn
    cases hn

/-- A line that refers to no rule, and is about one entered before it if about any. -/
theorem met_about {rules scores : String} {name : String} {c : Condition} {line : Line}
    (hR : R rules scores) (hrule : (rules, .composite name c) ∈ known)
    (href : line.references = []) (habout : ∀ n, line.about? = some n → n = name) :
    Met R known (scores, line) where
  references r hr := by
    rw [href] at hr
    cases hr
  about n hn := ⟨_, hrule, hR, c, by rw [habout n hn]⟩

/-- A line that needs nothing. -/
theorem met_plain {e : String × Line} (href : e.2.references = []) (habout : e.2.about? = none) :
    Met R known e := by
  refine met_refers (fun r hr => ?_) habout
  rw [href] at hr
  cases hr

/-! ### Grounded sequences -/

theorem grounded_nil : Grounded R known [] := fun _ _ _ h => by simp at h

theorem grounded_of_forall (h : ∀ e ∈ es, Met R known e) : Grounded R known es := by
  rintro es₁ e es₂ rfl
  have he : e ∈ es₁ ++ e :: es₂ := List.mem_append_right _ List.mem_cons_self
  exact (h e he).mono (List.subset_append_left _ _)

theorem Grounded.append (h : Grounded R known es) (h' : Grounded R (known ++ es) fs) :
    Grounded R known (es ++ fs) := by
  intro es₁ e es₂ hsplit
  rw [List.append_eq_append_iff] at hsplit
  rcases hsplit with ⟨mid, rfl, hfs⟩ | ⟨mid, hes, hmid⟩
  · have hmet := h' mid e es₂ hfs
    rwa [List.append_assoc] at hmet
  · cases mid with
    | nil =>
      have hmet := h' [] e es₂ hmid.symm
      rwa [hes, List.append_nil, List.append_nil] at hmet
    | cons f mid =>
      obtain ⟨rfl, -⟩ := List.cons.inj hmid
      exact h es₁ e mid hes

theorem Grounded.mono (h : Grounded R known es) (hsub : known ⊆ known') : Grounded R known' es := by
  intro es₁ e es₂ hsplit
  refine (h es₁ e es₂ hsplit).mono ?_
  exact List.append_subset.mpr
    ⟨List.subset_append_of_subset_left _ hsub, List.subset_append_right _ _⟩

/-- Whatever a line refers to is defined. -/
theorem Grounded.defined (h : Grounded R [] es) {e : String × Line} (he : e ∈ es) {r : String}
    (hr : r ∈ e.2.references) : r ∈ definitions (es.map Prod.snd) := by
  obtain ⟨es₁, es₂, rfl⟩ := List.append_of_mem he
  obtain ⟨d, hd, -, hname⟩ := (h es₁ e es₂ rfl).references r hr
  refine List.mem_filterMap.mpr ⟨d.2, List.mem_map_of_mem ?_, hname⟩
  exact List.mem_append_left _ hd

/-- Parts that do not need each other. -/
theorem Grounded.beside (h : Grounded R known es) (h' : Grounded R known fs) :
    Grounded R known (es ++ fs) :=
  h.append (h'.mono (List.subset_append_left _ _))

theorem Grounded.cons {e : String × Line} (h : Met R known e) (h' : Grounded R (known ++ [e]) es) :
    Grounded R known (e :: es) := by
  have hfirst : Grounded R known [e] := by
    refine grounded_of_forall fun f hf => ?_
    rwa [List.mem_singleton.mp hf]
  exact hfirst.append h'

/-- Parts that are grounded each on its own are grounded one after the other. -/
theorem grounded_flatMap {α : Type} {l : List α} {f : α → List (String × Line)}
    (h : ∀ a ∈ l, Grounded R known (f a)) : Grounded R known (l.flatMap f) := by
  induction l with
  | nil => exact grounded_nil
  | cons a rest ih =>
    rw [List.flatMap_cons]
    exact (h a List.mem_cons_self).beside (ih fun b hb => h b (List.mem_cons_of_mem a hb))

theorem grounded_heading (rules scores : String) (single : Bool) (title : String) :
    Grounded R known ((heading single title).map (Emission.entry rules scores)) := by
  refine grounded_of_forall fun e he => ?_
  rw [heading_eq, entry_toRules, List.mem_map] at he
  obtain ⟨line, hline, rfl⟩ := he
  cases single with
  | false => cases hline
  | true =>
    simp only [if_true, banner, List.mem_cons, List.not_mem_nil, or_false] at hline
    rcases hline with rfl | rfl | rfl | rfl <;> exact met_plain rfl rfl

/-! ### The blocks of a source -/

/-- The component rule of a word. -/
def componentLine (family word : String) : Line :=
  .composite (componentName family word)
    (.either (bodyName (componentName family word)) (subjectName (componentName family word)))

theorem componentLine_mem (single : Bool) {rules scores family : String} {set : RuleSet}
    {words : List String} {word : String} (h : word ∈ words) :
    (rules, componentLine family word) ∈
      (components single family set words).map (Emission.entry rules scores) := by
  rw [components, List.map_append, entry_toRules]
  refine List.mem_append_right _ (List.mem_map.mpr ⟨componentLine family word, ?_, rfl⟩)
  refine List.mem_flatMap.mpr ⟨word, h, List.mem_append_right _ ?_⟩
  simp [componentLine]

theorem grounded_components (hrefl : ∀ p, R p p) (single : Bool) (rules scores family : String)
    (set : RuleSet) (words : List String) :
    Grounded R known ((components single family set words).map (Emission.entry rules scores)) := by
  rw [components, List.map_append, entry_toRules, List.map_flatMap]
  refine (grounded_heading _ _ _ _).beside (grounded_flatMap fun word _ => ?_)
  rw [componentLines, List.map_append]
  refine Grounded.append (grounded_of_forall ?_) ?_
  · intro e he
    obtain ⟨line, hline, rfl⟩ := List.mem_map.mp he
    obtain ⟨text, -, rfl⟩ := Option.map_eq_some_iff.mp (Option.mem_toList.mp hline)
    exact met_plain rfl rfl
  · refine .cons (met_plain rfl rfl) (.cons (met_plain rfl rfl) (.cons ?_
      (.cons (met_plain rfl rfl) grounded_nil)))
    refine met_refers (fun r hr => ?_) rfl
    rcases List.mem_cons.mp hr with rfl | hr
    · exact ⟨(rules, .body _ (wordPattern word)), by simp, hrefl _, rfl⟩
    · rw [List.mem_singleton.mp hr]
      exact ⟨(rules, .subject _ (wordPattern word)), by simp, hrefl _, rfl⟩

theorem grounded_scoredLines (hrefl : ∀ p, R p p) {rules scores family word : String}
    (hscores : R rules scores) (set : RuleSet) (score : Score)
    (hword : (rules, componentLine family word) ∈ known) :
    Grounded R known ((scoredLines family set word score).map (Emission.entry rules scores)) := by
  let rule : Line := .composite (scoredName family word) (.only (componentName family word))
  show Grounded R known ((rules, rule) :: [(scores, _), (scores, _), (scores, _)])
  refine .cons (met_refers (fun r hr => ?_) rfl) (grounded_of_forall fun e he => ?_)
  · rw [List.mem_singleton.mp hr]
    exact ⟨_, hword, hrefl rules, rfl⟩
  · have hrule : (rules, rule) ∈ known ++ [(rules, rule)] :=
      List.mem_append_right _ List.mem_cons_self
    simp only [List.mem_cons, List.not_mem_nil, or_false] at he
    rcases he with rfl | rfl | rfl
    · exact met_about hscores hrule rfl fun n hn => (Option.some.inj hn).symm
    · exact met_about hscores hrule rfl fun n hn => (Option.some.inj hn).symm
    · exact met_plain rfl rfl

theorem grounded_scored (hrefl : ∀ p, R p p) (single : Bool) {rules scores family : String}
    (hscores : R rules scores) {set : RuleSet}
    (hwords : ∀ word ∈ set.scored.keys, (rules, componentLine family word) ∈ known) :
    Grounded R known ((scoredPlan single family set).map (Emission.entry rules scores)) := by
  rw [scoredPlan]
  split
  next => exact grounded_nil
  next =>
    rw [scored, List.map_append, List.map_flatMap]
    refine (grounded_heading _ _ _ _).beside (grounded_flatMap fun e he => ?_)
    refine grounded_scoredLines hrefl hscores set e.2 (hwords _ ?_)
    exact List.mem_map.mpr ⟨e, List.mem_mergeSort.mp he, rfl⟩

/-! ### Thresholds -/

/-- The thresholds of known rules and, after them, their scores. -/
theorem grounded_thresholds {rules scores name describe : String} {refs : List String}
    {score : Score} (hscores : R rules scores)
    (hrefs : ∀ r ∈ refs, ∃ d ∈ known, R d.1 rules ∧ d.2.defined? = some r) :
    Grounded R known ((toRules (thresholdRules name refs)
      ++ toScores (thresholdScores name refs.length describe score)).map
        (Emission.entry rules scores)) := by
  rw [List.map_append, entry_toRules, entry_toScores]
  refine (grounded_of_forall fun e he => ?_).append (grounded_of_forall fun e he => ?_)
  · obtain ⟨line, hline, rfl⟩ := List.mem_map.mp he
    obtain ⟨href, habout⟩ := thresholdRules_references hline
    exact met_refers (fun r hr => hrefs r (href r hr)) habout
  · obtain ⟨line, hline, rfl⟩ := List.mem_map.mp he
    obtain ⟨-, href, count, h1, hlast, habout⟩ := thresholdScores_about hline
    have hrule : (rules, .composite (thresholdName name count) (.atLeast refs count)) ∈
        (thresholdRules name refs).map (rules, ·) :=
      List.mem_map_of_mem (mem_thresholdRules h1 hlast)
    exact met_about hscores (List.mem_append_right _ hrule) href habout

theorem grounded_group (hrefl : ∀ p, R p p) {rules scores family group : String}
    (hscores : R rules scores) {score : Score} {words : List String}
    (hwords : ∀ word ∈ words, (rules, componentLine family word) ∈ known) :
    Grounded R known ((groupPlan family score group words).map (Emission.entry rules scores)) := by
  refine Grounded.cons (e := (rules, .comment group)) (met_plain rfl rfl) ?_
  rw [← List.length_map (componentName family)]
  refine grounded_thresholds hscores fun r hr => ?_
  obtain ⟨word, hword, rfl⟩ := List.mem_map.mp hr
  exact ⟨_, List.mem_append_left _ (hwords word hword), hrefl rules, rfl⟩

theorem grounded_groups (hrefl : ∀ p, R p p) (single : Bool) {rules scores family : String}
    (hscores : R rules scores) {score : Score} {set : RuleSet}
    (hwords : ∀ group words, set.groups.get? group = some words →
      ∀ word ∈ words, (rules, componentLine family word) ∈ known) :
    Grounded R known
      ((groupsPlan single family score set).map (Emission.entry rules scores)) := by
  rw [groupsPlan]
  split
  next => exact grounded_nil
  next =>
    rw [List.map_append, List.map_flatMap]
    refine (grounded_heading _ _ _ _).beside (grounded_flatMap fun e he => ?_)
    refine grounded_group hrefl hscores fun word hword => ?_
    exact hwords e.1 e.2 (Assoc.get?_eq_some_iff.mpr (List.mem_mergeSort.mp he)) word hword

/-! ### Sources and global words -/

/-- The paths of the layout stand in the relation where a line of the one may need one of the
other. -/
structure Related (R : String → String → Prop) (l : Layout) (store : Store) : Prop where
  refl : ∀ p, R p p
  scores : ∀ source ∈ store.files.keys, R (pathAt l (rulesKey source)) (pathAt l (scoresKey source))
  global : ∀ source ∈ store.files.keys, ¬ store.origins.isEmpty = true →
    R (pathAt l (rulesKey source)) (pathAt l .global)
  globalScores : ¬ store.origins.isEmpty = true → R (pathAt l .global) (pathAt l .globalScores)

variable {l : Layout} {store : Store}

theorem rulesAt_eq {source : String} (h : source ∈ store.files.keys) :
    store.files.get? source = some (rulesAt store source) := by
  obtain ⟨set, hset⟩ := Assoc.mem_keys_iff.mp h
  rw [rulesAt, hset, Option.getD_some]

theorem grounded_source (hR : Related R l store) {source : String}
    (hs : source ∈ store.files.keys) : Grounded R known (sourceEntries l store source) := by
  have hcomponent {known : List (String × Line)} {word : String}
      (h : word ∈ (rulesAt store source).words) :
      (pathAt l (rulesKey source), componentLine (familyAt l.config.id source) word) ∈
        known ++ (components l.config.isSingle (familyAt l.config.id source) (rulesAt store source)
          (store.componentWords source)).map
            (Emission.entry (pathAt l (rulesKey source)) (pathAt l (scoresKey source))) :=
    List.mem_append_right _
      (componentLine_mem _ (Store.mem_componentWords.mpr (.inl ⟨_, rulesAt_eq hs, h⟩)))
  rw [sourceEntries, sourcePlan, List.map_append, List.map_append, List.append_assoc]
  refine (grounded_components hR.refl _ _ _ _ _ _).append (Grounded.append ?_ ?_)
  · refine grounded_scored hR.refl _ (hR.scores source hs) fun word hword => ?_
    exact hcomponent (Store.mem_words.mpr (.inl hword))
  · refine grounded_groups hR.refl _ (hR.scores source hs) fun group words hgroup word hword => ?_
    refine List.mem_append_left _ (hcomponent ?_)
    exact Store.mem_words.mpr (.inr ⟨group, words, hgroup, hword⟩)

/-- The component of every global word is among the entries of its origin. -/
theorem componentLine_of_origin {word origin : String} (h : store.origins.get? word = some origin) :
    (pathAt l (rulesKey origin), componentLine (familyAt l.config.id origin) word) ∈
      sourceEntries l store origin := by
  rw [sourceEntries, sourcePlan, List.map_append, List.map_append]
  refine List.mem_append_left _ (List.mem_append_left _ (componentLine_mem _ ?_))
  exact Store.mem_componentWords.mpr (.inr h)

/-- In the order of the plan, everything that a line needs comes before it. -/
theorem entries_grounded (hR : Related R l store) (horigins : store.OriginsKnown) :
    Grounded R [] (entries l store) := by
  rw [entries]
  refine Grounded.append (grounded_flatMap fun source hs => ?_) ?_
  · exact grounded_source hR (Text.mem_sorted.mp hs)
  · rw [globalEntries, globalPlan]
    split
    next => exact grounded_nil
    next hne =>
      rw [List.append_assoc, List.map_append]
      refine (grounded_heading _ _ _ _).beside (grounded_thresholds (hR.globalScores hne) ?_)
      intro r hr
      obtain ⟨⟨word, origin⟩, he, rfl⟩ := List.mem_map.mp hr
      have ho : store.origins.get? word = some origin :=
        Assoc.get?_eq_some_iff.mpr (List.mem_mergeSort.mp he)
      have hs := horigins word origin ho
      refine ⟨(pathAt l (rulesKey origin), componentLine (familyAt l.config.id origin) word),
        List.mem_append_right _ ?_, hR.global origin hs hne, rfl⟩
      exact List.mem_flatMap.mpr ⟨origin, Text.mem_sorted.mpr hs, componentLine_of_origin ho⟩

end MailRules.Generation
