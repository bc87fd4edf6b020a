import Mathlib.Data.List.Flatten
import MailRules.Proofs.Generation.Grounding
import MailRules.Proofs.Generation.Lines
import MailRules.Proofs.Generation.Names
import MailRules.Proofs.Rule.Meaning

/-! What the rules of a generation mean.

Rules refer to each other by names that lose much of the words they are made of. Since no name is
defined twice, each reference leads to the one rule that it was made for, so a mail gives every rule
the value that the store says (`generate_meaning`): a word is found in the body or in the subject,
and a threshold counts the words of its group, or the global words each in its own file. The
conditions stand in the rule files as texts, and each text reads back as its condition. -/
namespace MailRules.Generation

open Rule Layout

/-- A component is found: by its body rule or by its subject rule. -/
def foundBy (hit : String → Bool) (component : String) : Bool :=
  hit (bodyName component) || hit (subjectName component)

/-- A word of a family is found. -/
def found (hit : String → Bool) (family word : String) : Bool :=
  foundBy hit (componentName family word)

/-- What the rules of a source mean for a mail. -/
structure SourceMeaning (store : Store) (source family : String) (lines : List Line)
    (hit : String → Bool) : Prop where
  body : ∀ word ∈ store.componentWords source,
    .body (bodyName (componentName family word)) (wordPattern word) ∈ lines ∧
      HasValue lines hit (bodyName (componentName family word))
        (hit (bodyName (componentName family word)))
  subject : ∀ word ∈ store.componentWords source,
    .subject (subjectName (componentName family word)) (wordPattern word) ∈ lines ∧
      HasValue lines hit (subjectName (componentName family word))
        (hit (subjectName (componentName family word)))
  component : ∀ word ∈ store.componentWords source,
    HasValue lines hit (componentName family word) (found hit family word)
  scored : ∀ word ∈ (rulesAt store source).scored.keys,
    word ∈ store.componentWords source ∧
      HasValue lines hit (scoredName family word) (found hit family word)
  /-- The words of a group count as often as they are there. -/
  group : ∀ group words, (rulesAt store source).groups.get? group = some words →
    (∀ word ∈ words, word ∈ store.componentWords source) ∧
      ∀ k, 1 ≤ k → k ≤ words.length →
        HasValue lines hit (thresholdName (groupName family group) k)
          (decide (k ≤ words.countP (found hit family)))

/-- What all rules mean for a mail. -/
structure Meaning (id : String) (store : Store) (lines : List Line) (hit : String → Bool) : Prop where
  source : ∀ source ∈ store.files.keys,
    ∃ family, family? id source = some family ∧ SourceMeaning store source family lines hit
  /-- The thresholds over all files count each global word in the file that it comes from. -/
  global : ∀ k, 1 ≤ k → k ≤ store.origins.size →
    HasValue lines hit (thresholdName id k)
      (decide (k ≤ store.origins.entries.countP fun e => found hit (familyAt id e.2) e.1))
  origin : ∀ word origin, store.origins.get? word = some origin →
    origin ∈ store.files.keys ∧ word ∈ store.componentWords origin
  /-- The condition of a rule is what its text says. -/
  written : ∀ name condition, .composite name condition ∈ lines →
    Condition.read? condition.text = some condition
  /-- Every reference leads to exactly one rule. -/
  references : ∀ line ∈ lines, ∀ r ∈ line.references, (definitions lines).count r = 1
  /-- No two words share a component rule, be it in one file or in two. -/
  apart : ∀ s ∈ store.files.keys, ∀ t ∈ store.files.keys, ∀ v ∈ store.componentWords s,
    ∀ w ∈ store.componentWords t,
      componentName (familyAt id s) v = componentName (familyAt id t) w → s = t ∧ v = w

/-! ### The lines of the plan -/

variable {l m : Layout} {store : Store} {b : Buffers Line} {source : String} {hit : String → Bool}

theorem Generated.of_source (h : Generated l m store b) (hs : source ∈ store.files.keys)
    {e : Emission} (he : e ∈ sourcePlan l.config store source) : e.line ∈ b.inLoadOrder := by
  refine h.mem_iff.mpr ⟨e, List.mem_append_left _ ?_, rfl⟩
  exact List.mem_flatMap.mpr ⟨source, Text.mem_sorted.mpr hs, he⟩

theorem Generated.of_componentLines (h : Generated l m store b) (hs : source ∈ store.files.keys)
    {word : String} (hw : word ∈ store.componentWords source) {line : Line}
    (hline : line ∈ componentLines (familyAt l.config.id source)
      ((rulesAt store source).comments.get? word) word) : line ∈ b.inLoadOrder := by
  have he : ⟨false, line⟩ ∈ sourcePlan l.config store source := by
    refine List.mem_append_left _ (List.mem_append_left _ (List.mem_append_right _ ?_))
    exact List.mem_map_of_mem (List.mem_flatMap.mpr ⟨word, hw, hline⟩)
  exact h.of_source hs he

theorem mem_scoredPlan {single : Bool} {family word : String} {rules : RuleSet}
    (h : word ∈ rules.scored.keys) :
    ⟨false, .composite (scoredName family word) (.only (componentName family word))⟩ ∈
      scoredPlan single family rules := by
  obtain ⟨e, he, rfl⟩ := List.mem_map.mp h
  rw [scoredPlan, if_neg (Assoc.not_isEmpty_of_mem he)]
  refine List.mem_append_right _ (List.mem_flatMap.mpr ⟨e, List.mem_mergeSort.mpr he, ?_⟩)
  exact List.mem_cons_self

theorem mem_groupsPlan {single : Bool} {family group : String} {score : Score} {rules : RuleSet}
    {words : List String} (h : rules.groups.get? group = some words) {k : Nat} (h1 : 1 ≤ k)
    (hk : k ≤ words.length) :
    ⟨false, .composite (thresholdName (groupName family group) k)
      (.atLeast (words.map (componentName family)) k)⟩ ∈ groupsPlan single family score rules := by
  have he := Assoc.get?_eq_some_iff.mp h
  rw [groupsPlan, if_neg (Assoc.not_isEmpty_of_mem he)]
  refine List.mem_append_right _ (List.mem_flatMap.mpr ⟨_, List.mem_mergeSort.mpr he, ?_⟩)
  refine List.mem_append_left _ (List.mem_cons_of_mem _ (List.mem_map_of_mem ?_))
  exact mem_thresholdRules h1 (by rwa [List.length_map])

theorem mem_globalPlan (config : Config) {store : Store} {k : Nat} (h1 : 1 ≤ k)
    (hk : k ≤ store.origins.size) :
    ⟨false, .composite (thresholdName config.id k)
      (.atLeast (globalComponents config.id store) k)⟩ ∈ globalPlan config store := by
  have hne : ¬ store.origins.isEmpty = true := by
    rw [Assoc.isEmpty_iff]
    exact List.ne_nil_of_length_pos (Nat.lt_of_lt_of_le h1 hk)
  rw [globalPlan, if_neg hne]
  refine List.mem_append_left _ (List.mem_append_right _ (List.mem_map_of_mem ?_))
  exact mem_thresholdRules h1 (by rwa [size_globalComponents])

/-! ### Values -/

theorem Generated.definitions_nodup (h : Generated l m store b) :
    (definitions b.inLoadOrder).Nodup :=
  h.definitions_perm.nodup_iff.mpr (ruleNames_nodup h.checked)

theorem Generated.body_mem (h : Generated l m store b) (hs : source ∈ store.files.keys)
    {word : String} (hw : word ∈ store.componentWords source) :
    .body (bodyName (componentName (familyAt l.config.id source) word)) (wordPattern word) ∈
      b.inLoadOrder :=
  h.of_componentLines hs hw (List.mem_append_right _ List.mem_cons_self)

theorem Generated.subject_mem (h : Generated l m store b) (hs : source ∈ store.files.keys)
    {word : String} (hw : word ∈ store.componentWords source) :
    .subject (subjectName (componentName (familyAt l.config.id source) word)) (wordPattern word) ∈
      b.inLoadOrder :=
  h.of_componentLines hs hw
    (List.mem_append_right _ (List.mem_cons_of_mem _ List.mem_cons_self))

theorem Generated.component_value (h : Generated l m store b) (hs : source ∈ store.files.keys)
    {word : String} (hw : word ∈ store.componentWords source) :
    HasValue b.inLoadOrder hit (componentName (familyAt l.config.id source) word)
      (found hit (familyAt l.config.id source) word) := by
  have hmem : componentLine (familyAt l.config.id source) word ∈ b.inLoadOrder :=
    h.of_componentLines hs hw (List.mem_append_right _
      (List.mem_cons_of_mem _ (List.mem_cons_of_mem _ List.mem_cons_self)))
  refine hasValue_composite h.definitions_nodup hmem fun r hr => ?_
  rcases List.mem_cons.mp hr with rfl | hr
  · exact hasValue_pattern h.definitions_nodup (.inl (h.body_mem hs hw))
  · rw [List.mem_singleton.mp hr]
    exact hasValue_pattern h.definitions_nodup (.inr (h.subject_mem hs hw))

/-- A threshold over components that are there counts those that are found. -/
theorem Generated.threshold_value (h : Generated l m store b) {name : String} {refs : List String}
    {k : Nat} (hmem : .composite name (.atLeast refs k) ∈ b.inLoadOrder)
    (hrefs : ∀ r ∈ refs, ∃ source ∈ store.files.keys, ∃ word ∈ store.componentWords source,
      r = componentName (familyAt l.config.id source) word) :
    HasValue b.inLoadOrder hit name (decide (k ≤ refs.countP (foundBy hit))) := by
  refine hasValue_composite h.definitions_nodup hmem fun r hr => ?_
  obtain ⟨source, hs, word, hw, rfl⟩ := hrefs r hr
  exact h.component_value hs hw

theorem Generated.sourceMeaning (h : Generated l m store b) (hs : source ∈ store.files.keys) :
    SourceMeaning store source (familyAt l.config.id source) b.inLoadOrder hit where
  body word hw :=
    ⟨h.body_mem hs hw, hasValue_pattern h.definitions_nodup (.inl (h.body_mem hs hw))⟩
  subject word hw :=
    ⟨h.subject_mem hs hw, hasValue_pattern h.definitions_nodup (.inr (h.subject_mem hs hw))⟩
  component word hw := h.component_value hs hw
  scored word hscored := by
    have hw : word ∈ store.componentWords source := by
      refine Store.mem_componentWords.mpr (.inl ⟨_, rulesAt_eq hs, ?_⟩)
      exact Store.mem_words.mpr (.inl hscored)
    have hmem : .composite (scoredName (familyAt l.config.id source) word)
        (.only (componentName (familyAt l.config.id source) word)) ∈ b.inLoadOrder :=
      h.of_source hs (List.mem_append_left _ (List.mem_append_right _ (mem_scoredPlan hscored)))
    have hvalue : HasValue b.inLoadOrder hit (scoredName (familyAt l.config.id source) word)
        (Condition.holds (foundBy hit) (.only (componentName (familyAt l.config.id source) word))) := by
      refine hasValue_composite h.definitions_nodup hmem fun r hr => ?_
      rw [List.mem_singleton.mp hr]
      exact h.component_value hs hw
    exact ⟨hw, hvalue⟩
  group group words hgroup := by
    have hwords : ∀ word ∈ words, word ∈ store.componentWords source := by
      intro word hword
      refine Store.mem_componentWords.mpr (.inl ⟨_, rulesAt_eq hs, ?_⟩)
      exact Store.mem_words.mpr (.inr ⟨group, words, hgroup, hword⟩)
    refine ⟨hwords, fun k h1 hk => ?_⟩
    have hmem := h.of_source hs (List.mem_append_right _ (mem_groupsPlan hgroup h1 hk))
    have hvalue : HasValue b.inLoadOrder hit _ _ := h.threshold_value hmem fun r hr => by
      obtain ⟨word, hword, rfl⟩ := List.mem_map.mp hr
      exact ⟨source, hs, word, hwords word hword, rfl⟩
    rw [List.countP_map] at hvalue
    exact hvalue

/-! ### Names -/

/-- Each word with a component, with its source. -/
def componentPairs (store : Store) : List (String × String) :=
  (Text.sorted store.files.keys).flatMap fun source =>
    (store.componentWords source).map fun word => (source, word)

theorem components_sublist (config : Config) (store : Store) :
    ((componentPairs store).map fun p => componentName (familyAt config.id p.1) p.2).Sublist
      (ruleNames config store) := by
  rw [ruleNames, plan, namesOf_append, namesOf_flatMap, componentPairs, List.map_flatMap]
  refine (List.Sublist.flatMap_right _ fun source _ => ?_).trans (List.sublist_append_left _ _)
  rw [sourcePlan, namesOf_append, namesOf_append, namesOf_components, List.append_assoc,
    List.map_map, List.map_eq_flatMap]
  refine (List.Sublist.flatMap_right _ fun word _ => ?_).trans (List.sublist_append_left _ _)
  exact .cons _ (.cons _ (.refl _))

theorem Generated.apart (h : Generated l m store b) {s t v w : String}
    (hs : s ∈ store.files.keys) (ht : t ∈ store.files.keys) (hv : v ∈ store.componentWords s)
    (hw : w ∈ store.componentWords t)
    (hname : componentName (familyAt l.config.id s) v = componentName (familyAt l.config.id t) w) :
    s = t ∧ v = w := by
  have hnodup := (ruleNames_nodup h.checked).sublist (components_sublist l.config store)
  have hpair {source word : String} (hsource : source ∈ store.files.keys)
      (hword : word ∈ store.componentWords source) : (source, word) ∈ componentPairs store :=
    List.mem_flatMap.mpr
      ⟨source, Text.mem_sorted.mpr hsource, List.mem_map.mpr ⟨word, hword, rfl⟩⟩
  exact Prod.mk.inj (List.inj_on_of_nodup_map hnodup (hpair hs hv) (hpair ht hw) hname)

theorem Generated.readable (h : Generated l m store b)
    {name : String} {condition : Condition} (hline : .composite name condition ∈ b.inLoadOrder) :
    condition.Readable := by
  obtain ⟨e, he, heq⟩ := h.mem_iff.mp hline
  rcases List.mem_append.mp he with he | he
  · obtain ⟨source, -, he⟩ := List.mem_flatMap.mp he
    exact (fromSource_of_mem he).readable heq
  · exact (fromGlobals_of_mem he).1.readable heq

/-! ### The main result -/

theorem related_any (l : Layout) (store : Store) : Related (fun _ _ => True) l store where
  refl _ := trivial
  scores _ _ := trivial
  global _ _ _ := trivial
  globalScores _ := trivial

theorem Generated.reference_defined (h : Generated l m store b) (horigins : store.OriginsKnown)
    {line : Line} (hline : line ∈ b.inLoadOrder) {r : String} (hr : r ∈ line.references) :
    (definitions b.inLoadOrder).count r = 1 := by
  obtain ⟨e, he, rfl⟩ := List.mem_map.mp (h.holds.perm.mem_iff.mp hline)
  have hdefined := (entries_grounded (related_any m store) horigins).defined he hr
  refine List.count_eq_one_of_mem h.definitions_nodup ?_
  exact (h.holds.perm.filterMap Line.defined?).mem_iff.mpr hdefined

/-- **Every rule means what the store says**, whatever mail comes, and wherever the rules of the
files are pinned. -/
theorem generate_meaning {store : Store} (hstore : store.Reachable) (config : Config)
    (pins : Assoc ArtifactKey String) {b : Buffers Line}
    (h : ((generate store).run { layout := { config, artifacts := pins } }).1 = .ok b)
    (hit : String → Bool) : Meaning config.id store b.inLoadOrder hit := by
  obtain ⟨m, hg⟩ := generate_eq_ok h
  have horigins := Store.reachable_origin hstore
  have horigin : ∀ word origin, store.origins.get? word = some origin →
      origin ∈ store.files.keys ∧ word ∈ store.componentWords origin :=
    fun word origin ho => ⟨horigins word origin ho, Store.mem_componentWords.mpr (.inr ho)⟩
  refine ⟨fun source hs => ?_, fun k h1 hk => ?_, horigin, ?_, ?_, ?_⟩
  · exact ⟨_, hg.family hs, hg.sourceMeaning hs⟩
  · have hmem := hg.mem_iff.mpr ⟨_, List.mem_append_right _ (mem_globalPlan config h1 hk), rfl⟩
    have hvalue : HasValue b.inLoadOrder hit _ _ := hg.threshold_value hmem fun r hr => by
      obtain ⟨⟨word, origin⟩, he, rfl⟩ := List.mem_map.mp hr
      have ho := Assoc.get?_eq_some_iff.mpr (List.mem_mergeSort.mp he)
      exact ⟨origin, (horigin word origin ho).1, word, (horigin word origin ho).2, rfl⟩
    rw [globalComponents, List.countP_map, (byKey_perm store.origins).countP_eq] at hvalue
    exact hvalue
  · exact fun name condition hline => Condition.read?_text (hg.readable hline)
  · exact fun line hline r hr => hg.reference_defined horigins hline hr
  · exact fun s hs t ht v hv w hw => hg.apart hs ht hv hw

theorem generate_meaning_sample :
    sampleStore.Reachable ∧
      ∃ b, ((generate sampleStore).run { layout := { config := sampleConfig } }).1 = .ok b ∧
        ∀ hit, Meaning "K" sampleStore b.inLoadOrder hit := by
  have hstore : sampleStore.Reachable := ⟨_, _, _, rfl⟩
  obtain ⟨b, hb⟩ := sample_generates
  exact ⟨hstore, b, hb, generate_meaning hstore sampleConfig ∅ hb⟩

end MailRules.Generation
