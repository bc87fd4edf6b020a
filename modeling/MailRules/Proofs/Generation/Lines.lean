import MailRules.Proofs.Generation.Names

/-! The lines of a plan, kind by kind.

Every line of a source is of one of the kinds that `FromSource` lists, and every line of the global
words a part of the banner or of a threshold (`FromGlobals`). What is said of all lines of a
generation is proved once for each kind. -/
namespace MailRules.Generation

open Rule

/-- A line of the thresholds of `refs`. -/
inductive FromThresholds (name : String) (refs : List String) (describe : String) (score : Score) :
    Emission → Prop
  | rule {count : Nat} : 1 ≤ count → count ≤ refs.length →
      FromThresholds name refs describe score
        ⟨false, .composite (thresholdName name count) (.atLeast refs count)⟩
  | text {count : Nat} : 1 ≤ count → count ≤ refs.length →
      FromThresholds name refs describe score
        ⟨true, .description (thresholdName name count) (thresholdDescription describe count)⟩
  | score {count : Nat} : 1 ≤ count → count ≤ refs.length →
      FromThresholds name refs describe score ⟨true, .score (thresholdName name count) score⟩
  | blank (toScores : Bool) : FromThresholds name refs describe score ⟨toScores, .blank⟩

/-- The titles over the parts of a source's rules. -/
def titles (family : String) : List String :=
  ["Metas for " ++ family, "Scored words for " ++ family, "Groups for " ++ family]

/-- A line of a source. -/
inductive FromSource (config : Config) (store : Store) (source : String) : Emission → Prop
  /-- A part of a banner. -/
  | heading {title : String} {line : Line} : title ∈ titles (familyAt config.id source) →
      line ∈ banner title → FromSource config store source ⟨false, line⟩
  /-- The comment of a word. -/
  | remark {word text : String} : word ∈ store.componentWords source →
      (rulesAt store source).comments.get? word = some text →
      FromSource config store source ⟨false, .comment text⟩
  | body {word : String} : word ∈ store.componentWords source →
      FromSource config store source ⟨false,
        .body (bodyName (componentName (familyAt config.id source) word)) (wordPattern word)⟩
  | subject {word : String} : word ∈ store.componentWords source →
      FromSource config store source ⟨false,
        .subject (subjectName (componentName (familyAt config.id source) word)) (wordPattern word)⟩
  | component {word : String} : word ∈ store.componentWords source →
      FromSource config store source ⟨false, .composite (componentName (familyAt config.id source) word)
        (.either (bodyName (componentName (familyAt config.id source) word))
          (subjectName (componentName (familyAt config.id source) word)))⟩
  | scored {word : String} {score : Score} : (word, score) ∈ (rulesAt store source).scored.entries →
      FromSource config store source ⟨false, .composite (scoredName (familyAt config.id source) word)
        (.only (componentName (familyAt config.id source) word))⟩
  | scoredText {word : String} {score : Score} :
      (word, score) ∈ (rulesAt store source).scored.entries →
      FromSource config store source ⟨true, .description (scoredName (familyAt config.id source) word)
        (scoredText (rulesAt store source) word)⟩
  | scoredScore {word : String} {score : Score} :
      (word, score) ∈ (rulesAt store source).scored.entries →
      FromSource config store source
        ⟨true, .score (scoredName (familyAt config.id source) word) score⟩
  /-- The name of a group, over its thresholds. -/
  | group {group : String} {words : List String} :
      (group, words) ∈ (rulesAt store source).groups.entries →
      FromSource config store source ⟨false, .comment group⟩
  | threshold {group : String} {words : List String} {e : Emission} :
      (group, words) ∈ (rulesAt store source).groups.entries →
      FromThresholds (groupName (familyAt config.id source) group)
        (words.map (componentName (familyAt config.id source)))
        (thresholdText group (familyAt config.id source)) (.real config.groupScore) e →
      FromSource config store source e
  | blank (toScores : Bool) : FromSource config store source ⟨toScores, .blank⟩

/-- A line of the global words. -/
inductive FromGlobals (config : Config) (store : Store) : Emission → Prop
  | heading {line : Line} : line ∈ banner "Globals" → FromGlobals config store ⟨false, line⟩
  | threshold {e : Emission} :
      FromThresholds config.id (globalComponents config.id store)
        (thresholdText globalGroup config.id) (.real config.groupScore) e →
      FromGlobals config store e

variable {config : Config} {store : Store} {source : String} {e : Emission}

theorem mem_toRules {lines : List Line} : e ∈ toRules lines ↔ ∃ line ∈ lines, e = ⟨false, line⟩ := by
  rw [toRules, List.mem_map]
  exact exists_congr fun line => and_congr_right fun _ => eq_comm

theorem mem_toScores {lines : List Line} : e ∈ toScores lines ↔ ∃ line ∈ lines, e = ⟨true, line⟩ := by
  rw [toScores, List.mem_map]
  exact exists_congr fun line => and_congr_right fun _ => eq_comm

theorem mem_heading {single : Bool} {title : String} (h : e ∈ heading single title) :
    ∃ line ∈ banner title, e = ⟨false, line⟩ := by
  cases single with
  | false => cases h
  | true => exact mem_toRules.mp h

theorem fromThresholds_of_mem {name describe : String} {refs : List String} {score : Score}
    (h : e ∈ toRules (thresholdRules name refs)
      ++ toScores (thresholdScores name refs.length describe score)) :
    FromThresholds name refs describe score e := by
  rcases List.mem_append.mp h with h | h
  · obtain ⟨line, hline, rfl⟩ := mem_toRules.mp h
    obtain ⟨count, hcount, hline⟩ := List.mem_flatMap.mp hline
    obtain ⟨h1, hn⟩ := mem_countsTo.mp hcount
    simp only [thresholdRule, List.mem_cons, List.not_mem_nil, or_false] at hline
    rcases hline with rfl | rfl
    · exact .rule h1 hn
    · exact .blank false
  · obtain ⟨line, hline, rfl⟩ := mem_toScores.mp h
    obtain ⟨count, hcount, hline⟩ := List.mem_flatMap.mp hline
    obtain ⟨h1, hn⟩ := mem_countsTo.mp hcount
    simp only [thresholdScore, List.mem_cons, List.not_mem_nil, or_false] at hline
    rcases hline with rfl | rfl | rfl
    · exact .text h1 hn
    · exact .score h1 hn
    · exact .blank true

/-! ### The parts of a source -/

theorem fromSource_of_components
    (h : e ∈ components config.isSingle (familyAt config.id source) (rulesAt store source)
      (store.componentWords source)) : FromSource config store source e := by
  rcases List.mem_append.mp h with h | h
  · obtain ⟨line, hline, rfl⟩ := mem_heading h
    exact .heading List.mem_cons_self hline
  · obtain ⟨line, hline, rfl⟩ := mem_toRules.mp h
    obtain ⟨word, hword, hline⟩ := List.mem_flatMap.mp hline
    rcases List.mem_append.mp hline with hcomment | hline
    · obtain ⟨text, htext, rfl⟩ := Option.map_eq_some_iff.mp (Option.mem_toList.mp hcomment)
      exact .remark hword (Option.filter_eq_some_iff.mp htext).1
    · simp only [List.mem_cons, List.not_mem_nil, or_false] at hline
      rcases hline with rfl | rfl | rfl | rfl
      · exact .body hword
      · exact .subject hword
      · exact .component hword
      · exact .blank false

theorem fromSource_of_scoredPlan
    (h : e ∈ scoredPlan config.isSingle (familyAt config.id source) (rulesAt store source)) :
    FromSource config store source e := by
  rw [scoredPlan] at h
  split at h
  next => cases h
  next =>
    rcases List.mem_append.mp h with h | h
    · obtain ⟨line, hline, rfl⟩ := mem_heading h
      exact .heading (List.mem_cons_of_mem _ List.mem_cons_self) hline
    · obtain ⟨⟨word, score⟩, hentry, h⟩ := List.mem_flatMap.mp h
      replace hentry := List.mem_mergeSort.mp hentry
      rcases List.mem_append.mp h with h | h
      · obtain ⟨line, hline, rfl⟩ := mem_toRules.mp h
        rw [List.mem_singleton.mp hline]
        exact .scored hentry
      · obtain ⟨line, hline, rfl⟩ := mem_toScores.mp h
        simp only [List.mem_cons, List.not_mem_nil, or_false] at hline
        rcases hline with rfl | rfl | rfl
        · exact .scoredText hentry
        · exact .scoredScore hentry
        · exact .blank true

theorem fromSource_of_groupsPlan
    (h : e ∈ groupsPlan config.isSingle (familyAt config.id source) (.real config.groupScore)
      (rulesAt store source)) : FromSource config store source e := by
  rw [groupsPlan] at h
  split at h
  next => cases h
  next =>
    rcases List.mem_append.mp h with h | h
    · obtain ⟨line, hline, rfl⟩ := mem_heading h
      exact .heading (List.mem_cons_of_mem _ (List.mem_cons_of_mem _ List.mem_cons_self)) hline
    · obtain ⟨⟨group, words⟩, hentry, h⟩ := List.mem_flatMap.mp h
      replace hentry := List.mem_mergeSort.mp hentry
      rcases List.mem_cons.mp h with rfl | h
      · exact .group hentry
      · refine .threshold hentry (fromThresholds_of_mem ?_)
        rw [List.length_map]
        exact h

theorem fromSource_of_mem (h : e ∈ sourcePlan config store source) :
    FromSource config store source e := by
  rcases List.mem_append.mp h with h | h
  · rcases List.mem_append.mp h with h | h
    · exact fromSource_of_components h
    · exact fromSource_of_scoredPlan h
  · exact fromSource_of_groupsPlan h

theorem fromGlobals_of_mem (h : e ∈ globalPlan config store) :
    FromGlobals config store e ∧ ¬ store.origins.isEmpty = true := by
  rw [globalPlan] at h
  split at h
  next => cases h
  next hwords =>
    refine ⟨?_, hwords⟩
    rw [List.append_assoc] at h
    rcases List.mem_append.mp h with h | h
    · obtain ⟨line, hline, rfl⟩ := mem_heading h
      exact .heading hline
    · exact .threshold (fromThresholds_of_mem h)

/-! ### Conditions

Every condition is over names of rules. -/

variable {name : String} {condition : Condition}

/-- Thresholds are asked of rules, and of one at least. -/
theorem FromThresholds.readable {group describe : String} {refs : List String} {score : Score}
    (h : FromThresholds group refs describe score e) (hrefs : ∀ r ∈ refs, isRuleName r = true)
    (hline : e.line = .composite name condition) : condition.Readable := by
  cases h with
  | rule h1 hn =>
    cases hline
    exact ⟨List.ne_nil_of_length_pos (Nat.lt_of_lt_of_le h1 hn), hrefs⟩
  | text | score | blank => cases hline

theorem banner_not_composite {title : String} {line : Line} (h : line ∈ banner title) :
    line ≠ .composite name condition := by
  rintro rfl
  simp [banner] at h

theorem FromSource.readable (h : FromSource config store source e)
    (hline : e.line = .composite name condition) : condition.Readable := by
  cases h with
  | component =>
    cases hline
    refine ⟨List.cons_ne_nil _ _, fun r hr => ?_⟩
    rcases List.mem_cons.mp hr with rfl | hr
    · exact isRuleName_bodyName _ _ _
    · rw [List.mem_singleton.mp hr]
      exact isRuleName_subjectName _ _ _
  | scored =>
    cases hline
    refine ⟨List.cons_ne_nil _ _, fun r hr => ?_⟩
    rw [List.mem_singleton.mp hr]
    exact isRuleName_componentName _ _ _
  | threshold _ h =>
    refine h.readable (fun r hr => ?_) hline
    obtain ⟨word, -, rfl⟩ := List.mem_map.mp hr
    exact isRuleName_componentName _ _ _
  | heading _ hbanner => exact absurd hline (banner_not_composite hbanner)
  | remark | body | subject | scoredText | scoredScore | group | blank => cases hline

theorem FromGlobals.readable (h : FromGlobals config store e)
    (hline : e.line = .composite name condition) : condition.Readable := by
  cases h with
  | heading hbanner => exact absurd hline (banner_not_composite hbanner)
  | threshold h =>
    refine h.readable (fun r hr => ?_) hline
    obtain ⟨e, -, rfl⟩ := List.mem_map.mp hr
    exact isRuleName_componentName _ _ _

end MailRules.Generation
