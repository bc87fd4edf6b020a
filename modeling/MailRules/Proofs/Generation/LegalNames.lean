import MailRules.Proofs.Generation.Meaning
import MailRules.Proofs.Generation.PhysicalLines

/-! Which names of rules are legal.

A public name is a capital letter of the basic alphabet with capital letters, digits and underscores
after it, and an internal one is marked by two underscores before such a name. What the sources and
the words are made of does not matter to that, but the identifier does: the names of a source begin
with what is left of its first character, and the names over all files with all of it. So the names
are legal exactly if the identifier fits both (`names_legal_iff`). -/
namespace MailRules.Generation

open Rule Text Layout

/-- The text begins with a capital letter of the basic alphabet. -/
def startsCapital (s : String) : Bool := (s.toList.head?.map Char.isUpper).getD false

/-- A public name: a capital letter, then capital letters, digits and underscores. -/
def IsPublic (name : String) : Prop := startsCapital name = true ∧ isCapitalText name = true

/-- An internal name: a public one, marked by two underscores. -/
def IsInternal (name : String) : Prop := ∃ rest, name = "__" ++ rest ∧ IsPublic rest

/-- The rule that the line is about has a legal name of its class. Components are internal, and so
are the rules for the body and the subject that they consist of; the others are public. -/
def LegalName : Line → Prop
  | .body name _ => IsInternal name
  | .subject name _ => IsInternal name
  | .composite name (.either _ _) => IsInternal name
  | .composite name (.only _) => IsPublic name
  | .composite name (.atLeast _ _) => IsPublic name
  | .description name _ => IsPublic name
  | .score name _ => IsPublic name
  | .comment _ | .bar _ | .blank => True

/-- No public name has the mark of the internal ones. -/
theorem not_internal_of_public {name : String} (h : IsPublic name) : ¬ IsInternal name := by
  rintro ⟨rest, rfl, -⟩
  have hstart := h.1
  rw [startsCapital, String.toList_append] at hstart
  cases hstart

theorem isPublic_append_iff {s t : String} (hs : s ≠ "") (ht : isCapitalText t = true) :
    IsPublic (s ++ t) ↔ IsPublic s := by
  obtain ⟨c, rest, hlist⟩ := List.exists_cons_of_ne_nil (fun h => hs (String.toList_inj.mp h))
  rw [IsPublic, IsPublic, isCapitalText_append, ht, Bool.and_true, startsCapital, startsCapital,
    String.toList_append, hlist]
  rfl

theorem isInternal_append_iff {s t : String} (hs : s ≠ "") (ht : isCapitalText t = true) :
    IsInternal ("__" ++ s ++ t) ↔ IsPublic s := by
  rw [String.append_assoc]
  constructor
  · rintro ⟨rest, hrest, h⟩
    rw [String.append_right_inj] at hrest
    exact (isPublic_append_iff hs ht).mp (hrest ▸ h)
  · exact fun h => ⟨s ++ t, rfl, (isPublic_append_iff hs ht).mpr h⟩

/-! ### Identifiers -/

/-- The family of a source is a public name if the identifier begins as one. -/
theorem family_public_iff {v : Value} {id source family : String} (hid : Config.checkId v = .ok id)
    (h : family? id source = some family) :
    family ≠ "" ∧ (IsPublic family ↔ startsCapital id = true) := by
  obtain ⟨c, rest, hlist, hc⟩ := Config.checkId_upper hid
  have hcapital := family_capital h
  obtain ⟨s, -, rfl⟩ := Option.map_eq_some_iff.mp h
  have hfamily : ∃ later, (Rule.segment (id ++ "_" ++ s)).toList =
      (if isNameChar c then c else '_') :: later := by
    rw [Rule.segment, String.toList_ofList, String.toList_append, String.toList_append, hlist,
      upperChars, List.cons_append, List.cons_append, List.flatMap_cons, hc]
    exact ⟨_, rfl⟩
  obtain ⟨later, hfamily⟩ := hfamily
  refine ⟨fun hnil => ?_, ?_⟩
  · rw [hnil] at hfamily
    cases hfamily
  · rw [IsPublic, hcapital, and_iff_left rfl, startsCapital, startsCapital, hfamily, hlist]
    show (if isNameChar c then c else '_').isUpper = true ↔ c.isUpper = true
    by_cases hname : isNameChar c = true
    · rw [if_pos hname]
    · rw [if_neg hname]
      refine iff_of_false (by decide) fun hupper => hname (isNameChar_of_isCapital ?_)
      rw [isCapital, hupper]
      rfl

/-! ### The kinds of lines -/

theorem thresholdName_public_iff {name : String} (hne : name ≠ "") (count : Nat) :
    IsPublic (thresholdName name count) ↔ IsPublic name := by
  rw [thresholdName, String.append_assoc]
  refine isPublic_append_iff hne ?_
  rw [isCapitalText_append, natText_capital]
  decide

theorem FromThresholds.legal {name describe : String} {refs : List String} {score : Score}
    {e : Emission} (h : FromThresholds name refs describe score e) (hne : name ≠ "")
    (hname : 1 ≤ refs.length → IsPublic name) : LegalName e.line := by
  have hthreshold {count : Nat} (h1 : 1 ≤ count) (hn : count ≤ refs.length) :
      IsPublic (thresholdName name count) :=
    (thresholdName_public_iff hne count).mpr (hname (h1.trans hn))
  cases h with
  | rule h1 hn => exact hthreshold h1 hn
  | text h1 hn => exact hthreshold h1 hn
  | score h1 hn => exact hthreshold h1 hn
  | blank => trivial

theorem banner_legal {title : String} {line : Line} (h : line ∈ banner title) : LegalName line := by
  simp only [banner, List.mem_cons, List.not_mem_nil, or_false] at h
  rcases h with rfl | rfl | rfl | rfl <;> trivial

variable {config : Config} {store : Store} {source : String}

/-- The names of a component's rules are the family's name with more after it, marked. -/
theorem componentNames_internal_iff {family : String} (hne : family ≠ "") (word : String) :
    (IsInternal (componentName family word) ↔ IsPublic family) ∧
      (IsInternal (bodyName (componentName family word)) ↔ IsPublic family) ∧
        (IsInternal (subjectName (componentName family word)) ↔ IsPublic family) := by
  have hpart {rest : String} (hrest : isCapitalText rest = true) :
      IsInternal (componentName family word ++ rest) ↔ IsPublic family := by
    have hname : componentName family word ++ rest =
        "__" ++ family ++ ("_" ++ Rule.segment word ++ rest) := by
      simp only [componentName, String.append_assoc]
    rw [hname]
    refine isInternal_append_iff hne ?_
    simp only [isCapitalText_append, segment_capital, hrest]
    decide
  refine ⟨?_, hpart (by decide), hpart (by decide)⟩
  have hnone : IsInternal (componentName family word ++ "") ↔ IsPublic family := hpart rfl
  rwa [String.append_empty] at hnone

theorem scoredName_public_iff {family : String} (hne : family ≠ "") (word : String) :
    IsPublic (scoredName family word) ↔ IsPublic family := by
  rw [scoredName, String.append_assoc]
  refine isPublic_append_iff hne ?_
  rw [isCapitalText_append, segment_capital]
  decide

theorem groupName_public_iff {family group : String} (hne : family ≠ "")
    (hgroup : Declaration.IsCanonicalGroup group) :
    groupName family group ≠ "" ∧ (IsPublic (groupName family group) ↔ IsPublic family) := by
  rw [groupName]
  split
  next => exact ⟨hne, Iff.rfl⟩
  next =>
    rw [String.append_assoc]
    refine ⟨fun hnil => hne (String.append_eq_empty_iff.mp hnil).1, isPublic_append_iff hne ?_⟩
    rw [isCapitalText_append, group_capital hgroup]
    decide

theorem scored_componentWord (hs : source ∈ store.files.keys) {word : String} {score : Score}
    (h : (word, score) ∈ (rulesAt store source).scored.entries) :
    word ∈ store.componentWords source := by
  refine Store.mem_componentWords.mpr (.inl ⟨_, rulesAt_eq hs, Store.mem_words.mpr (.inl ?_)⟩)
  exact List.mem_map.mpr ⟨_, h, rfl⟩

theorem group_componentWord (hs : source ∈ store.files.keys) {group word : String}
    {words : List String} (h : (group, words) ∈ (rulesAt store source).groups.entries)
    (hword : word ∈ words) : word ∈ store.componentWords source := by
  refine Store.mem_componentWords.mpr (.inl ⟨_, rulesAt_eq hs, Store.mem_words.mpr (.inr ?_)⟩)
  exact ⟨group, words, Assoc.get?_eq_some_iff.mpr h, hword⟩

/-- The names of a source's rules are legal if its family is a public name, which matters only if
it has words. -/
theorem FromSource.legal (hstore : store.Clean) (hs : source ∈ store.files.keys)
    (hne : familyAt config.id source ≠ "")
    (hfamily : ∀ word ∈ store.componentWords source, IsPublic (familyAt config.id source))
    {e : Emission} (h : FromSource config store source e) : LegalName e.line := by
  cases h with
  | heading _ hline => exact banner_legal hline
  | remark | group | blank => trivial
  | body hw => exact (componentNames_internal_iff hne _).2.1.mpr (hfamily _ hw)
  | subject hw => exact (componentNames_internal_iff hne _).2.2.mpr (hfamily _ hw)
  | component hw => exact (componentNames_internal_iff hne _).1.mpr (hfamily _ hw)
  | scored h | scoredText h | scoredScore h =>
    exact (scoredName_public_iff hne _).mpr (hfamily _ (scored_componentWord hs h))
  | @threshold group words _ hentry h =>
    have hcanonical :=
      ((rulesAt_clean hstore source).groups group words (Assoc.get?_eq_some_iff.mpr hentry)).1
    obtain ⟨hne', hpublic⟩ := groupName_public_iff hne hcanonical
    refine h.legal hne' fun hlength => hpublic.mpr ?_
    rw [List.length_map] at hlength
    obtain ⟨word, hword⟩ := List.exists_mem_of_length_pos hlength
    exact hfamily word (group_componentWord hs hentry hword)

theorem FromGlobals.legal (hne : config.id ≠ "") (hid : IsPublic config.id) {e : Emission}
    (h : FromGlobals config store e) : LegalName e.line := by
  cases h with
  | heading hline => exact banner_legal hline
  | threshold h => exact h.legal hne fun _ => hid

/-! ### The main result -/

/-- **The names are legal exactly if the identifier fits them.** Where a source has words, the
identifier has to begin with a capital letter of the basic alphabet, and where there are global
words, it has to be a public name as a whole; then every public rule has a public name, and every
component and its parts have internal ones. -/
theorem names_legal_iff {root : Path} {fields : Assoc String Value} {config : Config}
    (hconfig : Config.ofFields root fields = .ok config) {store : Store} (hstore : store.FromText)
    (pins : Assoc ArtifactKey String) {b : Buffers Line}
    (h : ((generate store).run { layout := { config, artifacts := pins } }).1 = .ok b) :
    (∀ line ∈ b.inLoadOrder, LegalName line) ↔
      ((∃ source ∈ store.files.keys, store.componentWords source ≠ []) →
          startsCapital config.id = true) ∧
        (store.origins.isEmpty = false → IsPublic config.id) := by
  obtain ⟨v, hid⟩ := Config.checkId_of_ofFields hconfig
  obtain ⟨m, hg⟩ := generate_eq_ok h
  have hne : config.id ≠ "" := by
    obtain ⟨c, rest, hlist, -⟩ := Config.checkId_upper hid
    intro hnil
    rw [hnil] at hlist
    cases hlist
  have hfamily {source : String} (hs : source ∈ store.files.keys) :
      familyAt config.id source ≠ "" ∧
        (IsPublic (familyAt config.id source) ↔ startsCapital config.id = true) :=
    family_public_iff hid (hg.family hs)
  constructor
  · intro hlegal
    constructor
    · rintro ⟨source, hs, hwords⟩
      obtain ⟨word, hw⟩ := List.exists_mem_of_ne_nil _ hwords
      have hbody := hlegal _ (hg.body_mem hs hw)
      exact (hfamily hs).2.mp ((componentNames_internal_iff (hfamily hs).1 word).2.1.mp hbody)
    · intro hwords
      have hsize : 1 ≤ store.origins.size := by
        rw [Nat.one_le_iff_ne_zero, Assoc.size, Ne, List.length_eq_zero_iff, ← Assoc.isEmpty_iff,
          hwords]
        exact Bool.false_ne_true
      have hline := hlegal _ (hg.mem_iff.mpr
        ⟨_, List.mem_append_right _ (mem_globalPlan config (Nat.le_refl 1) hsize), rfl⟩)
      exact (thresholdName_public_iff hne 1).mp hline
  · rintro ⟨hfiles, hwords⟩ line hline
    obtain ⟨path, -, hline⟩ := List.mem_flatMap.mp hline
    obtain ⟨e, ⟨source, hs, he⟩ | he, rfl⟩ := hg.mem_linesAt hline
    · refine (fromSource_of_mem he).legal hstore.clean hs (hfamily hs).1 fun word hw => ?_
      exact (hfamily hs).2.mpr (hfiles ⟨source, hs, List.ne_nil_of_mem hw⟩)
    · obtain ⟨hfrom, hsome⟩ := fromGlobals_of_mem he
      exact hfrom.legal hne (hwords (by simpa using hsome))

theorem names_legal_iff_sample :
    Config.ofFields ⟨.root, []⟩ sampleFields = .ok sampleConfig ∧ sampleStore.FromText ∧
      ∃ b, ((generate sampleStore).run { layout := { config := sampleConfig } }).1 = .ok b ∧
        ((∀ line ∈ b.inLoadOrder, LegalName line) ↔
          ((∃ source ∈ sampleStore.files.keys, sampleStore.componentWords source ≠ []) →
              startsCapital "K" = true) ∧
            (sampleStore.origins.isEmpty = false → IsPublic "K")) := by
  obtain ⟨b, hb⟩ := sample_generates
  exact ⟨sampleConfig_valid, sampleStore_fromText, b, hb,
    names_legal_iff sampleConfig_valid sampleStore_fromText ∅ hb⟩

/-! ### A letter of another alphabet -/

/-- The small configuration with an identifier that begins with no letter of the basic alphabet. -/
def accentConfig : Config := { sampleConfig with id := "É" }

/-- An identifier that is accepted may give a scored rule an internal name, and the threshold over
all files a name with other letters. -/
theorem accent_marks_public :
    Config.ofFields ⟨.root, []⟩ (sampleFields.insert "id" (.text "é")) = .ok accentConfig ∧
      sampleStore.FromText ∧
      ∃ b, ((generate sampleStore).run { layout := { config := accentConfig } }).1 = .ok b ∧
        (.composite "__A_X" (.only "____A_X") ∈ b.inLoadOrder ∧ IsInternal "__A_X" ∧
          ¬ IsPublic "__A_X") ∧
        (.composite "É_1" (.atLeast ["____A_X"] 1) ∈ b.inLoadOrder ∧ ¬ IsPublic "É_1") := by
  have hsucceeds : sampleSucceeds accentConfig = true := by decide +kernel
  obtain ⟨b, hb⟩ := sample_generates_of hsucceeds
  obtain ⟨m, hg⟩ := generate_eq_ok hb
  have hinternal : IsInternal "__A_X" := ⟨"A_X", rfl, by decide +kernel, by decide +kernel⟩
  have hpublic : ¬ IsPublic "__A_X" := fun h => not_internal_of_public h hinternal
  have hfamily : familyAt accentConfig.id "A" = "__A" := by decide +kernel
  have hword : "x" ∈ (rulesAt sampleStore "A").scored.keys := by decide +kernel
  have hfile : "A" ∈ sampleStore.files.keys := by decide +kernel
  have hscored := hg.of_source hfile
    (List.mem_append_left _ (List.mem_append_right _ (mem_scoredPlan hword)))
  rw [hfamily] at hscored
  have hrefs : globalComponents accentConfig.id sampleStore = ["____A_X"] := by decide +kernel
  have hglobal := hg.mem_iff.mpr ⟨_, List.mem_append_right _ (mem_globalPlan (k := 1) accentConfig
    (Nat.le_refl 1) (show 1 ≤ sampleStore.origins.size by decide +kernel)), rfl⟩
  rw [hrefs] at hglobal
  refine ⟨rfl, sampleStore_fromText, b, hb, ⟨hscored, hinternal, hpublic⟩, hglobal, fun h => ?_⟩
  exact absurd h.1 (by decide +kernel)

end MailRules.Generation
