import Mathlib.Data.List.Perm.Basic
import MailRules.Proofs.Generation.Plan
import MailRules.Proofs.Outcome
import MailRules.Proofs.Rule.Condition
import MailRules.Proofs.Store.History

/-! The names that a generation defines.

The check of the names goes over lists that are made apart from the rules. The names on these lists
are, but for their order, those that the plan defines (`claimed_perm`), so the check passes exactly
if no rule of the plan has the name of another (`checkNames_exact`). -/
namespace MailRules.Generation

open Rule

/-- The names of the rules that the lines define. -/
def namesOf (es : List Emission) : List String := definitions (es.map Emission.line)

/-- The names of the rules that a store gives rise to, over all files. -/
def ruleNames (config : Config) (store : Store) : List String := namesOf (plan config store)

/-! ### Letters

The rules of words are named with capital letters, whatever the identifier of the configuration. -/

theorem familyAt_capital (id source : String) : isCapitalText (familyAt id source) = true := by
  cases h : family? id source with
  | none =>
    rw [familyAt, h]
    rfl
  | some family =>
    rw [familyAt_eq h]
    exact family_capital h

theorem componentName_capital (id source word : String) :
    isCapitalText (componentName (familyAt id source) word) = true := by
  simp only [componentName, isCapitalText_append, familyAt_capital, segment_capital]
  decide

theorem isRuleName_componentName (id source word : String) :
    isRuleName (componentName (familyAt id source) word) = true :=
  isRuleName_of_isCapitalText (by simp [componentName]) (componentName_capital id source word)

theorem isRuleName_bodyName (id source word : String) :
    isRuleName (bodyName (componentName (familyAt id source) word)) = true := by
  refine isRuleName_of_isCapitalText (by simp [bodyName]) ?_
  rw [bodyName, isCapitalText_append, componentName_capital]
  decide

theorem isRuleName_subjectName (id source word : String) :
    isRuleName (subjectName (componentName (familyAt id source) word)) = true := by
  refine isRuleName_of_isCapitalText (by simp [subjectName]) ?_
  rw [subjectName, isCapitalText_append, componentName_capital]
  decide

theorem isRuleName_scoredName (id source word : String) :
    isRuleName (scoredName (familyAt id source) word) = true := by
  refine isRuleName_of_isCapitalText (by simp [scoredName]) ?_
  simp only [scoredName, isCapitalText_append, familyAt_capital, segment_capital]
  decide

/-! ### The check -/

theorem not_mem_of_nodup {l r : List String} {a : String} (h : (l ++ [a] ++ r).Nodup) : a ∉ l := by
  intro hm
  have hfront := (List.nodup_append'.mp h).1
  exact (List.nodup_append'.mp hfront).2.2 hm List.mem_cons_self

theorem keys_enter {defined result : Assoc String Owner} {names : List (String × Owner)}
    (h : enter defined names = .ok result) :
    result.keys = defined.keys ++ names.map Prod.fst := by
  induction names generalizing defined with
  | nil =>
    cases h
    rw [List.map_nil, List.append_nil]
  | cons e rest ih =>
    obtain ⟨name, owner⟩ := e
    unfold enter at h
    split at h
    next => cases h
    next hnone =>
      rw [ih h, Assoc.keys_insert_of_not_mem owner (Assoc.get?_eq_none_iff.mp hnone),
        List.append_assoc]
      rfl

theorem enter_succeeds {defined : Assoc String Owner} {names : List (String × Owner)}
    (h : (defined.keys ++ names.map Prod.fst).Nodup) : ∃ result, enter defined names = .ok result := by
  induction names generalizing defined with
  | nil => exact ⟨defined, rfl⟩
  | cons e rest ih =>
    obtain ⟨name, owner⟩ := e
    rw [List.map_cons, List.append_cons] at h
    have hname : name ∉ defined.keys := not_mem_of_nodup h
    unfold enter
    rw [Assoc.get?_eq_none_iff.mpr hname]
    apply ih
    rw [Assoc.keys_insert_of_not_mem owner hname]
    exact h

theorem checkWords_succeeds {family source : String} {seen : Assoc String String}
    {words : List String} (h : (seen.keys ++ words.map segment).Nodup) :
    checkWords family source seen words = .ok () := by
  induction words generalizing seen with
  | nil => rfl
  | cons word rest ih =>
    rw [List.map_cons, List.append_cons] at h
    have hpart : segment word ∉ seen.keys := not_mem_of_nodup h
    unfold checkWords
    dsimp only
    rw [Assoc.get?_eq_none_iff.mpr hpart]
    apply ih
    rw [Assoc.keys_insert_of_not_mem word hpart]
    exact h

/-- The names that the check enters for a source. -/
def claimed (id : String) (store : Store) (source : String) : List String :=
  (definedNames (familyAt id source) source (store.componentWords source)
    (rulesAt store source)).map Prod.fst

/-- Where all names are different, so are the parts that the words give to them. -/
theorem segments_nodup {id : String} {store : Store} {source : String}
    (h : (claimed id store source).Nodup) :
    ((store.componentWords source).map segment).Nodup := by
  rw [claimed, definedNames, List.map_append, List.map_append, List.map_flatMap] at h
  have hcomponents := (List.nodup_append'.mp (List.nodup_append'.mp h).1).1
  rw [List.Nodup, List.pairwise_map]
  refine (List.nodup_flatMap.mp hcomponents).2.imp ?_
  intro a b hdisjoint hsegment
  refine hdisjoint (a := componentName (familyAt id source) a) List.mem_cons_self ?_
  rw [componentName, hsegment]
  exact List.mem_cons_self

theorem enterSource_eq_ok_iff {names result : Names} {id : String} {store : Store}
    {source : String} :
    names.enterSource id store source = .ok result ↔
      ∃ family, family? id source = some family ∧ names.families.get? family = none ∧
        checkWords family source ∅ (store.componentWords source) = .ok () ∧
        ∃ defined, enter names.defined (definedNames family source (store.componentWords source)
            (rulesAt store source)) = .ok defined ∧
          result = { families := names.families.insert family source, defined } := by
  unfold Names.enterSource
  cases hfamily : family? id source with
  | none =>
    constructor
    · intro h
      cases h
    · rintro ⟨_, h, -⟩
      cases h
  | some family =>
    dsimp only
    cases hknown : names.families.get? family with
    | some first =>
      constructor
      · intro h
        cases h
      · rintro ⟨_, h, hnone, -⟩
        cases h
        rw [hknown] at hnone
        cases hnone
    | none =>
      constructor
      · intro h
        obtain ⟨_, hwords, h₁⟩ := Outcome.bind_eq_ok.mp h
        obtain ⟨defined, hdefined, h₂⟩ := Outcome.bind_eq_ok.mp h₁
        exact ⟨family, rfl, hknown, Outcome.mapError_eq_ok.mp hwords, defined,
          Outcome.mapError_eq_ok.mp hdefined, (Outcome.pure_eq_ok.mp h₂).symm⟩
      · rintro ⟨_, hsame, -, hwords, defined, hdefined, rfl⟩
        cases hsame
        refine Outcome.bind_eq_ok.mpr ⟨(), Outcome.mapError_eq_ok.mpr hwords, ?_⟩
        exact Outcome.bind_eq_ok.mpr ⟨defined, Outcome.mapError_eq_ok.mpr hdefined, rfl⟩

theorem enterSource_keys {names result : Names} {id : String} {store : Store} {source : String}
    (h : names.enterSource id store source = .ok result) :
    (∃ family, family? id source = some family) ∧
      result.families.keys = names.families.keys ++ [familyAt id source] ∧
      result.defined.keys = names.defined.keys ++ claimed id store source := by
  obtain ⟨family, hfamily, hnew, -, defined, hdefined, rfl⟩ := enterSource_eq_ok_iff.mp h
  rw [claimed, familyAt_eq hfamily]
  exact ⟨⟨family, hfamily⟩,
    Assoc.keys_insert_of_not_mem _ (Assoc.get?_eq_none_iff.mp hnew), keys_enter hdefined⟩

theorem enterSource_succeeds {names : Names} {id : String} {store : Store} {source family : String}
    (hfamily : family? id source = some family)
    (hnew : familyAt id source ∉ names.families.keys)
    (hnames : (names.defined.keys ++ claimed id store source).Nodup) :
    ∃ result, names.enterSource id store source = .ok result := by
  have hsegments := segments_nodup (List.nodup_append'.mp hnames).2.1
  rw [claimed] at hnames
  rw [familyAt_eq hfamily] at hnew hnames
  obtain ⟨defined, hdefined⟩ := enter_succeeds hnames
  exact ⟨_, enterSource_eq_ok_iff.mpr ⟨family, hfamily, Assoc.get?_eq_none_iff.mpr hnew,
    checkWords_succeeds (by simpa using hsegments), defined, hdefined, rfl⟩⟩

/-- The sources entered one after the other. -/
def enterAll (id : String) (store : Store) (sources : List String) (names : Names) :
    Except Fault Names :=
  sources.foldlM (fun (n : Names) source => n.enterSource id store source) names

theorem enterAll_keys {names result : Names} {id : String} {store : Store} {sources : List String}
    (h : enterAll id store sources names = .ok result) :
    (∀ source ∈ sources, ∃ family, family? id source = some family) ∧
      result.families.keys = names.families.keys ++ sources.map (familyAt id) ∧
      result.defined.keys = names.defined.keys ++ sources.flatMap (claimed id store) := by
  induction sources generalizing names with
  | nil =>
    cases h
    exact ⟨List.forall_mem_nil _, (List.append_nil _).symm, (List.append_nil _).symm⟩
  | cons source rest ih =>
    rw [enterAll, List.foldlM_cons] at h
    obtain ⟨next, hnext, hrest⟩ := Outcome.bind_eq_ok.mp h
    obtain ⟨hnamed, hfamilies, hdefined⟩ := enterSource_keys hnext
    obtain ⟨hnamed', hfamilies', hdefined'⟩ := ih hrest
    rw [hfamilies', hfamilies, hdefined', hdefined, List.append_assoc, List.append_assoc]
    exact ⟨List.forall_mem_cons.mpr ⟨hnamed, hnamed'⟩, rfl, rfl⟩

theorem enterAll_succeeds {names : Names} {id : String} {store : Store} {sources : List String}
    (hnamed : ∀ source ∈ sources, ∃ family, family? id source = some family)
    (hfamilies : (names.families.keys ++ sources.map (familyAt id)).Nodup)
    (hnames : (names.defined.keys ++ sources.flatMap (claimed id store)).Nodup) :
    ∃ result, enterAll id store sources names = .ok result := by
  induction sources generalizing names with
  | nil => exact ⟨names, rfl⟩
  | cons source rest ih =>
    rw [List.map_cons, List.append_cons] at hfamilies
    rw [List.flatMap_cons, ← List.append_assoc] at hnames
    obtain ⟨family, hfamily⟩ := hnamed source List.mem_cons_self
    have hnew : familyAt id source ∉ names.families.keys := not_mem_of_nodup hfamilies
    obtain ⟨next, hnext⟩ := enterSource_succeeds hfamily hnew (List.nodup_append'.mp hnames).1
    obtain ⟨-, hkeys, hkeys'⟩ := enterSource_keys hnext
    rw [← hkeys] at hfamilies
    rw [← hkeys'] at hnames
    obtain ⟨result, hresult⟩ :=
      ih (fun s hs => hnamed s (List.mem_cons_of_mem source hs)) hfamilies hnames
    refine ⟨result, ?_⟩
    rw [enterAll, List.foldlM_cons]
    exact Outcome.bind_eq_ok.mpr ⟨next, hnext, hresult⟩

/-- The names that the check enters for the global words. -/
def claimedGlobally (id : String) (store : Store) : List String :=
  (thresholdNames id store.origins.size .global).map Prod.fst

/-- The check passes exactly if every source has a family of its own and no name is entered
twice. -/
theorem checkNames_eq_ok_iff {id : String} {store : Store} {sources : List String} :
    checkNames id store sources = .ok () ↔
      (∀ source ∈ sources, ∃ family, family? id source = some family) ∧
        (sources.map (familyAt id)).Nodup ∧
        (sources.flatMap (claimed id store) ++ claimedGlobally id store).Nodup := by
  unfold checkNames
  constructor
  · intro h
    obtain ⟨names, hnames, hlast⟩ := Outcome.bind_eq_ok.mp h
    obtain ⟨hnamed, hfamilies, hdefined⟩ := enterAll_keys hnames
    cases henter : enter names.defined (thresholdNames id store.origins.size .global) with
    | error e =>
      rw [henter] at hlast
      cases hlast
    | ok result =>
      have hkeys := keys_enter henter
      rw [hdefined] at hkeys
      have hdistinct : names.families.keys.Nodup := names.families.nodup
      have honce : result.keys.Nodup := result.nodup
      rw [hfamilies] at hdistinct
      rw [hkeys] at honce
      exact ⟨hnamed, hdistinct, honce⟩
  · rintro ⟨hnamed, hfamilies, hclaimed⟩
    have hall : ∃ names, enterAll id store sources {} = .ok names :=
      enterAll_succeeds hnamed hfamilies (List.nodup_append'.mp hclaimed).1
    obtain ⟨names, hnames⟩ := hall
    have hlast : (names.defined.keys ++ claimedGlobally id store).Nodup := by
      rw [(enterAll_keys hnames).2.2]
      exact hclaimed
    obtain ⟨result, hresult⟩ := enter_succeeds hlast
    refine Outcome.bind_eq_ok.mpr ⟨names, hnames, ?_⟩
    rw [hresult]
    rfl

/-! ### What the emitters define -/

theorem namesOf_append (a b : List Emission) : namesOf (a ++ b) = namesOf a ++ namesOf b := by
  rw [namesOf, List.map_append, definitions_append]
  rfl

theorem namesOf_flatMap {α : Type} (l : List α) (f : α → List Emission) :
    namesOf (l.flatMap f) = l.flatMap fun a => namesOf (f a) := by
  rw [namesOf, List.map_flatMap, definitions_flatMap]
  rfl

theorem namesOf_toRules (lines : List Line) : namesOf (toRules lines) = definitions lines := by
  rw [namesOf, toRules, List.map_map]
  exact congrArg definitions (List.map_id lines)

theorem namesOf_thresholdScores (name : String) (size : Nat) (describe : String) (score : Score) :
    namesOf (toScores (thresholdScores name size describe score)) = [] := by
  refine List.filterMap_eq_nil_iff.mpr fun line hline => ?_
  rw [toScores, List.map_map, List.mem_map] at hline
  obtain ⟨line, hline, rfl⟩ := hline
  exact (thresholdScores_about hline).1

theorem namesOf_heading (single : Bool) (title : String) : namesOf (heading single title) = [] := by
  cases single <;> rfl

theorem byKey_perm {α : Type} (m : Assoc String α) : (byKey m).Perm m.entries :=
  List.mergeSort_perm _ _

theorem byKey_of_isEmpty {α : Type} {m : Assoc String α} (h : m.isEmpty = true) : byKey m = [] := by
  rw [byKey, Assoc.isEmpty_iff.mp h, List.mergeSort_nil]

theorem namesOf_components (single : Bool) (family : String) (rules : RuleSet)
    (words : List String) :
    namesOf (components single family rules words) =
      words.flatMap fun w => [bodyName (componentName family w),
        subjectName (componentName family w), componentName family w] := by
  rw [components, namesOf_append, namesOf_heading, List.nil_append, namesOf_toRules,
    definitions_flatMap]
  refine List.flatMap_congr fun w _ => ?_
  rw [componentLines, definitions_append]
  cases (rules.comments.get? w).filter (· ≠ "") <;> rfl

theorem namesOf_scoredPlan (single : Bool) (family : String) (rules : RuleSet) :
    namesOf (scoredPlan single family rules) =
      (byKey rules.scored).map fun e => scoredName family e.1 := by
  rw [scoredPlan]
  split
  next hempty =>
    rw [byKey_of_isEmpty hempty]
    rfl
  next =>
    rw [scored, namesOf_append, namesOf_heading, List.nil_append, namesOf_flatMap,
      List.map_eq_flatMap]
    rfl

theorem namesOf_groupPlan (family : String) (score : Score) (group : String)
    (words : List String) :
    namesOf (groupPlan family score group words) =
      (countsTo words.length).map (thresholdName (groupName family group)) := by
  rw [groupPlan, namesOf_append, namesOf_thresholdScores, List.append_nil, namesOf_toRules]
  show definitions (thresholdRules _ _) = _
  rw [definitions_thresholdRules, List.length_map]

theorem namesOf_groupsPlan (single : Bool) (family : String) (score : Score) (rules : RuleSet) :
    namesOf (groupsPlan single family score rules) =
      (byKey rules.groups).flatMap fun e =>
        (countsTo e.2.length).map (thresholdName (groupName family e.1)) := by
  rw [groupsPlan]
  split
  next hempty =>
    rw [byKey_of_isEmpty hempty]
    rfl
  next =>
    rw [namesOf_append, namesOf_heading, List.nil_append, namesOf_flatMap]
    exact List.flatMap_congr fun e _ => namesOf_groupPlan _ _ _ _

theorem size_globalComponents (id : String) (store : Store) :
    (globalComponents id store).length = store.origins.size := by
  rw [globalComponents, List.length_map, (byKey_perm store.origins).length_eq]
  rfl

theorem namesOf_globalPlan (config : Config) (store : Store) :
    namesOf (globalPlan config store) =
      (countsTo store.origins.size).map (thresholdName config.id) := by
  rw [globalPlan]
  split
  next hempty =>
    have hsize : store.origins.size = 0 :=
      List.length_eq_zero_iff.mpr (Assoc.isEmpty_iff.mp hempty)
    rw [hsize]
    rfl
  next =>
    rw [namesOf_append, namesOf_append, namesOf_heading, namesOf_thresholdScores, List.nil_append,
      List.append_nil, namesOf_toRules, definitions_thresholdRules, size_globalComponents]

theorem thresholdNames_fst (name : String) (size : Nat) (owner : Owner) :
    (thresholdNames name size owner).map Prod.fst = (countsTo size).map (thresholdName name) := by
  rw [thresholdNames, countsTo, List.map_map, List.map_map]
  rfl

/-- The names entered for a source are those that its rules define. -/
theorem claimed_perm (config : Config) (store : Store) (source : String) :
    (claimed config.id store source).Perm (namesOf (sourcePlan config store source)) := by
  rw [claimed, definedNames, sourcePlan, namesOf_append, namesOf_append, namesOf_components,
    namesOf_scoredPlan, namesOf_groupsPlan, List.map_append, List.map_append, List.map_flatMap,
    List.map_flatMap, List.map_map]
  refine (List.Perm.append ?_ ?_).append ?_
  · refine List.Perm.flatMap_left _ fun w _ => ?_
    let name := componentName (familyAt config.id source) w
    show ([name] ++ [bodyName name, subjectName name]).Perm _
    exact List.perm_append_comm
  · rw [Assoc.keys, List.map_map]
    exact (byKey_perm (rulesAt store source).scored).symm.map _
  · refine (byKey_perm (rulesAt store source).groups).symm.flatMap fun e _ => ?_
    rw [thresholdNames_fst]

/-- The names that the check enters are those of the plan. -/
theorem claims_perm (config : Config) (store : Store) :
    ((Text.sorted store.files.keys).flatMap (claimed config.id store)
      ++ claimedGlobally config.id store).Perm (ruleNames config store) := by
  rw [ruleNames, plan, namesOf_append, namesOf_flatMap, namesOf_globalPlan, claimedGlobally,
    thresholdNames_fst]
  exact (List.Perm.flatMap_left _ fun source _ => claimed_perm config store source).append_right _

/-- Where the check passes, no rule of the plan has the name of another. -/
theorem ruleNames_nodup {config : Config} {store : Store}
    (h : checkNames config.id store (Text.sorted store.files.keys) = .ok ()) :
    (ruleNames config store).Nodup :=
  (claims_perm config store).nodup_iff.mp (checkNames_eq_ok_iff.mp h).2.2

theorem families_nodup_iff {id : String} {sources : List String}
    (h : ∀ source ∈ sources, ∃ family, family? id source = some family) :
    ((Text.sorted sources).map (familyAt id)).Nodup ↔ (sources.map (family? id)).Nodup := by
  have hsome : sources.map (family? id) = (sources.map (familyAt id)).map some := by
    rw [List.map_map]
    refine List.map_congr_left fun source hs => ?_
    obtain ⟨family, hfamily⟩ := h source hs
    rw [Function.comp_apply, familyAt_eq hfamily, hfamily]
  rw [hsome, List.nodup_map_iff (fun _ _ => Option.some.inj),
    ((Text.sorted_perm sources).map (familyAt id)).nodup_iff]

/-- What is generated has passed the check, so every source has a family. -/
theorem Generated.family {l m : Layout} {store : Store} {b : Buffers Line}
    (h : Generated l m store b) {source : String} (hs : source ∈ store.files.keys) :
    family? l.config.id source = some (familyAt l.config.id source) := by
  obtain ⟨family, hfamily⟩ := (checkNames_eq_ok_iff.mp h.checked).1 source (Text.mem_sorted.mpr hs)
  rw [hfamily, familyAt_eq hfamily]

/-- The lines of a generation define the names of the plan. -/
theorem Generated.definitions_perm {l m : Layout} {store : Store} {b : Buffers Line}
    (h : Generated l m store b) : (definitions b.inLoadOrder).Perm (ruleNames l.config store) := by
  have hperm := h.holds.perm.filterMap Line.defined?
  rwa [entries_lines, h.config] at hperm

/-- **The check of the names is exact.** It passes if and only if no two sources share a family
and no name is defined twice, and what a generation then writes defines every name once. -/
theorem checkNames_exact (config : Config) {store : Store}
    (hnamed : ∀ source ∈ store.files.keys, (FileName.segment? source).isSome) :
    (checkNames config.id store (Text.sorted store.files.keys) = .ok () ↔
      (store.files.keys.map (family? config.id)).Nodup ∧ (ruleNames config store).Nodup) ∧
    ∀ (pins : Assoc ArtifactKey String) (b : Buffers Line),
      ((generate store).run { layout := { config, artifacts := pins } }).1 = .ok b →
        (definitions b.inLoadOrder).Perm (ruleNames config store) ∧
          (definitions b.inLoadOrder).Nodup := by
  have hfamily : ∀ source ∈ store.files.keys, ∃ family, family? config.id source = some family := by
    intro source hs
    obtain ⟨segment, hsegment⟩ := Option.isSome_iff_exists.mp (hnamed source hs)
    exact ⟨_, by rw [family?, hsegment, Option.map_some]⟩
  constructor
  · rw [checkNames_eq_ok_iff, families_nodup_iff hfamily, (claims_perm config store).nodup_iff]
    exact and_iff_right fun source hs => hfamily source (Text.mem_sorted.mp hs)
  · intro pins b h
    obtain ⟨m, hgenerated⟩ := generate_eq_ok h
    have hperm := hgenerated.definitions_perm
    exact ⟨hperm, hperm.nodup_iff.mpr (ruleNames_nodup hgenerated.checked)⟩

/-! ### A small generation -/

def sampleConfig : Config := { id := "K", root := ⟨.root, []⟩, groupScore := .finite false 1 0 }

/-- One file with one word, which has a score of its own and is global. -/
def sampleStore : Store :=
  Store.run { root := ⟨.root, []⟩ }
    [.add "A" { word := "x", score := .whole 1, groups := [globalGroup, localGroup] }]

/-- How the paths of its rules are chosen. -/
def sampleChoice (config : Config) : Except Fault Unit × Layout × List Notice :=
  (Layout.chooseAll ["A"] true).run { config }

/-- The small store is generated: nothing on the way to that fails. -/
def sampleSucceeds (config : Config) : Bool :=
  let chosen := sampleChoice config
  let artifacts := chosen.2.1.artifacts.entries
  (checkNames config.id sampleStore ["A"]).isOk && chosen.1.isOk
    && decide (artifacts.Pairwise fun a b => decide (a.1.text ≤ b.1.text) = true)
    && (chosen.2.1.findClash ∅ artifacts).isNone
    && (MailRules.Action.exec (emitAll sampleStore) ⟨{ layout := chosen.2.1 }, chosen.2.2⟩).1.isOk

theorem sample_generates_of {config : Config} (h : sampleSucceeds config = true) :
    ∃ b, ((generate sampleStore).run { layout := { config } }).1 = .ok b := by
  simp only [sampleSucceeds, Bool.and_eq_true, decide_eq_true_eq, Option.isNone_iff_eq_none] at h
  obtain ⟨⟨⟨⟨hchecked, hchosen⟩, hsorted⟩, hclash⟩, hemit⟩ := h
  have hsources : Text.sorted sampleStore.files.keys = ["A"] := by decide +kernel
  have hwords : sampleStore.origins.isEmpty = false := by decide +kernel
  obtain ⟨_, hcheck⟩ := Outcome.exists_of_isOk hchecked
  obtain ⟨_, hpaths⟩ := Outcome.exists_of_isOk hchosen
  have hchoice : (Layout.chooseAll (Text.sorted sampleStore.files.keys)
      (!sampleStore.origins.isEmpty || config.isSingle)).run { config } = sampleChoice config := by
    rw [hsources, hwords]
    rfl
  refine generate_succeeds (l := { config }) (hsources ▸ hcheck) hchoice hpaths ?_ hemit
  rw [Layout.clash?_of_sorted (hsorted.imp fun h => decide_eq_true h)]
  exact hclash

theorem sample_generates :
    ∃ b, ((generate sampleStore).run { layout := { config := sampleConfig } }).1 = .ok b :=
  sample_generates_of (by decide +kernel)

theorem checkNames_exact_sample :
    (∀ source ∈ sampleStore.files.keys, (FileName.segment? source).isSome) ∧
      ∃ b, ((generate sampleStore).run { layout := { config := sampleConfig } }).1 = .ok b ∧
        (definitions b.inLoadOrder).Perm
          ["__K_A_X_BODY", "__K_A_X_SUBJ", "__K_A_X", "K_A_X", "K_A_1", "K_1"] := by
  have hnamed : ∀ source ∈ sampleStore.files.keys, (FileName.segment? source).isSome := by
    decide +kernel
  obtain ⟨b, hb⟩ := sample_generates
  have hnames : ruleNames sampleConfig sampleStore =
      ["__K_A_X_BODY", "__K_A_X_SUBJ", "__K_A_X", "K_A_X", "K_A_1", "K_1"] := by
    decide +kernel
  exact ⟨hnamed, b, hb, hnames ▸ ((checkNames_exact sampleConfig hnamed).2 ∅ b hb).1⟩

end MailRules.Generation
