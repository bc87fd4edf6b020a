import MailRules.Proofs.Generation.Meaning
import MailRules.Proofs.Generation.SeparateScores
import MailRules.Workspace

/-! Public rules with their descriptions and scores.

The rules that count in the score of a mail are those of the scored words and the thresholds. Each
of them takes three lines that are written at different places. What is read off the lines of a
plan is known for every kind of line (`Column`), and as no name is defined twice, the three lines of
a rule are at its own artifacts, once each, and there are none beside them
(`public_rules_correspond`). -/
namespace MailRules.Rule.Line

/-- The rule that the line composes of others. -/
def composed? : Line → Option String
  | .composite name _ => some name
  | _ => none

/-- The rule that the line describes. -/
def described? : Line → Option String
  | .description name _ => some name
  | _ => none

/-- The rule that the line scores. -/
def scored? : Line → Option String
  | .score name _ => some name
  | _ => none

/-- The rule by which the line finds a word in the body. -/
def body? : Line → Option String
  | .body name _ => some name
  | _ => none

/-- The rule by which the line finds a word in the subject. -/
def subject? : Line → Option String
  | .subject name _ => some name
  | _ => none

/-- The component rule that the line defines. -/
def component? : Line → Option String
  | .composite name (.either _ _) => some name
  | _ => none

end MailRules.Rule.Line

namespace MailRules.Generation

open Rule Layout

/-! ### Public rules -/

/-- A rule that counts in the score of a mail, with the source that it is for; the words counted
over all files have none. -/
structure PublicRule where
  source : Option String
  name : String
  score : Score
deriving DecidableEq, Repr

/-- The thresholds for the counts up to `size`. -/
def thresholdsUpTo (source : Option String) (name : String) (size : Nat) (score : Score) :
    List PublicRule :=
  (countsTo size).map fun k => ⟨source, thresholdName name k, score⟩

/-- The public rules of a source: one for each scored word, and one for each count of the words of
a group. -/
def publicRulesAt (config : Config) (store : Store) (source : String) : List PublicRule :=
  let family := familyAt config.id source
  let rules := rulesAt store source
  ((byKey rules.scored).map fun e => ⟨some source, scoredName family e.1, e.2⟩)
    ++ (byKey rules.groups).flatMap fun e =>
      thresholdsUpTo (some source) (groupName family e.1) e.2.length (.real config.groupScore)

/-- All public rules: those of the sources, and one for each count of the global words. -/
def publicRules (config : Config) (store : Store) : List PublicRule :=
  (Text.sorted store.files.keys).flatMap (publicRulesAt config store)
    ++ thresholdsUpTo none config.id store.origins.size (.real config.groupScore)

variable {config : Config} {store : Store}

theorem mem_thresholdsUpTo {source : Option String} {name : String} {size : Nat} {score : Score}
    {r : PublicRule} : r ∈ thresholdsUpTo source name size score ↔
      ∃ k, 1 ≤ k ∧ k ≤ size ∧ ⟨source, thresholdName name k, score⟩ = r := by
  simp only [thresholdsUpTo, List.mem_map, mem_countsTo, and_assoc]

theorem mem_publicRules_scored {source word : String} {score : Score}
    (hs : source ∈ store.files.keys)
    (hentry : (word, score) ∈ (rulesAt store source).scored.entries) :
    ⟨some source, scoredName (familyAt config.id source) word, score⟩ ∈
      publicRules config store := by
  refine List.mem_append_left _ (List.mem_flatMap.mpr ⟨source, Text.mem_sorted.mpr hs, ?_⟩)
  have hsorted := (byKey_perm (rulesAt store source).scored).mem_iff.mpr hentry
  exact List.mem_append_left _ (List.mem_map.mpr ⟨(word, score), hsorted, rfl⟩)

theorem mem_publicRules_group {source group : String} {words : List String} {k : Nat}
    (hs : source ∈ store.files.keys)
    (hentry : (group, words) ∈ (rulesAt store source).groups.entries) (h1 : 1 ≤ k)
    (hk : k ≤ words.length) :
    ⟨some source, thresholdName (groupName (familyAt config.id source) group) k,
      .real config.groupScore⟩ ∈ publicRules config store := by
  refine List.mem_append_left _ (List.mem_flatMap.mpr ⟨source, Text.mem_sorted.mpr hs, ?_⟩)
  refine List.mem_append_right _ (List.mem_flatMap.mpr ⟨_, (byKey_perm _).mem_iff.mpr hentry, ?_⟩)
  exact mem_thresholdsUpTo.mpr ⟨k, h1, hk, rfl⟩

theorem mem_publicRules_global {k : Nat} (h1 : 1 ≤ k) (hk : k ≤ store.origins.size) :
    ⟨none, thresholdName config.id k, .real config.groupScore⟩ ∈ publicRules config store :=
  List.mem_append_right _ (mem_thresholdsUpTo.mpr ⟨k, h1, hk, rfl⟩)

theorem mem_thresholdScores {name describe : String} {size k : Nat} {score : Score} (h1 : 1 ≤ k)
    (hk : k ≤ size) {line : Line}
    (hline : line ∈ thresholdScore name (thresholdDescription describe k) score k) :
    line ∈ thresholdScores name size describe score :=
  List.mem_flatMap.mpr ⟨k, mem_countsTo.mpr ⟨h1, hk⟩, hline⟩

/-- The plan has the three lines of a public rule, the first of them for the rules of its source and
the others for the scores. -/
structure Planned (config : Config) (store : Store) (r : PublicRule) : Prop where
  composed : ∃ condition, ⟨false, .composite r.name condition⟩ ∈ planOf config store r.source
  described : ∃ text, ⟨true, .description r.name text⟩ ∈ planOf config store r.source
  scored : ⟨true, .score r.name r.score⟩ ∈ planOf config store r.source

theorem scored_planned (config : Config) {source word : String} {score : Score}
    (hentry : (word, score) ∈ (rulesAt store source).scored.entries) :
    Planned config store ⟨some source, scoredName (familyAt config.id source) word, score⟩ := by
  have hline {e : Emission} (he : e ∈ scoredLines (familyAt config.id source)
      (rulesAt store source) word score) : e ∈ planOf config store (some source) := by
    refine List.mem_append_left _ (List.mem_append_right _ ?_)
    rw [scoredPlan, if_neg (Assoc.not_isEmpty_of_mem hentry)]
    exact List.mem_append_right _ (List.mem_flatMap.mpr ⟨_, List.mem_mergeSort.mpr hentry, he⟩)
  exact ⟨⟨_, hline List.mem_cons_self⟩, ⟨_, hline (List.mem_cons_of_mem _ List.mem_cons_self)⟩,
    hline (List.mem_cons_of_mem _ (List.mem_cons_of_mem _ List.mem_cons_self))⟩

theorem group_planned (config : Config) {source group : String} {words : List String} {k : Nat}
    (hentry : (group, words) ∈ (rulesAt store source).groups.entries) (h1 : 1 ≤ k)
    (hk : k ≤ words.length) :
    Planned config store ⟨some source,
      thresholdName (groupName (familyAt config.id source) group) k, .real config.groupScore⟩ := by
  have hscores {line : Line} (hline : line ∈ thresholdScore
      (groupName (familyAt config.id source) group)
      (thresholdDescription (thresholdText group (familyAt config.id source)) k)
      (.real config.groupScore) k) : ⟨true, line⟩ ∈ planOf config store (some source) := by
    refine List.mem_append_right _ ?_
    rw [groupsPlan, if_neg (Assoc.not_isEmpty_of_mem hentry)]
    refine List.mem_append_right _ (List.mem_flatMap.mpr ⟨_, List.mem_mergeSort.mpr hentry, ?_⟩)
    exact List.mem_append_right _ (List.mem_map_of_mem (mem_thresholdScores h1 hk hline))
  have hgroup := Assoc.get?_eq_some_iff.mpr hentry
  exact ⟨⟨_, List.mem_append_right _ (mem_groupsPlan hgroup h1 hk)⟩,
    ⟨_, hscores List.mem_cons_self⟩, hscores (List.mem_cons_of_mem _ List.mem_cons_self)⟩

theorem global_planned (config : Config) {store : Store} {k : Nat} (h1 : 1 ≤ k)
    (hk : k ≤ store.origins.size) :
    Planned config store ⟨none, thresholdName config.id k, .real config.groupScore⟩ := by
  have hrule := mem_globalPlan config h1 hk
  have hscores {line : Line} (hline : line ∈ thresholdScore config.id
      (thresholdDescription (thresholdText globalGroup config.id) k) (.real config.groupScore) k) :
      ⟨true, line⟩ ∈ planOf config store none := by
    have hne : ¬ store.origins.isEmpty = true := fun hempty => by
      rw [globalPlan, if_pos hempty] at hrule
      cases hrule
    show _ ∈ globalPlan config store
    rw [globalPlan, if_neg hne]
    refine List.mem_append_right _ (List.mem_map_of_mem (mem_thresholdScores h1 ?_ hline))
    rwa [size_globalComponents]
  exact ⟨⟨_, hrule⟩, ⟨_, hscores List.mem_cons_self⟩,
    hscores (List.mem_cons_of_mem _ List.mem_cons_self)⟩

theorem planned_of_mem {r : PublicRule} (hr : r ∈ publicRules config store) :
    Planned config store r := by
  rcases List.mem_append.mp hr with hr | hr
  · obtain ⟨source, -, hr⟩ := List.mem_flatMap.mp hr
    rcases List.mem_append.mp hr with hr | hr
    · obtain ⟨⟨word, score⟩, hentry, rfl⟩ := List.mem_map.mp hr
      exact scored_planned config ((byKey_perm _).mem_iff.mp hentry)
    · obtain ⟨⟨group, words⟩, hentry, hr⟩ := List.mem_flatMap.mp hr
      obtain ⟨k, h1, hk, rfl⟩ := mem_thresholdsUpTo.mp hr
      exact group_planned config ((byKey_perm _).mem_iff.mp hentry) h1 hk
  · obtain ⟨k, h1, hk, rfl⟩ := mem_thresholdsUpTo.mp hr
    exact global_planned config h1 hk

/-! ### What is read off the plan -/

/-- A reading of lines is a column of the plan: it gives the same for every word, from the three
lines of its component, and for every public rule, from its description and its score, whatever they
say; from all other lines it gives nothing. -/
structure Column (read : Line → Option String) (ofWord ofRule : String → List String) : Prop where
  remark : ∀ text, read (.comment text) = none
  bar : ∀ width, read (.bar width) = none
  blank : read .blank = none
  word : ∀ name pattern,
    [.body (bodyName name) pattern, .subject (subjectName name) pattern,
      .composite name (.either (bodyName name) (subjectName name))].filterMap read = ofWord name
  only : ∀ name ref, read (.composite name (.only ref)) = none
  atLeast : ∀ name refs k, read (.composite name (.atLeast refs k)) = none
  rule : ∀ name text score, [.description name text, .score name score].filterMap read = ofRule name

theorem column_described : Column Line.described? (fun _ => []) fun name => [name] := by
  constructor <;> intros <;> rfl

theorem column_scored : Column Line.scored? (fun _ => []) fun name => [name] := by
  constructor <;> intros <;> rfl

theorem column_body : Column Line.body? (fun name => [bodyName name]) fun _ => [] := by
  constructor <;> intros <;> rfl

theorem column_subject : Column Line.subject? (fun name => [subjectName name]) fun _ => [] := by
  constructor <;> intros <;> rfl

theorem column_component : Column Line.component? (fun name => [name]) fun _ => [] := by
  constructor <;> intros <;> rfl

/-- What is read off the lines of emissions. -/
def reads (read : Line → Option String) (es : List Emission) : List String :=
  (es.map Emission.line).filterMap read

theorem reads_append (read : Line → Option String) (a b : List Emission) :
    reads read (a ++ b) = reads read a ++ reads read b := by
  rw [reads, List.map_append, List.filterMap_append]
  rfl

theorem reads_flatMap {α : Type} (read : Line → Option String) (l : List α)
    (f : α → List Emission) : reads read (l.flatMap f) = l.flatMap fun a => reads read (f a) := by
  rw [reads, List.map_flatMap, List.filterMap_flatMap]
  rfl

theorem reads_toRules (read : Line → Option String) (lines : List Line) :
    reads read (toRules lines) = lines.filterMap read := by
  rw [reads, toRules, List.map_map]
  exact congrArg (List.filterMap read) (List.map_id lines)

theorem reads_toScores (read : Line → Option String) (lines : List Line) :
    reads read (toScores lines) = lines.filterMap read := by
  rw [reads, toScores, List.map_map]
  exact congrArg (List.filterMap read) (List.map_id lines)

section Columns

variable {read : Line → Option String} {ofWord ofRule : String → List String}
  (h : Column read ofWord ofRule)

include h

theorem Column.heading (single : Bool) (title : String) :
    reads read (heading single title) = [] := by
  cases single with
  | false => rfl
  | true =>
    show reads read (toRules (banner title)) = []
    rw [reads_toRules]
    simp [banner, h.bar, h.remark, h.blank]

theorem Column.componentLines (family : String) (comment : Option String) (word : String) :
    (componentLines family comment word).filterMap read = ofWord (componentName family word) := by
  have hcomment : (((comment.filter (· ≠ "")).map Line.comment).toList).filterMap read = [] := by
    cases comment.filter (· ≠ "") with
    | none => rfl
    | some text => simp [h.remark]
  let name := componentName family word
  let lines : List Line := [.body (bodyName name) (wordPattern word),
    .subject (subjectName name) (wordPattern word),
    .composite name (.either (bodyName name) (subjectName name))]
  have hlines : Generation.componentLines family comment word =
      ((comment.filter (· ≠ "")).map Line.comment).toList ++ (lines ++ [.blank]) := rfl
  rw [hlines, List.filterMap_append, List.filterMap_append, hcomment, h.word]
  simp [h.blank, name]

theorem Column.components (single : Bool) (family : String) (rules : RuleSet)
    (words : List String) :
    reads read (components single family rules words) =
      words.flatMap fun w => ofWord (componentName family w) := by
  rw [Generation.components, reads_append, h.heading, List.nil_append, reads_toRules,
    List.filterMap_flatMap]
  exact List.flatMap_congr fun w _ => h.componentLines family _ w

theorem Column.scoredPlan (single : Bool) (family : String) (rules : RuleSet) :
    reads read (scoredPlan single family rules) =
      (byKey rules.scored).flatMap fun e => ofRule (scoredName family e.1) := by
  rw [Generation.scoredPlan]
  split
  next hempty =>
    rw [byKey_of_isEmpty hempty]
    rfl
  next =>
    rw [scored, reads_append, h.heading, List.nil_append, reads_flatMap]
    refine List.flatMap_congr fun e _ => ?_
    rw [scoredLines, reads_append, reads_toRules, reads_toScores,
      ← h.rule _ (scoredText rules e.1) e.2]
    simp [h.only, h.blank, List.filterMap_cons]

theorem Column.thresholdRules (name : String) (refs : List String) :
    (thresholdRules name refs).filterMap read = [] := by
  refine List.filterMap_eq_nil_iff.mpr fun line hline => ?_
  obtain ⟨count, -, hline⟩ := List.mem_flatMap.mp hline
  simp only [thresholdRule, List.mem_cons, List.not_mem_nil, or_false] at hline
  rcases hline with rfl | rfl
  · exact h.atLeast _ _ _
  · exact h.blank

theorem Column.thresholdScores (name : String) (size : Nat) (describe : String) (score : Score) :
    (thresholdScores name size describe score).filterMap read =
      (countsTo size).flatMap fun k => ofRule (thresholdName name k) := by
  rw [Rule.thresholdScores, List.filterMap_flatMap]
  refine List.flatMap_congr fun k _ => ?_
  rw [← h.rule _ (thresholdDescription describe k) score]
  simp [thresholdScore, h.blank, List.filterMap_cons]

theorem Column.groupsPlan (single : Bool) (family : String) (score : Score) (rules : RuleSet) :
    reads read (groupsPlan single family score rules) =
      (byKey rules.groups).flatMap fun e =>
        (countsTo e.2.length).flatMap fun k => ofRule (thresholdName (groupName family e.1) k) := by
  rw [Generation.groupsPlan]
  split
  next hempty =>
    rw [byKey_of_isEmpty hempty]
    rfl
  next =>
    rw [reads_append, h.heading, List.nil_append, reads_flatMap]
    refine List.flatMap_congr fun e _ => ?_
    rw [groupPlan, reads_append, reads_toRules, reads_toScores, h.thresholdScores,
      List.filterMap_cons, h.remark, h.thresholdRules]
    rfl

theorem Column.globalPlan (config : Config) (store : Store) :
    reads read (globalPlan config store) =
      (countsTo store.origins.size).flatMap fun k => ofRule (thresholdName config.id k) := by
  rw [Generation.globalPlan]
  split
  next hempty =>
    have hsize : store.origins.size = 0 :=
      List.length_eq_zero_iff.mpr (Assoc.isEmpty_iff.mp hempty)
    rw [hsize]
    rfl
  next =>
    rw [reads_append, reads_append, h.heading, List.nil_append, reads_toRules, h.thresholdRules,
      List.nil_append, reads_toScores, h.thresholdScores, size_globalComponents]

/-- What a source gives to the column: its words, then its scored words and its groups. -/
theorem Column.sourcePlan (config : Config) (store : Store) (source : String) :
    reads read (sourcePlan config store source) =
      ((store.componentWords source).flatMap fun w =>
          ofWord (componentName (familyAt config.id source) w))
        ++ (publicRulesAt config store source).flatMap fun r => ofRule r.name := by
  rw [Generation.sourcePlan, reads_append, reads_append, h.components, h.scoredPlan, h.groupsPlan,
    publicRulesAt, List.flatMap_append, List.flatMap_map, List.flatMap_assoc, List.append_assoc]
  simp only [thresholdsUpTo, List.flatMap_map]

theorem Column.plan (config : Config) (store : Store) :
    reads read (plan config store) =
      ((Text.sorted store.files.keys).flatMap fun source =>
        ((store.componentWords source).flatMap fun w =>
            ofWord (componentName (familyAt config.id source) w))
          ++ (publicRulesAt config store source).flatMap fun r => ofRule r.name)
        ++ (countsTo store.origins.size).flatMap fun k => ofRule (thresholdName config.id k) := by
  rw [Generation.plan, reads_append, reads_flatMap, h.globalPlan]
  exact congrArg (· ++ _) (List.flatMap_congr fun source _ => h.sourcePlan config store source)

end Columns

theorem publicNames_sublist (config : Config) (store : Store) :
    ((publicRules config store).map PublicRule.name).Sublist (ruleNames config store) := by
  rw [ruleNames, plan, namesOf_append, namesOf_flatMap, namesOf_globalPlan, publicRules,
    List.map_append, List.map_flatMap, thresholdsUpTo, List.map_map]
  refine List.Sublist.append_right (List.Sublist.flatMap_right _ fun source _ => ?_) _
  rw [sourcePlan, namesOf_append, namesOf_append, namesOf_scoredPlan, namesOf_groupsPlan,
    List.append_assoc, publicRulesAt, List.map_append, List.map_flatMap, List.map_map]
  simp only [thresholdsUpTo, List.map_map]
  exact List.sublist_append_right _ _

/-- No word gives anything. -/
theorem flatMap_nothing {α β : Type} (l : List α) : (l.flatMap fun _ => ([] : List β)) = [] :=
  List.flatMap_eq_nil_iff.mpr fun _ _ => rfl

/-- A column that rules alone give to holds their names. -/
theorem Column.names {read : Line → Option String}
    (h : Column read (fun _ => []) fun name => [name]) (config : Config) (store : Store) :
    reads read (Generation.plan config store) = (publicRules config store).map PublicRule.name := by
  rw [h.plan, publicRules, thresholdsUpTo, List.map_append, List.map_flatMap, List.map_map]
  simp only [flatMap_nothing, List.nil_append, ← List.map_eq_flatMap]
  rfl

theorem length_componentPairs (store : Store) :
    (componentPairs store).length = Build.wordCount store := by
  have hsum : Build.wordCount store =
      (store.files.keys.map fun key => (store.componentWords key).length).sum := by
    rw [Build.wordCount, List.sum_eq_foldl, List.foldl_map]
  rw [hsum, componentPairs, List.length_flatMap]
  simp only [List.length_map]
  exact ((Text.sorted_perm store.files.keys).map _).sum_nat

/-- A column that words alone give to has one place for each. -/
theorem Column.length_words {read : Line → Option String} {ofWord : String → List String}
    (h : Column read ofWord fun _ => []) (hone : ∀ name, (ofWord name).length = 1)
    (config : Config) (store : Store) :
    (reads read (Generation.plan config store)).length = Build.wordCount store := by
  rw [h.plan, ← length_componentPairs, componentPairs]
  simp [flatMap_nothing, List.length_flatMap, hone]

/-! ### The lines of a generation -/

variable {l m : Layout} {b : Buffers Line}

/-- Of entries that have a name once, those at a path have it once if it stands there, and else not
at all. -/
theorem count_linesOf {read : Line → Option String} {es : List (String × Line)} {p name : String}
    {line : Line} (hnodup : ((es.map Prod.snd).filterMap read).Nodup) (hentry : (p, line) ∈ es)
    (hread : read line = some name) (q : String) :
    ((Buffers.linesOf q es).filterMap read).count name = if q = p then 1 else 0 := by
  obtain ⟨front, back, rfl⟩ := List.append_of_mem hentry
  rw [List.map_append, List.map_cons, List.filterMap_append, List.filterMap_cons_some hread,
    List.nodup_middle, List.nodup_cons, List.mem_append, not_or] at hnodup
  have hnone {es : List (String × Line)} (h : name ∉ (es.map Prod.snd).filterMap read) :
      ((Buffers.linesOf q es).filterMap read).count name = 0 := by
    refine List.count_eq_zero.mpr fun hmem => h ?_
    obtain ⟨line, hline, hname⟩ := List.mem_filterMap.mp hmem
    have hentry := Buffers.mem_linesOf.mp hline
    exact List.mem_filterMap.mpr ⟨line, List.mem_map.mpr ⟨_, hentry, rfl⟩, hname⟩
  have hmiddle : Buffers.linesOf q ((p, line) :: back) =
      (if q = p then [line] else []) ++ Buffers.linesOf q back := by
    rw [← Buffers.linesOf_at, ← Buffers.linesOf_append]
    rfl
  rw [Buffers.linesOf_append, hmiddle, List.filterMap_append, List.filterMap_append,
    List.count_append, List.count_append, hnone hnodup.1.1, hnone hnodup.1.2]
  split
  next => simp [hread]
  next => rfl

theorem hasArtifacts_of_public {r : PublicRule} (hr : r ∈ publicRules config store) :
    HasArtifacts config store r.source := by
  rcases List.mem_append.mp hr with hr | hr
  · obtain ⟨source, hs, hr⟩ := List.mem_flatMap.mp hr
    rcases List.mem_append.mp hr with hr | hr
    · obtain ⟨_, -, rfl⟩ := List.mem_map.mp hr
      exact Text.mem_sorted.mp hs
    · obtain ⟨_, -, hr⟩ := List.mem_flatMap.mp hr
      obtain ⟨_, -, -, rfl⟩ := mem_thresholdsUpTo.mp hr
      exact Text.mem_sorted.mp hs
  · obtain ⟨k, h1, hk, rfl⟩ := mem_thresholdsUpTo.mp hr
    have hne : ¬ store.origins.isEmpty = true := by
      rw [Assoc.isEmpty_iff]
      exact List.ne_nil_of_length_pos (Nat.lt_of_lt_of_le h1 hk)
    simp [HasArtifacts, hne]

/-- A planned line is written at the artifact it is for. -/
theorem Generated.entry_mem (h : Generated l m store b) {source : Option String}
    (hs : HasArtifacts l.config store source) {e : Emission}
    (he : e ∈ planOf l.config store source) :
    (m.pathAt ⟨source, e.toScores⟩, e.line) ∈ entries m store := by
  rw [entries_artifactPlan, h.config]
  refine List.mem_map.mpr ⟨e.artifact source, ?_, rfl⟩
  cases source with
  | some source =>
    refine List.mem_append_left _ (List.mem_flatMap.mpr ⟨source, Text.mem_sorted.mpr hs, ?_⟩)
    exact List.mem_map_of_mem he
  | none => exact List.mem_append_right _ (List.mem_map_of_mem he)

/-- A planned line that names a rule is at the path of its artifact, and no other line anywhere
names that rule in the same way. -/
theorem Generated.once (h : Generated l m store b) {source : Option String}
    (hs : HasArtifacts l.config store source) {toScores : Bool} {line : Line}
    (hline : ⟨toScores, line⟩ ∈ planOf l.config store source) {read : Line → Option String}
    (hnodup : (reads read (plan l.config store)).Nodup) {name : String}
    (hread : read line = some name) :
    ∃ p, m.path? ⟨source, toScores⟩ = some p ∧ line ∈ b.linesAt p ∧
      ∀ q, ((b.linesAt q).filterMap read).count name = if q = p then 1 else 0 := by
  obtain ⟨p, hp⟩ := h.placed hs toScores
  have hentry := h.entry_mem hs hline
  rw [pathAt_eq hp] at hentry
  rw [reads, ← h.config, ← entries_lines] at hnodup
  refine ⟨p, hp, ?_, fun q => ?_⟩
  · rw [h.holds p]
    exact Buffers.mem_linesOf.mpr hentry
  · rw [h.holds q]
    exact count_linesOf hnodup hentry hread q

theorem Generated.publicNames_nodup (h : Generated l m store b) :
    ((publicRules l.config store).map PublicRule.name).Nodup :=
  (ruleNames_nodup h.checked).sublist (publicNames_sublist l.config store)

/-- No rule is composed twice, as none is defined twice. -/
theorem Generated.composed_nodup (h : Generated l m store b) :
    (reads Line.composed? (plan l.config store)).Nodup := by
  have hfilter : reads Line.composed? (plan l.config store) = definitions
      (((plan l.config store).map Emission.line).filter fun line => line.composed?.isSome) := by
    rw [reads, definitions, List.filterMap_filter]
    congr 1
    funext line
    cases line <;> rfl
  rw [hfilter]
  exact (ruleNames_nodup h.checked).sublist (List.filter_sublist.filterMap _)

theorem FromThresholds.about {name describe rule : String} {refs : List String} {score : Score}
    {e : Emission} (h : FromThresholds name refs describe score e)
    (hrule : e.line.about? = some rule) :
    ∃ k, 1 ≤ k ∧ k ≤ refs.length ∧ thresholdName name k = rule := by
  cases h with
  | rule | blank => cases hrule
  | text h1 hk | score h1 hk => exact ⟨_, h1, hk, Option.some.inj hrule⟩

/-- A line that describes or scores a rule is about a public one. -/
theorem Generated.about_public (h : Generated l m store b) {q rule : String} {line : Line}
    (hline : line ∈ b.linesAt q) (hrule : line.about? = some rule) :
    ∃ r ∈ publicRules l.config store, r.name = rule := by
  obtain ⟨e, ⟨source, hs, he⟩ | he, rfl⟩ := h.mem_linesAt hline
  · cases fromSource_of_mem he with
    | heading _ hbanner =>
      rw [banner_about hbanner] at hrule
      cases hrule
    | remark | body | subject | component | scored | group | blank => cases hrule
    | scoredText hentry | scoredScore hentry =>
      exact ⟨_, mem_publicRules_scored hs hentry, Option.some.inj hrule⟩
    | threshold hentry hthreshold =>
      obtain ⟨k, h1, hk, rfl⟩ := hthreshold.about hrule
      rw [List.length_map] at hk
      exact ⟨_, mem_publicRules_group hs hentry h1 hk, rfl⟩
  · cases (fromGlobals_of_mem he).1 with
    | heading hbanner =>
      rw [banner_about hbanner] at hrule
      cases hrule
    | threshold hthreshold =>
      obtain ⟨k, h1, hk, rfl⟩ := hthreshold.about hrule
      rw [size_globalComponents] at hk
      exact ⟨_, mem_publicRules_global h1 hk, rfl⟩

/-! ### The correspondence -/

/-- The public rules of a store and their lines in the buffers of a layout. -/
structure Correspondence (config : Config) (store : Store) (m : Layout) (b : Buffers Line) :
    Prop where
  apart : ((publicRules config store).map PublicRule.name).Nodup
  /-- A public rule is composed once, among the rules of its source. -/
  composed : ∀ r ∈ publicRules config store, ∃ p, m.path? ⟨r.source, false⟩ = some p ∧
    ∀ q, ((b.linesAt q).filterMap Line.composed?).count r.name = if q = p then 1 else 0
  /-- It is described once, and scored once, among the scores of its source. -/
  described : ∀ r ∈ publicRules config store, ∃ p, m.path? ⟨r.source, true⟩ = some p ∧
    ∀ q, ((b.linesAt q).filterMap Line.described?).count r.name = if q = p then 1 else 0
  scored : ∀ r ∈ publicRules config store, ∃ p, m.path? ⟨r.source, true⟩ = some p ∧
    .score r.name r.score ∈ b.linesAt p ∧
    ∀ q, ((b.linesAt q).filterMap Line.scored?).count r.name = if q = p then 1 else 0
  others : ∀ q, ∀ line ∈ b.linesAt q, ∀ rule, line.about? = some rule →
    ∃ r ∈ publicRules config store, r.name = rule
  bodies : (b.inLoadOrder.filterMap Line.body?).length = Build.wordCount store
  subjects : (b.inLoadOrder.filterMap Line.subject?).length = Build.wordCount store
  components : (b.inLoadOrder.filterMap Line.component?).length = Build.wordCount store

/-- **Public rules, descriptions and scores correspond one to one.** Whatever is pinned, in what a
generation writes each rule of a scored word and each threshold is composed once, at the path of its
source's rules, and described and scored once, at that of its source's scores, with the score that
the store or the configuration has for it. Nothing else is described or scored. There are as many
body rules, subject rules and components as words with a component. -/
theorem public_rules_correspond {config : Config} {store : Store}
    {pins : Assoc ArtifactKey String} {b : Buffers Line} {g : Generation} {notices : List Notice}
    (h : (generate store).run { layout := { config, artifacts := pins } } = (.ok b, g, notices)) :
    Correspondence config store g.layout b := by
  have hg := generated_of_run h
  have hnames {read : Line → Option String} (hread : Column read (fun _ => []) fun name => [name]) :
      (reads read (plan config store)).Nodup := by
    rw [hread.names]
    exact hg.publicNames_nodup
  have hwords {read : Line → Option String} {ofWord : String → List String}
      (hread : Column read ofWord fun _ => []) (hone : ∀ name, (ofWord name).length = 1) :
      (b.inLoadOrder.filterMap read).length = Build.wordCount store := by
    have hperm := hg.holds.perm.filterMap read
    rw [entries_lines, hg.config] at hperm
    rw [hperm.length_eq]
    exact hread.length_words hone config store
  constructor
  case apart => exact hg.publicNames_nodup
  case composed =>
    intro r hr
    obtain ⟨condition, hline⟩ := (planned_of_mem hr).composed
    obtain ⟨p, hp, -, hcount⟩ := hg.once (hasArtifacts_of_public hr) hline hg.composed_nodup rfl
    exact ⟨p, hp, hcount⟩
  case described =>
    intro r hr
    obtain ⟨text, hline⟩ := (planned_of_mem hr).described
    obtain ⟨p, hp, -, hcount⟩ :=
      hg.once (hasArtifacts_of_public hr) hline (hnames column_described) rfl
    exact ⟨p, hp, hcount⟩
  case scored =>
    intro r hr
    have hline := (planned_of_mem hr).scored
    exact hg.once (hasArtifacts_of_public hr) hline (hnames column_scored) rfl
  case others => exact fun q line hline rule hrule => hg.about_public hline hrule
  case bodies => exact hwords column_body fun _ => rfl
  case subjects => exact hwords column_subject fun _ => rfl
  case components => exact hwords column_component fun _ => rfl

theorem public_rules_correspond_sample :
    ∃ b g notices,
      (generate sampleStore).run { layout := { config := sampleConfig } } = (.ok b, g, notices) ∧
        publicRules sampleConfig sampleStore =
          [⟨some "A", "K_A_X", .whole 1⟩, ⟨some "A", "K_A_1", .real sampleConfig.groupScore⟩,
            ⟨none, "K_1", .real sampleConfig.groupScore⟩] ∧
        Build.wordCount sampleStore = 1 ∧
        Correspondence sampleConfig sampleStore g.layout b := by
  obtain ⟨b, hb⟩ := sample_generates
  have hrun : (generate sampleStore).run { layout := { config := sampleConfig } } =
    (.ok b, _, _) := Prod.ext hb rfl
  exact ⟨b, _, _, hrun, by decide +kernel, by decide +kernel, public_rules_correspond hrun⟩

end MailRules.Generation
