import MailRules.Proofs.Generation.Artifacts
import MailRules.Proofs.Generation.Lines

/-! Scores beside the rules, and scores in files of their own.

The two ways to lay out scores give rise to the same lines. A file with both has the lines of the
two files without the other, in the order of the plan, so it is these two merged
(`joined_merges_separate`), and each line can be told from its kind to be one of the rules or one of
the scores. -/
namespace MailRules.Generation

open Rule Layout MailRules.Action

/-- The third list is the first two merged: the elements of either keep their order. -/
inductive Merge {α : Type} : List α → List α → List α → Prop
  | nil : Merge [] [] []
  | left {a : α} {l r m : List α} : Merge l r m → Merge (a :: l) r (a :: m)
  | right {a : α} {l r m : List α} : Merge l r m → Merge l (a :: r) (a :: m)

/-- A list is what passes a test merged with what does not. -/
theorem merge_filter {α : Type} (p : α → Bool) (l : List α) :
    Merge (l.filter fun a => !p a) (l.filter p) l := by
  induction l with
  | nil => exact .nil
  | cons a rest ih =>
    cases hp : p a with
    | false =>
      rw [List.filter_cons_of_pos (by simp [hp]), List.filter_cons_of_neg (by simp [hp])]
      exact .left ih
    | true =>
      rw [List.filter_cons_of_neg (by simp [hp]), List.filter_cons_of_pos hp]
      exact .right ih

theorem Merge.map {α β : Type} (f : α → β) {l r m : List α} (h : Merge l r m) :
    Merge (l.map f) (r.map f) (m.map f) := by
  induction h with
  | nil => exact .nil
  | left _ ih => exact .left ih
  | right _ ih => exact .right ih

/-! ### Lines of rules and lines of scores -/

/-- What stands among rules describes and scores none; what stands among scores does, or is blank. -/
def Emission.InPlace (e : Emission) : Prop :=
  if e.toScores then e.line.about?.isSome ∨ e.line = .blank else e.line.about? = none

theorem FromThresholds.inPlace {name describe : String} {refs : List String} {score : Score}
    {e : Emission} (h : FromThresholds name refs describe score e) : e.InPlace := by
  cases h with
  | rule => rfl
  | text => exact .inl rfl
  | score => exact .inl rfl
  | blank toScores =>
    cases toScores
    · rfl
    · exact .inr rfl

theorem banner_about {title : String} {line : Line} (h : line ∈ banner title) :
    line.about? = none := by
  simp only [banner, List.mem_cons, List.not_mem_nil, or_false] at h
  rcases h with rfl | rfl | rfl | rfl <;> rfl

variable {config : Config} {store : Store}

theorem FromSource.inPlace {source : String} {e : Emission} (h : FromSource config store source e) :
    e.InPlace := by
  cases h with
  | heading _ hline => exact banner_about hline
  | remark | body | subject | component | scored | group => rfl
  | scoredText | scoredScore => exact .inl rfl
  | threshold _ h => exact h.inPlace
  | blank toScores =>
    cases toScores
    · rfl
    · exact .inr rfl

theorem FromGlobals.inPlace {e : Emission} (h : FromGlobals config store e) : e.InPlace := by
  cases h with
  | heading hline => exact banner_about hline
  | threshold h => exact h.inPlace

theorem artifactPlan_inPlace {e : ArtifactKey × Line} (h : e ∈ artifactPlan config store) :
    if e.1.scores then e.2.about?.isSome ∨ e.2 = .blank else e.2.about? = none := by
  rcases List.mem_append.mp h with h | h
  · obtain ⟨source, -, h⟩ := List.mem_flatMap.mp h
    obtain ⟨e, he, rfl⟩ := List.mem_map.mp h
    exact (fromSource_of_mem he).inPlace
  · obtain ⟨e, he, rfl⟩ := List.mem_map.mp h
    exact (fromGlobals_of_mem he).1.inPlace

/-! ### The two layouts -/

/-- **Scores beside the rules are the scores that stand apart.** For every source, and for the words
counted over all files, the file with rules and scores is the rules file merged with the scores
file; the rules file has no description and no score, and the scores file has nothing else but
blank lines. -/
theorem joined_merges_separate {config : Config} {store : Store} {together apart : Value}
    (htogether : together.isTrue = true) (hapart : apart.isTrue = false)
    {joined separate : Buffers Line} {g g' : Generation} {notices notices' : List Notice}
    (hjoined : (generate store).run
      { layout := { config := { config with joinScores := together } } } = (.ok joined, g, notices))
    (hseparate : (generate store).run
      { layout := { config := { config with joinScores := apart } } } = (.ok separate, g', notices'))
    {source : Option String} (hsource : HasArtifacts config store source) :
    ∃ both rules scores, g.layout.path? ⟨source, false⟩ = some both ∧
      g'.layout.path? ⟨source, false⟩ = some rules ∧
      g'.layout.path? ⟨source, true⟩ = some scores ∧
      Merge (separate.linesAt rules) (separate.linesAt scores) (joined.linesAt both) ∧
      (∀ line ∈ separate.linesAt rules, line.about? = none) ∧
      ∀ line ∈ separate.linesAt scores, line.about?.isSome ∨ line = .blank := by
  have hone := generated_of_run hjoined
  have htwo := generated_of_run hseparate
  obtain ⟨both, hboth⟩ := hone.placed hsource false
  obtain ⟨rules, hrules⟩ := htwo.placed hsource false
  obtain ⟨scores, hscores⟩ := htwo.placed hsource true
  -- The lines for the source, of either kind.
  let all := (artifactPlan config store).filter fun e => config.isSingle || e.1.source = source
  have hall : joined.linesAt both = all.map Prod.snd := by
    rw [hone.linesAt_artifact hboth]
    simp only [Config.isJoined, htogether, Bool.true_or, Bool.and_true]
    rfl
  have hpart {p : String} {kind : Bool} (hp : g'.layout.path? ⟨source, kind⟩ = some p) :
      separate.linesAt p = (all.filter fun e => e.1.scores = kind).map Prod.snd := by
    rw [htwo.linesAt_artifact hp, List.filter_filter]
    simp only [Config.isJoined, hapart, Bool.false_or, Bool.and_comm]
    rfl
  refine ⟨both, rules, scores, hboth, hrules, hscores, ?_, ?_, ?_⟩
  · rw [hall, hpart hrules, hpart hscores]
    simpa using (merge_filter (fun e : ArtifactKey × Line => e.1.scores) all).map Prod.snd
  · intro line hline
    obtain ⟨e, he, rfl, hkind⟩ := htwo.mem_artifact hrules hline
    have hrule : e.1.scores = false := hkind.resolve_left (by simp [Config.isJoined, hapart])
    simpa [hrule] using artifactPlan_inPlace he
  · intro line hline
    obtain ⟨e, he, rfl, hkind⟩ := htwo.mem_artifact hscores hline
    have hscore : e.1.scores = true := hkind.resolve_left (by simp [Config.isJoined, hapart])
    simpa [hscore] using artifactPlan_inPlace he

theorem joined_merges_separate_sample :
    HasArtifacts sampleConfig sampleStore (some "A") ∧ HasArtifacts sampleConfig sampleStore none ∧
      ∃ joined separate g g' notices notices',
        (generate sampleStore).run { layout := { config := sampleLaidOut false true } } =
            (.ok joined, g, notices) ∧
          (generate sampleStore).run { layout := { config := sampleLaidOut false false } } =
            (.ok separate, g', notices') ∧
          ∀ source, HasArtifacts sampleConfig sampleStore source →
            ∃ both rules scores, g.layout.path? ⟨source, false⟩ = some both ∧
              g'.layout.path? ⟨source, false⟩ = some rules ∧
              g'.layout.path? ⟨source, true⟩ = some scores ∧
              Merge (separate.linesAt rules) (separate.linesAt scores) (joined.linesAt both) ∧
              (∀ line ∈ separate.linesAt rules, line.about? = none) ∧
              ∀ line ∈ separate.linesAt scores, line.about?.isSome ∨ line = .blank := by
  have hfile : HasArtifacts sampleConfig sampleStore (some "A") := List.mem_cons_self
  have hglobal : HasArtifacts sampleConfig sampleStore none := by
    show (!sampleStore.origins.isEmpty || sampleConfig.isSingle) = true
    decide +kernel
  obtain ⟨joined, hjoined⟩ := sample_generates_laidOut false true
  obtain ⟨separate, hseparate⟩ := sample_generates_laidOut false false
  refine ⟨hfile, hglobal, joined, separate, _, _, _, _, Prod.ext hjoined rfl,
    Prod.ext hseparate rfl, fun source hsource => ?_⟩
  exact @joined_merges_separate sampleConfig sampleStore (.bool true) (.bool false) rfl rfl
    _ _ _ _ _ _ (Prod.ext hjoined rfl) (Prod.ext hseparate rfl) source hsource

end MailRules.Generation
