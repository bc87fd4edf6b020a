import MailRules.Proofs.Generation.Artifacts

/-! One file for all, and a file for each source.

A source gives rise to sections, which have their titles printed where one file is for all. The
lines of the sections are the same either way, so the single file is the files of the sources one
after the other, with the titles between their sections (`single_concatenates`). -/
namespace MailRules.Generation

open Rule Layout

/-- A part of the rules, with its title. -/
structure Section where
  title : String
  lines : List Emission

/-- The components of a source, its scored words and its groups; the latter if it has any. -/
def sourceSections (config : Config) (store : Store) (source : String) : List Section :=
  let family := familyAt config.id source
  let rules := rulesAt store source
  ⟨"Metas for " ++ family, components false family rules (store.componentWords source)⟩
    :: (if rules.scored.isEmpty then []
      else [⟨"Scored words for " ++ family, scored false family rules⟩])
    ++ if rules.groups.isEmpty then []
      else [⟨"Groups for " ++ family, groupsPlan false family (.real config.groupScore) rules⟩]

/-- The thresholds of the global words, if there are any. -/
def globalSections (config : Config) (store : Store) : List Section :=
  if store.origins.isEmpty then []
  else [⟨"Globals", toRules (thresholdRules config.id (globalComponents config.id store))
    ++ toScores (thresholdScores config.id (globalComponents config.id store).length
      (thresholdText globalGroup config.id) (.real config.groupScore))⟩]

/-- The lines that go to the rules or to the scores, which may stand together. -/
def kept (joined scores : Bool) (es : List Emission) : List Line :=
  (es.filter fun e => joined || e.toScores = scores).map Emission.line

/-- The rules of a section. -/
def Section.plain (joined : Bool) (s : Section) : List Line := kept joined false s.lines

/-- The rules of a section below its title. -/
def Section.titled (joined : Bool) (s : Section) : List Line := banner s.title ++ s.plain joined

/-- The scores of a section, where they stand apart. -/
def Section.scores (s : Section) : List Line := kept false true s.lines

/-- What a section adds to the plan. -/
def Section.emissions (single : Bool) (s : Section) : List Emission :=
  heading single s.title ++ s.lines

/-- The sections of a source, or those of the global words. -/
def sectionsOf (config : Config) (store : Store) : Option String → List Section
  | some source => sourceSections config store source
  | none => globalSections config store

variable {config : Config} {store : Store} {m : Layout} {b : Buffers Line}

theorem sourcePlan_sections (config : Config) (store : Store) (source : String) :
    sourcePlan config store source =
      (sourceSections config store source).flatMap (Section.emissions config.isSingle) := by
  rw [sourcePlan, sourceSections, scoredPlan, groupsPlan]
  simp only [List.flatMap_append, List.flatMap_cons]
  congr 1
  · congr 1
    split <;> simp [Section.emissions, scored, heading]
  · split
    next => rfl
    next hsome => simp [Section.emissions, groupsPlan, if_neg hsome, heading]

theorem globalPlan_sections (config : Config) (store : Store) :
    globalPlan config store =
      (globalSections config store).flatMap (Section.emissions config.isSingle) := by
  rw [globalPlan, globalSections]
  split
  next => rfl
  next => simp [Section.emissions]

theorem planOf_sections (config : Config) (store : Store) (source : Option String) :
    planOf config store source =
      (sectionsOf config store source).flatMap (Section.emissions config.isSingle) := by
  cases source with
  | some source => exact sourcePlan_sections config store source
  | none => exact globalPlan_sections config store

/-! ### The lines that a file keeps -/

theorem kept_append (joined scores : Bool) (es fs : List Emission) :
    kept joined scores (es ++ fs) = kept joined scores es ++ kept joined scores fs := by
  rw [kept, List.filter_append, List.map_append]
  rfl

theorem kept_flatMap {α : Type} (joined scores : Bool) (l : List α) (f : α → List Emission) :
    kept joined scores (l.flatMap f) = l.flatMap fun a => kept joined scores (f a) := by
  rw [kept, List.filter_flatMap, List.map_flatMap]
  rfl

theorem kept_toRules (joined : Bool) (lines : List Line) : kept joined false (toRules lines) = lines := by
  rw [kept, toRules, List.filter_eq_self.mpr, List.map_map]
  · exact List.map_id lines
  · intro e he
    obtain ⟨_, -, rfl⟩ := List.mem_map.mp he
    simp

theorem kept_heading_scores (single : Bool) (title : String) :
    kept false true (heading single title) = [] := by
  rw [kept, heading_eq, List.filter_eq_nil_iff.mpr, List.map_nil]
  intro e he
  obtain ⟨_, -, rfl⟩ := List.mem_map.mp he
  simp

theorem kept_artifact (joined scores : Bool) (source : Option String) (es : List Emission) :
    ((es.map (Emission.artifact source)).filter fun e => joined || e.1.scores = scores).map Prod.snd =
      kept joined scores es := by
  rw [kept, List.filter_map, List.map_map]
  rfl

theorem titled_of_sections (joined : Bool) (sections : List Section) :
    kept joined false (sections.flatMap (Section.emissions true)) =
      sections.flatMap (Section.titled joined) := by
  rw [kept_flatMap]
  refine List.flatMap_congr fun s _ => ?_
  rw [Section.emissions, kept_append, heading, if_pos rfl, kept_toRules]
  rfl

theorem plain_of_sections (joined : Bool) (sections : List Section) :
    kept joined false (sections.flatMap (Section.emissions false)) =
      sections.flatMap (Section.plain joined) :=
  kept_flatMap joined false sections _

/-- Titles are no scores. -/
theorem scores_of_sections (single : Bool) (sections : List Section) :
    kept false true (sections.flatMap (Section.emissions single)) =
      sections.flatMap Section.scores := by
  rw [kept_flatMap]
  refine List.flatMap_congr fun s _ => ?_
  rw [Section.emissions, kept_append, kept_heading_scores, List.nil_append]
  rfl

/-! ### The two layouts -/

/-- The single file keeps what is for it of all sections. -/
theorem Generated.linesAt_single (h : Generated { config } m store b)
    (hsingle : config.isSingle = true) {k : ArtifactKey} {p : String} (hk : m.path? k = some p) :
    b.linesAt p =
      (Text.sorted store.files.keys).flatMap (fun source => kept config.isJoined k.scores
        ((sourceSections config store source).flatMap (Section.emissions true)))
      ++ kept config.isJoined k.scores
        ((globalSections config store).flatMap (Section.emissions true)) := by
  rw [h.linesAt_artifact hk]
  simp only [hsingle, Bool.true_or, Bool.true_and]
  rw [artifactPlan, List.filter_append, List.filter_flatMap, List.map_append, List.map_flatMap]
  simp only [kept_artifact, sourcePlan_sections, globalPlan_sections, hsingle]

/-- The file of a source keeps what is for it of the source's own sections. -/
theorem Generated.linesAt_own (h : Generated { config } m store b)
    (hsingle : config.isSingle = false) {source : Option String} {scores : Bool} {p : String}
    (hs : HasArtifacts config store source) (hk : m.path? ⟨source, scores⟩ = some p) :
    b.linesAt p = kept config.isJoined scores
      ((sectionsOf config store source).flatMap (Section.emissions false)) := by
  have hplan := planOf_sections config store source
  rw [hsingle] at hplan
  rw [h.linesAt_artifact hk, ← hplan, ← kept_artifact config.isJoined scores source,
    ← artifactPlan_of hs, List.filter_filter]
  simp only [hsingle, Bool.false_or, Bool.and_comm]

theorem Generated.single_paths (h : Generated { config } m store b) (hsingle : config.isSingle = true)
    {k : ArtifactKey} {p : String} (hk : m.path? k = some p) :
    p = if k.scores && !config.isJoined then FileName.scoresPath m.sharedPath else m.sharedPath := by
  obtain ⟨_, hresolved⟩ := h.resolved
  have hsingle' : m.config.isSingle = true := by rw [h.config]; exact hsingle
  have hpath := (resolved_aliased hresolved).single hsingle' k p hk
  rw [singlePath, shareClass, h.config] at hpath
  exact hpath

/-- Where one file is for all, the global words have artifacts even if there are none. -/
theorem Generated.single_placed (h : Generated { config } m store b) (hsingle : config.isSingle = true)
    (scores : Bool) : ∃ p, m.path? ⟨none, scores⟩ = some p :=
  h.placed (by simp [HasArtifacts, hsingle]) scores

theorem Generated.single_rules (h : Generated { config } m store b) (hsingle : config.isSingle = true) :
    b.linesAt m.sharedPath =
      (Text.sorted store.files.keys).flatMap
          (fun source => (sourceSections config store source).flatMap
            (Section.titled config.isJoined))
        ++ (globalSections config store).flatMap (Section.titled config.isJoined) := by
  obtain ⟨p, hp⟩ := h.single_placed hsingle false
  have hpath : p = m.sharedPath := h.single_paths hsingle hp
  rw [← hpath, h.linesAt_single hsingle hp, titled_of_sections]
  simp only [titled_of_sections]

theorem Generated.single_scores (h : Generated { config } m store b) (hsingle : config.isSingle = true)
    (hjoined : config.isJoined = false) :
    b.linesAt (FileName.scoresPath m.sharedPath) =
      (Text.sorted store.files.keys).flatMap
          (fun source => (sourceSections config store source).flatMap Section.scores)
        ++ (globalSections config store).flatMap Section.scores := by
  obtain ⟨p, hp⟩ := h.single_placed hsingle true
  have hpath := h.single_paths hsingle hp
  rw [hjoined] at hpath
  replace hpath : p = FileName.scoresPath m.sharedPath := hpath
  rw [← hpath, h.linesAt_single hsingle hp, hjoined, scores_of_sections]
  simp only [scores_of_sections]

theorem Generated.own_rules (h : Generated { config } m store b) (hsingle : config.isSingle = false)
    {source : Option String} (hs : HasArtifacts config store source) :
    ∃ p, m.path? ⟨source, false⟩ = some p ∧
      b.linesAt p = (sectionsOf config store source).flatMap (Section.plain config.isJoined) := by
  obtain ⟨p, hp⟩ := h.placed hs false
  exact ⟨p, hp, (h.linesAt_own hsingle hs hp).trans (plain_of_sections _ _)⟩

theorem Generated.own_scores (h : Generated { config } m store b) (hsingle : config.isSingle = false)
    (hjoined : config.isJoined = false) {source : Option String}
    (hs : HasArtifacts config store source) :
    b.linesAt (m.pathAt ⟨source, true⟩) = (sectionsOf config store source).flatMap Section.scores := by
  obtain ⟨p, hp⟩ := h.placed hs true
  rw [pathAt_eq hp, h.linesAt_own hsingle hs hp, hjoined, scores_of_sections]

/-- What one file for all has of the files of the sources; `l` and `single` are the layout and the
lines with one file, `m` and `multi` those with a file for each source. -/
structure Concatenates (config : Config) (store : Store) (l : Layout) (single : Buffers Line)
    (m : Layout) (multi : Buffers Line) : Prop where
  /-- All rules are in one file, and all scores in that file or in one beside it. -/
  paths : ∀ k p, l.path? k = some p →
    p = if k.scores && !config.isJoined then FileName.scoresPath l.sharedPath else l.sharedPath
  /-- The single file has the sections of every source in order, and those of the global words
  last, each below its title. -/
  rules : single.linesAt l.sharedPath =
    (Text.sorted store.files.keys).flatMap
        (fun source => (sourceSections config store source).flatMap
          (Section.titled config.isJoined))
      ++ (globalSections config store).flatMap (Section.titled config.isJoined)
  /-- The file of a source has its sections without the titles. -/
  source : ∀ source ∈ store.files.keys, ∃ p, m.path? (rulesKey source) = some p ∧
    multi.linesAt p = (sourceSections config store source).flatMap (Section.plain config.isJoined)
  global : store.origins.isEmpty = false → ∃ p, m.path? .global = some p ∧
    multi.linesAt p = (globalSections config store).flatMap (Section.plain config.isJoined)
  /-- The single file of scores is the files of scores one after the other. -/
  scores : config.isJoined = false → single.linesAt (FileName.scoresPath l.sharedPath) =
    (Text.sorted store.files.keys).flatMap
        (fun source => multi.linesAt (m.pathAt (scoresKey source)))
      ++ if store.origins.isEmpty then [] else multi.linesAt (m.pathAt .globalScores)

/-- **One file for all is the files of the sources one after the other**, with the titles of their
sections, and the same holds of the scores where they stand apart. -/
theorem single_concatenates {config : Config} {store : Store} {one many : Value}
    (hone : one.isTrue = true) (hmany : many.isTrue = false) {single multi : Buffers Line}
    {g g' : Generation} {notices notices' : List Notice}
    (hsingle : (generate store).run
      { layout := { config := { config with singleOutfile := one } } } = (.ok single, g, notices))
    (hmulti : (generate store).run
      { layout := { config := { config with singleOutfile := many } } } = (.ok multi, g', notices')) :
    Concatenates config store g.layout single g'.layout multi := by
  have hs := generated_of_run hsingle
  have hm := generated_of_run hmulti
  have hfile {source : String} (hsource : source ∈ store.files.keys) :
      HasArtifacts { config with singleOutfile := many } store (some source) := hsource
  have hglobal (hwords : store.origins.isEmpty = false) :
      HasArtifacts { config with singleOutfile := many } store none := by
    simp [HasArtifacts, hwords]
  exact {
    paths := fun k p hk => hs.single_paths hone hk
    rules := hs.single_rules hone
    source := fun source hsource => hm.own_rules hmany (hfile hsource)
    global := fun hwords => hm.own_rules hmany (hglobal hwords)
    scores := fun hjoined => by
      refine (hs.single_scores hone hjoined).trans (congrArg₂ (· ++ ·) ?_ ?_)
      · refine List.flatMap_congr fun source hsource => ?_
        exact (hm.own_scores hmany hjoined (hfile (Text.mem_sorted.mp hsource))).symm
      · cases hwords : store.origins.isEmpty with
        | true =>
          rw [globalSections, if_pos hwords]
          rfl
        | false => exact (hm.own_scores hmany hjoined (hglobal hwords)).symm }

theorem single_concatenates_sample :
    ∃ single multi g g' notices notices',
      (generate sampleStore).run { layout := { config := sampleLaidOut true false } } =
          (.ok single, g, notices) ∧
        (generate sampleStore).run { layout := { config := sampleLaidOut false false } } =
          (.ok multi, g', notices') ∧
        Concatenates (sampleLaidOut false false) sampleStore g.layout single g'.layout multi := by
  obtain ⟨single, hsingle⟩ := sample_generates_laidOut true false
  obtain ⟨multi, hmulti⟩ := sample_generates_laidOut false false
  refine ⟨single, multi, _, _, _, _, Prod.ext hsingle rfl, Prod.ext hmulti rfl, ?_⟩
  exact @single_concatenates (sampleLaidOut false false) sampleStore (.bool true) (.bool false)
    rfl rfl _ _ _ _ _ _ (Prod.ext hsingle rfl) (Prod.ext hmulti rfl)

end MailRules.Generation
