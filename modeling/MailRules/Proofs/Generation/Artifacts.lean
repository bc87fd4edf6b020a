import MailRules.Proofs.Generation.Names
import MailRules.Proofs.Layout.Sharing

/-! The lines of each artifact.

The artifact plan lists the lines of a plan with the artifacts that they are for, whatever files
these go to. A file holds the lines of the artifacts that it is chosen for
(`Generated.linesAt_placed`). Where nothing is pinned, these are the artifacts that share it by
intent (`Generated.linesAt_artifact`). -/
namespace MailRules.Generation

open Rule Layout

/-- The line with the artifact of the source that it is for. -/
def Emission.artifact (source : Option String) (e : Emission) : ArtifactKey × Line :=
  (⟨source, e.toScores⟩, e.line)

/-- The lines of the plan with their artifacts. -/
def artifactPlan (config : Config) (store : Store) : List (ArtifactKey × Line) :=
  (Text.sorted store.files.keys).flatMap
      (fun source => (sourcePlan config store source).map (Emission.artifact (some source)))
    ++ (globalPlan config store).map (Emission.artifact none)

/-- The part of the plan that is for a source, or for the global words. -/
def planOf (config : Config) (store : Store) : Option String → List Emission
  | some source => sourcePlan config store source
  | none => globalPlan config store

/-- Each source has artifacts; the global words have if there are any, or if one file is for all. -/
def HasArtifacts (config : Config) (store : Store) : Option String → Prop
  | some source => source ∈ store.files.keys
  | none => (!store.origins.isEmpty || config.isSingle) = true

variable {config : Config} {store : Store} {m : Layout} {b : Buffers Line}

theorem artifact_entry (l : Layout) (source : Option String) (e : Emission) :
    e.entry (l.pathAt ⟨source, false⟩) (l.pathAt ⟨source, true⟩) =
      (l.pathAt (e.artifact source).1, (e.artifact source).2) := by
  obtain ⟨toScores, line⟩ := e
  cases toScores <;> rfl

/-- The entries are the lines of the artifact plan at the paths of their artifacts. -/
theorem entries_artifactPlan (l : Layout) (store : Store) :
    entries l store = (artifactPlan l.config store).map fun e => (l.pathAt e.1, e.2) := by
  have hpart (source : Option String) (es : List Emission) :
      es.map (Emission.entry (l.pathAt ⟨source, false⟩) (l.pathAt ⟨source, true⟩)) =
        (es.map (Emission.artifact source)).map fun e => (l.pathAt e.1, e.2) := by
    rw [List.map_map]
    exact List.map_congr_left fun e _ => artifact_entry l source e
  rw [entries, artifactPlan, List.map_append, List.map_flatMap, globalEntries]
  exact congrArg₂ (· ++ ·) (List.flatMap_congr fun source _ => hpart (some source) _) (hpart none _)

/-- Of parts that are made for different elements, one that is for an element stands alone. -/
theorem flatMap_eq_of_nodup {α β : Type} {l : List α} (hl : l.Nodup) {a : α} (ha : a ∈ l)
    {f : α → List β} (hf : ∀ x ∈ l, x ≠ a → f x = []) : l.flatMap f = f a := by
  obtain ⟨front, back, rfl⟩ := List.append_of_mem ha
  obtain ⟨-, hrest, happart⟩ := List.nodup_append'.mp hl
  have hfront : front.flatMap f = [] := List.flatMap_eq_nil_iff.mpr fun x hx =>
    hf x (List.mem_append_left _ hx) fun he => happart (he ▸ hx) List.mem_cons_self
  have hback : back.flatMap f = [] := List.flatMap_eq_nil_iff.mpr fun x hx =>
    hf x (List.mem_append_right _ (List.mem_cons_of_mem _ hx)) fun he =>
      (List.nodup_cons.mp hrest).1 (he ▸ hx)
  rw [List.flatMap_append, List.flatMap_cons, hfront, hback, List.nil_append, List.append_nil]

theorem filter_artifact (source other : Option String) (es : List Emission) :
    ((es.map (Emission.artifact other)).filter fun e => e.1.source = source) =
      if other = source then es.map (Emission.artifact other) else [] := by
  split
  next h =>
    refine List.filter_eq_self.mpr fun e he => ?_
    obtain ⟨_, -, rfl⟩ := List.mem_map.mp he
    exact decide_eq_true h
  next h =>
    refine List.filter_eq_nil_iff.mpr fun e he => ?_
    obtain ⟨_, -, rfl⟩ := List.mem_map.mp he
    exact fun htrue => h (of_decide_eq_true htrue)

/-- The lines for a source, or for the global words, are those of its part of the plan. -/
theorem artifactPlan_of {source : Option String} (hs : HasArtifacts config store source) :
    ((artifactPlan config store).filter fun e => e.1.source = source) =
      (planOf config store source).map (Emission.artifact source) := by
  rw [artifactPlan, List.filter_append, filter_artifact, List.filter_flatMap]
  simp only [filter_artifact]
  cases source with
  | none =>
    rw [List.flatMap_eq_nil_iff.mpr fun other _ => if_neg (by simp)]
    rfl
  | some source =>
    have hnodup : (Text.sorted store.files.keys).Nodup :=
      (Text.sorted_perm store.files.keys).nodup_iff.mpr store.files.nodup
    rw [flatMap_eq_of_nodup hnodup (Text.mem_sorted.mpr hs) fun other _ hne => if_neg (by simpa),
      if_pos rfl, if_neg (by simp), List.append_nil]
    rfl

theorem hasArtifacts_of_mem {e : ArtifactKey × Line} (h : e ∈ artifactPlan config store) :
    HasArtifacts config store e.1.source := by
  rcases List.mem_append.mp h with h | h
  · obtain ⟨source, hs, h⟩ := List.mem_flatMap.mp h
    obtain ⟨e, -, rfl⟩ := List.mem_map.mp h
    exact Text.mem_sorted.mp hs
  · obtain ⟨e, hplan, rfl⟩ := List.mem_map.mp h
    cases hnone : store.origins.isEmpty with
    | false => simp [HasArtifacts, Emission.artifact, hnone]
    | true =>
      rw [globalPlan, if_pos hnone] at hplan
      cases hplan

/-- What has artifacts has a path for either. -/
theorem Generated.placed {l : Layout} (h : Generated l m store b) {source : Option String}
    (hs : HasArtifacts l.config store source) (scores : Bool) : ∃ p, m.path? ⟨source, scores⟩ = some p := by
  obtain ⟨_, hresolved⟩ := h.resolved
  obtain ⟨-, hplaced, hglobal⟩ := resolved_extends hresolved
  cases source with
  | some source =>
    obtain ⟨hrules, hscores⟩ := hplaced source (Text.mem_sorted.mpr hs)
    cases scores
    · exact hrules
    · exact hscores
  | none =>
    obtain ⟨hrules, hscores⟩ := hglobal hs
    cases scores
    · exact hrules
    · exact hscores

/-- Nothing else has a path. -/
theorem Generated.hasArtifacts (h : Generated { config } m store b) {k : ArtifactKey} {p : String}
    (hk : m.path? k = some p) : HasArtifacts config store k.source := by
  obtain ⟨_, hresolved⟩ := h.resolved
  by_contra hnot
  have hsource : ∀ source ∈ Text.sorted store.files.keys, k.source ≠ some source := by
    intro source hs he
    rw [he] at hnot
    exact hnot (Text.mem_sorted.mp hs)
  have hglobal : (!store.origins.isEmpty || config.isSingle) = true → k.source ≠ none := by
    intro htrue he
    rw [he] at hnot
    exact hnot htrue
  rw [resolved_other hresolved hsource hglobal] at hk
  cases hk

theorem Generated.mem_keys_iff (h : Generated { config } m store b) {k : ArtifactKey} :
    k ∈ m.artifacts.keys ↔ HasArtifacts config store k.source := by
  rw [Assoc.mem_keys_iff]
  exact ⟨fun ⟨_, hk⟩ => h.hasArtifacts hk, fun hs => h.placed hs k.scores⟩

/-- A path has the lines of the artifacts that it is chosen for, wherever they are pinned. -/
theorem Generated.linesAt_placed {l : Layout} (h : Generated l m store b) (p : String) :
    b.linesAt p =
      ((artifactPlan l.config store).filter fun e => m.path? e.1 = some p).map Prod.snd := by
  rw [h.holds p, entries_artifactPlan, h.config, Buffers.linesOf, List.filter_map, List.map_map]
  refine congrArg _ (List.filter_congr fun e he => ?_)
  obtain ⟨q, hq⟩ := h.placed (hasArtifacts_of_mem he) e.1.scores
  replace hq : m.path? e.1 = some q := hq
  simp [pathAt_eq hq, hq]

/-- The file of an artifact holds the lines for its source, or those for all sources if one file is
for all; and of these the lines of its kind, or all if scores stand beside the rules. -/
theorem Generated.linesAt_artifact (h : Generated { config } m store b) {k : ArtifactKey} {p : String}
    (hk : m.path? k = some p) :
    b.linesAt p =
      ((artifactPlan config store).filter fun e =>
        (config.isSingle || e.1.source = k.source) && (config.isJoined || e.1.scores = k.scores)).map
        Prod.snd := by
  obtain ⟨_, hresolved⟩ := h.resolved
  rw [h.linesAt_placed p]
  refine congrArg _ (List.filter_congr fun e he => ?_)
  obtain ⟨q, hq⟩ := h.placed (hasArtifacts_of_mem he) e.1.scores
  replace hq : m.path? e.1 = some q := hq
  have hshared := (resolved_shared_iff hresolved hq hk).trans shareClass_eq_iff
  rw [h.config] at hshared
  rw [hq, Bool.eq_iff_iff, decide_eq_true_iff, Option.some.injEq, hshared]
  simp

theorem Generated.mem_artifact (h : Generated { config } m store b) {k : ArtifactKey} {p : String}
    (hk : m.path? k = some p) {line : Line} (hline : line ∈ b.linesAt p) :
    ∃ e ∈ artifactPlan config store, e.2 = line ∧ (config.isJoined = true ∨ e.1.scores = k.scores) := by
  rw [h.linesAt_artifact hk] at hline
  obtain ⟨e, he, rfl⟩ := List.mem_map.mp hline
  obtain ⟨hplan, hfits⟩ := List.mem_filter.mp he
  refine ⟨e, hplan, rfl, ?_⟩
  simpa using (Bool.and_eq_true_iff.mp hfits).2

theorem generated_of_run {l : Layout} {g : Generation} {notices : List Notice}
    (h : (generate store).run { layout := l } = (.ok b, g, notices)) :
    Generated l g.layout store b := by
  have hends := MailRules.Action.ends_run (congrArg Prod.fst h)
  rw [h] at hends
  exact ends_generate hends

/-! ### The small generation, in every layout -/

/-- The small configuration with one file for all or not, and scores beside the rules or not. -/
def sampleLaidOut (single joined : Bool) : Config :=
  { sampleConfig with singleOutfile := .bool single, joinScores := .bool joined }

theorem sample_generates_laidOut (single joined : Bool) :
    ∃ b, ((generate sampleStore).run
      { layout := { config := sampleLaidOut single joined } }).1 = .ok b := by
  refine sample_generates_of ?_
  cases single <;> cases joined <;> decide +kernel

end MailRules.Generation
