import MailRules.Generation.Basic
import MailRules.Proofs.Buffers
import MailRules.Proofs.Layout.Choice
import MailRules.Proofs.Rule.Line

/-! What a generation writes, as a list.

The plan of a store lists the lines that its sources and its global words give rise to; the entries
are these lines with the paths that a layout has for them. `generate_eq_ok`: a generation that
succeeds has checked the names, has resolved a layout, and its buffers hold exactly the entries of
the store in that layout. -/
namespace MailRules.Generation

open Rule MailRules.Action Layout

/-! ### The plan -/

/-- The family of a source that has a file name. -/
def familyAt (id source : String) : String := (family? id source).getD ""

theorem familyAt_eq {id source family : String} (h : family? id source = some family) :
    familyAt id source = family := by
  rw [familyAt, h, Option.getD_some]

/-- The rule set of a source; an empty one for a source that is not known. -/
def rulesAt (store : Store) (source : String) : RuleSet := (store.files.get? source).getD {}

/-- The entries of a map in the order of their keys. -/
def byKey {α : Type} (m : Assoc String α) : List (String × α) :=
  m.entries.mergeSort fun a b => decide (a.1 ≤ b.1)

/-- The scored words of a source, if it has any. -/
def scoredPlan (single : Bool) (family : String) (rules : RuleSet) : List Emission :=
  if rules.scored.isEmpty then [] else scored single family rules

/-- The thresholds of a group. -/
def groupPlan (family : String) (score : Score) (group : String) (words : List String) :
    List Emission :=
  toRules (.comment group ::
      thresholdRules (groupName family group) (words.map (componentName family)))
    ++ toScores
      (thresholdScores (groupName family group) words.length (thresholdText group family) score)

/-- The groups of a source, if it has any. -/
def groupsPlan (single : Bool) (family : String) (score : Score) (rules : RuleSet) :
    List Emission :=
  if rules.groups.isEmpty then []
  else heading single ("Groups for " ++ family)
    ++ (byKey rules.groups).flatMap fun e => groupPlan family score e.1 e.2

/-- Everything that a source gives rise to. -/
def sourcePlan (config : Config) (store : Store) (source : String) : List Emission :=
  let family := familyAt config.id source
  components config.isSingle family (rulesAt store source) (store.componentWords source)
    ++ scoredPlan config.isSingle family (rulesAt store source)
    ++ groupsPlan config.isSingle family (.real config.groupScore) (rulesAt store source)

/-- The components of the global words, in the order of the words. -/
def globalComponents (id : String) (store : Store) : List String :=
  (byKey store.origins).map fun e => componentName (familyAt id e.2) e.1

/-- Everything that the global words give rise to. -/
def globalPlan (config : Config) (store : Store) : List Emission :=
  if store.origins.isEmpty then []
  else heading config.isSingle "Globals"
    ++ toRules (thresholdRules config.id (globalComponents config.id store))
    ++ toScores (thresholdScores config.id (globalComponents config.id store).length
      (thresholdText globalGroup config.id) (.real config.groupScore))

/-- Everything, source by source. -/
def plan (config : Config) (store : Store) : List Emission :=
  (Text.sorted store.files.keys).flatMap (sourcePlan config store) ++ globalPlan config store

/-! ### The entries -/

/-- The line at the one path or the other. -/
def Emission.entry (rules scores : String) (e : Emission) : String × Line :=
  (if e.toScores then scores else rules, e.line)

def sourceEntries (l : Layout) (store : Store) (source : String) : List (String × Line) :=
  (sourcePlan l.config store source).map
    (Emission.entry (pathAt l (rulesKey source)) (pathAt l (scoresKey source)))

def globalEntries (l : Layout) (store : Store) : List (String × Line) :=
  (globalPlan l.config store).map (Emission.entry (pathAt l .global) (pathAt l .globalScores))

/-- The lines of the plan with their paths in a layout. -/
def entries (l : Layout) (store : Store) : List (String × Line) :=
  (Text.sorted store.files.keys).flatMap (sourceEntries l store) ++ globalEntries l store

theorem entries_lines (l : Layout) (store : Store) :
    (entries l store).map Prod.snd = (plan l.config store).map Emission.line := by
  have hline (rules scores : String) (es : List Emission) :
      (es.map (Emission.entry rules scores)).map Prod.snd = es.map Emission.line := by
    rw [List.map_map]
    rfl
  rw [entries, plan, List.map_append, List.map_append, List.map_flatMap, List.map_flatMap,
    globalEntries, hline]
  congr 1
  exact List.flatMap_congr fun source _ => hline _ _ _

theorem entry_toRules (rules scores : String) (lines : List Line) :
    (toRules lines).map (Emission.entry rules scores) = lines.map (rules, ·) := by
  rw [toRules, List.map_map]
  rfl

theorem entry_toScores (rules scores : String) (lines : List Line) :
    (toScores lines).map (Emission.entry rules scores) = lines.map (scores, ·) := by
  rw [toScores, List.map_map]
  rfl

theorem heading_eq (single : Bool) (title : String) :
    heading single title = toRules (if single then banner title else []) := by
  cases single <;> rfl

/-! ### Generations on their way -/

/-- The generation has the layout and has written the entries. -/
structure Wrote (l : Layout) (es : List (String × Line)) (g : Generation) : Prop where
  layout : g.layout = l
  buffers : g.buffers.Holds es

variable {l : Layout} {es : List (String × Line)} {g g' : Generation}

theorem ends_place {α : Type} {a : Action Layout α} {x : α} (h : Ends (place a) g x g') :
    ∃ m, Ends a g.layout x m ∧ g' = { g with layout := m } :=
  ends_on h

/-- Looking for an artifact whose path is chosen finds it and leaves the generation as it is. -/
theorem Wrote.known {k : ArtifactKey} {p r : String} {m : Layout} {choice : Layout → Prop}
    (hg : Wrote l es g) (hp : l.path? k = some p) (h : Found k r g.layout choice m) :
    r = pathAt l k ∧ { g with layout := m } = g := by
  rw [← hg.layout] at hp ⊢
  cases h with
  | known hr =>
    rw [pathAt, hr]
    exact ⟨rfl, rfl⟩
  | chosen hnone =>
    rw [hnone] at hp
    cases hp

theorem Wrote.open {path : String} {u : Unit} (hg : Wrote l es g) (h : Ends (openPath path) g u g') :
    Wrote l es g' := by
  have hg' := ends_modify h
  rw [hg']
  exact ⟨hg.layout, hg.buffers.open path⟩

/-- The path of an artifact that is chosen is opened, and what follows goes on with that path. -/
theorem Wrote.opens {α : Type} {file : Action Layout String} {rest : String → Action Generation α}
    {k : ArtifactKey} {p : String} {x : α} {choice : Layout → String → Layout → Prop}
    (hg : Wrote l es g) (hp : l.path? k = some p)
    (hfile : ∀ {l r m}, Ends file l r m → Found k r l (choice l r) m)
    (h : Ends (place file >>= fun path => openPath path >>= fun _ => rest path) g x g') :
    ∃ g₁, Wrote l es g₁ ∧ Ends (rest (pathAt l k)) g₁ x g' := by
  obtain ⟨path, _, hplace, h₁⟩ := ends_bind h
  obtain ⟨_, hends, rfl⟩ := ends_place hplace
  obtain ⟨rfl, hsame⟩ := hg.known hp (hfile hends)
  rw [hsame] at h₁
  obtain ⟨_, g₁, hopen, hrest⟩ := ends_bind h₁
  exact ⟨g₁, hg.open hopen, hrest⟩

theorem holds_written {rules scores : String} {lines : List Emission} {b : Buffers Line}
    (hb : b.Holds es) :
    (lines.foldl (fun b e => b.append (if e.toScores then scores else rules) [e.line]) b).Holds
      (es ++ lines.map (Emission.entry rules scores)) := by
  induction lines generalizing b es with
  | nil => simpa using hb
  | cons e rest ih =>
    rw [List.foldl_cons, List.map_cons, List.append_cons]
    exact ih (hb.append _ [e.line])

theorem Wrote.write {rules scores : String} {lines : List Emission} {u : Unit} (hg : Wrote l es g)
    (h : Ends (write rules scores lines) g u g') :
    Wrote l (es ++ lines.map (Emission.entry rules scores)) g' := by
  unfold Generation.write at h
  have hg' := ends_modify h
  rw [hg']
  exact ⟨hg.layout, holds_written hg.buffers⟩

theorem Wrote.familyOf {source family : String} (hg : Wrote l es g)
    (h : Ends (familyOf source) g family g') :
    familyAt l.config.id source = family ∧ g' = g := by
  obtain ⟨_, _, hget, hrest⟩ := ends_bind h
  obtain ⟨rfl, rfl⟩ := ends_get hget
  rw [hg.layout] at hrest
  split at hrest
  next family' hfamily =>
    obtain ⟨rfl, rfl⟩ := ends_pure hrest
    exact ⟨familyAt_eq hfamily, rfl⟩
  next => exact absurd hrest not_ends_fail

theorem Wrote.openSource {source : String} {paths : String × String} (hg : Wrote l es g)
    (hp : Placed l source) (h : Ends (openSource source) g paths g') :
    paths = (pathAt l (rulesKey source), pathAt l (scoresKey source)) ∧ Wrote l es g' := by
  obtain ⟨⟨p, hp⟩, q, hq⟩ := hp
  obtain ⟨_, hg, h₁⟩ := hg.opens hp ends_rulesFile h
  obtain ⟨_, hg, h₂⟩ := hg.opens hq ends_scoresFile h₁
  obtain ⟨rfl, rfl⟩ := ends_pure h₂
  exact ⟨rfl, hg⟩

/-- The family and the paths of a source are found, and what follows goes on with them. -/
theorem Wrote.opensSource {α : Type} {source : String}
    {rest : String → String × String → Action Generation α} {x : α} (hg : Wrote l es g)
    (hp : Placed l source)
    (h : Ends (Generation.familyOf source >>= fun family =>
      Generation.openSource source >>= fun paths => rest family paths) g x g') :
    ∃ g₁, Wrote l es g₁ ∧ Ends (rest (familyAt l.config.id source)
      (pathAt l (rulesKey source), pathAt l (scoresKey source))) g₁ x g' := by
  obtain ⟨family, _, hfamily, h₁⟩ := ends_bind h
  obtain ⟨rfl, rfl⟩ := hg.familyOf hfamily
  obtain ⟨paths, g₁, hopen, hrest⟩ := ends_bind h₁
  obtain ⟨rfl, hg⟩ := hg.openSource hp hopen
  exact ⟨g₁, hg, hrest⟩

/-! ### The emitters -/

theorem components_entry (rules scores other : String) (single : Bool) (family : String)
    (set : RuleSet) (words : List String) :
    (components single family set words).map (Emission.entry rules scores) =
      (components single family set words).map (Emission.entry rules other) := by
  rw [components, heading_eq, List.map_append, List.map_append]
  simp only [entry_toRules]

theorem Wrote.components {store : Store} {source : String} {u : Unit} (hg : Wrote l es g)
    (hp : Placed l source) (h : Ends (generateComponents store source) g u g') :
    Wrote l (es ++ (Generation.components l.config.isSingle (familyAt l.config.id source)
      (rulesAt store source) (store.componentWords source)).map
        (Emission.entry (pathAt l (rulesKey source)) (pathAt l (scoresKey source)))) g' := by
  obtain ⟨⟨p, hp⟩, -⟩ := hp
  obtain ⟨family, _, hfamily, h₁⟩ := ends_bind h
  obtain ⟨rfl, rfl⟩ := hg.familyOf hfamily
  obtain ⟨_, hg, h₂⟩ := hg.opens hp ends_rulesFile h₁
  obtain ⟨_, _, hdebug, h₃⟩ := ends_bind h₂
  obtain rfl := ends_debug hdebug
  obtain ⟨_, _, hget, h₄⟩ := ends_bind h₃
  obtain ⟨rfl, rfl⟩ := ends_get hget
  have hwrite := hg.write h₄
  rw [hg.layout, components_entry _ _ (pathAt l (scoresKey source))] at hwrite
  exact hwrite

theorem Wrote.scored {store : Store} {source : String} {u : Unit} (hg : Wrote l es g)
    (hp : Placed l source) (h : Ends (generateScored store source) g u g') :
    Wrote l (es ++ (scoredPlan l.config.isSingle (familyAt l.config.id source)
      (rulesAt store source)).map
        (Emission.entry (pathAt l (rulesKey source)) (pathAt l (scoresKey source)))) g' := by
  unfold generateScored at h
  dsimp only at h
  rw [scoredPlan]
  split at h
  next hsome =>
    obtain ⟨_, hg, h₁⟩ := hg.opensSource hp h
    obtain ⟨_, _, hget, h₂⟩ := ends_bind h₁
    obtain ⟨rfl, rfl⟩ := ends_get hget
    have hwrite := hg.write h₂
    rw [hg.layout] at hwrite
    rw [if_neg (by simpa [rulesAt] using hsome)]
    exact hwrite
  next hnone =>
    obtain ⟨-, rfl⟩ := ends_pure h
    rw [if_pos (by simpa [rulesAt] using hnone), List.map_nil, List.append_nil]
    exact hg

theorem groupLines_eq {family group : String} {score : Score} {words : List String}
    {lines : List Emission} (h : groupLines family score group words = (lines, none)) :
    lines = groupPlan family score group words := by
  unfold groupLines at h
  dsimp only at h
  split at h
  next rules scores hthresholds =>
    obtain ⟨rfl, rfl⟩ := thresholds_eq_ok hthresholds
    obtain ⟨rfl, -⟩ := Prod.mk.inj h
    rw [groupPlan, List.length_map]
    rfl
  next => cases h

theorem groupsFrom_eq {family : String} {score : Score} {groups : List (String × List String)}
    {lines : List Emission} (h : groupsFrom family score groups = (lines, none)) :
    lines = groups.flatMap fun e => groupPlan family score e.1 e.2 := by
  induction groups generalizing lines with
  | nil =>
    cases h
    rfl
  | cons e rest ih =>
    obtain ⟨group, words⟩ := e
    unfold groupsFrom at h
    split at h
    next => cases h
    next first hfirst =>
      cases hlater : groupsFrom family score rest with
      | mk later outcome =>
        rw [hlater] at h
        obtain ⟨rfl, rfl⟩ := Prod.mk.inj h
        rw [List.flatMap_cons, ← groupLines_eq hfirst, ih hlater]

theorem Wrote.groups {store : Store} {source : String} {u : Unit} (hg : Wrote l es g)
    (hp : Placed l source) (h : Ends (generateGroups store source) g u g') :
    Wrote l (es ++ (groupsPlan l.config.isSingle (familyAt l.config.id source)
      (.real l.config.groupScore) (rulesAt store source)).map
        (Emission.entry (pathAt l (rulesKey source)) (pathAt l (scoresKey source)))) g' := by
  unfold generateGroups at h
  dsimp only at h
  rw [groupsPlan]
  split at h
  next hsome =>
    obtain ⟨_, hg, h₁⟩ := hg.opensSource hp h
    obtain ⟨_, _, hget, h₂⟩ := ends_bind h₁
    obtain ⟨rfl, rfl⟩ := ends_get hget
    obtain ⟨_, _, hwrite, h₃⟩ := ends_bind h₂
    replace hwrite := hg.write hwrite
    rw [hg.layout] at hwrite h₃
    split at h₃
    next => exact absurd h₃ not_ends_fail
    next houtcome =>
      obtain ⟨-, rfl⟩ := ends_pure h₃
      have hlines := groupsFrom_eq (Prod.ext rfl (Option.eq_none_iff_forall_ne_some.mpr houtcome))
      rw [if_neg (by simpa [rulesAt] using hsome), byKey, rulesAt, ← hlines]
      exact hwrite
  next hnone =>
    obtain ⟨-, rfl⟩ := ends_pure h
    rw [if_pos (by simpa [rulesAt] using hnone), List.map_nil, List.append_nil]
    exact hg

/-! ### The global words -/

theorem globalRefs_eq {id : String} {store : Store} {refs : List String}
    (h : globalRefs id store = .ok refs) : refs = globalComponents id store := by
  refine Outcome.mapM_eq_ok (fun e name he => ?_) h
  split at he
  next family hfamily => rw [familyAt_eq hfamily, ← Except.ok.inj he]
  next => cases he

theorem globals_eq {id : String} {score : Score} {refs : List String} {lines : List Emission}
    (h : globals id score refs = .ok lines) :
    lines = toRules (thresholdRules id refs)
      ++ toScores (thresholdScores id refs.length (thresholdText globalGroup id) score) := by
  unfold globals at h
  obtain ⟨⟨rules, scores⟩, hthresholds, hlines⟩ := Outcome.bind_eq_ok.mp h
  obtain ⟨rfl, rfl⟩ := thresholds_eq_ok hthresholds
  exact (Outcome.pure_eq_ok.mp hlines).symm

theorem Wrote.globals {store : Store} {u : Unit} (hg : Wrote l es g)
    (hp : ¬ store.origins.isEmpty = true →
      (∃ p, l.path? .global = some p) ∧ ∃ p, l.path? .globalScores = some p)
    (h : Ends (generateGlobals store) g u g') : Wrote l (es ++ globalEntries l store) g' := by
  unfold generateGlobals at h
  rw [globalEntries, globalPlan]
  split at h
  next hsome =>
    have hne : ¬ store.origins.isEmpty = true := by simpa using hsome
    obtain ⟨⟨p, hp⟩, q, hq⟩ := hp hne
    obtain ⟨_, hg, h₁⟩ := hg.opens hp ends_globalFile h
    obtain ⟨_, hg, h₂⟩ := hg.opens hq ends_globalScoresFile h₁
    obtain ⟨_, _, hget, h₃⟩ := ends_bind h₂
    obtain ⟨rfl, rfl⟩ := ends_get hget
    obtain ⟨_, _, hheading, h₄⟩ := ends_bind h₃
    rw [hg.layout] at hheading h₄
    have hg := hg.write hheading
    obtain ⟨refs, _, hget, h₅⟩ := ends_bind h₄
    obtain ⟨hrefs, rfl⟩ := ends_ofExcept hget
    split at h₅
    next lines hlines =>
      have hg := hg.write h₅
      rw [if_neg hne, ← globalRefs_eq hrefs, List.append_assoc, ← globals_eq hlines,
        List.map_append, ← List.append_assoc]
      exact hg
    next => exact absurd h₅ not_ends_fail
  next hnone =>
    obtain ⟨-, rfl⟩ := ends_pure h
    rw [if_pos (by simpa using hnone), List.map_nil, List.append_nil]
    exact hg

/-! ### A whole generation -/

/-- One round of generating: all that a source gives rise to. -/
def GenerateRound (store : Store) (source : String) (g g' : Generation) : Prop :=
  ∃ u₁ g₁ u₂ g₂ u₃, Ends (generateComponents store source) g u₁ g₁ ∧
    Ends (generateScored store source) g₁ u₂ g₂ ∧ Ends (generateGroups store source) g₂ u₃ g'

theorem Wrote.source {store : Store} {source : String} (hg : Wrote l es g) (hp : Placed l source)
    (h : GenerateRound store source g g') : Wrote l (es ++ sourceEntries l store source) g' := by
  obtain ⟨_, _, _, _, _, hcomponents, hscored, hgroups⟩ := h
  have hg := ((hg.components hp hcomponents).scored hp hscored).groups hp hgroups
  rw [List.append_assoc, List.append_assoc, ← List.map_append, ← List.map_append,
    ← List.append_assoc] at hg
  exact hg

theorem Wrote.sources {store : Store} {sources : List String} (hg : Wrote l es g)
    (hp : ∀ source ∈ sources, Placed l source)
    (h : Rounds (GenerateRound store) sources g g') :
    Wrote l (es ++ sources.flatMap (sourceEntries l store)) g' := by
  induction h generalizing es with
  | nil => simpa using hg
  | @cons source rest g r g' hround _ ih =>
    have hfirst := hg.source (hp source List.mem_cons_self) hround
    have hall := ih hfirst fun s hs => hp s (List.mem_cons_of_mem source hs)
    rwa [List.append_assoc, ← List.flatMap_cons] at hall

/-- What a generation of a store from the layout `l` that succeeds with the buffers `b` has done;
`m` is the layout that it resolved. -/
structure Generated (l m : Layout) (store : Store) (b : Buffers Line) : Prop where
  checked : checkNames l.config.id store (Text.sorted store.files.keys) = .ok ()
  resolved : ∃ u, Ends (resolveAll (Text.sorted store.files.keys)
    (!store.origins.isEmpty || l.config.isSingle)) l u m
  config : m.config = l.config
  holds : b.Holds (entries m store)

/-- The lines of a generation are those of the plan. -/
theorem Generated.mem_iff {m : Layout} {store : Store} {b : Buffers Line} (h : Generated l m store b)
    {line : Line} :
    line ∈ b.inLoadOrder ↔ ∃ e ∈ plan l.config store, e.line = line := by
  rw [h.holds.perm.mem_iff, entries_lines, h.config, List.mem_map]

/-- A line at a path is one of a source or of the global words. -/
theorem Generated.mem_linesAt {m : Layout} {store : Store} {b : Buffers Line}
    (h : Generated l m store b) {path : String} {line : Line} (hline : line ∈ b.linesAt path) :
    ∃ e : Emission, ((∃ source ∈ store.files.keys, e ∈ sourcePlan l.config store source) ∨
      e ∈ globalPlan l.config store) ∧ e.line = line := by
  obtain ⟨e, he, rfl⟩ := h.mem_iff.mp (Buffers.mem_inLoadOrder hline)
  refine ⟨e, (List.mem_append.mp he).imp_left fun he => ?_, rfl⟩
  obtain ⟨source, hs, he⟩ := List.mem_flatMap.mp he
  exact ⟨source, Text.mem_sorted.mp hs, he⟩

/-- Without sources and global words there is nothing to write. -/
theorem Generated.nonEmpty_eq_nil {m : Layout} {store : Store} {b : Buffers Line}
    (h : Generated l m store b) (hsources : store.files.keys = [])
    (horigins : store.origins.isEmpty = true) : b.nonEmpty = [] := by
  refine List.eq_nil_iff_forall_not_mem.mpr fun path hpath => ?_
  obtain ⟨line, hline⟩ := List.exists_mem_of_ne_nil _ (Buffers.mem_nonEmpty.mp hpath)
  obtain ⟨e, ⟨source, hs, -⟩ | he, -⟩ := h.mem_linesAt hline
  · rw [hsources] at hs
    cases hs
  · rw [globalPlan, if_pos horigins] at he
    cases he

theorem resolved_extends {sources : List String} {withGlobal : Bool} {u : Unit} {l m : Layout}
    (h : Ends (resolveAll sources withGlobal) l u m) :
    Extends l m ∧ (∀ source ∈ sources, Placed m source) ∧
      (withGlobal = true →
        (∃ p, m.path? .global = some p) ∧ ∃ p, m.path? .globalScores = some p) := by
  obtain ⟨r, hrounds, hglobal, -⟩ := ends_resolveAll h
  obtain ⟨hext, hplaced⟩ := rounds_extends hrounds
  split at hglobal
  next =>
    obtain ⟨hlast, hpaths⟩ := hglobal.extends
    refine ⟨hext.trans hlast, fun source hs => ?_, fun _ => hpaths⟩
    obtain ⟨⟨p, hp⟩, q, hq⟩ := hplaced source hs
    exact ⟨⟨p, hlast.path? _ _ hp⟩, q, hlast.path? _ _ hq⟩
  next hnot =>
    rw [hglobal]
    exact ⟨hext, hplaced, fun htrue => absurd htrue hnot⟩

theorem entry_path (rules scores : String) (e : Emission) :
    (e.entry rules scores).1 = rules ∨ (e.entry rules scores).1 = scores := by
  rw [Emission.entry]
  split
  · exact .inr rfl
  · exact .inl rfl

/-- Every path that has lines is one of the layout. -/
theorem Generated.known {m : Layout} {store : Store} {b : Buffers Line} (h : Generated l m store b)
    {path : String} (hlines : b.linesAt path ≠ []) : ∃ k, m.path? k = some path := by
  obtain ⟨_, hresolved⟩ := h.resolved
  obtain ⟨-, hplaced, hglobal⟩ := resolved_extends hresolved
  have hfound {k₁ k₂ : ArtifactKey} (hk₁ : ∃ p, m.path? k₁ = some p)
      (hk₂ : ∃ p, m.path? k₂ = some p) (e : Emission)
      (he : (e.entry (m.pathAt k₁) (m.pathAt k₂)).1 = path) : ∃ k, m.path? k = some path := by
    obtain ⟨p, hp⟩ := hk₁
    obtain ⟨q, hq⟩ := hk₂
    rw [pathAt_eq hp, pathAt_eq hq] at he
    rcases entry_path p q e with hpath | hpath
    · exact ⟨k₁, by rw [hp, ← he, hpath]⟩
    · exact ⟨k₂, by rw [hq, ← he, hpath]⟩
  rw [h.holds path] at hlines
  obtain ⟨line, hline⟩ := List.exists_mem_of_ne_nil _ hlines
  rw [Buffers.mem_linesOf, entries, List.mem_append] at hline
  rcases hline with hsource | hlast
  · obtain ⟨source, hs, hentry⟩ := List.mem_flatMap.mp hsource
    obtain ⟨e, -, he⟩ := List.mem_map.mp hentry
    obtain ⟨hrules, hscores⟩ := hplaced source hs
    exact hfound hrules hscores e (congrArg Prod.fst he)
  · obtain ⟨e, hplan, he⟩ := List.mem_map.mp hlast
    have hwords : ¬ store.origins.isEmpty = true := by
      intro hnone
      rw [globalPlan, if_pos hnone] at hplan
      cases hplan
    obtain ⟨hrules, hscores⟩ := hglobal (by simp [hwords])
    exact hfound hrules hscores e (congrArg Prod.fst he)

/-- What a generation does once the names are checked and the layout is resolved. -/
def emitAll (store : Store) : Action Generation (Buffers Line) := do
  for source in Text.sorted store.files.keys do
    generateComponents store source
    generateScored store source
    generateGroups store source
  generateGlobals store
  return (← Action.get).buffers

theorem ends_emitAll {store : Store} {b : Buffers Line} (hg : Wrote l [] g)
    (hplaced : ∀ source ∈ Text.sorted store.files.keys, Placed l source)
    (hglobal : ¬ store.origins.isEmpty = true →
      (∃ p, l.path? .global = some p) ∧ ∃ p, l.path? .globalScores = some p)
    (h : Ends (emitAll store) g b g') : b.Holds (entries l store) ∧ g'.layout = l := by
  obtain ⟨_, last, hloop, h₁⟩ := ends_bind h
  have hrounds : Rounds (GenerateRound store) (Text.sorted store.files.keys) g last := by
    refine ends_forIn ?_ hloop
    intro source u g next g' hround
    obtain ⟨_, _, hcomponents, hround₁⟩ := ends_bind hround
    obtain ⟨_, _, hscored, hround₂⟩ := ends_bind hround₁
    obtain ⟨_, _, hgroups, hround₃⟩ := ends_bind hround₂
    obtain ⟨rfl, rfl⟩ := ends_pure hround₃
    exact ⟨rfl, _, _, _, _, _, hcomponents, hscored, hgroups⟩
  have hsources := hg.sources hplaced hrounds
  obtain ⟨_, _, hglobals, h₂⟩ := ends_bind h₁
  have hall := hsources.globals hglobal hglobals
  obtain ⟨_, _, hget, hpure⟩ := ends_bind h₂
  obtain ⟨rfl, rfl⟩ := ends_get hget
  obtain ⟨rfl, rfl⟩ := ends_pure hpure
  exact ⟨hall.buffers, hall.layout⟩

/-- A generation that ends has written the plan of the store, and nothing else; it leaves the
layout that it resolved. -/
theorem ends_generate {store : Store} {l : Layout} {b : Buffers Line}
    (h : Ends (generate store) { layout := l } b g) : Generated l g.layout store b := by
  obtain ⟨_, _, hget, h₁⟩ := ends_bind h
  obtain ⟨rfl, rfl⟩ := ends_get hget
  obtain ⟨_, _, hchecks, h₂⟩ := ends_bind h₁
  obtain ⟨hcheck, rfl⟩ := ends_ofExcept hchecks
  obtain ⟨_, _, hplace, h₃⟩ := ends_bind h₂
  obtain ⟨m, hresolve, rfl⟩ := ends_place hplace
  obtain ⟨hext, hplaced, hglobal⟩ := resolved_extends hresolve
  have hstart : Wrote m [] ({ layout := m } : Generation) := ⟨rfl, Buffers.holds_empty⟩
  obtain ⟨hholds, hlayout⟩ := ends_emitAll hstart hplaced (fun hne => hglobal (by simp [hne])) h₃
  rw [hlayout]
  exact ⟨hcheck, ⟨_, hresolve⟩, hext.config, hholds⟩

theorem generate_eq_ok {store : Store} {l : Layout} {b : Buffers Line}
    (h : ((generate store).run { layout := l }).1 = .ok b) : ∃ m, Generated l m store b :=
  ⟨_, ends_generate (ends_run h)⟩

/-- Where the check passes, the paths can be chosen without a clash and every template can be filled,
the generation succeeds. -/
theorem generate_succeeds {store : Store} {l : Layout}
    (hcheck : checkNames l.config.id store (Text.sorted store.files.keys) = .ok ())
    {chosen : Except Fault Unit × Layout × List Notice}
    (hchosen : (chooseAll (Text.sorted store.files.keys)
      (!store.origins.isEmpty || l.config.isSingle)).run l = chosen)
    (hpaths : chosen.1 = .ok ()) (hclash : chosen.2.1.clash? = none)
    (hemit : (exec (emitAll store) ⟨{ layout := chosen.2.1 }, chosen.2.2⟩).1.isOk = true) :
    ∃ b, ((generate store).run { layout := l }).1 = .ok b := by
  have hresolve : (resolveAll (Text.sorted store.files.keys)
      (!store.origins.isEmpty || l.config.isSingle)).run l = chosen := by
    rw [← hchosen] at hpaths hclash ⊢
    exact run_resolveAll hpaths hclash
  have hplace : exec (place (resolveAll (Text.sorted store.files.keys)
      (!store.origins.isEmpty || l.config.isSingle))) ⟨{ layout := l }, []⟩ =
        (.ok (), ⟨{ layout := chosen.2.1 }, chosen.2.2⟩) := by
    rw [place, exec_on, hresolve, hpaths]
    rfl
  have hrun : ((generate store).run { layout := l }).1 =
      (exec (emitAll store) ⟨{ layout := chosen.2.1 }, chosen.2.2⟩).1 := by
    rw [run_eq_exec, generate, exec_bind, exec_get]
    dsimp only
    rw [exec_bind, exec_ofExcept, hcheck]
    dsimp only
    rw [exec_bind, hplace]
    rfl
  rw [hrun]
  exact Outcome.exists_of_isOk hemit

end MailRules.Generation
