import MailRules.Proofs.Generation.PhysicalLines
import MailRules.Proofs.Text.Template

/-! Nothing but names and paths can end a generation early.

A generation looks for file names, fills templates and follows the origins of global words, and any
of this may fail for a store of another kind. For one that is filled from texts, under keys that
have file names, all of it is defined: a step fails only where names or paths clash
(`generate_fails_by_name`). -/
namespace MailRules

/-- The fault of names or paths that clash. -/
def IsNaming (f : Fault) : Prop := ∃ e, f = .naming e

/-- Every file of the store has a name to make file names of. -/
def Store.Named (s : Store) : Prop := ∀ source ∈ s.files.keys, (FileName.segment? source).isSome

namespace Layout

open MailRules.Action

variable {c : Config} {source : String}

/-- The layout has the configuration. -/
def Has (c : Config) (l : Layout) : Prop := l.config = c

theorem guarded_enter (k : ArtifactKey) (path : String) :
    Guarded (Has c) IsNaming
      (do Action.modify (·.assign k path); return path : Action Layout String) :=
  (guarded_modify fun _ hl => hl).bind fun _ _ _ _ => guarded_pure _

theorem guarded_rulesFile (hsource : (FileName.segment? source).isSome) :
    Guarded (Has c) IsNaming (rulesFile source) := by
  obtain ⟨segment, hsegment⟩ := Option.isSome_iff_exists.mp hsource
  refine guarded_get_bind fun l _ => ?_
  split
  next => exact guarded_pure _
  next =>
    dsimp only
    rw [hsegment]
    split
    next => exact (guarded_pure _).bind fun _ _ _ _ => guarded_enter _ _
    next => exact (guarded_pure _).bind fun _ _ _ _ => guarded_enter _ _

theorem guarded_scoresFile (hsource : (FileName.segment? source).isSome) :
    Guarded (Has c) IsNaming (scoresFile source) := by
  refine guarded_get_bind fun l _ => ?_
  split
  next => exact guarded_pure _
  next =>
    dsimp only
    have hrules := guarded_rulesFile (c := c) hsource
    split
    next => exact hrules.bind fun _ _ _ _ => guarded_enter _ _
    next =>
      split
      next => exact (guarded_pure _).bind fun _ _ _ _ => guarded_enter _ _
      next => exact hrules.map.bind fun _ _ _ _ => guarded_enter _ _

theorem guarded_globalFile : Guarded (Has c) IsNaming globalFile := by
  refine guarded_get_bind fun l _ => ?_
  split
  next => exact guarded_pure _
  next =>
    split
    next => exact guarded_fail ⟨_, rfl⟩
    next => exact (guarded_debug _).bind fun _ _ _ _ => guarded_enter _ _

theorem guarded_globalScoresFile : Guarded (Has c) IsNaming globalScoresFile := by
  refine guarded_get_bind fun l _ => ?_
  split
  next => exact guarded_pure _
  next =>
    refine guarded_globalFile.bind fun _ rules _ _ => guarded_get_bind fun _ _ => ?_
    split
    next => exact guarded_fail ⟨_, rfl⟩
    next => exact (guarded_debug _).bind fun _ _ _ _ => guarded_enter _ _

theorem guarded_validate : Guarded (Has c) IsNaming validate := by
  refine guarded_get_bind fun l _ => ?_
  split
  next => exact guarded_fail ⟨_, rfl⟩
  next => exact guarded_pure _

theorem guarded_resolveAll {sources : List String}
    (hnamed : ∀ source ∈ sources, (FileName.segment? source).isSome) (withGlobal : Bool) :
    Guarded (Has c) IsNaming (resolveAll sources withGlobal) := by
  refine Guarded.bind (guarded_forIn (fun source hs _ => ?_) _) fun _ _ _ _ => ?_
  · refine (guarded_rulesFile (hnamed source hs)).discard.bind fun _ _ _ _ => ?_
    refine (guarded_scoresFile (hnamed source hs)).discard.bind fun _ _ _ _ => ?_
    exact guarded_pure _
  · dsimp only
    split
    next =>
      refine guarded_globalFile.discard.bind fun _ _ _ _ => ?_
      exact guarded_globalScoresFile.discard.bind fun _ _ _ _ => guarded_validate
    next => exact guarded_validate

end Layout

namespace Generation

open Rule Text MailRules.Action

variable {c : Config} {store : Store} {source : String}

/-! ### Templates -/

/-- The text about a threshold, for texts without braces. -/
theorem fill_thresholdText {group family : String} (hgroup : Unbraced group.toList)
    (hfamily : Unbraced family.toList) (count : Nat) :
    fill (thresholdValue count) (thresholdText group family) =
      .ok ("Found " ++ toString count ++ " " ++ group ++ " word" ++ (if count > 1 then "s" else "")
        ++ " from " ++ family) := by
  have htext : (thresholdText group family).toList =
      "Found ".toList ++ '\x7b' :: ("count".toList ++ '\x7d' ::
        (((' ' :: group.toList) ++ " word".toList) ++ '\x7b' :: ("plural".toList ++ '\x7d' ::
          ((" from ".toList ++ family.toList) ++ [])))) := by
    unfold thresholdText
    simp [String.toList_append]
  have hword : Unbraced ((' ' :: group.toList) ++ " word".toList) :=
    (Unbraced.append (s := [' ']) (by decide) hgroup).append (by decide)
  have hfrom : Unbraced (" from ".toList ++ family.toList) := Unbraced.append (by decide) hfamily
  have hcount : thresholdValue count (String.ofList "count".toList) = some (toString count) := rfl
  have hplural : thresholdValue count (String.ofList "plural".toList) =
      some (if count > 1 then "s" else "") := rfl
  rw [fill, htext, fillFrom_unbraced (by decide), fillFrom_place (by decide) rfl (by decide) hcount,
    fillFrom_unbraced hword, fillFrom_place (by decide) rfl (by decide) hplural,
    fillFrom_unbraced hfrom]
  refine congrArg Except.ok ?_
  rw [← String.toList_inj]
  simp [String.toList_append]

theorem unbraced_of_capital {s : String} (h : isCapitalText s = true) : Unbraced s.toList := by
  rw [isCapitalText, List.all_eq_true] at h
  exact ⟨fun hm => absurd (h _ hm) (by decide), fun hm => absurd (h _ hm) (by decide)⟩

/-- An identifier has no braces. -/
theorem unbraced_id {v : Value} {id : String} (h : Config.checkId v = .ok id) :
    Unbraced id.toList := by
  have hletters := (Config.checkId_letters h).2
  exact ⟨fun hm => absurd (hletters _ hm (by decide)) (by decide +kernel),
    fun hm => absurd (hletters _ hm (by decide)) (by decide +kernel)⟩

/-- Thresholds over texts without braces can be described. -/
theorem thresholds_defined {group family : String} (hgroup : Unbraced group.toList)
    (hfamily : Unbraced family.toList) (name : String) (refs : List String) (score : Score)
    (e : TemplateError) :
    thresholds name refs (thresholdText group family) score ≠ .error e := by
  intro h
  rcases Outcome.bind_eq_error.mp h with hscores | ⟨_, -, hpure⟩
  · obtain ⟨count, -, hcount⟩ := Outcome.mapM_eq_error hscores
    rw [fill_thresholdText hgroup hfamily] at hcount
    cases hcount
  · cases hpure

theorem groups_defined {single : Bool} {family : String} {score : Score} {rules : RuleSet}
    (hrules : rules.Clean) (hfamily : Unbraced family.toList) :
    (groups single family score rules).2 = none := by
  have hall : ∀ (l : List (String × List String)), (∀ e ∈ l, Unbraced e.1.toList) →
      (groupsFrom family score l).2 = none := by
    intro l
    induction l with
    | nil => exact fun _ => rfl
    | cons e rest ih =>
      intro h
      rw [List.forall_mem_cons] at h
      obtain ⟨group, words⟩ := e
      have hgroup : (groupLines family score group words).2 = none := by
        rw [groupLines]
        split
        next => rfl
        next e he => exact absurd he (thresholds_defined h.1 hfamily _ _ _ _)
      rw [groupsFrom]
      split
      next lines e hlines =>
        rw [hlines] at hgroup
        cases hgroup
      next => exact ih h.2
  refine hall _ fun e he => ?_
  have hentry := Assoc.get?_eq_some_iff.mpr (List.mem_mergeSort.mp he)
  exact unbraced_of_capital (group_capital (hrules.groups _ _ hentry).1)

/-! ### Names -/

theorem family?_isSome (id : String) (h : (FileName.segment? source).isSome) :
    ∃ family, family? id source = some family := by
  obtain ⟨segment, hsegment⟩ := Option.isSome_iff_exists.mp h
  exact ⟨_, by rw [family?, hsegment, Option.map_some]⟩

theorem enterSource_naming {names : Names} {id : String}
    (h : (FileName.segment? source).isSome) {f : Fault}
    (hf : names.enterSource id store source = .error f) : IsNaming f := by
  obtain ⟨family, hfamily⟩ := family?_isSome id h
  rw [Names.enterSource, hfamily] at hf
  dsimp only at hf
  have hnaming {α : Type} {x : Except NamingError α} (hx : x.mapError Fault.naming = .error f) :
      IsNaming f := by
    obtain ⟨e, -, rfl⟩ := Outcome.mapError_eq_error hx
    exact ⟨e, rfl⟩
  split at hf
  next => exact ⟨_, (Except.error.inj hf).symm⟩
  next =>
    rcases Outcome.bind_eq_error.mp hf with hwords | ⟨_, -, hf⟩
    · exact hnaming hwords
    · rcases Outcome.bind_eq_error.mp hf with henter | ⟨_, -, hpure⟩
      · exact hnaming henter
      · cases hpure

theorem checkNames_naming {id : String} {sources : List String}
    (h : ∀ source ∈ sources, (FileName.segment? source).isSome) {f : Fault}
    (hf : checkNames id store sources = .error f) : IsNaming f := by
  have hall : ∀ (l : List String) (names : Names),
      (∀ source ∈ l, (FileName.segment? source).isSome) →
      l.foldlM (fun (n : Names) source => n.enterSource id store source) names = .error f →
        IsNaming f := by
    intro l
    induction l with
    | nil =>
      intro _ _ hf
      cases hf
    | cons source rest ih =>
      intro names hl hf
      rw [List.forall_mem_cons] at hl
      rw [List.foldlM_cons] at hf
      rcases Outcome.bind_eq_error.mp hf with hf | ⟨next, -, hf⟩
      · exact enterSource_naming hl.1 hf
      · exact ih next hl.2 hf
  rcases Outcome.bind_eq_error.mp hf with hf | ⟨names, -, hf⟩
  · exact hall sources _ h hf
  · obtain ⟨e, -, rfl⟩ := Outcome.mapError_eq_error (Outcome.map_eq_error hf)
    exact ⟨e, rfl⟩

/-! ### The emitters -/

/-- The generation has the configuration. -/
def Has (c : Config) (g : Generation) : Prop := g.layout.config = c

theorem guarded_place {α : Type} {a : Action Layout α} (ha : Guarded (Layout.Has c) IsNaming a) :
    Guarded (Has c) IsNaming (place a) :=
  ha.on (fun _ hg => hg) fun _ _ _ hl => hl

theorem guarded_openPath (path : String) : Guarded (Has c) IsNaming (openPath path) :=
  guarded_modify fun _ hg => hg

theorem guarded_write (rules scores : String) (lines : List Emission) :
    Guarded (Has c) IsNaming (write rules scores lines) :=
  guarded_modify fun _ hg => hg

theorem guarded_familyOf (h : (FileName.segment? source).isSome) :
    Guarded (Has c) IsNaming (familyOf source) := by
  refine guarded_get_bind fun g _ => ?_
  obtain ⟨family, hfamily⟩ := family?_isSome g.layout.config.id h
  rw [hfamily]
  exact guarded_pure _

theorem ends_familyOf {family : String} {g g' : Generation}
    (h : Ends (familyOf source) g family g') : ∃ id, family? id source = some family := by
  obtain ⟨_, _, hget, hrest⟩ := ends_bind h
  split at hrest
  next family' hfamily =>
    obtain ⟨rfl, -⟩ := ends_pure hrest
    exact ⟨_, hfamily⟩
  next => exact absurd hrest not_ends_fail

theorem guarded_openSource (h : (FileName.segment? source).isSome) :
    Guarded (Has c) IsNaming (openSource source) := by
  refine (guarded_place (Layout.guarded_rulesFile h)).bind fun _ _ _ _ => ?_
  refine (guarded_openPath _).bind fun _ _ _ _ => ?_
  refine (guarded_place (Layout.guarded_scoresFile h)).bind fun _ _ _ _ => ?_
  exact (guarded_openPath _).bind fun _ _ _ _ => guarded_pure _

theorem guarded_components (h : (FileName.segment? source).isSome) :
    Guarded (Has c) IsNaming (generateComponents store source) := by
  refine (guarded_familyOf h).bind fun _ _ _ _ => ?_
  refine (guarded_place (Layout.guarded_rulesFile h)).bind fun _ _ _ _ => ?_
  refine (guarded_openPath _).bind fun _ _ _ _ => (guarded_debug _).bind fun _ _ _ _ => ?_
  exact guarded_get_bind fun _ _ => guarded_write _ _ _

theorem guarded_scored (h : (FileName.segment? source).isSome) :
    Guarded (Has c) IsNaming (generateScored store source) := by
  unfold generateScored
  dsimp only
  split
  next =>
    refine (guarded_familyOf h).bind fun _ _ _ _ => ?_
    refine (guarded_openSource h).bind fun _ _ _ _ => ?_
    exact guarded_get_bind fun _ _ => guarded_write _ _ _
  next => exact guarded_pure _

theorem guarded_groups (hstore : store.Clean) (h : (FileName.segment? source).isSome) :
    Guarded (Has c) IsNaming (generateGroups store source) := by
  unfold generateGroups
  dsimp only
  split
  next =>
    refine (guarded_familyOf h).bind fun _ family _ hends => ?_
    obtain ⟨id, hfamily⟩ := ends_familyOf hends
    refine (guarded_openSource h).bind fun _ _ _ _ => guarded_get_bind fun _ _ => ?_
    have hunbraced := unbraced_of_capital (family_capital hfamily)
    have hdefined (single : Bool) (score : Score) :
        (groups single family score ((store.files.get? source).getD {})).2 = none :=
      groups_defined (rulesAt_clean hstore source) hunbraced
    refine (guarded_write _ _ _).bind fun _ _ _ _ => ?_
    split
    next e he =>
      rw [hdefined] at he
      cases he
    next => exact guarded_pure _
  next => exact guarded_pure _

theorem globalRefs_defined (horigins : store.OriginsKnown) (hnamed : store.Named) (id : String)
    (f : Fault) : globalRefs id store ≠ .error f := by
  intro h
  obtain ⟨⟨word, origin⟩, hentry, hfails⟩ := Outcome.mapM_eq_error h
  have horigin := Assoc.get?_eq_some_iff.mpr (List.mem_mergeSort.mp hentry)
  obtain ⟨family, hfamily⟩ := family?_isSome id (hnamed _ (horigins _ _ horigin))
  rw [hfamily] at hfails
  cases hfails

theorem globals_defined {id : String} (hid : Unbraced id.toList) (score : Score)
    (refs : List String) (e : TemplateError) : globals id score refs ≠ .error e := by
  intro h
  rcases Outcome.bind_eq_error.mp h with h | ⟨_, -, hpure⟩
  · exact thresholds_defined (by decide) hid _ _ _ _ h
  · cases hpure

theorem guarded_globals (horigins : store.OriginsKnown) (hnamed : store.Named)
    (hid : Unbraced c.id.toList) : Guarded (Has c) IsNaming (generateGlobals store) := by
  unfold generateGlobals
  split
  next =>
    refine (guarded_place Layout.guarded_globalFile).bind fun _ _ _ _ => ?_
    refine (guarded_openPath _).bind fun _ _ _ _ => ?_
    refine (guarded_place Layout.guarded_globalScoresFile).bind fun _ _ _ _ => ?_
    refine (guarded_openPath _).bind fun _ _ _ _ => guarded_get_bind fun g hg => ?_
    refine (guarded_write _ _ _).bind fun _ _ _ _ => ?_
    have hrefs (f : Fault) (hf : globalRefs g.layout.config.id store = .error f) : IsNaming f :=
      absurd hf (globalRefs_defined horigins hnamed _ f)
    refine (guarded_ofExcept hrefs).bind fun _ refs _ _ => ?_
    split
    next => exact guarded_write _ _ _
    next e he =>
      replace hg : g.layout.config = c := hg
      rw [hg] at he
      exact absurd he (globals_defined hid _ _ _)
  next => exact guarded_pure _

/-! ### Whole generations -/

theorem guarded_generate (hstore : store.FromText) (hnamed : store.Named)
    (hid : Unbraced c.id.toList) : Guarded (Has c) IsNaming (generate store) := by
  have hsources : ∀ source ∈ Text.sorted store.files.keys, (FileName.segment? source).isSome :=
    fun source hs => hnamed source (Text.mem_sorted.mp hs)
  refine guarded_get_bind fun g hg => ?_
  refine (guarded_ofExcept fun f hf => checkNames_naming hsources hf).bind fun _ _ _ _ => ?_
  refine (guarded_place (Layout.guarded_resolveAll hsources _)).bind fun _ _ _ _ => ?_
  refine (guarded_forIn (fun source hs _ => ?_) _).bind fun _ _ _ _ => ?_
  · refine (guarded_components (hsources source hs)).bind fun _ _ _ _ => ?_
    refine (guarded_scored (hsources source hs)).bind fun _ _ _ _ => ?_
    exact (guarded_groups hstore.clean (hsources source hs)).bind fun _ _ _ _ => guarded_pure _
  · refine (guarded_globals (hstore.originsKnown) hnamed hid).bind fun _ _ _ _ => ?_
    exact guarded_get_bind fun _ _ => guarded_pure _

end Generation

end MailRules
