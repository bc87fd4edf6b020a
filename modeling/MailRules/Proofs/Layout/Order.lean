import MailRules.Proofs.Layout.Choice
import MailRules.Proofs.Layout.FileName

/-! The order of the paths of a layout that nothing is pinned in.

While the sources get their paths, the layout stays `Ordered`: each source has its rules where its
name puts them, and its scores not before them. The rules over all files then come after those of
every source, since two of the names that are tried are compared with the last of them and the
third has a higher priority, and their scores come after them (`resolved_inOrder`). -/
namespace MailRules.Layout

open MailRules.Action

/-- The sources have the paths that their names give them; the artifacts over all files have none. -/
structure Ordered (l : Layout) : Prop where
  rules : ∀ source p, l.path? (rulesKey source) = some p → l.ownPath? source = some p
  scores : ∀ source q, l.path? (scoresKey source) = some q →
    ∃ p, l.ownPath? source = some p ∧ p ≤ q
  global : l.path? .global = none
  globalScores : l.path? .globalScores = none

theorem ordered_unpinned (config : Config) : Ordered { config } where
  rules _ _ h := by cases h
  scores _ _ h := by cases h
  global := rfl
  globalScores := rfl

variable {l m : Layout} {source p q : String}

/-- Entering an artifact of a source leaves those over all files as they are. -/
theorem path?_assign_source (l : Layout) (source : String) (scores scores' : Bool) (path : String) :
    (l.assign ⟨some source, scores⟩ path).path? ⟨none, scores'⟩ = l.path? ⟨none, scores'⟩ := by
  rw [path?_assign, if_neg (by simp)]

theorem Ordered.assignRules (hl : Ordered l) (hown : l.ownPath? source = some p) :
    Ordered (l.assign (rulesKey source) p) where
  rules s r hr := by
    rw [path?_assign] at hr
    split at hr
    next hkey =>
      cases hkey
      cases hr
      exact hown
    next => exact hl.rules s r hr
  scores s r hr := by
    rw [path?_assign, if_neg (by simp)] at hr
    exact hl.scores s r hr
  global := (path?_assign_source _ _ _ _ _).trans hl.global
  globalScores := (path?_assign_source _ _ _ _ _).trans hl.globalScores

theorem Ordered.assignScores (hl : Ordered l) (hown : l.ownPath? source = some p) (hle : p ≤ q) :
    Ordered (l.assign (scoresKey source) q) where
  rules s r hr := by
    rw [path?_assign, if_neg (by simp)] at hr
    exact hl.rules s r hr
  scores s r hr := by
    rw [path?_assign] at hr
    split at hr
    next hkey =>
      cases hkey
      cases hr
      exact ⟨p, hown, hle⟩
    next => exact hl.scores s r hr
  global := (path?_assign_source _ _ _ _ _).trans hl.global
  globalScores := (path?_assign_source _ _ _ _ _).trans hl.globalScores

theorem rulesFile_ordered (hl : Ordered l) (h : Ends (rulesFile source) l p m) :
    Ordered m ∧ m.ownPath? source = some p := by
  cases ends_rulesFile h with
  | known hp => exact ⟨hl, hl.rules source p hp⟩
  | chosen _ hr =>
    obtain ⟨rfl, hown⟩ := hr
    exact ⟨hl.assignRules hown, hown⟩

theorem scoresFile_ordered (hl : Ordered l) (h : Ends (scoresFile source) l q m) : Ordered m := by
  cases ends_scoresFile h with
  | known => exact hl
  | chosen _ hr =>
    cases hr with
    | joined _ hrules =>
      obtain ⟨hr, hown⟩ := rulesFile_ordered hl hrules
      exact hr.assignScores hown (String.le_refl q)
    | single _ hsingle hq =>
      have hown : l.ownPath? source = some l.sharedPath := by rw [ownPath?, if_pos hsingle]
      rw [hq]
      exact hl.assignScores hown (Text.le_of_lt (FileName.lt_scoresPath _))
    | beside _ _ hrules hq =>
      obtain ⟨hr, hown⟩ := rulesFile_ordered hl hrules
      rw [hq]
      exact hr.assignScores hown (Text.le_of_lt (FileName.lt_scoresPath _))

theorem rounds_ordered {sources : List String} (h : Rounds SourceRound sources l m)
    (hl : Ordered l) : Ordered m := by
  refine h.keeps ?_ hl
  rintro source s t ⟨_, _, _, hrules, hscores⟩ hs
  exact scoresFile_ordered (rulesFile_ordered hs hrules).1 hscores

/-! ### After all sources -/

/-- What sorts after the last rules sorts after all of them. -/
theorem lt_of_sortsAfter {candidate : String}
    (h : FileName.sortsAfter candidate l.lastRulesPath? = true)
    (hp : l.path? (rulesKey source) = some p) : p < candidate := by
  have hmem : p ∈ (l.artifacts.entries.filter fun e => !e.1.isGlobal && !e.1.scores).map Prod.snd :=
    List.mem_map.mpr ⟨(rulesKey source, p),
      List.mem_filter.mpr ⟨Assoc.get?_eq_some_iff.mp hp, rfl⟩, rfl⟩
  cases hlast : l.lastRulesPath? with
  | none =>
    rw [Text.greatest?_eq_none_iff.mp hlast] at hmem
    cases hmem
  | some last =>
    rw [hlast] at h
    exact Text.lt_of_le_of_lt (Text.le_greatest? hlast p hmem) (of_decide_eq_true h)

theorem own_le_global (hl : Ordered l) {g : String} (hg : l.globalChoice? = some g)
    (hp : l.path? (rulesKey source) = some p) : p ≤ g := by
  have hown := hl.rules source p hp
  unfold globalChoice? at hg
  rw [ownPath?] at hown
  split at hg
  next hsingle =>
    rw [if_pos hsingle] at hown
    have hsame : p = g := (Option.some.inj hown).symm.trans (Option.some.inj hg)
    exact hsame ▸ String.le_refl p
  next hsingle =>
    rw [if_neg hsingle] at hown
    obtain ⟨segment, -, rfl⟩ := Option.map_eq_some_iff.mp hown
    dsimp only at hg
    -- The first and the third name are compared with the last rules; the second has a greater
    -- priority than any of them.
    split at hg
    next hshared =>
      rw [← Option.some.inj hg]
      exact Text.le_of_lt (lt_of_sortsAfter (Bool.and_eq_true_iff.mp hshared).1 hp)
    next =>
      split at hg
      next hnext =>
        rw [← Option.some.inj hg]
        exact Text.le_of_lt
          (path_lt_next l (of_decide_eq_true (Bool.and_eq_true_iff.mp hnext).1) _ _)
      next =>
        split at hg
        next hdoubled =>
          rw [← Option.some.inj hg]
          exact Text.le_of_lt (lt_of_sortsAfter (Bool.and_eq_true_iff.mp hdoubled).1 hp)
        next => cases hg

theorem global_le_scores {g : String} (hg : l.config.isSingle = true → g = l.sharedPath)
    (hq : l.globalScoresChoice? g = some q) : g ≤ q := by
  unfold globalScoresChoice? at hq
  split at hq
  next =>
    exact Option.some.inj hq ▸ String.le_refl g
  next =>
    split at hq
    next hsingle =>
      rw [hg hsingle, ← Option.some.inj hq]
      exact Text.le_of_lt (FileName.lt_scoresPath _)
    next =>
      have hfits := List.find?_some hq
      rw [Bool.and_eq_true] at hfits
      exact Text.le_of_lt (of_decide_eq_true hfits.1)

theorem globalChoice_single {g : String} (hsingle : l.config.isSingle = true)
    (hg : l.globalChoice? = some g) : g = l.sharedPath := by
  rw [globalChoice?, if_pos hsingle] at hg
  exact (Option.some.inj hg).symm

theorem scores_after_global (hl : Ordered l) {g r : String} (hg : l.globalChoice? = some g)
    (h : Ends globalScoresFile (l.assign .global g) r m) : g ≤ r := by
  have hglobal : (l.assign .global g).path? .global = some g := by rw [path?_assign, if_pos rfl]
  cases ends_globalScoresFile h with
  | known hknown =>
    rw [path?_assign, if_neg (by decide), hl.globalScores] at hknown
    cases hknown
  | chosen _ hchoice =>
    obtain ⟨rules, hrules, hchoice⟩ := hchoice
    cases ends_globalFile hrules with
    | known hknown =>
      cases hglobal.symm.trans hknown
      have hshared (hsingle : l.config.isSingle = true) : g = l.sharedPath :=
        globalChoice_single hsingle hg
      exact global_le_scores (l := l.assign .global g) hshared hchoice
    | chosen hnone =>
      rw [hglobal] at hnone
      cases hnone

/-- The artifacts over all files come after the rules of the sources, the scores last. -/
theorem globalRound_ordered (hl : Ordered l) (h : GlobalRound l m) :
    m.pathAt .global ≤ m.pathAt .globalScores ∧
      ∀ source p, l.path? (rulesKey source) = some p → p ≤ m.pathAt .global := by
  obtain ⟨g, _, q, hglobal, hscores⟩ := h
  obtain ⟨hext, hq⟩ := globalScoresFile_extends hscores
  have hg := hext.path? _ _ (globalFile_extends hglobal).2
  rw [pathAt_eq hg, pathAt_eq hq]
  cases ends_globalFile hglobal with
  | known hknown =>
    rw [hl.global] at hknown
    cases hknown
  | chosen _ hchoice =>
    obtain ⟨rfl, hchoice⟩ := hchoice
    exact ⟨scores_after_global hl hchoice hscores, fun source p hp => own_le_global hl hchoice hp⟩

/-! ### The whole layout -/

/-- The paths are in the order in which the rules need each other. -/
structure InOrder (m : Layout) (sources : List String) (withGlobal : Bool) : Prop where
  scores : ∀ source ∈ sources, m.pathAt (rulesKey source) ≤ m.pathAt (scoresKey source)
  global : withGlobal = true →
    ∀ source ∈ sources, m.pathAt (rulesKey source) ≤ m.pathAt .global
  globalScores : withGlobal = true → m.pathAt .global ≤ m.pathAt .globalScores

theorem Ordered.scores_le (hl : Ordered l) (hp : l.path? (rulesKey source) = some p)
    (hq : l.path? (scoresKey source) = some q) : p ≤ q := by
  obtain ⟨own, hown, hle⟩ := hl.scores source q hq
  rw [hl.rules source p hp] at hown
  rwa [Option.some.inj hown]

/-- A layout that is resolved without pins has its paths in order. -/
theorem resolved_inOrder {config : Config} {sources : List String} {withGlobal : Bool} {u : Unit}
    (h : Ends (resolveAll sources withGlobal) { config } u m) : InOrder m sources withGlobal := by
  obtain ⟨l, hrounds, hlast, -⟩ := ends_resolveAll h
  have hl := rounds_ordered hrounds (ordered_unpinned config)
  have hplaced := (rounds_extends hrounds).2
  cases withGlobal with
  | false =>
    replace hlast : m = l := hlast
    refine ⟨fun source hs => ?_, nofun, nofun⟩
    obtain ⟨⟨p, hp⟩, q, hq⟩ := hplaced source hs
    rw [hlast, pathAt_eq hp, pathAt_eq hq]
    exact hl.scores_le hp hq
  | true =>
    replace hlast : GlobalRound l m := hlast
    have hext := hlast.extends.1
    obtain ⟨hscores, hrules⟩ := globalRound_ordered hl hlast
    refine ⟨fun source hs => ?_, fun _ source hs => ?_, fun _ => hscores⟩
    · obtain ⟨⟨p, hp⟩, q, hq⟩ := hplaced source hs
      rw [pathAt_eq (hext.path? _ _ hp), pathAt_eq (hext.path? _ _ hq)]
      exact hl.scores_le hp hq
    · obtain ⟨⟨p, hp⟩, -⟩ := hplaced source hs
      rw [pathAt_eq (hext.path? _ _ hp)]
      exact hrules source p hp

end MailRules.Layout
