import Mathlib.Data.List.Pairwise
import MailRules.Proofs.Layout.Order

/-! Which artifacts share a path.

The check of a layout passes exactly if artifacts of different classes have different paths
(`clash?_eq_none_iff`). Where nothing is pinned, the choice of the paths keeps artifacts of one
class together (`Aliased`), so after it two artifacts share a path if and only if they are of one
class (`resolved_shared_iff`). -/
namespace MailRules.Layout

open MailRules.Action

/-- One source, or one file for all; one kind, or scores beside the rules. -/
theorem shareClass_eq_iff {l : Layout} {k j : ArtifactKey} :
    l.shareClass k = l.shareClass j ↔
      (l.config.isSingle = true ∨ k.source = j.source) ∧
        (l.config.isJoined = true ∨ k.scores = j.scores) := by
  rw [shareClass, shareClass, ShareClass.mk.injEq]
  cases l.config.isSingle <;> cases l.config.isJoined <;> simp

/-! ### The check -/

/-- The two artifacts may stand together: their paths differ, or they are of one class. -/
def Compatible (l : Layout) (a b : ArtifactKey × String) : Prop :=
  a.2 = b.2 → l.shareClass a.1 = l.shareClass b.1

theorem findClash_eq_none_iff {l : Layout} {owners : Assoc String ArtifactKey}
    {es : List (ArtifactKey × String)} :
    l.findClash owners es = none ↔
      (∀ e ∈ es, ∀ owner, owners.get? e.2 = some owner → l.shareClass owner = l.shareClass e.1) ∧
        es.Pairwise l.Compatible := by
  induction es generalizing owners with
  | nil => simp [findClash]
  | cons e rest ih =>
    obtain ⟨key, path⟩ := e
    rw [findClash, List.forall_mem_cons, List.pairwise_cons]
    cases howner : owners.get? path with
    | none =>
      dsimp only
      rw [ih]
      have hinsert : (∀ e ∈ rest, ∀ owner, (owners.insert path key).get? e.2 = some owner →
          l.shareClass owner = l.shareClass e.1) ↔
          (∀ e ∈ rest, ∀ owner, owners.get? e.2 = some owner →
            l.shareClass owner = l.shareClass e.1) ∧ ∀ e ∈ rest, l.Compatible (key, path) e := by
        rw [← forall₂_and]
        refine forall₂_congr fun e _ => ?_
        rw [Assoc.get?_insert]
        by_cases hpath : e.2 = path
        · rw [if_pos hpath, hpath, howner]
          simp [Compatible, hpath]
        · rw [if_neg hpath]
          simp [Compatible, Ne.symm hpath]
      rw [hinsert, and_assoc]
      simp
    | some owner =>
      dsimp only
      split
      next hclass =>
        rw [ih]
        constructor
        · rintro ⟨howned, hrest⟩
          refine ⟨⟨fun o ho => Option.some.inj ho ▸ hclass, howned⟩, fun e he hpath => ?_, hrest⟩
          exact hclass.symm.trans (howned e he owner (hpath ▸ howner))
        · rintro ⟨⟨-, howned⟩, -, hrest⟩
          exact ⟨howned, hrest⟩
      next hclass =>
        simp [hclass]

/-- The check passes exactly if all artifacts with one path are of one class. -/
theorem clash?_eq_none_iff {l : Layout} :
    l.clash? = none ↔
      ∀ k j p, l.path? k = some p → l.path? j = some p → l.shareClass k = l.shareClass j := by
  have hsymm : Std.Symm l.Compatible := ⟨fun a b h hpath => (h hpath.symm).symm⟩
  rw [clash?, findClash_eq_none_iff]
  constructor
  · rintro ⟨-, hpairs⟩ k j p hk hj
    have hentry {k : ArtifactKey} (hk : l.path? k = some p) : (k, p) ∈ l.byText :=
      List.mem_mergeSort.mpr (Assoc.get?_eq_some_iff.mp hk)
    exact hpairs.forall_of_forall (fun e _ _ => rfl) (hentry hk) (hentry hj) rfl
  · intro h
    refine ⟨fun e _ owner howner => by simp at howner, List.pairwise_of_forall_mem_list ?_⟩
    rintro ⟨k, p⟩ hk ⟨j, q⟩ hj (rfl : p = q)
    rw [byText, List.mem_mergeSort] at hk hj
    exact h k j p (Assoc.get?_eq_some_iff.mpr hk) (Assoc.get?_eq_some_iff.mpr hj)

instance (l : Layout) (a b : ArtifactKey × String) : Decidable (l.Compatible a b) :=
  inferInstanceAs (Decidable (_ → _))

theorem clash?_of_compatible {l : Layout}
    (h : ∀ a ∈ l.artifacts.entries, ∀ b ∈ l.artifacts.entries, l.Compatible a b) :
    l.clash? = none :=
  clash?_eq_none_iff.mpr fun _ _ _ hk hj =>
    h _ (Assoc.get?_eq_some_iff.mp hk) _ (Assoc.get?_eq_some_iff.mp hj) rfl

/-! ### The choice -/

/-- The path of every artifact of a class, where one file has the artifacts of all sources. -/
def singlePath (l : Layout) (c : ShareClass) : String :=
  if c.scores then FileName.scoresPath l.sharedPath else l.sharedPath

/-- Artifacts of one class are together. -/
structure Aliased (l : Layout) : Prop where
  single : l.config.isSingle = true → ∀ k p, l.path? k = some p → p = l.singlePath (l.shareClass k)
  /-- Scores that stand beside the rules are where these are. -/
  joined : l.config.isJoined = true → ∀ source q, l.path? ⟨source, true⟩ = some q →
    l.path? ⟨source, false⟩ = some q

theorem aliased_unpinned (config : Config) : Aliased { config } where
  single _ _ _ h := by cases h
  joined _ _ _ h := by cases h

variable {l m : Layout} {source p q : String} {k : ArtifactKey}

theorem Aliased.assign (hl : Aliased l) (hnone : l.path? k = none)
    (hsingle : l.config.isSingle = true → p = l.singlePath (l.shareClass k))
    (hjoined : l.config.isJoined = true → k.scores = true →
      l.path? ⟨k.source, false⟩ = some p) :
    Aliased (l.assign k p) where
  single hs j r hr := by
    rw [path?_assign] at hr
    split at hr
    next hj =>
      rw [hj, ← Option.some.inj hr]
      exact hsingle hs
    next => exact hl.single hs j r hr
  joined hj s r hr := by
    have hkept (hr : l.path? ⟨s, false⟩ = some r) : (l.assign k p).path? ⟨s, false⟩ = some r :=
      (extends_assign hnone p).path? _ _ hr
    rw [path?_assign] at hr
    split at hr
    next hkey =>
      subst hkey
      rw [← Option.some.inj hr] at hkept ⊢
      exact hkept (hjoined hj rfl)
    next => exact hkept (hl.joined hj s r hr)

theorem shareClass_scores_joined (l : Layout) (hjoined : l.config.isJoined = true)
    (source : Option String) :
    l.shareClass ⟨source, true⟩ = l.shareClass ⟨source, false⟩ :=
  shareClass_eq_iff.mpr ⟨.inr rfl, .inl hjoined⟩

theorem singlePath_rules (l : Layout) (source : Option String) :
    l.singlePath (l.shareClass ⟨source, false⟩) = l.sharedPath := by
  simp [singlePath, shareClass]

theorem singlePath_scores (l : Layout) (hjoined : ¬ l.config.isJoined = true)
    (source : Option String) :
    l.singlePath (l.shareClass ⟨source, true⟩) = FileName.scoresPath l.sharedPath := by
  simp [singlePath, shareClass, hjoined]

theorem rulesFile_aliased (hl : Aliased l) (h : Ends (rulesFile source) l p m) : Aliased m := by
  cases ends_rulesFile h with
  | known => exact hl
  | chosen hnone hr =>
    obtain ⟨rfl, hown⟩ := hr
    refine hl.assign hnone (fun hsingle => ?_) fun _ hscores => by cases hscores
    rw [ownPath?, if_pos hsingle] at hown
    rw [singlePath_rules, ← Option.some.inj hown]

theorem scoresFile_aliased (hl : Aliased l) (h : Ends (scoresFile source) l q m) : Aliased m := by
  cases ends_scoresFile h with
  | known => exact hl
  | @chosen r hnone hr =>
    have hother {p : String} (hrules : Ends (rulesFile source) l p r) :
        Aliased r ∧ r.config = l.config ∧ r.path? (scoresKey source) = none :=
      ⟨rulesFile_aliased hl hrules, (rulesFile_extends hrules).1.config,
        (rulesFile_other hrules (by simp)).trans hnone⟩
    cases hr with
    | joined hjoined hrules =>
      obtain ⟨hr, hconfig, hnone⟩ := hother hrules
      have hpath := (rulesFile_extends hrules).2
      refine hr.assign hnone (fun hsingle => ?_) fun _ _ => hpath
      rw [shareClass_scores_joined r (hconfig ▸ hjoined)]
      exact hr.single hsingle _ _ hpath
    | single hjoined hsingle hq =>
      refine hl.assign hnone (fun _ => ?_) fun h _ => absurd h hjoined
      rw [singlePath_scores l hjoined, hq]
    | beside hjoined hsingle hrules _ =>
      obtain ⟨hr, hconfig, hnone⟩ := hother hrules
      rw [← hconfig] at hjoined hsingle
      exact hr.assign hnone (fun h => absurd h hsingle) fun h _ => absurd h hjoined

theorem globalFile_aliased (hl : Aliased l) (h : Ends globalFile l p m) : Aliased m := by
  cases ends_globalFile h with
  | known => exact hl
  | @chosen r hnone hr =>
    obtain ⟨rfl, hchoice⟩ := hr
    refine hl.assign hnone (fun hsingle => ?_) fun _ hscores => by cases hscores
    rw [globalChoice_single hsingle hchoice]
    exact (singlePath_rules r none).symm

theorem globalScoresFile_aliased (hl : Aliased l) (h : Ends globalScoresFile l q m) :
    Aliased m := by
  cases ends_globalScoresFile h with
  | known => exact hl
  | @chosen r hnone hr =>
    obtain ⟨rules, hrules, hchoice⟩ := hr
    have hr := globalFile_aliased hl hrules
    have hpath := (globalFile_extends hrules).2
    have hnone := (globalFile_other hrules (by decide)).trans hnone
    rw [globalScoresChoice?] at hchoice
    split at hchoice
    next hjoined =>
      cases hchoice
      refine hr.assign hnone (fun hsingle => ?_) fun _ _ => hpath
      exact (shareClass_scores_joined r hjoined none).symm ▸ hr.single hsingle _ _ hpath
    next hjoined =>
      refine hr.assign hnone (fun hsingle => ?_) fun h _ => absurd h hjoined
      rw [if_pos hsingle] at hchoice
      rw [← Option.some.inj hchoice]
      exact (singlePath_scores r hjoined none).symm

/-! ### The whole layout -/

theorem Aliased.shared (hl : Aliased l) {k j : ArtifactKey} (hk : l.path? k = some p)
    (hj : l.path? j = some q) (hclass : l.shareClass k = l.shareClass j) : p = q := by
  by_cases hsingle : l.config.isSingle = true
  · rw [hl.single hsingle k p hk, hl.single hsingle j q hj, hclass]
  · obtain ⟨source, scores⟩ := k
    obtain ⟨source', scores'⟩ := j
    obtain ⟨hsource, hscores⟩ := shareClass_eq_iff.mp hclass
    obtain rfl : source = source' := hsource.resolve_left hsingle
    -- Artifacts of one source and one class are the same, or stand beside each other.
    by_cases hjoined : l.config.isJoined = true
    · have hrules {scores : Bool} {r : String} (h : l.path? ⟨source, scores⟩ = some r) :
          l.path? ⟨source, false⟩ = some r := by
        cases scores with
        | false => exact h
        | true => exact hl.joined hjoined source r h
      exact Option.some.inj ((hrules hk).symm.trans (hrules hj))
    · obtain rfl : scores = scores' := hscores.resolve_left hjoined
      exact Option.some.inj (hk.symm.trans hj)

theorem resolved_aliased {config : Config} {sources : List String} {withGlobal : Bool} {u : Unit}
    (h : Ends (resolveAll sources withGlobal) { config } u m) : Aliased m := by
  obtain ⟨l, hrounds, hlast, -⟩ := ends_resolveAll h
  have hl : Aliased l := by
    refine hrounds.keeps ?_ (aliased_unpinned config)
    rintro source s t ⟨_, _, _, hrules, hscores⟩ hs
    exact scoresFile_aliased (rulesFile_aliased hs hrules) hscores
  split at hlast
  next =>
    obtain ⟨_, _, _, hrules, hscores⟩ := hlast
    exact globalScoresFile_aliased (globalFile_aliased hl hrules) hscores
  next => exact hlast ▸ hl

/-- In a layout that is resolved without pins, the artifacts of one class, and no others, share a
path. -/
theorem resolved_shared_iff {config : Config} {sources : List String} {withGlobal : Bool} {u : Unit}
    (h : Ends (resolveAll sources withGlobal) { config } u m) {k j : ArtifactKey}
    (hk : m.path? k = some p) (hj : m.path? j = some q) :
    p = q ↔ m.shareClass k = m.shareClass j := by
  constructor
  · rintro rfl
    obtain ⟨_, -, -, hclash⟩ := ends_resolveAll h
    exact clash?_eq_none_iff.mp hclash k j p hk hj
  · exact (resolved_aliased h).shared hk hj

end MailRules.Layout
