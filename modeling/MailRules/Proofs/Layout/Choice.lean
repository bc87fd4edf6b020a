import MailRules.Layout.Basic
import MailRules.Proofs.Action
import MailRules.Proofs.Assoc

/-! What the choice of a path does to a layout.

Each operation that ends either finds the path of its artifact or enters a new one, and says
which; all of them keep the paths that are there (`Extends`). After the whole layout is resolved,
every artifact of the sources has a path (`ends_resolveAll`). -/
namespace MailRules.Layout

open MailRules.Action

/-- The path of an artifact, if it is chosen. -/
def path? (l : Layout) (k : ArtifactKey) : Option String := l.artifacts.get? k

/-- The path of an artifact of a layout that has one for it. -/
def pathAt (l : Layout) (k : ArtifactKey) : String := (l.path? k).getD ""

/-- The artifact of the rules of a source. -/
abbrev rulesKey (source : String) : ArtifactKey := ⟨some source, false⟩

/-- The artifact of the scores of a source. -/
abbrev scoresKey (source : String) : ArtifactKey := ⟨some source, true⟩

/-- The layout has a path for either artifact of the source. -/
def Placed (l : Layout) (source : String) : Prop :=
  (∃ p, l.path? (rulesKey source) = some p) ∧ ∃ p, l.path? (scoresKey source) = some p

theorem pathAt_eq {l : Layout} {k : ArtifactKey} {p : String} (h : l.path? k = some p) :
    l.pathAt k = p := by
  rw [pathAt, h, Option.getD_some]

@[simp] theorem path?_assign (l : Layout) (k j : ArtifactKey) (path : String) :
    (l.assign k path).path? j = if j = k then some path else l.path? j :=
  Assoc.get?_insert l.artifacts k path j

/-- The second layout has the configuration and all paths of the first. -/
structure Extends (l m : Layout) : Prop where
  config : m.config = l.config
  path? : ∀ k p, l.path? k = some p → m.path? k = some p

theorem Extends.refl (l : Layout) : Extends l l := ⟨rfl, fun _ _ h => h⟩

theorem Extends.trans {l m n : Layout} (h : Extends l m) (h' : Extends m n) : Extends l n :=
  ⟨h'.config.trans h.config, fun k p hp => h'.path? k p (h.path? k p hp)⟩

theorem extends_assign {l : Layout} {k : ArtifactKey} (h : l.path? k = none) (path : String) :
    Extends l (l.assign k path) := by
  refine ⟨rfl, fun j p hp => ?_⟩
  rw [path?_assign, if_neg]
  · exact hp
  · rintro rfl
    rw [h] at hp
    cases hp

/-- The path that the rules of a source have by its name. -/
def ownPath? (l : Layout) (source : String) : Option String :=
  if l.config.isSingle then some l.sharedPath
  else (FileName.segment? source).map fun segment =>
    l.path l.config.priority.val [l.config.id, segment]

/-- What looking for the path `p` of an artifact does, from the layout `l` to `m`. -/
inductive Found (k : ArtifactKey) (p : String) (l : Layout) (choice : Layout → Prop) : Layout → Prop
  /-- The path is there. -/
  | known : l.path? k = some p → Found k p l choice l
  /-- The path is chosen, which leaves the layout `r`, and entered. -/
  | chosen {r : Layout} : l.path? k = none → choice r → Found k p l choice (r.assign k p)

/-- The last part of every choice. -/
theorem ends_enter {k : ArtifactKey} {path p : String} {l m : Layout}
    (h : Ends (do Action.modify (·.assign k path); return path : Action Layout String) l p m) :
    p = path ∧ m = l.assign k path := by
  obtain ⟨_, r, hmodify, hpure⟩ := ends_bind h
  obtain ⟨rfl, rfl⟩ := ends_pure hpure
  exact ⟨rfl, ends_modify hmodify⟩

theorem ends_rulesFile {source p : String} {l m : Layout} (h : Ends (rulesFile source) l p m) :
    Found (rulesKey source) p l (fun r => r = l ∧ l.ownPath? source = some p) m := by
  obtain ⟨_, _, hget, hrest⟩ := ends_bind h
  obtain ⟨rfl, rfl⟩ := ends_get hget
  split at hrest
  next path hpath =>
    obtain ⟨rfl, rfl⟩ := ends_pure hrest
    exact .known hpath
  next hnone =>
    dsimp only at hrest
    split at hrest
    next hsingle =>
      obtain ⟨_, _, hpath, henter⟩ := ends_bind hrest
      obtain ⟨rfl, rfl⟩ := ends_pure hpath
      obtain ⟨rfl, rfl⟩ := ends_enter henter
      exact .chosen hnone ⟨rfl, by rw [ownPath?, if_pos hsingle]⟩
    next hsingle =>
      split at hrest
      next segment hsegment =>
        obtain ⟨_, _, hpath, henter⟩ := ends_bind hrest
        obtain ⟨rfl, rfl⟩ := ends_pure hpath
        obtain ⟨rfl, rfl⟩ := ends_enter henter
        exact .chosen hnone ⟨rfl, by rw [ownPath?, if_neg hsingle, hsegment, Option.map_some]⟩
      next =>
        obtain ⟨_, _, hpath, _⟩ := ends_bind hrest
        exact absurd hpath not_ends_fail

/-- How the path `p` of the scores of a source comes about. -/
inductive ScoresChoice (source : String) (l : Layout) (p : String) : Layout → Prop
  | joined {r : Layout} : l.config.isJoined = true → Ends (rulesFile source) l p r →
      ScoresChoice source l p r
  | single : ¬ l.config.isJoined = true → l.config.isSingle = true →
      p = FileName.scoresPath l.sharedPath → ScoresChoice source l p l
  | beside {r : Layout} {rules : String} : ¬ l.config.isJoined = true →
      ¬ l.config.isSingle = true → Ends (rulesFile source) l rules r →
      p = FileName.scoresPath rules → ScoresChoice source l p r

theorem ends_scoresFile {source p : String} {l m : Layout} (h : Ends (scoresFile source) l p m) :
    Found (scoresKey source) p l (ScoresChoice source l p) m := by
  obtain ⟨_, _, hget, hrest⟩ := ends_bind h
  obtain ⟨rfl, rfl⟩ := ends_get hget
  split at hrest
  next path hpath =>
    obtain ⟨rfl, rfl⟩ := ends_pure hrest
    exact .known hpath
  next hnone =>
    dsimp only at hrest
    split at hrest
    next hjoined =>
      obtain ⟨_, _, hpath, henter⟩ := ends_bind hrest
      obtain ⟨rfl, rfl⟩ := ends_enter henter
      exact .chosen hnone (.joined hjoined hpath)
    next hjoined =>
      split at hrest
      next hsingle =>
        obtain ⟨_, _, hpath, henter⟩ := ends_bind hrest
        obtain ⟨hp, rfl⟩ := ends_pure hpath
        obtain ⟨rfl, rfl⟩ := ends_enter henter
        exact .chosen hnone (.single hjoined hsingle hp)
      next hsingle =>
        obtain ⟨_, _, hpath, henter⟩ := ends_bind hrest
        obtain ⟨rules, hrules, rfl⟩ := ends_map hpath
        obtain ⟨rfl, rfl⟩ := ends_enter henter
        exact .chosen hnone (.beside hjoined hsingle hrules rfl)

theorem ends_globalFile {p : String} {l m : Layout} (h : Ends globalFile l p m) :
    Found .global p l (fun r => r = l ∧ l.globalChoice? = some p) m := by
  obtain ⟨_, _, hget, hrest⟩ := ends_bind h
  obtain ⟨rfl, rfl⟩ := ends_get hget
  split at hrest
  next path hpath =>
    obtain ⟨rfl, rfl⟩ := ends_pure hrest
    exact .known hpath
  next hnone =>
    split at hrest
    next => exact absurd hrest not_ends_fail
    next path hchoice =>
      obtain ⟨_, _, hdebug, henter⟩ := ends_bind hrest
      obtain rfl := ends_debug hdebug
      obtain ⟨rfl, rfl⟩ := ends_enter henter
      exact .chosen hnone ⟨rfl, hchoice⟩

theorem ends_globalScoresFile {p : String} {l m : Layout} (h : Ends globalScoresFile l p m) :
    Found .globalScores p l
      (fun r => ∃ rules, Ends globalFile l rules r ∧ r.globalScoresChoice? rules = some p) m := by
  obtain ⟨_, _, hget, hrest⟩ := ends_bind h
  obtain ⟨rfl, rfl⟩ := ends_get hget
  split at hrest
  next path hpath =>
    obtain ⟨rfl, rfl⟩ := ends_pure hrest
    exact .known hpath
  next hnone =>
    obtain ⟨rules, r, hrules, hrest⟩ := ends_bind hrest
    obtain ⟨_, _, hget, hlast⟩ := ends_bind hrest
    obtain ⟨rfl, rfl⟩ := ends_get hget
    split at hlast
    next => exact absurd hlast not_ends_fail
    next path hchoice =>
      obtain ⟨_, _, hdebug, henter⟩ := ends_bind hlast
      obtain rfl := ends_debug hdebug
      obtain ⟨rfl, rfl⟩ := ends_enter henter
      exact .chosen hnone ⟨rules, hrules, hchoice⟩

theorem ends_validate {u : Unit} {l m : Layout} (h : Ends validate l u m) :
    m = l ∧ l.clash? = none := by
  obtain ⟨_, _, hget, hrest⟩ := ends_bind h
  obtain ⟨rfl, rfl⟩ := ends_get hget
  split at hrest
  next => exact absurd hrest not_ends_fail
  next hnone => exact ⟨(ends_pure hrest).2, hnone⟩

/-- The check takes artifacts that came in order as they came. -/
theorem clash?_of_sorted {l : Layout}
    (h : l.artifacts.entries.Pairwise fun a b => decide (a.1.text ≤ b.1.text) = true) :
    l.clash? = l.findClash ∅ l.artifacts.entries := by
  rw [clash?, byText, List.mergeSort_of_pairwise h]

/-! ### What all of them keep -/

theorem Found.extends {k : ArtifactKey} {p : String} {l m : Layout} {choice : Layout → Prop}
    (h : Found k p l choice m)
    (hchoice : ∀ r, l.path? k = none → choice r → Extends l r ∧ r.path? k = none) :
    Extends l m ∧ m.path? k = some p := by
  cases h with
  | known hp => exact ⟨.refl l, hp⟩
  | chosen hnone hr =>
    obtain ⟨hext, hr⟩ := hchoice _ hnone hr
    exact ⟨hext.trans (extends_assign hr p), by rw [path?_assign, if_pos rfl]⟩

theorem rulesFile_extends {source p : String} {l m : Layout} (h : Ends (rulesFile source) l p m) :
    Extends l m ∧ m.path? (rulesKey source) = some p := by
  refine (ends_rulesFile h).extends ?_
  rintro r hnone ⟨rfl, -⟩
  exact ⟨.refl r, hnone⟩

/-- The choice of the rules of a source touches no other artifact. -/
theorem rulesFile_other {source p : String} {l m : Layout} (h : Ends (rulesFile source) l p m)
    {k : ArtifactKey} (hk : k ≠ rulesKey source) : m.path? k = l.path? k := by
  cases ends_rulesFile h with
  | known => rfl
  | chosen _ hr => rw [path?_assign, if_neg hk, hr.1]

theorem scoresFile_extends {source p : String} {l m : Layout} (h : Ends (scoresFile source) l p m) :
    Extends l m ∧ m.path? (scoresKey source) = some p := by
  refine (ends_scoresFile h).extends ?_
  intro r hnone hchoice
  have hother {q : String} (hq : Ends (rulesFile source) l q r) :
      Extends l r ∧ r.path? (scoresKey source) = none :=
    ⟨(rulesFile_extends hq).1, (rulesFile_other hq (by simp)).trans hnone⟩
  cases hchoice with
  | joined _ hrules => exact hother hrules
  | single => exact ⟨.refl l, hnone⟩
  | beside _ _ hrules => exact hother hrules

theorem globalFile_extends {p : String} {l m : Layout} (h : Ends globalFile l p m) :
    Extends l m ∧ m.path? .global = some p := by
  refine (ends_globalFile h).extends ?_
  rintro r hnone ⟨rfl, -⟩
  exact ⟨.refl r, hnone⟩

theorem globalFile_other {p : String} {l m : Layout} (h : Ends globalFile l p m)
    {k : ArtifactKey} (hk : k ≠ .global) : m.path? k = l.path? k := by
  cases ends_globalFile h with
  | known => rfl
  | chosen _ hr => rw [path?_assign, if_neg hk, hr.1]

theorem globalScoresFile_extends {p : String} {l m : Layout} (h : Ends globalScoresFile l p m) :
    Extends l m ∧ m.path? .globalScores = some p := by
  refine (ends_globalScoresFile h).extends ?_
  rintro r hnone ⟨rules, hrules, -⟩
  exact ⟨(globalFile_extends hrules).1, (globalFile_other hrules (by decide)).trans hnone⟩

/-- The choice of the scores of a source touches no artifact of another one. -/
theorem scoresFile_other {source p : String} {l m : Layout} (h : Ends (scoresFile source) l p m)
    {k : ArtifactKey} (hk : k.source ≠ some source) : m.path? k = l.path? k := by
  have hrules : k ≠ rulesKey source := fun he => hk (he ▸ rfl)
  have hscores : k ≠ scoresKey source := fun he => hk (he ▸ rfl)
  cases ends_scoresFile h with
  | known => rfl
  | chosen _ hr =>
    rw [path?_assign, if_neg hscores]
    cases hr with
    | joined _ hfile => exact rulesFile_other hfile hrules
    | single => rfl
    | beside _ _ hfile => exact rulesFile_other hfile hrules

theorem globalScoresFile_other {p : String} {l m : Layout} (h : Ends globalScoresFile l p m)
    {k : ArtifactKey} (hk : k.source ≠ none) : m.path? k = l.path? k := by
  have hrules : k ≠ .global := fun he => hk (he ▸ rfl)
  have hscores : k ≠ .globalScores := fun he => hk (he ▸ rfl)
  cases ends_globalScoresFile h with
  | known => rfl
  | chosen _ hr =>
    obtain ⟨rules, hfile, -⟩ := hr
    rw [path?_assign, if_neg hscores]
    exact globalFile_other hfile hrules

/-! ### The whole layout -/

/-- One round of resolving: the two artifacts of a source. -/
def SourceRound (source : String) (l m : Layout) : Prop :=
  ∃ rules r scores, Ends (rulesFile source) l rules r ∧ Ends (scoresFile source) r scores m

/-- The two artifacts over all files. -/
def GlobalRound (l m : Layout) : Prop :=
  ∃ rules r scores, Ends globalFile l rules r ∧ Ends globalScoresFile r scores m

/-- The choice of every path, without the check at the end. -/
def chooseAll (sources : List String) (withGlobal : Bool) : Action Layout Unit := do
  for source in sources do
    discard (rulesFile source)
    discard (scoresFile source)
  if withGlobal then
    discard globalFile
    discard globalScoresFile

theorem resolveAll_eq (sources : List String) (withGlobal : Bool) :
    resolveAll sources withGlobal = chooseAll sources withGlobal >>= fun _ => validate := by
  unfold resolveAll chooseAll
  rw [bind_assoc]
  cases withGlobal with
  | false => rfl
  | true => simp only [bind_assoc, if_true]

theorem ends_chooseAll {sources : List String} {withGlobal : Bool} {u : Unit} {l n : Layout}
    (h : Ends (chooseAll sources withGlobal) l u n) :
    ∃ m, Rounds SourceRound sources l m ∧ if withGlobal then GlobalRound m n else n = m := by
  obtain ⟨_, m, hloop, hrest⟩ := ends_bind h
  have hrounds : Rounds SourceRound sources l m := by
    refine ends_forIn ?_ hloop
    intro source u s next t hround
    obtain ⟨_, _, hrules, hround⟩ := ends_bind hround
    obtain ⟨_, _, hscores, hyield⟩ := ends_bind hround
    obtain ⟨rfl, rfl⟩ := ends_pure hyield
    obtain ⟨rules, hrules⟩ := ends_discard hrules
    obtain ⟨scores, hscores⟩ := ends_discard hscores
    exact ⟨rfl, rules, _, scores, hrules, hscores⟩
  refine ⟨m, hrounds, ?_⟩
  split at hrest
  next hglobal =>
    obtain ⟨_, _, hrules, hrest⟩ := ends_bind hrest
    obtain ⟨rules, hrules⟩ := ends_discard hrules
    obtain ⟨scores, hscores⟩ := ends_discard hrest
    rw [if_pos hglobal]
    exact ⟨rules, _, scores, hrules, hscores⟩
  next hglobal =>
    rw [if_neg hglobal]
    exact (ends_pure hrest).2

theorem ends_resolveAll {sources : List String} {withGlobal : Bool} {u : Unit} {l n : Layout}
    (h : Ends (resolveAll sources withGlobal) l u n) :
    ∃ m, Rounds SourceRound sources l m ∧
      (if withGlobal then GlobalRound m n else n = m) ∧ n.clash? = none := by
  rw [resolveAll_eq] at h
  obtain ⟨_, _, hchoose, hvalidate⟩ := ends_bind h
  obtain ⟨rfl, hclash⟩ := ends_validate hvalidate
  obtain ⟨m, hrounds, hglobal⟩ := ends_chooseAll hchoose
  exact ⟨m, hrounds, hglobal, hclash⟩

/-- Paths that can be chosen and do not clash are the layout. -/
theorem run_resolveAll {sources : List String} {withGlobal : Bool} {l : Layout}
    (hchosen : ((chooseAll sources withGlobal).run l).1 = .ok ())
    (hclash : ((chooseAll sources withGlobal).run l).2.1.clash? = none) :
    (resolveAll sources withGlobal).run l = (chooseAll sources withGlobal).run l := by
  rw [run_eq_exec] at hchosen hclash ⊢
  rw [run_eq_exec, resolveAll_eq, exec_bind]
  cases hstage : exec (chooseAll sources withGlobal) ⟨l, []⟩ with
  | mk answer stage =>
    rw [hstage] at hchosen hclash
    replace hchosen : answer = .ok () := hchosen
    rw [hchosen]
    have hvalid : exec validate stage = (.ok (), stage) := by
      rw [validate, exec_bind, exec_get]
      dsimp only at hclash ⊢
      rw [hclash]
      rfl
    dsimp only
    rw [hvalid]

theorem SourceRound.extends {source : String} {l m : Layout} (h : SourceRound source l m) :
    Extends l m ∧ Placed m source := by
  obtain ⟨rules, r, scores, hrules, hscores⟩ := h
  obtain ⟨hr, hrp⟩ := rulesFile_extends hrules
  obtain ⟨hs, hsp⟩ := scoresFile_extends hscores
  exact ⟨hr.trans hs, ⟨rules, hs.path? _ _ hrp⟩, scores, hsp⟩

theorem GlobalRound.extends {l m : Layout} (h : GlobalRound l m) :
    Extends l m ∧ (∃ p, m.path? .global = some p) ∧ ∃ p, m.path? .globalScores = some p := by
  obtain ⟨rules, r, scores, hrules, hscores⟩ := h
  obtain ⟨hr, hrp⟩ := globalFile_extends hrules
  obtain ⟨hs, hsp⟩ := globalScoresFile_extends hscores
  exact ⟨hr.trans hs, ⟨rules, hs.path? _ _ hrp⟩, scores, hsp⟩

/-- After the rounds every source has both its paths, and no path is lost. -/
theorem rounds_extends {sources : List String} {l m : Layout}
    (h : Rounds SourceRound sources l m) :
    Extends l m ∧ ∀ source ∈ sources, Placed m source := by
  induction h with
  | nil => exact ⟨.refl _, fun source hs => by cases hs⟩
  | cons hround _ ih =>
    obtain ⟨hfirst, ⟨p, hp⟩, q, hq⟩ := hround.extends
    obtain ⟨hlater, hall⟩ := ih
    refine ⟨hfirst.trans hlater, fun source hs => ?_⟩
    rcases List.mem_cons.mp hs with rfl | hs
    · exact ⟨⟨p, hlater.path? _ _ hp⟩, q, hlater.path? _ _ hq⟩
    · exact hall source hs

theorem SourceRound.other {source : String} {l m : Layout} (h : SourceRound source l m)
    {k : ArtifactKey} (hk : k.source ≠ some source) : m.path? k = l.path? k := by
  obtain ⟨_, r, _, hrules, hscores⟩ := h
  exact (scoresFile_other hscores hk).trans (rulesFile_other hrules fun he => hk (he ▸ rfl))

theorem GlobalRound.other {l m : Layout} (h : GlobalRound l m) {k : ArtifactKey}
    (hk : k.source ≠ none) : m.path? k = l.path? k := by
  obtain ⟨_, r, _, hrules, hscores⟩ := h
  exact (globalScoresFile_other hscores hk).trans (globalFile_other hrules fun he => hk (he ▸ rfl))

/-- The rounds touch no artifact but those of their sources. -/
theorem rounds_other {sources : List String} {l m : Layout} (h : Rounds SourceRound sources l m)
    {k : ArtifactKey} (hk : ∀ source ∈ sources, k.source ≠ some source) :
    m.path? k = l.path? k := by
  induction h with
  | nil => rfl
  | cons hround _ ih =>
    obtain ⟨hfirst, hrest⟩ := List.forall_mem_cons.mp hk
    exact (ih hrest).trans (hround.other hfirst)

/-- Resolving touches no artifact that it does not choose a path for. -/
theorem resolved_other {sources : List String} {withGlobal : Bool} {u : Unit} {l m : Layout}
    (h : Ends (resolveAll sources withGlobal) l u m) {k : ArtifactKey}
    (hk : ∀ source ∈ sources, k.source ≠ some source)
    (hglobal : withGlobal = true → k.source ≠ none) : m.path? k = l.path? k := by
  obtain ⟨r, hrounds, hlast, -⟩ := ends_resolveAll h
  have hsources := rounds_other hrounds hk
  split at hlast
  next htrue => exact (hlast.other (hglobal htrue)).trans hsources
  next => exact hlast ▸ hsources

/-! ### One file for all artifacts -/

/-- All rules and scores go to the file at `path`, and no artifact has another path. -/
structure InOneFile (path : String) (l : Layout) : Prop where
  single : l.config.isSingle = true
  joined : l.config.isJoined = true
  shared : l.sharedPath = path
  all : ∀ k p, l.path? k = some p → p = path

variable {l m : Layout} {path source p q : String}

theorem InOneFile.assign (hl : InOneFile path l) (k : ArtifactKey) :
    InOneFile path (l.assign k path) where
  single := hl.single
  joined := hl.joined
  shared := hl.shared
  all j p hp := by
    rw [path?_assign] at hp
    split at hp
    next => exact (Option.some.inj hp).symm
    next => exact hl.all j p hp

theorem rulesFile_inOneFile (hl : InOneFile path l) (h : Ends (rulesFile source) l p m) :
    InOneFile path m ∧ p = path := by
  cases ends_rulesFile h with
  | known hp => exact ⟨hl, hl.all _ _ hp⟩
  | chosen _ hr =>
    obtain ⟨rfl, hown⟩ := hr
    rw [ownPath?, if_pos hl.single, hl.shared] at hown
    exact Option.some.inj hown ▸ ⟨hl.assign _, rfl⟩

theorem scoresFile_inOneFile (hl : InOneFile path l) (h : Ends (scoresFile source) l q m) :
    InOneFile path m := by
  cases ends_scoresFile h with
  | known => exact hl
  | chosen _ hr =>
    cases hr with
    | joined _ hrules =>
      obtain ⟨hr, rfl⟩ := rulesFile_inOneFile hl hrules
      exact hr.assign _
    | single hjoined => exact absurd hl.joined hjoined
    | beside hjoined => exact absurd hl.joined hjoined

theorem globalFile_inOneFile (hl : InOneFile path l) (h : Ends globalFile l p m) :
    InOneFile path m ∧ p = path := by
  cases ends_globalFile h with
  | known hp => exact ⟨hl, hl.all _ _ hp⟩
  | chosen _ hr =>
    obtain ⟨rfl, hchoice⟩ := hr
    rw [globalChoice?, if_pos hl.single, hl.shared] at hchoice
    exact Option.some.inj hchoice ▸ ⟨hl.assign _, rfl⟩

theorem globalScoresFile_inOneFile (hl : InOneFile path l) (h : Ends globalScoresFile l q m) :
    InOneFile path m := by
  cases ends_globalScoresFile h with
  | known => exact hl
  | chosen _ hr =>
    obtain ⟨rules, hrules, hchoice⟩ := hr
    obtain ⟨hr, rfl⟩ := globalFile_inOneFile hl hrules
    rw [globalScoresChoice?, if_pos hr.joined] at hchoice
    exact Option.some.inj hchoice ▸ hr.assign _

/-- Where all goes to one file and nothing is pinned, the shared path is the only one. -/
theorem chosen_inOneFile {config : Config} (hsingle : config.isSingle = true)
    (hjoined : config.isJoined = true) {sources : List String} {withGlobal : Bool} {u : Unit}
    (h : Ends (chooseAll sources withGlobal) { config } u m) :
    InOneFile ({ config } : Layout).sharedPath m := by
  obtain ⟨l, hrounds, hlast⟩ := ends_chooseAll h
  have hl : InOneFile ({ config } : Layout).sharedPath l := by
    refine hrounds.keeps ?_ ⟨hsingle, hjoined, rfl, fun _ _ hp => by cases hp⟩
    rintro source s t ⟨_, r, _, hrules, hscores⟩ hs
    exact scoresFile_inOneFile (rulesFile_inOneFile hs hrules).1 hscores
  split at hlast
  next =>
    obtain ⟨_, r, _, hrules, hscores⟩ := hlast
    exact globalScoresFile_inOneFile (globalFile_inOneFile hl hrules).1 hscores
  next => exact hlast ▸ hl

theorem resolved_inOneFile {config : Config} (hsingle : config.isSingle = true)
    (hjoined : config.isJoined = true) {sources : List String} {withGlobal : Bool} {u : Unit}
    (h : Ends (resolveAll sources withGlobal) { config } u m) :
    InOneFile ({ config } : Layout).sharedPath m := by
  rw [resolveAll_eq] at h
  obtain ⟨_, _, hchoose, hvalidate⟩ := ends_bind h
  obtain ⟨rfl, -⟩ := ends_validate hvalidate
  exact chosen_inOneFile hsingle hjoined hchoose

end MailRules.Layout
