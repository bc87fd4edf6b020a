import MailRules.Proofs.Generation.Names
import MailRules.Proofs.Layout.Pinned
import MailRules.Session

/-! Pinned paths and the order of loading.

A generator generates from the paths that are pinned (`ends_generate`). The rules over all files
refer to rules of every file, so they have to be loaded last. They are, exactly if no file that was
read is pinned at or after the name of the next priority (`globalLast_iff`). -/
namespace MailRules.Session

open Layout MailRules.Action

/-- The layout that a generation starts from: the pinned paths. -/
def start (s : Session) : Layout := { config := s.config, artifacts := s.pins }

/-- What generating anew from the store and the pins comes to. -/
def fresh (s : Session) : Except Fault (Buffers Rule.Line) × Generation × List Notice :=
  (Generation.generate s.store).run { layout := s.start }

/-- A generation answers with what it comes to, and always leaves the layout that it resolved. -/
theorem exec_generate (stage : Stage Session) :
    exec generate stage = match stage.state.fresh with
      | (.ok b, g, more) =>
        (.ok b, ⟨{ stage.state with layout := g.layout, buffers := some b }, stage.notices ++ more⟩)
      | (.error (.naming e), g, more) =>
        (.error (.generation e),
          ⟨{ stage.state with layout := g.layout, buffers := none }, stage.notices ++ more⟩)
      | (.error e, g, more) =>
        (.error e, ⟨{ stage.state with layout := g.layout }, stage.notices ++ more⟩) := by
  rw [generate, exec_bind, exec_get]
  dsimp only
  rw [exec_bind, exec_say]
  show _ = match (Generation.generate stage.state.store).run
    { layout := { config := stage.state.config, artifacts := stage.state.pins } } with
    | (.ok b, g, more) => _
    | (.error (.naming e), g, more) => _
    | (.error e, g, more) => _
  cases (Generation.generate stage.state.store).run
    { layout := { config := stage.state.config, artifacts := stage.state.pins } } with
  | mk answer rest =>
    obtain ⟨g, more⟩ := rest
    cases answer with
    | ok b => rfl
    | error f => cases f <;> rfl

/-- A generation that ends leaves the layout that it resolved, and its buffers. -/
theorem ends_generate {s t : Session} {b : Buffers Rule.Line} (h : Ends generate s b t) :
    ∃ m, Generation.Generated s.start m s.store b ∧
      t = { s with layout := m, buffers := some b } := by
  obtain ⟨_, _, hget, h₁⟩ := ends_bind h
  obtain ⟨rfl, rfl⟩ := ends_get hget
  dsimp only at h₁
  obtain ⟨_, _, hsay, h₂⟩ := ends_bind h₁
  obtain rfl := ends_say hsay
  split at h₂
  next buffers hanswer =>
    obtain ⟨_, _, hset, hpure⟩ := ends_bind h₂
    obtain ⟨rfl, rfl⟩ := ends_pure hpure
    exact ⟨_, Generation.ends_generate (ends_run hanswer), ends_set hset⟩
  next =>
    obtain ⟨_, _, -, hfail⟩ := ends_bind h₂
    exact absurd hfail not_ends_fail
  next =>
    obtain ⟨_, _, -, hfail⟩ := ends_bind h₂
    exact absurd hfail not_ends_fail

/-- What generating anew comes to is generated from the pins and the store. -/
theorem generated_fresh {s : Session} {b : Buffers Rule.Line} (h : s.fresh.1 = .ok b) :
    Generation.Generated s.start s.fresh.2.1.layout s.store b :=
  Generation.ends_generate (ends_run h)

theorem ends_generate_fresh {s t : Session} {b : Buffers Rule.Line} (h : Ends generate s b t) :
    s.fresh.1 = .ok b ∧ t = { s with layout := s.fresh.2.1.layout, buffers := some b } := by
  obtain ⟨before, after, h⟩ := h
  rw [exec_generate] at h
  dsimp only at h
  cases hfresh : s.fresh with
  | mk answer rest =>
    obtain ⟨g, more⟩ := rest
    rw [hfresh] at h
    cases answer with
    | ok b' =>
      cases h
      exact ⟨rfl, rfl⟩
    | error f => cases f <;> cases h

/-- Where generating anew comes to something, the generator answers with it. -/
theorem answers_generate {s : Session} {b : Buffers Rule.Line} (h : s.fresh.1 = .ok b) :
    Answers generate s b { s with layout := s.fresh.2.1.layout, buffers := some b } := by
  intro before
  refine ⟨before ++ s.fresh.2.2, ?_⟩
  rw [exec_generate]
  dsimp only
  cases hfresh : s.fresh with
  | mk answer rest =>
    rw [hfresh] at h
    obtain rfl : answer = .ok b := h
    rfl

/-- Where the rules can be generated, the generator answers with them. -/
theorem generate_succeeds {s : Session} {b : Buffers Rule.Line}
    (h : ((Generation.generate s.store).run { layout := s.start }).1 = .ok b) :
    (generate.run s).1 = .ok b := by
  rw [run_eq_exec, generate, exec_bind, exec_get]
  dsimp only
  rw [exec_bind, exec_say]
  dsimp only
  replace h : ((Generation.generate s.store).run
    { layout := { config := s.config, artifacts := s.pins } }).1 = .ok b := h
  rw [h]
  rfl

/-- Where the names pass their check, and the paths can be chosen without a clash, the generator
answers if all lines can be made. -/
theorem generate_checked {s : Session} {sources : List String} {withGlobal : Bool}
    {chosen : Except Fault Unit × Layout × List Notice}
    (hsources : Text.sorted s.store.files.keys = sources)
    (hglobal : (!s.store.origins.isEmpty || s.config.isSingle) = withGlobal)
    (hcheck : (Generation.checkNames s.config.id s.store sources).isOk = true)
    (hrun : (Layout.chooseAll sources withGlobal).run s.start = chosen)
    (hchosen : chosen.1.isOk = true) (hclash : chosen.2.1.clash? = none)
    (hemit : (exec (Generation.emitAll s.store)
      ⟨{ layout := chosen.2.1 }, chosen.2.2⟩).1.isOk = true) :
    ∃ b, (generate.run s).1 = .ok b := by
  obtain ⟨_, hcheck⟩ := Outcome.exists_of_isOk hcheck
  obtain ⟨_, hpaths⟩ := Outcome.exists_of_isOk hchosen
  have hresolve : (Layout.chooseAll (Text.sorted s.store.files.keys)
      (!s.store.origins.isEmpty || s.start.config.isSingle)).run s.start = chosen := by
    rw [hsources, ← hrun, ← hglobal, start]
  obtain ⟨b, hb⟩ := Generation.generate_succeeds (l := s.start) (hsources ▸ hcheck) hresolve hpaths
    hclash hemit
  exact ⟨b, generate_succeeds hb⟩

/-! ### Pins -/

/-- A path for the rules or the scores of a source. -/
structure Pin where
  source : String
  path : String
  scores : Bool
deriving DecidableEq, Repr

/-- Pins the paths one after the other. -/
def pinAll (s : Session) (pins : List Pin) : Session :=
  pins.foldl (fun s p => s.pin p.source p.path p.scores) s

/-- Pinning leaves the store and the configuration alone, and the artifacts over all files. -/
theorem pinAll_keeps (s : Session) (pins : List Pin) :
    (s.pinAll pins).store = s.store ∧ (s.pinAll pins).config = s.config ∧
      (s.pinAll pins).pins.get? .global = s.pins.get? .global := by
  induction pins generalizing s with
  | nil => exact ⟨rfl, rfl, rfl⟩
  | cons p rest ih =>
    obtain ⟨hstore, hconfig, hglobal⟩ := ih (s.pin p.source p.path p.scores)
    refine ⟨hstore, hconfig, hglobal.trans ?_⟩
    exact (Assoc.get?_insert _ _ _ _).trans (if_neg (by simp [ArtifactKey.global]))

/-! ### One pinned file -/

/-- The small generation as a session. -/
def sample : Session where
  config := Generation.sampleConfig
  store := Generation.sampleStore
  layout := { config := Generation.sampleConfig }

/-- Its only file pinned to a path. -/
def samplePinned (path : String) : Session := sample.pinAll [⟨"A", path, false⟩]

/-- The same with no priority after that of the rules. -/
def sampleLate : Session := { sample with config := { Generation.sampleConfig with priority := Fin.last 99 } }

theorem sampleConfig_wellFormed : Generation.sampleConfig.WellFormed where
  idStart := by decide +kernel
  idLetters := by
    intro ch hch _
    have hletter : ch = 'K' := by simpa [Generation.sampleConfig] using hch
    rw [hletter]
    decide +kernel
  root := Path.proper_ofString "/"
  dir := by
    rintro d hd
    cases hd

/-- How the paths are chosen around the pinned one. -/
def pinnedChoice (path : String) : Except Fault Unit × Layout × List Notice :=
  (Layout.chooseAll ["A"] true).run (samplePinned path).start

theorem samplePinned_generates (path : String) (hchosen : (pinnedChoice path).1.isOk = true)
    (hsorted : (pinnedChoice path).2.1.artifacts.entries.Pairwise
      fun a b => decide (a.1.text ≤ b.1.text) = true)
    (hclash : (pinnedChoice path).2.1.findClash ∅ (pinnedChoice path).2.1.artifacts.entries = none)
    (hemit : (exec (Generation.emitAll Generation.sampleStore)
      ⟨{ layout := (pinnedChoice path).2.1 }, (pinnedChoice path).2.2⟩).1.isOk = true) :
    ∃ b, (generate.run (samplePinned path)).1 = .ok b := by
  have hsources : Text.sorted Generation.sampleStore.files.keys = ["A"] := by decide +kernel
  have hglobal : (!Generation.sampleStore.origins.isEmpty ||
      Generation.sampleConfig.isSingle) = true := by decide +kernel
  have hcheck : (Generation.checkNames Generation.sampleConfig.id Generation.sampleStore
      ["A"]).isOk = true := by decide +kernel
  have hrun : (Layout.chooseAll ["A"] true).run (samplePinned path).start = pinnedChoice path := rfl
  exact generate_checked (s := samplePinned path) hsources hglobal hcheck hrun hchosen
    ((clash?_of_sorted hsorted).trans hclash) hemit

/-! ### The order of loading -/

/-- The sources that were read. -/
def sources (s : Session) : List String := s.store.files.keys

/-- With global words and more than one file, a generation that succeeds has resolved the paths of
all the sources. -/
theorem ends_generate_resolved {s t : Session} {b : Buffers Rule.Line}
    (hnone : s.start.path? .global = none) (hwords : s.store.origins.isEmpty = false)
    (h : Ends generate s b t) : ∃ g, Resolved s.start t.layout (Text.sorted s.sources) g := by
  obtain ⟨m, hgenerated, rfl⟩ := ends_generate h
  obtain ⟨_, hresolve⟩ := hgenerated.resolved
  rw [hwords, Bool.not_false, Bool.true_or] at hresolve
  exact resolved_of_ends hnone hresolve

/-- **The rules over all files are loaded last exactly if no pin is in the way.** Every source has
the path that is pinned for it, or else the one that its name gives. A generation that succeeds puts
the rules over all files after all these paths, if and only if none of them is pinned at or after
the name of the next priority. Then, if none of the names that are tried comes after these paths,
the generation fails. -/
theorem globalLast_iff {s : Session} (hnew : s.pins = ∅) (hc : s.config.WellFormed)
    (hmulti : s.config.isSingle = false) (hwords : s.store.origins.isEmpty = false)
    (pins : List Pin) :
    let t := s.pinAll pins
    (∀ b, (generate.run t).1 = .ok b →
      let m := (generate.run t).2.1.layout
      (∀ source ∈ t.sources, t.start.rulesPath? source = some (m.pathAt (rulesKey source))) ∧
        ((∀ source ∈ t.sources, m.pathAt (rulesKey source) < m.pathAt .global) ↔
          t.start.NextIsFree t.sources)) ∧
    (t.start.NextIsFree t.sources → (∀ p ∈ t.start.globalNames, ¬ t.start.LoadedLast t.sources p) →
      ∃ f, (generate.run t).1 = .error f) := by
  intro t
  obtain ⟨hstore, hconfig, hglobal⟩ := pinAll_keeps s pins
  have hnone : t.start.path? .global = none := by
    show t.pins.get? .global = none
    rw [hglobal, hnew]
    rfl
  have hstart : t.start.config = s.config := hconfig
  have hc' : t.start.config.WellFormed := by rwa [hstart]
  have hmulti' : t.start.config.isSingle = false := by rwa [hstart]
  have hwords' : t.store.origins.isEmpty = false := by rwa [hstore]
  have hsources {P : String → Prop} :
      (∀ source ∈ Text.sorted t.sources, P source) ↔ ∀ source ∈ t.sources, P source := by
    simp only [Text.mem_sorted]
  constructor
  · intro b hb m
    obtain ⟨g, hg⟩ := ends_generate_resolved hnone hwords' (ends_run hb)
    refine ⟨hsources.mp hg.rules, hsources.symm.trans ((hg.last_iff hc' hmulti').trans ?_)⟩
    exact forall_congr' fun _ => hsources
  · intro hfree hnames
    cases hb : (generate.run t).1 with
    | error f => exact ⟨f, rfl⟩
    | ok b =>
      obtain ⟨g, hg⟩ := ends_generate_resolved hnone hwords' (ends_run hb)
      have hfree' : t.start.NextIsFree (Text.sorted t.sources) := fun hlt =>
        hsources.mpr (hfree hlt)
      obtain ⟨p, hp, hlast⟩ := hg.exists_last hmulti' ((hg.last_iff hc' hmulti').mpr hfree')
      exact absurd (hsources.mp hlast) (hnames p hp)

theorem globalLast_sample :
    (∃ b, (generate.run (samplePinned "/K/10_A.cf")).1 = .ok b ∧
      (generate.run (samplePinned "/K/10_A.cf")).2.1.layout.pathAt (rulesKey "A") <
        (generate.run (samplePinned "/K/10_A.cf")).2.1.layout.pathAt .global) ∧
    ∃ f, (generate.run (sampleLate.pinAll [⟨"A", "zz.cf", false⟩])).1 = .error f := by
  constructor
  · obtain ⟨b, hb⟩ := samplePinned_generates "/K/10_A.cf" (by decide +kernel)
      (by decide +kernel) (by decide +kernel) (by decide +kernel)
    have hsources : (samplePinned "/K/10_A.cf").sources = ["A"] := by decide +kernel
    have hpin : (samplePinned "/K/10_A.cf").start.path? (rulesKey "A") = some "/K/10_A.cf" := by
      decide +kernel
    have hfree : (samplePinned "/K/10_A.cf").start.NextIsFree
        (samplePinned "/K/10_A.cf").sources := by
      intro _ source hs p hp
      rw [hsources, List.mem_singleton] at hs
      rw [hs, hpin] at hp
      rw [← Option.some.inj hp]
      decide +kernel
    obtain ⟨hlast, -⟩ := globalLast_iff (s := sample) rfl sampleConfig_wellFormed (by decide +kernel)
      (by decide +kernel) [⟨"A", "/K/10_A.cf", false⟩]
    refine ⟨b, hb, ((hlast b hb).2.mpr hfree) "A" ?_⟩
    show "A" ∈ (samplePinned "/K/10_A.cf").sources
    rw [hsources]
    exact List.mem_singleton_self _
  · have hlate : sampleLate.config.WellFormed :=
      ⟨sampleConfig_wellFormed.idStart, sampleConfig_wellFormed.idLetters,
        sampleConfig_wellFormed.root, sampleConfig_wellFormed.dir⟩
    obtain ⟨-, hfails⟩ := globalLast_iff (s := sampleLate) rfl hlate (by decide +kernel)
      (by decide +kernel) [⟨"A", "zz.cf", false⟩]
    refine hfails (fun hlt => absurd hlt (by decide +kernel)) fun p hp hlast => ?_
    have hafter := hlast "A" (by decide +kernel) "zz.cf" (by decide +kernel)
    have hnames : (sampleLate.pinAll [⟨"A", "zz.cf", false⟩]).start.globalNames =
        ["/K/99_K.cf", "/K/99__K.cf"] := by decide +kernel
    rw [hnames] at hp
    simp only [List.mem_cons, List.not_mem_nil, or_false] at hp
    rcases hp with rfl | rfl <;> revert hafter <;> decide +kernel

/-- A file pinned after the name of the next priority is loaded after the rules over all files. -/
theorem not_globalLast :
    ∃ b, (generate.run (samplePinned "zz.cf")).1 = .ok b ∧
      ¬ (generate.run (samplePinned "zz.cf")).2.1.layout.pathAt (rulesKey "A") <
        (generate.run (samplePinned "zz.cf")).2.1.layout.pathAt .global := by
  obtain ⟨b, hb⟩ := samplePinned_generates "zz.cf" (by decide +kernel)
    (by decide +kernel) (by decide +kernel) (by decide +kernel)
  have hsources : Text.sorted (samplePinned "zz.cf").sources = ["A"] := by decide +kernel
  have hpin : (samplePinned "zz.cf").start.path? (rulesKey "A") = some "zz.cf" := by decide +kernel
  obtain ⟨g, hg⟩ := ends_generate_resolved (by decide +kernel) (by decide +kernel) (ends_run hb)
  rw [hsources] at hg
  refine ⟨b, hb, fun hlt => ?_⟩
  have hfree := (hg.last_iff sampleConfig_wellFormed (by decide +kernel)).mp fun source hs => by
    rwa [List.mem_singleton.mp hs]
  have hbefore := hfree (by decide +kernel) "A" (List.mem_singleton_self _) "zz.cf" hpin
  revert hbefore
  decide +kernel

end MailRules.Session
