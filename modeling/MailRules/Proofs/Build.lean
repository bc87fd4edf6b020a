import MailRules.Proofs.Generation.Policy
import MailRules.Proofs.Layout.Sharing
import MailRules.Proofs.Workspace

/-! What a build does to the machine.

A build reads the inputs, generates, removes what an earlier build left, makes the output directory
and writes (`ends_replace`). Until it begins to remove, nothing is changed, and from then on it
fails only if a path is refused for its length. When it answers, the files at the paths of its
artifacts are those it has written (`run_effect`), as long as the path of the output directory does
not go up from a directory that has to be made first. Where it does, files can be left that the
build finds neither before nor after it makes the directory. -/
namespace MailRules

open MailRules.Action

namespace Build

variable {w w' : Workspace} {inputs : List String} {r : Report}

/-- The report of a build. -/
def reportOf (s : Session) (failures : List String) (cleaning : Host.Cleaning)
    (writing : Host.Writing) (verification : Option Verification) : Report where
  filesRead := s.store.files.size
  words := wordCount s.store
  artifacts := namedArtifacts s.layout.artifacts
  written := writing.written
  failures
  writeErrors := cleaning.errors ++ writing.errors
  verification

/-- The texts of all artifacts with their paths. -/
def allNames (m : Assoc ArtifactKey String) : List (String × String) :=
  m.entries.map fun e => (e.1.text, e.2)

theorem allNames_texts (m : Assoc ArtifactKey String) :
    (allNames m).map Prod.fst = m.keys.map ArtifactKey.text := by
  rw [allNames, List.map_map, Assoc.keys, List.map_map]
  rfl

/-- The report knows the texts of the keys. -/
theorem mem_keys_namedArtifacts {m : Assoc ArtifactKey String} {text : String} :
    text ∈ (namedArtifacts m).keys ↔ text ∈ m.keys.map ArtifactKey.text := by
  rw [namedArtifacts, Assoc.ofList, Assoc.mem_keys_foldl_insert, ← allNames_texts]
  exact (or_iff_right List.not_mem_nil).trans ((List.mergeSort_perm _ _).map _).mem_iff

/-- What a build does after it has cleaned. -/
def finish (verify : Bool) (failures : List String) (b : Buffers Rule.Line)
    (cleaning : Host.Cleaning) : Action Workspace Report := do
  if !cleaning.removed.isEmpty then
    Action.debug ("Removed " ++ toString cleaning.removed.length ++ " stale files")
  let writing ← match ← Workspace.createDirectory with
    | some message => pure { errors := [message] }
    | none => Workspace.onHost (Host.writeBuffers Rule.Line.text b)
  let verification ←
    if verify && !writing.written.isEmpty then some <$> Workspace.verify else pure none
  let s := (← Action.get).session
  return reportOf s failures cleaning writing verification

/-- Removes what an earlier build left, if that is wanted. -/
def sweep (clean : Bool) : Action Workspace Host.Cleaning :=
  if clean then Workspace.clean else pure {}

/-- What a build does after it has read the inputs. -/
def replace (clean verify : Bool) (failures : List String) : Action Workspace Report := do
  let b ← Workspace.onSession Session.generate
  let cleaning ← sweep clean
  finish verify failures b cleaning

theorem steps_eq (inputs : List String) (clean verify : Bool) :
    steps inputs clean verify = (do
      let failures ← Workspace.readAll inputs
      replace clean verify failures) := by
  cases clean <;> rfl

/-- The paths that are swept before anything is written. -/
def swept (clean : Bool) (paths : List String) : List String := if clean then paths else []

theorem mem_of_swept {clean : Bool} {paths : List String} {path : String}
    (h : path ∈ swept clean paths) : path ∈ paths := by
  cases clean with
  | true => exact h
  | false => cases h

theorem ends_sweep {clean : Bool} {c : Host.Cleaning} (hs : w.session.buffers.isSome = true)
    (h : Ends (sweep clean) w c w') :
    ∃ u, Host.Removal w.host (swept clean w.session.layout.uniquePaths) c u ∧
      w' = { w with host := u } := by
  cases clean with
  | true => exact Workspace.ends_clean hs h
  | false =>
    obtain ⟨rfl, rfl⟩ := ends_pure h
    exact ⟨_, .nil _, rfl⟩

theorem fails_sweep {clean : Bool} {f : Fault} (hs : w.session.buffers.isSome = true)
    (h : Fails (sweep clean) w f w') :
    ∃ front path back c, swept clean w.session.layout.uniquePaths = front ++ path :: back ∧
      Host.Removal w.host front c w'.host ∧ w'.host.isFile (Path.ofString path) = .error f := by
  cases clean with
  | true => exact Workspace.fails_clean hs h
  | false => exact absurd h (answers_pure _ _).not_fails

theorem answers_finish (hdir : w.session.config.outputDir.Proper) (verify : Bool)
    (failures : List String) (b : Buffers Rule.Line) (cleaning : Host.Cleaning) :
    ∃ writing verification t, Host.Stored w.session.config.outputDir b w.host writing t ∧
      Answers (finish verify failures b cleaning) w
        (reportOf w.session failures cleaning writing verification) { w with host := t } := by
  obtain ⟨message, u, writing, t, hcreate, hwrite, hstored⟩ := Workspace.answers_store hdir (b := b)
  have hreport (verification : Option Verification) : Answers (do
      let s := (← Action.get).session
      return reportOf s failures cleaning writing verification) { w with host := t }
      (reportOf w.session failures cleaning writing verification) { w with host := t } :=
    (answers_get _).bind (answers_pure _ _)
  obtain ⟨verification, htail⟩ : ∃ verification, Answers (do
      let verification ←
        if verify && !writing.written.isEmpty then some <$> Workspace.verify else pure none
      let s := (← Action.get).session
      return reportOf s failures cleaning writing verification) { w with host := t }
      (reportOf w.session failures cleaning writing verification) { w with host := t } := by
    dsimp only
    split
    · exact ⟨_, (Workspace.answers_verify _).map.bind (hreport _)⟩
    · exact ⟨none, (answers_pure none _).bind (hreport none)⟩
  refine ⟨writing, verification, t, hstored, ?_⟩
  rw [finish]
  dsimp only
  split
  next =>
    refine (answers_debug _ _).bind (hcreate.bind ?_)
    cases message <;> exact hwrite.bind htail
  next =>
    refine hcreate.bind ?_
    cases message <;> exact hwrite.bind htail

/-- What has been done when the artifacts are replaced. -/
theorem ends_replace {clean verify : Bool} {failures : List String}
    (hdir : w.session.config.outputDir.Proper) (h : Ends (replace clean verify failures) w r w') :
    ∃ b c u writing verification,
      w.session.fresh.1 = .ok b ∧
      Host.Removal w.host (swept clean w.session.fresh.2.1.layout.uniquePaths) c u ∧
      Host.Stored w.session.config.outputDir b u writing w'.host ∧
      r = reportOf { w.session with layout := w.session.fresh.2.1.layout, buffers := some b }
        failures c writing verification := by
  obtain ⟨b, _, hgenerate, h₁⟩ := ends_bind h
  obtain ⟨_, hsession, rfl⟩ := ends_on hgenerate
  obtain ⟨hfresh, rfl⟩ := Session.ends_generate_fresh hsession
  obtain ⟨c, _, hclean, h₂⟩ := ends_bind h₁
  obtain ⟨u, hremoval, rfl⟩ := ends_sweep rfl hclean
  obtain ⟨writing, verification, t, hstored, hfinish⟩ := answers_finish
    (w := ⟨u, { w.session with layout := w.session.fresh.2.1.layout, buffers := some b }⟩)
    hdir verify failures b c
  obtain ⟨rfl, rfl⟩ := hfinish.eq_of_ends h₂
  exact ⟨b, c, u, writing, verification, hfresh, hremoval, hstored, rfl⟩

/-- Where replacing the artifacts can fail: before it changes anything, or while it removes files. -/
theorem fails_replace {clean verify : Bool} {failures : List String}
    (hdir : w.session.config.outputDir.Proper) {f : Fault}
    (h : Fails (replace clean verify failures) w f w') :
    w'.host = w.host ∧ (Session.generate.run w.session).1 = .error f ∨
      ∃ b front path back c, w.session.fresh.1 = .ok b ∧
        swept clean w.session.fresh.2.1.layout.uniquePaths = front ++ path :: back ∧
        Host.Removal w.host front c w'.host ∧ w'.host.isFile (Path.ofString path) = .error f := by
  obtain hgenerate | ⟨b, _, hgenerate, h₁⟩ := fails_bind h
  · obtain ⟨hanswer, rfl⟩ := fails_on_run hgenerate
    exact .inl ⟨rfl, hanswer⟩
  obtain ⟨_, hsession, rfl⟩ := ends_on hgenerate
  obtain ⟨hfresh, rfl⟩ := Session.ends_generate_fresh hsession
  obtain hclean | ⟨c, _, hclean, h₂⟩ := fails_bind h₁
  · obtain ⟨front, path, back, c, hpaths, hremoval, hrefused⟩ := fails_sweep rfl hclean
    exact .inr ⟨b, front, path, back, c, hfresh, hpaths, hremoval, hrefused⟩
  obtain ⟨u, -, rfl⟩ := ends_sweep rfl hclean
  obtain ⟨writing, verification, t, -, hfinish⟩ := answers_finish
    (w := ⟨u, { w.session with layout := w.session.fresh.2.1.layout, buffers := some b }⟩)
    hdir verify failures b c
  exact absurd h₂ hfinish.not_fails

/-! ### A whole build -/

/-- The workspace in which a build replaces the artifacts. -/
def afterReading (w : Workspace) (inputs : List String) : Workspace :=
  w.reading ((Store.readAll w.host inputs).run w.session.store).2.1

theorem ends_steps {clean verify : Bool} (h : Ends (steps inputs clean verify) w r w') :
    ∃ failures, ((Store.readAll w.host inputs).run w.session.store).1 = .ok failures ∧
      Ends (replace clean verify failures) (afterReading w inputs) r w' := by
  rw [steps_eq] at h
  obtain ⟨failures, _, hread, h₁⟩ := ends_bind h
  obtain ⟨hfailures, rfl⟩ := Workspace.ends_readAll hread
  exact ⟨failures, hfailures, h₁⟩

theorem fails_steps {clean verify : Bool} {f : Fault} (h : Fails (steps inputs clean verify) w f w') :
    w'.host = w.host ∧ ((Store.readAll w.host inputs).run w.session.store).1 = .error f ∨
      ∃ failures, Fails (replace clean verify failures) (afterReading w inputs) f w' := by
  rw [steps_eq] at h
  obtain hread | ⟨failures, _, hread, h₁⟩ := fails_bind h
  · obtain ⟨hfault, rfl⟩ := Workspace.fails_readAll hread
    exact .inl ⟨Workspace.reading_host w _, hfault⟩
  · obtain ⟨-, rfl⟩ := Workspace.ends_readAll hread
    exact .inr ⟨failures, h₁⟩

/-- The workspace that a build starts from. -/
def opened (config : Config) (h : Host) : Workspace :=
  { host := h, session := Session.new h.homePath config }

theorem run_eq (config : Config) (inputs : List String) (clean verify : Bool) :
    run config inputs clean verify =
      on (opened config) (fun _ w => w.host) (steps inputs clean verify) := by
  simp only [run, on, opened]

/-- The session in which a build generates. -/
def filled (config : Config) (h : Host) (inputs : List String) : Session :=
  (afterReading (opened config h) inputs).session

variable {config : Config} {h : Host}

theorem filled_start (config : Config) (h : Host) (inputs : List String) :
    (filled config h inputs).start = { config } := rfl

/-- Nothing is pinned, so it generates from the configuration alone. -/
theorem generated_filled {inputs : List String} {b : Buffers Rule.Line}
    (hfresh : (filled config h inputs).fresh.1 = .ok b) :
    Generation.Generated { config } (filled config h inputs).fresh.2.1.layout
      (filled config h inputs).store b := by
  have hgenerated := Session.generated_fresh hfresh
  rwa [filled_start] at hgenerated

/-- What the inputs come to in the store of a new generator. -/
def readInputs (config : Config) (inputs : List String) (h : Host) :
    Except Fault (List String) × Store × List Notice :=
  (Store.readAll h inputs).run (opened config h).session.store

/-- The paths of the artifacts of a build. -/
def artifactPaths (config : Config) (h : Host) (inputs : List String) : List String :=
  (filled config h inputs).fresh.2.1.layout.uniquePaths

/-- Reading the same, a generator is the same. -/
theorem filled_congr {h' : Host} {inputs : List String} (hhome : h'.home = h.home)
    (hread : readInputs config inputs h' = readInputs config inputs h) :
    filled config h' inputs = filled config h inputs := by
  have hpath : h'.homePath = h.homePath := by rw [Host.homePath, Host.homePath, hhome]
  have hstore : (readInputs config inputs h').2.1 = (readInputs config inputs h).2.1 := by rw [hread]
  show ({ (Session.new h'.homePath config).stale with
      store := (readInputs config inputs h').2.1 } : Session) =
    { (Session.new h.homePath config).stale with store := (readInputs config inputs h).2.1 }
  rw [hstore, hpath]

/-- A build that answers has read, generated, removed and written; it may have checked as well. -/
theorem ends_run_fresh {clean verify : Bool} (inputs : List String)
    (hdir : config.outputDir.Proper) (hr : ((run config inputs clean verify).run h).1 = .ok r) :
    ∃ failures b c u writing verification,
      (readInputs config inputs h).1 = .ok failures ∧
      (filled config h inputs).fresh.1 = .ok b ∧
      Host.Removal h (swept clean (artifactPaths config h inputs)) c u ∧
      Host.Stored config.outputDir b u writing ((run config inputs clean verify).run h).2.1 ∧
      r = reportOf { filled config h inputs with
        layout := (filled config h inputs).fresh.2.1.layout, buffers := some b }
        failures c writing verification := by
  rw [run_eq] at hr ⊢
  obtain ⟨hanswer, ht⟩ := ends_on_run (Action.ends_run hr)
  rw [ht]
  obtain ⟨failures, hread, hreplace⟩ := ends_steps (Action.ends_run hanswer)
  obtain ⟨b, c, u, writing, verification, hfresh, hremoval, hstored, hreport⟩ :=
    ends_replace hdir hreplace
  exact ⟨failures, b, c, u, writing, verification, hread, hfresh, hremoval, hstored, hreport⟩

theorem not_verified_of_finish {failures : List String} {b : Buffers Rule.Line}
    {cleaning : Host.Cleaning} (h : Ends (finish false failures b cleaning) w r w') :
    r.verification = none := by
  have hrest {v v' : Workspace} {writing : Host.Writing} (h : Ends (do
      let verification ←
        if false && !writing.written.isEmpty then some <$> Workspace.verify else pure none
      let s := (← Action.get).session
      return reportOf s failures cleaning writing verification) v r v') :
      r.verification = none := by
    obtain ⟨_, _, hnone, h⟩ := ends_bind h
    obtain ⟨rfl, -⟩ := ends_pure hnone
    obtain ⟨s, _, -, h⟩ := ends_bind h
    obtain ⟨rfl, -⟩ := ends_pure h
    rfl
  have hstored {v v' : Workspace} (h : Ends (do
      let writing ← match ← Workspace.createDirectory with
        | some message => pure { errors := [message] }
        | none => Workspace.onHost (Host.writeBuffers Rule.Line.text b)
      let verification ←
        if false && !writing.written.isEmpty then some <$> Workspace.verify else pure none
      let s := (← Action.get).session
      return reportOf s failures cleaning writing verification) v r v') :
      r.verification = none := by
    obtain ⟨message, _, -, h⟩ := ends_bind h
    cases message <;>
    · obtain ⟨_, _, -, h⟩ := ends_bind h
      exact hrest h
  rw [finish] at h
  dsimp only at h
  split at h
  next =>
    obtain ⟨_, _, -, h⟩ := ends_bind h
    exact hstored h
  next => exact hstored h

/-- What is not asked to be verified is not. -/
theorem not_verified {clean : Bool} (hr : ((run config inputs clean false).run h).1 = .ok r) :
    r.verification = none := by
  rw [run_eq] at hr
  obtain ⟨hanswer, -⟩ := ends_on_run (Action.ends_run hr)
  obtain ⟨failures, -, hreplace⟩ := ends_steps (Action.ends_run hanswer)
  obtain ⟨b, _, -, hrest⟩ := ends_bind hreplace
  obtain ⟨c, _, -, hfinish⟩ := ends_bind hrest
  exact not_verified_of_finish hfinish

theorem ends_run (inputs : List String) (hdir : config.outputDir.Proper)
    (hr : ((run config inputs true false).run h).1 = .ok r) :
    ∃ m b c u writing,
      Generation.Generated { config } m (filled config h inputs).store b ∧
      Host.Removal h m.uniquePaths c u ∧
      Host.Stored config.outputDir b u writing ((run config inputs true false).run h).2.1 ∧
      r.artifacts = namedArtifacts m.artifacts ∧
      r.written = writing.written ∧ r.writeErrors = c.errors ++ writing.errors := by
  obtain ⟨-, b, c, u, writing, -, -, hfresh, hremoval, hstored, rfl⟩ :=
    ends_run_fresh inputs hdir hr
  exact ⟨_, b, c, u, writing, generated_filled hfresh, hremoval, hstored, rfl, rfl, rfl⟩

/-- A build fails while it reads or generates, or at a path that it cannot look up. -/
theorem fails_run {clean verify : Bool} {f : Fault} (inputs : List String)
    (hdir : config.outputDir.Proper)
    (hf : ((run config inputs clean verify).run h).1 = .error f) :
    ((run config inputs clean verify).run h).2.1 = h ∧
        ((readInputs config inputs h).1 = .error f ∨
          (Session.generate.run (filled config h inputs)).1 = .error f) ∨
      ∃ b front path back c,
        (filled config h inputs).fresh.1 = .ok b ∧
        swept clean (artifactPaths config h inputs) = front ++ path :: back ∧
        Host.Removal h front c ((run config inputs clean verify).run h).2.1 ∧
        ((run config inputs clean verify).run h).2.1.isFile (Path.ofString path) = .error f := by
  rw [run_eq] at hf ⊢
  obtain ⟨hanswer, ht⟩ := fails_on_run (Action.fails_run hf)
  rw [ht]
  obtain ⟨hhost, hread⟩ | ⟨failures, hreplace⟩ := fails_steps (Action.fails_run hanswer)
  · exact .inl ⟨hhost, .inl hread⟩
  obtain ⟨hhost, hgenerate⟩ | hrefused := fails_replace hdir hreplace
  · exact .inl ⟨hhost, .inr hgenerate⟩
  · exact .inr hrefused

/-- Without pins, all paths of a generation lie in the output directory. -/
theorem inside_of_generated (hc : config.WellFormed) {m : Layout} {store : Store}
    {b : Buffers Rule.Line} (hgenerated : Generation.Generated { config } m store b) :
    ∀ path ∈ m.uniquePaths, Layout.IsInside config.outputDir.text path := by
  intro path hpath
  obtain ⟨_, hresolved⟩ := hgenerated.resolved
  have hinside := Layout.resolved_inDirectory hc hresolved
  obtain ⟨k, hk⟩ := Assoc.mem_values_iff.mp (Text.mem_sortedUnique.mp hpath)
  have hin := hinside k path hk
  rwa [Layout.directory, hgenerated.config] at hin

theorem known_of_generated {m : Layout} {store : Store} {b : Buffers Rule.Line}
    (hgenerated : Generation.Generated { config } m store b) {path : String}
    (hlines : b.linesAt path ≠ []) : path ∈ m.uniquePaths := by
  obtain ⟨k, hk⟩ := hgenerated.known hlines
  exact Text.mem_sortedUnique.mpr (Assoc.mem_values_iff.mpr ⟨k, hk⟩)

/-- Where the inputs can be read, the rules generated, and every path of an artifact looked up, a
build answers. -/
theorem run_answers {failures : List String} {b : Buffers Rule.Line} (inputs : List String)
    (hc : config.WellFormed) (hlinks : h.Unlinked config.outputDir)
    (hread : ((Store.readAll h inputs).run (opened config h).session.store).1 = .ok failures)
    (hgenerate : (Session.generate.run (filled config h inputs)).1 = .ok b)
    (hshort : ∀ m b, Generation.Generated { config } m (filled config h inputs).store b →
      ∀ path ∈ m.uniquePaths, ∀ f, h.isFile (Path.ofString path) ≠ .error f) :
    ∃ r, ((run config inputs true false).run h).1 = .ok r := by
  cases hanswer : ((run config inputs true false).run h).1 with
  | ok r => exact ⟨r, rfl⟩
  | error f =>
    obtain ⟨-, hread' | hgenerate'⟩ |
      ⟨b', front, path, back, c, hfresh, hpaths, hremoval, hrefused⟩ :=
      fails_run inputs hc.outputDir hanswer
    · rw [readInputs, hread] at hread'
      cases hread'
    · rw [hgenerate] at hgenerate'
      cases hgenerate'
    · have hgenerated := generated_filled hfresh
      have hinside := inside_of_generated hc hgenerated
      replace hpaths : (filled config h inputs).fresh.2.1.layout.uniquePaths = front ++ path :: back :=
        hpaths
      have hpath : path ∈ (filled config h inputs).fresh.2.1.layout.uniquePaths := by simp [hpaths]
      obtain hsame | hbefore := Host.unchanged_or_refused hc.outputDir (hlinks.at _)
        (hpaths ▸ hinside) hremoval hrefused
      · rw [hsame] at hrefused
        exact absurd hrefused (hshort _ b' hgenerated path hpath f)
      · exact absurd hbefore (hshort _ b' hgenerated path hpath f)

/-- **What a build does to the machine.** The output directory has no link in it, and its path goes
up only from what is there. If the build answers, then the files at the paths of its artifacts are
replaced by the lines it has generated from the inputs, and its report says which. If it fails, then
nothing has changed, or a path in the output directory is too long. -/
theorem run_effect {config : Config} {h : Host} (inputs : List String) (hc : config.WellFormed)
    (hwf : h.tree.WellFormed) (hlinks : h.Unlinked config.outputDir)
    (hclimb : h.Climbable config.outputDir) :
    let outcome := (run config inputs true false).run h
    (∀ r, outcome.1 = .ok r → ∃ m b,
      Generation.Generated { config } m (filled config h inputs).store b ∧
      r.artifacts = namedArtifacts m.artifacts ∧
      Host.Effect config.outputDir m.uniquePaths b h outcome.2.1 r) ∧
    ∀ f, outcome.1 = .error f → outcome.2.1 = h ∨
      ∃ path, Layout.IsInside config.outputDir.text path ∧
        h.isFile (Path.ofString path) = .error f := by
  constructor
  · intro r hr
    obtain ⟨m, b, c, u, writing, hgenerated, hremoval, hstored, hartifacts, hwritten, herrors⟩ :=
      ends_run inputs hc.outputDir hr
    exact ⟨m, b, hgenerated, hartifacts, Host.effect_of_stored hwf hc.outputDir hclimb (hlinks.at _)
      (inside_of_generated hc hgenerated) (fun _ => known_of_generated hgenerated) hremoval hstored
      hwritten herrors⟩
  · intro f hf
    obtain ⟨hhost, -⟩ | ⟨b, front, path, back, c, hfresh, hpaths, hremoval, hrefused⟩ :=
      fails_run inputs hc.outputDir hf
    · exact .inl hhost
    have hgenerated := generated_filled hfresh
    have hinside := inside_of_generated hc hgenerated
    replace hpaths : (filled config h inputs).fresh.2.1.layout.uniquePaths = front ++ path :: back :=
      hpaths
    rw [hpaths] at hinside
    have hpath := hinside path (by simp)
    exact (Host.unchanged_or_refused hc.outputDir (hlinks.at _) hinside hremoval
      hrefused).imp_right fun hbefore => ⟨path, hpath, hbefore⟩

/-! ### A build into one file -/

/-- Where everything goes to one file, the path of all artifacts is that of the file. -/
theorem mem_single_iff (hsingle : config.isSingle = true) (hjoined : config.isJoined = true)
    {m : Layout} {store : Store} {b : Buffers Rule.Line}
    (hgenerated : Generation.Generated { config } m store b) {path : String} :
    path ∈ m.uniquePaths ↔ path = ({ config } : Layout).sharedPath := by
  obtain ⟨_, hresolved⟩ := hgenerated.resolved
  have hall := Layout.resolved_inOneFile hsingle hjoined hresolved
  obtain ⟨-, -, hglobal⟩ := Generation.resolved_extends hresolved
  obtain ⟨⟨p, hp⟩, -⟩ := hglobal (by rw [hsingle, Bool.or_true])
  rw [Layout.uniquePaths, Text.mem_sortedUnique, Assoc.mem_values_iff]
  constructor
  · rintro ⟨k, hk⟩
    exact hall.all k path hk
  · rintro rfl
    exact ⟨.global, hall.all _ _ hp ▸ hp⟩

/-- If there are lines, that is where they are. -/
theorem single_nonEmpty (hsingle : config.isSingle = true) (hjoined : config.isJoined = true)
    {m : Layout} {store : Store} {b : Buffers Rule.Line}
    (hgenerated : Generation.Generated { config } m store b)
    (hplan : Generation.plan config store ≠ []) :
    b.nonEmpty = [({ config } : Layout).sharedPath] := by
  have hall : ∀ path ∈ b.nonEmpty, path = ({ config } : Layout).sharedPath := fun path hp =>
    (mem_single_iff hsingle hjoined hgenerated).mp
      (known_of_generated hgenerated (Buffers.mem_nonEmpty.mp hp))
  obtain ⟨e, he⟩ := List.exists_mem_of_ne_nil _ hplan
  obtain ⟨path, hpath, -⟩ := List.mem_flatMap.mp (hgenerated.mem_iff.mpr ⟨e, he, rfl⟩)
  have hnodup : b.nonEmpty.Nodup := (Buffers.nonEmpty_strict b).imp String.ne_of_lt
  refine List.perm_singleton.mp ((List.perm_ext_iff_of_nodup hnodup (List.nodup_singleton _)).mpr
    fun q => ?_)
  rw [List.mem_singleton]
  exact ⟨hall q, fun hq => hq ▸ hall path hpath ▸ hpath⟩

/-- What is read is what the files of the expansion hold. -/
theorem filled_of_expanded {inputs : List String} {e : Expansion} {failures : List String}
    {reading : Except Fault (List String) × Stage Store}
    (hexpand : Expansion.ofInputs h (opened config h).session.store.root
      (inputs.map Path.ofString) = (e, none))
    (hread : exec (Store.readEach h e.files) ⟨(opened config h).session.store, e.notices⟩ = reading)
    (hanswer : reading.1 = .ok failures) :
    ((Store.readAll h inputs).run (opened config h).session.store).1 =
        .ok (e.failures ++ failures) ∧
      (filled config h inputs).store = reading.2.state := by
  have hrun : (Store.readAll h inputs).run (opened config h).session.store =
      (.ok (e.failures ++ failures), reading.2.state, reading.2.notices) := by
    rw [run_eq_exec, Store.exec_readAll hexpand, hread, hanswer]
    rfl
  refine ⟨by rw [hrun], ?_⟩
  rw [filled, afterReading, Workspace.reading_store]
  exact congrArg (·.2.1) hrun

/-- How the paths are chosen if there are artifacts over all files. -/
def choiceOf (config : Config) (sources : List String) :
    Except Fault Unit × Layout × List Notice :=
  (Layout.chooseAll sources true).run { config }

/-- The paths that are chosen are those of the layout. -/
theorem chosen_layout {m : Layout} {store : Store} {b : Buffers Rule.Line} {sources : List String}
    (hglobal : (!store.origins.isEmpty || config.isSingle) = true)
    (hgenerated : Generation.Generated { config } m store b)
    (hsources : Text.sorted store.files.keys = sources)
    (hchosen : (choiceOf config sources).1.isOk = true)
    (hfits : ∀ x ∈ (choiceOf config sources).2.1.artifacts.entries,
      ∀ y ∈ (choiceOf config sources).2.1.artifacts.entries,
        (choiceOf config sources).2.1.Compatible x y) :
    m.artifacts = (choiceOf config sources).2.1.artifacts := by
  obtain ⟨_, hresolved⟩ := hgenerated.resolved
  rw [hsources, show (!store.origins.isEmpty || ({ config } : Layout).config.isSingle) = true
    from hglobal] at hresolved
  obtain ⟨_, hpaths⟩ := Outcome.exists_of_isOk hchosen
  have hrun : (Layout.resolveAll sources true).run { config } = choiceOf config sources :=
    Layout.run_resolveAll hpaths (Layout.clash?_of_compatible hfits)
  have hends := Action.ends_run (a := Layout.resolveAll sources true) (by rw [hrun]; exact hpaths)
  obtain ⟨-, hm⟩ :=
    (Layout.blind_resolveAll config.policy config.debug sources true).eq_of_ends hends hresolved
  rw [hm, hrun]
  rfl

theorem chosen_generates {s : Session} {sources : List String} {store : Store}
    (hglobal : (!store.origins.isEmpty || config.isSingle) = true)
    (hstart : s.start = { config }) (hstore : s.store = store)
    (hsources : Text.sorted store.files.keys = sources)
    (hcheck : (Generation.checkNames config.id store sources).isOk = true)
    (hchosen : (choiceOf config sources).1.isOk = true)
    (hfits : ∀ x ∈ (choiceOf config sources).2.1.artifacts.entries,
      ∀ y ∈ (choiceOf config sources).2.1.artifacts.entries,
        (choiceOf config sources).2.1.Compatible x y)
    (hemit : (exec (Generation.emitAll store) ⟨{ layout := (choiceOf config sources).2.1 },
      (choiceOf config sources).2.2⟩).1.isOk = true) :
    ∃ b, (Session.generate.run s).1 = .ok b := by
  subst hstore
  have hconfig : s.config = config := congrArg Layout.config hstart
  refine Session.generate_checked hsources (hconfig ▸ hglobal) (hconfig ▸ hcheck) ?_ hchosen
    (Layout.clash?_of_compatible hfits) hemit
  rw [hstart, choiceOf]

/-- What the inputs come to if each takes one step. -/
def expansionOf (config : Config) (h : Host) (inputs : List String) : Expansion × Option Fault :=
  Expansion.run h (opened config h).session.store.root (inputs.map Path.ofString).length
    { pending := inputs.map Path.ofString }

/-- The reading of their files. -/
def readingOf (config : Config) (h : Host) (inputs : List String) :
    Except Fault (List String) × Stage Store :=
  exec (Store.readEach h (expansionOf config h inputs).1.files)
    ⟨(opened config h).session.store, (expansionOf config h inputs).1.notices⟩

theorem filled_of_reading {inputs failures : List String}
    (hexpand : (expansionOf config h inputs).2.isNone = true)
    (hdone : (expansionOf config h inputs).1.pending = [])
    (hread : (readingOf config h inputs).1 = .ok failures) :
    ((Store.readAll h inputs).run (opened config h).session.store).1 =
        .ok ((expansionOf config h inputs).1.failures ++ failures) ∧
      (filled config h inputs).store = (readingOf config h inputs).2.state := by
  have hreading : exec (Store.readEach h (expansionOf config h inputs).1.files)
      ⟨(opened config h).session.store, (expansionOf config h inputs).1.notices⟩ =
      readingOf config h inputs := rfl
  exact filled_of_expanded (Store.ofInputs_enough (Nat.le_succ _)
    (Expansion.outcome_eq hexpand) hdone) hreading hread

/-- Where the inputs can be read and their rules generated, and the paths looked up, a build
answers. -/
theorem chosen_answers {inputs sources : List String}
    (hglobal : (!(readingOf config h inputs).2.state.origins.isEmpty || config.isSingle) = true)
    (hc : config.WellFormed) (hlinks : h.Unlinked config.outputDir)
    (hexpand : (expansionOf config h inputs).2.isNone = true)
    (hdone : (expansionOf config h inputs).1.pending = [])
    (hread : (readingOf config h inputs).1.isOk = true)
    (hsources : Text.sorted (readingOf config h inputs).2.state.files.keys = sources)
    (hcheck : (Generation.checkNames config.id
      (readingOf config h inputs).2.state sources).isOk = true)
    (hchosen : (choiceOf config sources).1.isOk = true)
    (hfits : ∀ x ∈ (choiceOf config sources).2.1.artifacts.entries,
      ∀ y ∈ (choiceOf config sources).2.1.artifacts.entries,
        (choiceOf config sources).2.1.Compatible x y)
    (hemit : (exec (Generation.emitAll (readingOf config h inputs).2.state)
      ⟨{ layout := (choiceOf config sources).2.1 }, (choiceOf config sources).2.2⟩).1.isOk = true)
    (hshort : ∀ path ∈ (choiceOf config sources).2.1.artifacts.values,
      (h.isFile (Path.ofString path)).isOk = true) :
    (filled config h inputs).store = (readingOf config h inputs).2.state ∧
      ∃ r, ((run config inputs true false).run h).1 = .ok r := by
  obtain ⟨_, hfailures⟩ := Outcome.exists_of_isOk hread
  obtain ⟨hanswer, hstore⟩ := filled_of_reading hexpand hdone hfailures
  obtain ⟨b, hb⟩ := chosen_generates hglobal (filled_start config h inputs) hstore hsources hcheck
    hchosen hfits hemit
  refine ⟨hstore, run_answers inputs hc hlinks hanswer hb fun m b hgenerated path hpath f => ?_⟩
  rw [hstore] at hgenerated
  rw [Layout.uniquePaths, chosen_layout hglobal hgenerated hsources hchosen hfits,
    Text.mem_sortedUnique] at hpath
  obtain ⟨isFile, hfile⟩ := Outcome.exists_of_isOk (hshort path hpath)
  rw [hfile]
  exact fun he => by cases he

/-- Where everything goes to one file, only its path has to be looked up. -/
theorem single_answers {inputs sources : List String} (hsingle : config.isSingle = true)
    (hjoined : config.isJoined = true) (hc : config.WellFormed)
    (hlinks : h.Unlinked config.outputDir)
    (hexpand : (expansionOf config h inputs).2.isNone = true)
    (hdone : (expansionOf config h inputs).1.pending = [])
    (hread : (readingOf config h inputs).1.isOk = true)
    (hsources : Text.sorted (readingOf config h inputs).2.state.files.keys = sources)
    (hcheck : (Generation.checkNames config.id
      (readingOf config h inputs).2.state sources).isOk = true)
    (hchosen : (choiceOf config sources).1.isOk = true)
    (hemit : (exec (Generation.emitAll (readingOf config h inputs).2.state)
      ⟨{ layout := (choiceOf config sources).2.1 }, (choiceOf config sources).2.2⟩).1.isOk = true)
    (hshort : (h.isFile (Path.ofString ({ config } : Layout).sharedPath)).isOk = true) :
    (filled config h inputs).store = (readingOf config h inputs).2.state ∧
      ∃ r, ((run config inputs true false).run h).1 = .ok r := by
  obtain ⟨_, hpaths⟩ := Outcome.exists_of_isOk hchosen
  have hone := Layout.chosen_inOneFile hsingle hjoined (Action.ends_run hpaths)
  refine chosen_answers (by rw [hsingle, Bool.or_true]) hc hlinks hexpand hdone hread hsources
    hcheck hchosen ?_ hemit ?_
  · intro x _ y _ _
    exact Layout.shareClass_eq_iff.mpr ⟨.inl hone.single, .inl hone.joined⟩
  · intro path hpath
    obtain ⟨k, hk⟩ := Assoc.mem_values_iff.mp hpath
    rw [hone.all k path hk]
    exact hshort

/-- Everything goes to one file in the directory `dir`. -/
def oneFileConfig (dir : Option Path) : Config :=
  { Generation.sampleConfig with singleOutfile := .bool true, dir }

theorem oneFileConfig_wellFormed {dir : Option Path} (hdir : ∀ d, dir = some d → d.Proper) :
    (oneFileConfig dir).WellFormed :=
  ⟨Session.sampleConfig_wellFormed.idStart, Session.sampleConfig_wellFormed.idLetters,
    Session.sampleConfig_wellFormed.root, hdir⟩

/-- A machine with a file of one word. -/
def wordHost : Host where
  tree := ⟨Assoc.ofList [(["A"], .file "pear 2\n".toUTF8)]⟩

theorem run_effect_word :
    (oneFileConfig none).WellFormed ∧ wordHost.tree.WellFormed ∧
      wordHost.Unlinked (oneFileConfig none).outputDir ∧
      wordHost.Climbable (oneFileConfig none).outputDir ∧
      ∃ r, ((run (oneFileConfig none) ["/A"] true false).run wordHost).1 = .ok r ∧
        ∃ m b, Generation.Generated { config := oneFileConfig none } m
            (filled (oneFileConfig none) wordHost ["/A"]).store b ∧
          Host.Effect (oneFileConfig none).outputDir m.uniquePaths b wordHost
            ((run (oneFileConfig none) ["/A"] true false).run wordHost).2.1 r := by
  have hc : (oneFileConfig none).WellFormed := oneFileConfig_wellFormed fun _ hd => by cases hd
  have hwf : wordHost.tree.WellFormed := Tree.wellFormed_of_keys (by decide +kernel)
  have hlinks : wordHost.Unlinked (oneFileConfig none).outputDir := fun _ _ _ _ =>
    Tree.no_link_of_values (by decide +kernel) _ _
  have hclimb : wordHost.Climbable (oneFileConfig none).outputDir :=
    Host.climbable_of_no_up (by decide +kernel)
  have hsources : Text.sorted
      (readingOf (oneFileConfig none) wordHost ["/A"]).2.state.files.keys = ["A"] := by
    decide +kernel
  obtain ⟨-, r, hr⟩ := single_answers rfl rfl hc hlinks (by decide +kernel) (by decide +kernel)
    (by decide +kernel) hsources (by decide +kernel) (by decide +kernel) (by decide +kernel)
    (by decide +kernel)
  obtain ⟨m, b, hgenerated, -, heffect⟩ := (run_effect ["/A"] hc hwf hlinks hclimb).1 r hr
  exact ⟨hc, hwf, hlinks, hclimb, r, hr, m, b, hgenerated, heffect⟩

/-! ### A directory that is reached by going up -/

/-- A path that goes up from a directory that is not there. -/
def risingPath : Option Path := some (Path.ofString "new/../K")

/-- An earlier build has left a file in the directory. -/
def staleHost : Host where
  tree := ⟨Assoc.ofList [(["K"], .directory), (["K", "50_K.cf"], .file "score OLD 1\n".toUTF8)]⟩

/-- The input that is not there gives no word. -/
theorem stale_reading :
    (readingOf (oneFileConfig risingPath) staleHost ["gone.txt"]).2.state.files.keys = [] ∧
      (readingOf (oneFileConfig risingPath) staleHost ["gone.txt"]).2.state.origins.isEmpty =
        true := by
  decide +kernel

/-- Before the directory is made, its path leads nowhere. -/
theorem stale_nowhere (directory : Location) :
    ¬ staleHost.tree.LeadsTo staleHost.home (oneFileConfig risingPath).outputDir directory := by
  have hnot : (staleHost.tree.find staleHost.home true
      (oneFileConfig risingPath).outputDir).isOk = false := by
    decide +kernel
  intro hleads
  rw [Tree.LeadsTo] at hleads
  rw [hleads] at hnot
  cases hnot

/-- Once it is made, the old file is at the path of the artifacts. -/
theorem stale_made :
    ∃ t, staleHost.makePath (oneFileConfig risingPath).outputDir = (t, .ok ()) ∧
      t.isFile (Path.ofString ({ config := oneFileConfig risingPath } : Layout).sharedPath) =
        .ok true := by
  obtain ⟨_, hok⟩ := Outcome.exists_of_isOk
    (x := (staleHost.makePath (oneFileConfig risingPath).outputDir).2) (by decide +kernel)
  have hfile : ((staleHost.makePath (oneFileConfig risingPath).outputDir).1.isFile
      (Path.ofString ({ config := oneFileConfig risingPath } : Layout).sharedPath)).toOption =
        some true := by
    decide +kernel
  generalize staleHost.makePath (oneFileConfig risingPath).outputDir = made at hok hfile ⊢
  obtain ⟨t, outcome⟩ := made
  obtain rfl : outcome = .ok () := hok
  exact ⟨t, rfl, Outcome.toOption_eq_some_iff.mp hfile⟩

/-- Where the path goes up from a directory that is made first, a file is left that is neither
written nor reported. -/
theorem run_leaves_stale :
    (oneFileConfig risingPath).WellFormed ∧ staleHost.tree.WellFormed ∧
      staleHost.Unlinked (oneFileConfig risingPath).outputDir ∧
      ∃ r, ((run (oneFileConfig risingPath) ["gone.txt"] true false).run staleHost).1 = .ok r ∧
        ∃ m b, Generation.Generated { config := oneFileConfig risingPath } m
            (filled (oneFileConfig risingPath) staleHost ["gone.txt"]).store b ∧
          r.artifacts = namedArtifacts m.artifacts ∧
          ∃ path ∈ m.uniquePaths, path ∉ r.written ∧ r.writeErrors = [] ∧
            ((run (oneFileConfig risingPath) ["gone.txt"] true false).run staleHost).2.1.isFile
              (Path.ofString path) = .ok true := by
  have hc : (oneFileConfig risingPath).WellFormed :=
    oneFileConfig_wellFormed fun _ hd => Option.some.inj hd ▸ Path.proper_ofString _
  have hwf : staleHost.tree.WellFormed := Tree.wellFormed_of_keys (by decide +kernel)
  have hlinks : staleHost.Unlinked (oneFileConfig risingPath).outputDir := fun _ _ _ _ =>
    Tree.no_link_of_values (by decide +kernel) _ _
  obtain ⟨hkeys, horigins⟩ := stale_reading
  obtain ⟨hstore, r, hr⟩ := single_answers rfl rfl hc hlinks (by decide +kernel) (by decide +kernel)
    (by decide +kernel) (congrArg Text.sorted hkeys) (by decide +kernel) (by decide +kernel)
    (by decide +kernel) (by decide +kernel)
  obtain ⟨m, b, c, u, writing, hgenerated, hremoval, hstored, hartifacts, hwritten, herrors⟩ :=
    ends_run ["gone.txt"] hc.outputDir hr
  have hnone : b.nonEmpty = [] := by
    refine hgenerated.nonEmpty_eq_nil ?_ ?_
    · rw [hstore, hkeys]
    · rw [hstore, horigins]
  obtain ⟨rfl, rfl⟩ := Host.removal_outside hc.outputDir (inside_of_generated hc hgenerated)
    stale_nowhere hremoval
  obtain ⟨t, hmade, hfile⟩ := stale_made
  have hwrites := hstored.writes hmade
  rw [hnone] at hwrites
  obtain ⟨hnothing, ht⟩ := hwrites.nothing
  refine ⟨hc, hwf, hlinks, r, hr, m, b, hgenerated, hartifacts,
    ({ config := oneFileConfig risingPath } : Layout).sharedPath,
    (mem_single_iff rfl rfl hgenerated).mpr rfl, ?_, ?_, ?_⟩
  · rw [hwritten, hnothing]
    exact List.not_mem_nil
  · rw [herrors, hnothing]
    rfl
  · rw [ht]
    exact hfile

end Build

end MailRules
