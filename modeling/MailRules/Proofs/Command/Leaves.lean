import MailRules.Proofs.Build
import MailRules.Proofs.Command.Options

/-! What the commands leave.

A generation leaves the machine of its build (`leaves_generate`), and a cleaning removes the files
at the paths of what would be generated (`leaves_sweep`). It ends well only if that can be generated
(`fresh_of_clean`). -/
namespace MailRules

open MailRules.Action

/-- Without a last generation, there are paths only if the rules can be generated. -/
theorem Session.fresh_of_paths {s t : Session} {paths : List String} (hnone : s.buffers = none)
    (hends : Ends Session.artifactPaths s paths t) : ∃ b, s.fresh.1 = .ok b := by
  obtain ⟨_, _, hget, hrest⟩ := ends_bind hends
  obtain ⟨rfl, rfl⟩ := ends_get hget
  dsimp only at hrest
  rw [if_pos (by rw [hnone]; rfl)] at hrest
  obtain ⟨_, _, hgenerate, -⟩ := ends_bind hrest
  obtain ⟨b, hgenerate⟩ := ends_discard hgenerate
  exact ⟨b, (ends_generate_fresh hgenerate).1⟩

namespace Workspace

variable {w : Workspace} {inputs failures : List String}

/-- An operation on the store answers as it does on the store alone. -/
theorem answers_onStore {α : Type} {a : Action Store α} {x : α}
    (h : (a.run w.session.store).1 = .ok x) :
    Answers (onStore a) w x (w.reading (a.run w.session.store).2.1) := by
  have hsession {v : Workspace} (hv : (a.run v.session.store).1 = .ok x) :
      Answers (onSession (a.on Session.store fun s store => { s with store })) v x
        { v with session := { v.session with store := (a.run v.session.store).2.1 } } :=
    Answers.on (answers_on_run hv)
  exact (answers_modify _ w).bind (hsession h)

theorem answers_readAll
    (h : ((Store.readAll w.host inputs).run w.session.store).1 = .ok failures) :
    Answers (readAll inputs) w failures
      (w.reading ((Store.readAll w.host inputs).run w.session.store).2.1) :=
  (answers_get w).bind (answers_onStore h)

/-- Without a last generation, the paths are those of a new one. -/
theorem answers_freshPaths {s : Session} {b : Buffers Rule.Line} (hnone : s.buffers = none)
    (hfresh : s.fresh.1 = .ok b) :
    Answers Session.artifactPaths s s.fresh.2.1.layout.uniquePaths
      { s with layout := s.fresh.2.1.layout, buffers := some b } := by
  refine (answers_get _).bind ?_
  rw [if_pos (by rw [hnone]; rfl)]
  exact (Session.answers_generate hfresh).discard.bind ((answers_get _).bind (answers_pure _ _))

/-- Where nothing has been generated yet, cleaning generates and removes the files at the paths. -/
theorem answers_clean {b : Buffers Rule.Line} {c : Host.Cleaning}
    (hnone : w.session.buffers = none) (hfresh : w.session.fresh.1 = .ok b)
    (hremove : ((Host.removeFiles w.session.fresh.2.1.layout.uniquePaths).run w.host).1 = .ok c) :
    ∃ session, Answers clean w c
      ⟨((Host.removeFiles w.session.fresh.2.1.layout.uniquePaths).run w.host).2.1, session⟩ := by
  have hpaths : Answers (onSession Session.artifactPaths) w
      w.session.fresh.2.1.layout.uniquePaths
      ⟨w.host, { w.session with layout := w.session.fresh.2.1.layout, buffers := some b }⟩ :=
    (answers_freshPaths hnone hfresh).on
  have hfiles : Answers (onHost (Host.clean w.session.fresh.2.1.layout.uniquePaths))
      ⟨w.host, { w.session with layout := w.session.fresh.2.1.layout, buffers := some b }⟩ c
      ⟨((Host.removeFiles w.session.fresh.2.1.layout.uniquePaths).run w.host).2.1,
        { w.session with layout := w.session.fresh.2.1.layout, buffers := some b }⟩ := by
    rw [clean_uniquePaths]
    exact answers_on_run hremove
  exact ⟨_, hpaths.bind hfiles⟩

end Workspace

namespace Terminal

variable {α β : Type} {t t' : Terminal} {h : Host} {inputs : List String} {s : Command.Settings}
  {c : Config}

/-! ### What a command leaves -/

/-- The operation answers, and leaves the machine. -/
def Leaves (a : Action Terminal α) (t : Terminal) (x : α) (h : Host) : Prop :=
  ∃ t', Answers a t x t' ∧ t'.host = h

theorem leaves_pure (x : α) (t : Terminal) : Leaves (pure x) t x t.host :=
  ⟨t, answers_pure _ _, rfl⟩

theorem leaves_get (t : Terminal) : Leaves Action.get t t t.host :=
  ⟨t, answers_get t, rfl⟩

theorem leaves_print (texts : List String) (t : Terminal) : Leaves (print texts) t () t.host :=
  ⟨_, answers_modify _ _, rfl⟩

theorem leaves_printErrors (texts : List String) (t : Terminal) :
    Leaves (printErrors texts) t () t.host :=
  ⟨_, answers_modify _ _, rfl⟩

theorem Leaves.bind {a : Action Terminal α} {f : α → Action Terminal β} {x : α} {y : β} {h' : Host}
    (ha : Leaves a t x h) (hf : ∀ t', t'.host = h → Leaves (f x) t' y h') :
    Leaves (a >>= f) t y h' := by
  obtain ⟨t₁, ha, hhost⟩ := ha
  obtain ⟨t₂, hf, hhost'⟩ := hf t₁ hhost
  exact ⟨t₂, ha.bind hf, hhost'⟩

theorem Leaves.run {a : Action Terminal α} {x : α} (ha : Leaves a t x h) :
    (a.run t).1 = .ok x ∧ (a.run t).2.1.host = h := by
  obtain ⟨t', ha, rfl⟩ := ha
  exact ⟨ha.run.1, congrArg host ha.run.2⟩

theorem leaves_refuse (message : String) (t : Terminal) : Leaves (refuse message) t 2 t.host :=
  (leaves_printErrors _ t).bind fun t' ht => ht ▸ leaves_pure 2 t'

section OnWorkspace

variable {session : Session} {a : Action Workspace α} {x : α} {w : Workspace}

theorem leaves_onWorkspace (ha : Answers a ⟨t.host, session⟩ x w) :
    Leaves (onWorkspace session a) t x w.host := by
  refine ⟨{ t with host := w.host }, ?_, rfl⟩
  refine Answers.on ?_
  exact ha

theorem leaves_attempt (ha : Answers a ⟨t.host, session⟩ x w) :
    Leaves (attempt (onWorkspace session a)) t (.ok x) w.host := by
  refine ⟨{ t with host := w.host }, ?_, rfl⟩
  refine Answers.attempt_on ?_
  exact ha

end OnWorkspace

/-! ### The configuration of a command -/

/-- The configuration that the file makes. -/
def loaded (h : Host) (file : Option Path) : Except Fault Config :=
  ((Config.load file h.homePath).run h).1

/-- Without a configuration file everything is as it is by default. -/
theorem loaded_missing (hnone : h.isFile (h.homePath.child Config.fileName) = .ok false) :
    loaded h none = Config.ofFields h.homePath ∅ := by
  have hload : exec (Config.load none h.homePath) ⟨h, []⟩ =
      (Config.ofFields h.homePath ∅, ⟨h, []⟩) := by
    rw [Config.load, exec_get_bind]
    show exec (Action.ofExcept (h.isFile (h.homePath.child Config.fileName)) >>= _) ⟨h, []⟩ = _
    rw [exec_bind, hnone]
    rfl
  rw [loaded, run_eq_exec, hload]

/-- The configuration that a command makes of its settings. -/
def configured (h : Host) (s : Command.Settings) : Except Fault Config := do
  (← loaded h s.config).withOverrides s.fields

def loading (s : Command.Settings) : Action Host Config := do
  let c ← Config.load s.config (← Action.get).homePath
  Action.ofExcept (c.withOverrides s.fields)

theorem run_loading (h : Host) (s : Command.Settings) :
    ((loading s).run h).1 = configured h s ∧ ((loading s).run h).2.1 = h := by
  have hspares := Config.spares_load s.config h.homePath ⟨h, []⟩
  rw [loading, run_get_bind, configured, loaded, run_eq_exec, run_eq_exec, exec_bind]
  cases hload : exec (Config.load s.config h.homePath) ⟨h, []⟩ with
  | mk answer stage =>
    rw [hload] at hspares
    cases answer with
    | error f => exact ⟨rfl, hspares⟩
    | ok c =>
      dsimp only
      rw [exec_ofExcept]
      exact ⟨rfl, hspares⟩

theorem leaves_loading (hconfig : configured t.host s = .ok c) :
    Leaves (attempt (onHost (loading s))) t (.ok c) t.host := by
  obtain ⟨hanswer, hhost⟩ := run_loading t.host s
  have hload := answers_attempt_on host (fun t host => { t with host }) (loading s) t
  rw [hanswer, hhost, hconfig] at hload
  exact ⟨t, hload, rfl⟩

/-- A command with a configuration does what it does with that. -/
theorem leaves_withConfig {next : Config → Action Terminal Nat} {status : Nat}
    (hconfig : configured t.host s = .ok c)
    (hnext : ∀ t', t'.host = t.host → Leaves (next c) t' status h) :
    Leaves (withConfig s next) t status h :=
  (leaves_loading hconfig).bind hnext

/-! ### A generation -/

/-- What a generation prints, and its status. -/
def present (s : Command.Settings) (r : Report) : Action Terminal Nat := do
  let usual := if (← Action.get).interactive then Report.Format.rich else .porcelain
  let text := r.inFormat (s.format.getD usual)
  if !text.isEmpty then print [text]
  let verified := (r.verification.map Verification.ok).getD true
  return if !verified || (s.strict && !r.isOk) then 1 else 0

theorem generate_eq (inputs : List String) (s : Command.Settings) :
    generate inputs s = (withConfig s fun c => do
      match ← Action.attempt (onHost (Build.run c inputs true s.verify)) with
      | .error (.generation e) => refuse e.message
      | .error f => Action.fail f
      | .ok r => present s r) := rfl

/-- The status of a generation with a report. -/
def statusOf (s : Command.Settings) (r : Report) : Nat :=
  if !(r.verification.map Verification.ok).getD true || (s.strict && !r.isOk) then 1 else 0

theorem leaves_present (t : Terminal) (s : Command.Settings) (r : Report) :
    Leaves (present s r) t (statusOf s r) t.host := by
  refine (leaves_get t).bind fun t' ht => ?_
  dsimp only
  generalize r.inFormat (s.format.getD (if t.interactive = true then .rich else .porcelain)) = text
  split
  · exact (leaves_print _ t').bind fun u hu => hu.trans ht ▸ leaves_pure _ u
  · exact ht ▸ leaves_pure _ t'

theorem leaves_build {r : Report} {verify : Bool}
    (hr : ((Build.run c inputs true verify).run t.host).1 = .ok r) :
    Leaves (attempt (onHost (Build.run c inputs true verify))) t (.ok r)
      ((Build.run c inputs true verify).run t.host).2.1 := by
  have hbuild := answers_attempt_on host (fun t host => { t with host })
    (Build.run c inputs true verify) t
  rw [hr] at hbuild
  exact ⟨_, hbuild, rfl⟩

/-- A generation answers if its build does, and leaves the machine of the build. -/
theorem leaves_generate {r : Report} (hconfig : configured t.host s = .ok c)
    (hr : ((Build.run c inputs true s.verify).run t.host).1 = .ok r) :
    Leaves (generate inputs s) t (statusOf s r)
      ((Build.run c inputs true s.verify).run t.host).2.1 := by
  rw [generate_eq]
  refine leaves_withConfig hconfig fun t₁ h₁ => ?_
  rw [← h₁] at hr ⊢
  exact (leaves_build hr).bind fun t₂ h₂ => h₂ ▸ leaves_present t₂ s r

/-! ### A cleaning -/

/-- Reads the inputs, and answers with what went wrong and with the session. -/
def reading (inputs : List String) : Action Workspace (List String × Session) := do
  let failures ← Workspace.readAll inputs
  return (failures, (← Action.get).session)

theorem answers_reading {failures : List String}
    (hread : ((Store.readAll h inputs).run (Build.opened c h).session.store).1 = .ok failures) :
    Answers (reading inputs) (Build.opened c h) (failures, Build.filled c h inputs)
      (Build.afterReading (Build.opened c h) inputs) := by
  have hreadAll : Answers (Workspace.readAll inputs) (Build.opened c h) failures
      (Build.afterReading (Build.opened c h) inputs) := Workspace.answers_readAll hread
  exact hreadAll.bind ((answers_get _).bind (answers_pure _ _))

/-- Prints what has been removed. -/
def conclude (cleaning : Host.Cleaning) : Action Terminal Nat := do
  print (cleaning.removed.map ("Removed " ++ ·))
  printErrors (cleaning.errors.map ("Error: " ++ ·))
  if cleaning.removed.isEmpty && cleaning.errors.isEmpty then print ["Nothing to remove."]
  return if cleaning.errors.isEmpty then 0 else 1

theorem leaves_conclude (t : Terminal) (cleaning : Host.Cleaning) :
    Leaves (conclude cleaning) t (if cleaning.errors.isEmpty then 0 else 1) t.host := by
  refine (leaves_print _ t).bind fun t₁ h₁ => (leaves_printErrors _ t₁).bind fun t₂ h₂ => ?_
  dsimp only
  split
  · exact (leaves_print _ t₂).bind fun t₃ h₃ => h₃.trans (h₂.trans h₁) ▸ leaves_pure _ t₃
  · exact h₂.trans h₁ ▸ leaves_pure _ t₂

/-- What cleaning does once the inputs are read. -/
def sweep (session : Session) : Action Terminal Nat := do
  match ← Action.attempt (onWorkspace session Workspace.clean) with
  | .error (.generation e) => refuse e.message
  | .error f => Action.fail f
  | .ok cleaning => conclude cleaning

theorem clean_eq (inputs : List String) (s : Command.Settings) :
    clean inputs s = (withConfig s fun c => do
      let (failures, session) ←
        onWorkspace (Session.new (← Action.get).host.homePath c) (reading inputs)
      printErrors (failures.map ("  [warn] " ++ ·))
      sweep session) := rfl

theorem leaves_reading {failures : List String} (ht : t.host = h)
    (hread : ((Store.readAll h inputs).run (Build.opened c h).session.store).1 = .ok failures) :
    Leaves (onWorkspace (Session.new h.homePath c) (reading inputs)) t
      (failures, Build.filled c h inputs) h := by
  subst ht
  exact leaves_onWorkspace (answers_reading hread)

/-- A cleaning that can read the inputs does what it does after that. -/
theorem leaves_clean {failures : List String} {status : Nat}
    (hconfig : configured t.host s = .ok c)
    (hread : ((Store.readAll t.host inputs).run (Build.opened c t.host).session.store).1 =
      .ok failures)
    (hsweep : ∀ t', t'.host = t.host → Leaves (sweep (Build.filled c t.host inputs)) t' status h) :
    Leaves (clean inputs s) t status h := by
  rw [clean_eq]
  refine leaves_withConfig hconfig fun t₁ h₁ => (leaves_get t₁).bind fun t₂ h₂ => ?_
  rw [h₁]
  refine (leaves_reading (h₂.trans h₁) hread).bind fun t₃ h₃ => ?_
  exact (leaves_printErrors _ t₃).bind fun t₄ h₄ => hsweep t₄ (h₄.trans h₃)

/-- A session that has not generated yet generates, and removes the files at the paths. -/
theorem leaves_sweep {session : Session} {b : Buffers Rule.Line} {cleaning : Host.Cleaning}
    (ht : t.host = h) (hnone : session.buffers = none) (hfresh : session.fresh.1 = .ok b)
    (hremove : ((Host.removeFiles session.fresh.2.1.layout.uniquePaths).run h).1 = .ok cleaning) :
    Leaves (sweep session) t (if cleaning.errors.isEmpty then 0 else 1)
      ((Host.removeFiles session.fresh.2.1.layout.uniquePaths).run h).2.1 := by
  subst ht
  obtain ⟨session', hclean⟩ :=
    Workspace.answers_clean (w := ⟨t.host, session⟩) hnone hfresh hremove
  refine (leaves_attempt hclean).bind fun t' ht => ?_
  have hconclude := leaves_conclude t' cleaning
  rwa [ht] at hconclude

/-- What comes after an operation that leaves the machine. -/
theorem Leaves.rest {a : Action Terminal α} {f : α → Action Terminal β} {x : α} {y : β}
    (ha : Leaves a t x h) (hends : Ends (a >>= f) t y t') :
    ∃ u, u.host = h ∧ Ends (f x) u y t' := by
  obtain ⟨u, ha, hhost⟩ := ha
  obtain ⟨_, _, hfirst, hrest⟩ := ends_bind hends
  obtain ⟨rfl, rfl⟩ := ha.eq_of_ends hfirst
  exact ⟨_, hhost, hrest⟩

/-- A session that has not generated yet is swept well only if it can generate. -/
theorem fresh_of_sweep {session : Session} (hnone : session.buffers = none)
    (hends : Ends (sweep session) t 0 t') : ∃ b, session.fresh.1 = .ok b := by
  obtain ⟨answer, u, hattempt, hrest⟩ := ends_bind hends
  obtain ⟨rfl, -⟩ := (answers_attempt_on (fun t : Terminal => (⟨t.host, session⟩ : Workspace))
    (fun t w => { t with host := w.host }) Workspace.clean t).eq_of_ends hattempt
  split at hrest
  next e _ =>
    obtain ⟨_, hrefused, -⟩ := leaves_refuse e.message u
    obtain ⟨hstatus, -⟩ := hrefused.eq_of_ends hrest
    cases hstatus
  next => exact absurd hrest not_ends_fail
  next cleaning hclean =>
    obtain ⟨_, _, hpaths, -⟩ := ends_bind (ends_run hclean)
    obtain ⟨_, hpaths, -⟩ := ends_on hpaths
    exact Session.fresh_of_paths hnone hpaths

/-- A cleaning ends well only if the rules of its inputs can be generated. -/
theorem fresh_of_clean {failures : List String} (hconfig : configured t.host s = .ok c)
    (hread : ((Store.readAll t.host inputs).run (Build.opened c t.host).session.store).1 =
      .ok failures)
    (hstatus : ((clean inputs s).run t).1 = .ok 0) :
    ∃ b, (Build.filled c t.host inputs).fresh.1 = .ok b := by
  have hends := ends_run hstatus
  rw [clean_eq] at hends
  obtain ⟨t₁, h₁, hrest⟩ := (leaves_loading hconfig).rest hends
  obtain ⟨t₂, h₂, hrest⟩ := (leaves_get t₁).rest hrest
  rw [h₁] at hrest
  obtain ⟨t₃, h₃, hrest⟩ := (leaves_reading (h₂.trans h₁) hread).rest hrest
  obtain ⟨t₄, -, hsweep⟩ := (leaves_printErrors _ t₃).rest hrest
  exact fresh_of_sweep rfl hsweep

/-! ### A command line -/

/-- What a command that takes inputs does with them. -/
def perform (command : Command) (debug : Bool) (inputs : List String) (s : Command.Settings) :
    Action Terminal Nat :=
  match command with
  | .clean => clean inputs s
  | _ => generate inputs (s.told debug)

/-- Arguments that call a command for inputs do what the command does. -/
theorem run_called {arguments : List String} {command : Command} {w : Command.Words} {debug : Bool}
    (hcalls : Command.Calls arguments command w debug) (hvariadic : command.isVariadic = true)
    (hasked : w.urgent? = none) (hs : Command.Settings.ofWords t.host w = .ok s) :
    (run arguments).run t =
      if w.others = [] then
        (refuse (UsageError.missingArgument command.argument).message).run t
      else (perform command debug w.others s).run t := by
  have hrun : exec (run arguments) ⟨t, []⟩ =
      if w.others = [] then
        exec (refuse (UsageError.missingArgument command.argument).message) ⟨t, []⟩
      else exec (perform command debug w.others s) ⟨t, []⟩ := by
    rw [run, hcalls.isEmpty_eq]
    show exec (Action.get >>= _) ⟨t, []⟩ = _
    rw [exec_get_bind, hcalls.ofArguments_eq hvariadic hasked hs]
    by_cases hnone : w.others = []
    · rw [if_pos hnone, if_pos hnone]
    · rw [if_neg hnone, if_neg hnone]
      cases command with
      | generate | clean => rfl
      | _ => cases hvariadic
  rw [run_eq_exec, hrun]
  split <;> rw [run_eq_exec]

end Terminal

end MailRules
