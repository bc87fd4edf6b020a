import MailRules.Proofs.Build

/-! The last generation is never out of date.

A generator keeps the lines and the paths of its last generation until it reads or pins. So they are
what generating anew would come to (`Current`): every call keeps that, whether it answers or fails,
and so does a whole history of calls (`after_current`). A generation that fails in an unforeseen way
leaves the old lines beside a new layout, but this happens only where no lines are kept, since
generating twice from the same store and pins comes to the same. -/
namespace MailRules

open MailRules.Action

namespace Session

variable {s : Session} {b : Buffers Rule.Line}

/-- What is kept is what generating anew would come to. -/
def Current (s : Session) : Prop :=
  ∀ b, s.buffers = some b → s.fresh.1 = .ok b ∧ s.fresh.2.1.layout = s.layout

theorem current_of_none (h : s.buffers = none) : s.Current := by
  intro b hb
  rw [h] at hb
  cases hb

/-- Generating anew does not depend on what is kept. -/
theorem fresh_of_kept (s : Session) (layout : Layout) (buffers : Option (Buffers Rule.Line)) :
    ({ s with layout, buffers } : Session).fresh = s.fresh := rfl

theorem Current.after_generate (hs : s.Current) (before : List Notice) :
    (exec generate ⟨s, before⟩).2.state.Current := by
  rw [exec_generate]
  dsimp only
  cases hfresh : s.fresh with
  | mk answer rest =>
    obtain ⟨g, more⟩ := rest
    cases answer with
    | ok b =>
      intro b' hb
      rw [fresh_of_kept, hfresh]
      exact ⟨congrArg Except.ok (Option.some.inj hb), rfl⟩
    | error f =>
      cases f with
      | naming e => exact current_of_none rfl
      | _ =>
        refine current_of_none ?_
        rw [Option.eq_none_iff_forall_ne_some]
        intro b hb
        have hanswer := (hs b hb).1
        rw [hfresh] at hanswer
        cases hanswer

/-- Where something is kept, generating anew comes to it. -/
theorem Current.answers (hs : s.Current) (hb : s.buffers = some b) :
    Answers generate s.stale b s := by
  obtain ⟨hanswer, hlayout⟩ := hs b hb
  intro before
  have hstale : s.stale.fresh = s.fresh := fresh_of_kept s s.layout none
  cases hfresh : s.fresh with
  | mk answer rest =>
    obtain ⟨g, more⟩ := rest
    rw [hfresh] at hanswer hlayout
    obtain rfl : answer = .ok b := hanswer
    refine ⟨before ++ more, ?_⟩
    rw [exec_generate]
    dsimp only
    rw [hstale, hfresh]
    dsimp only
    have hsame : ({ s.stale with layout := g.layout, buffers := some b } : Session) = s := by
      rw [show g.layout = s.layout from hlayout, ← hb]
      rfl
    rw [hsame]

/-- So the paths do not depend on what is kept. -/
theorem Current.artifactPaths_eq (hs : s.Current) :
    (artifactPaths.run s).1 = (artifactPaths.run s.stale).1 ∧
      (artifactPaths.run s).2.1 = (artifactPaths.run s.stale).2.1 := by
  cases hb : s.buffers with
  | none =>
    have hsame : s.stale = s := by
      rw [stale, ← hb]
    rw [hsame]
    exact ⟨rfl, rfl⟩
  | some b =>
    have hkept : Answers artifactPaths s s.layout.uniquePaths s :=
      Workspace.answers_artifactPaths (by rw [hb]; rfl)
    have hanew : Answers artifactPaths s.stale s.layout.uniquePaths s := by
      refine (answers_get s.stale).bind ?_
      rw [if_pos (show s.stale.buffers.isNone = true from rfl)]
      refine (hs.answers hb).discard.bind ?_
      exact (answers_get s).bind (answers_pure _ _)
    obtain ⟨hanswer, hstate⟩ := hkept.run
    obtain ⟨hanswer', hstate'⟩ := hanew.run
    exact ⟨hanswer.trans hanswer'.symm, hstate.trans hstate'.symm⟩

theorem Current.after_artifactPaths (hs : s.Current) (before : List Notice) :
    (exec artifactPaths ⟨s, before⟩).2.state.Current := by
  rw [artifactPaths, exec_get_bind]
  split
  next =>
    rw [exec_bind, exec_discard]
    cases h : exec generate ⟨s, before⟩ with
    | mk answer t =>
      have ht := hs.after_generate before
      rw [h] at ht
      cases answer with
      | ok => exact ht
      | error => exact ht
  next => exact hs

end Session

namespace Workspace

variable {w : Workspace}

/-- Makes the output directory and writes the lines; answers with what went wrong. -/
def putAll (b : Buffers Rule.Line) : Action Workspace (List String) := do
  match ← createDirectory with
  | some message => return [message]
  | none => return (← onHost (Host.writeBuffers Rule.Line.text b)).errors

theorem writeAll_eq :
    writeAll = (do
      let buffers ← match (← Action.get).session.buffers with
        | some b => pure b
        | none => onSession Session.generate
      putAll buffers) := rfl

theorem blind_putAll (b : Buffers Rule.Line) : Blind id (putAll b) := by
  refine Blind.bind (blind_get_bind (fun _ => rfl) fun w => blind_on _ _ _) fun message => ?_
  cases message with
  | some message => exact blind_pure _
  | none => exact (blind_on _ _ _).bind fun _ => blind_pure _

/-- Only the machine is changed. -/
theorem spares_putAll (b : Buffers Rule.Line) : Spares session (putAll b) := by
  refine Spares.bind (Spares.bind spares_get fun w => spares_on _ _ _ fun _ _ => rfl)
    fun message => ?_
  cases message with
  | some message => exact spares_pure _
  | none => exact Spares.bind (spares_on _ _ _ fun _ _ => rfl) fun _ => spares_pure _

/-- The workspace without the last generation. -/
def stale (w : Workspace) : Workspace := { w with session := w.session.stale }

theorem exec_writeAll_kept {b : Buffers Rule.Line} (hb : w.session.buffers = some b)
    (before : List Notice) : exec writeAll ⟨w, before⟩ = exec (putAll b) ⟨w, before⟩ := by
  rw [writeAll_eq, exec_get_bind, hb]
  dsimp only
  rw [exec_bind, exec_pure]

theorem exec_writeAll_anew (hb : w.session.buffers = none) (before : List Notice) :
    exec writeAll ⟨w, before⟩ = exec (onSession Session.generate >>= putAll) ⟨w, before⟩ := by
  rw [writeAll_eq, exec_get_bind, hb]

/-- Neither what is written nor what is answered depends on what is kept. -/
theorem writeAll_eq_stale (hw : w.session.Current) :
    (writeAll.run w).1 = (writeAll.run w.stale).1 ∧
      (writeAll.run w).2.1 = (writeAll.run w.stale).2.1 := by
  cases hb : w.session.buffers with
  | none =>
    have hsame : w.stale = w := by
      rw [stale, Session.stale, ← hb]
    rw [hsame]
    exact ⟨rfl, rfl⟩
  | some b =>
    have hsession : Answers Session.generate w.stale.session b w.session := hw.answers hb
    have hgenerate : Answers (onSession Session.generate) w.stale b w := hsession.on
    obtain ⟨said, hanew⟩ := hgenerate []
    have hstale : exec writeAll ⟨w.stale, []⟩ = exec (putAll b) ⟨w, said⟩ := by
      rw [exec_writeAll_anew rfl, exec_bind, hanew]
    rw [run_eq_exec, run_eq_exec, exec_writeAll_kept hb, hstale]
    simpa only [id_eq] using blind_putAll b w said []

theorem after_writeAll (hw : w.session.Current) (before : List Notice) :
    (exec writeAll ⟨w, before⟩).2.state.session.Current := by
  cases hb : w.session.buffers with
  | some b =>
    rw [exec_writeAll_kept hb, spares_putAll b]
    exact hw
  | none =>
    have hgenerated := hw.after_generate []
    rw [exec_writeAll_anew hb, exec_bind, onSession, exec_on, run_eq_exec]
    dsimp only
    cases hstage : exec Session.generate ⟨w.session, []⟩ with
    | mk answer t =>
      rw [hstage] at hgenerated
      cases answer with
      | ok b =>
        dsimp only
        rw [spares_putAll b]
        exact hgenerated
      | error f =>
        dsimp only
        exact hgenerated

/-! ### A history of calls -/

/-- What happens to a generator: a call, be it answered or refused, or a change of the machine that
is not its own. -/
inductive Event
  | read (path : String)
  | readAll (inputs : List String)
  | pin (source path : String) (scores : Bool)
  | generate
  | artifactPaths
  | writeAll
  | elsewhere (host : Host)

/-- The workspace that an operation leaves. -/
def left {α : Type} (a : Action Workspace α) (w : Workspace) : Workspace := (a.run w).2.1

/-- What an event leaves. -/
def Event.run (w : Workspace) : Event → Workspace
  | .read path => left (Workspace.read path) w
  | .readAll inputs => left (Workspace.readAll inputs) w
  | .pin source path scores => { w with session := w.session.pin source path scores }
  | .generate => left (onSession Session.generate) w
  | .artifactPaths => left (onSession Session.artifactPaths) w
  | .writeAll => left Workspace.writeAll w
  | .elsewhere host => { w with host }

/-- What a history leaves. -/
def after (w : Workspace) (events : List Event) : Workspace := events.foldl Event.run w

/-- Every event keeps the last generation up to date. -/
theorem run_current (hw : w.session.Current) (e : Event) : (Event.run w e).session.Current := by
  cases e with
  | read path =>
    show (left (Workspace.read path) w).session.Current
    refine Session.current_of_none ?_
    rw [left, Workspace.read, run_get_bind, run_onStore, reading_buffers]
  | readAll inputs =>
    show (left (Workspace.readAll inputs) w).session.Current
    refine Session.current_of_none ?_
    rw [left, run_readAll, reading_buffers]
  | pin source path scores =>
    show (w.session.pin source path scores).Current
    exact Session.current_of_none rfl
  | generate =>
    show (left (onSession Session.generate) w).session.Current
    rw [left, onSession, run_eq_exec, exec_on, run_eq_exec]
    exact hw.after_generate []
  | artifactPaths =>
    show (left (onSession Session.artifactPaths) w).session.Current
    rw [left, onSession, run_eq_exec, exec_on, run_eq_exec]
    exact hw.after_artifactPaths []
  | writeAll =>
    show (left Workspace.writeAll w).session.Current
    rw [left, run_eq_exec]
    exact after_writeAll hw []
  | elsewhere host => exact hw

theorem after_current (hw : w.session.Current) (events : List Event) :
    (w.after events).session.Current := by
  induction events generalizing w with
  | nil => exact hw
  | cons e rest ih => exact ih (run_current hw e)

/-- **The last generation is never out of date.** After any history of a generator, the lines and
the paths that it keeps are what generating anew from its store and its pins would come to. So the
paths it tells and the files it writes are the same as if it kept nothing. -/
theorem cache_never_stale (config : Config) (h : Host) (events : List Event) :
    let w := (Build.opened config h).after events
    (∀ b, w.session.buffers = some b →
      w.session.fresh.1 = .ok b ∧ w.session.fresh.2.1.layout = w.session.layout) ∧
    ((Session.artifactPaths.run w.session).1 = (Session.artifactPaths.run w.session.stale).1 ∧
      (Session.artifactPaths.run w.session).2.1 =
        (Session.artifactPaths.run w.session.stale).2.1) ∧
    (writeAll.run w).1 = (writeAll.run w.stale).1 ∧
      (writeAll.run w).2.1 = (writeAll.run w.stale).2.1 := by
  intro w
  have hw : w.session.Current := after_current (Session.current_of_none rfl) events
  exact ⟨hw, hw.artifactPaths_eq, writeAll_eq_stale hw⟩

end Workspace

end MailRules
