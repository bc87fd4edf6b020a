import MailRules.Proofs.Output.Effect
import MailRules.Proofs.Session.Pins
import MailRules.Workspace

/-! What the operations of a generator do on a machine.

Reading changes the store and forgets the last generation (`ends_onStore`); cleaning and writing act
on the paths and the lines of the last one (`ends_clean`, `answers_store`). -/
namespace MailRules

open MailRules.Action

namespace Workspace

variable {w w' : Workspace} {inputs : List String}

/-- The session in which a store is read: the last generation is forgotten. -/
def reading (w : Workspace) (store : Store) : Workspace :=
  { w with session := { w.session.stale with store } }

@[simp] theorem reading_host (w : Workspace) (store : Store) : (w.reading store).host = w.host := rfl

@[simp] theorem reading_store (w : Workspace) (store : Store) :
    (w.reading store).session.store = store := rfl

@[simp] theorem reading_buffers (w : Workspace) (store : Store) :
    (w.reading store).session.buffers = none := rfl

/-- An operation on the store ends as it does on the store alone. -/
theorem ends_onStore {α : Type} {a : Action Store α} {x : α} (h : Ends (onStore a) w x w') :
    (a.run w.session.store).1 = .ok x ∧ w' = w.reading (a.run w.session.store).2.1 := by
  obtain ⟨_, _, hstale, h₁⟩ := ends_bind h
  obtain rfl := ends_modify hstale
  obtain ⟨h₂, rfl⟩ := ends_on_run h₁
  obtain ⟨hanswer, hsession⟩ := ends_on_run (ends_run h₂)
  refine ⟨hanswer, ?_⟩
  rw [hsession]
  rfl

theorem fails_onStore {α : Type} {a : Action Store α} {f : Fault} (h : Fails (onStore a) w f w') :
    (a.run w.session.store).1 = .error f ∧ w' = w.reading (a.run w.session.store).2.1 := by
  obtain hstale | ⟨_, _, hstale, h₁⟩ := fails_bind h
  · exact absurd hstale (answers_modify _ _).not_fails
  obtain rfl := ends_modify hstale
  obtain ⟨h₂, rfl⟩ := fails_on_run h₁
  obtain ⟨hanswer, hsession⟩ := fails_on_run (fails_run h₂)
  refine ⟨hanswer, ?_⟩
  rw [hsession]
  rfl

/-- Whatever it answers, the store is what the operation leaves. -/
theorem run_onStore {α : Type} (a : Action Store α) (w : Workspace) :
    ((onStore a).run w).2.1 = w.reading (a.run w.session.store).2.1 := by
  cases h : ((onStore a).run w).1 with
  | ok x => exact (ends_onStore (ends_run h)).2
  | error f => exact (fails_onStore (fails_run h)).2

theorem ends_readAll {failures : List String} (h : Ends (readAll inputs) w failures w') :
    ((Store.readAll w.host inputs).run w.session.store).1 = .ok failures ∧
      w' = w.reading ((Store.readAll w.host inputs).run w.session.store).2.1 := by
  obtain ⟨_, _, hget, h₁⟩ := ends_bind h
  obtain ⟨rfl, rfl⟩ := ends_get hget
  exact ends_onStore h₁

theorem fails_readAll {f : Fault} (h : Fails (readAll inputs) w f w') :
    ((Store.readAll w.host inputs).run w.session.store).1 = .error f ∧
      w' = w.reading ((Store.readAll w.host inputs).run w.session.store).2.1 := by
  obtain hget | ⟨_, _, hget, h₁⟩ := fails_bind h
  · exact absurd hget (answers_get _).not_fails
  obtain ⟨rfl, rfl⟩ := ends_get hget
  exact fails_onStore h₁

theorem run_readAll (inputs : List String) (w : Workspace) :
    ((readAll inputs).run w).2.1 =
      w.reading ((Store.readAll w.host inputs).run w.session.store).2.1 := by
  cases h : ((readAll inputs).run w).1 with
  | ok failures => exact (ends_readAll (ends_run h)).2
  | error f => exact (fails_readAll (fails_run h)).2

/-- After a generation its layout is asked for the paths. -/
theorem answers_artifactPaths {s : Session} (hs : s.buffers.isSome = true) :
    Answers Session.artifactPaths s s.layout.uniquePaths s := by
  refine (answers_get s).bind ?_
  rw [if_neg (by rw [Option.isNone_iff_eq_none]; rintro hnone; rw [hnone] at hs; cases hs)]
  exact (answers_get s).bind (answers_pure _ _)

/-- The paths of a layout come in the order in which their files are removed. -/
theorem clean_uniquePaths (l : Layout) :
    Host.clean l.uniquePaths = Host.removeFiles l.uniquePaths := by
  have hsame : Text.sortedUnique l.uniquePaths = l.uniquePaths :=
    Text.sortedUnique_congr fun _ => Text.mem_sortedUnique
  rw [Host.clean, hsame]

theorem ends_clean {c : Host.Cleaning} (hs : w.session.buffers.isSome = true)
    (h : Ends clean w c w') :
    ∃ u, Host.Removal w.host w.session.layout.uniquePaths c u ∧ w' = { w with host := u } := by
  obtain ⟨paths, _, hpaths, h₁⟩ := ends_bind h
  obtain ⟨rfl, rfl⟩ := (answers_artifactPaths hs).on.eq_of_ends hpaths
  obtain ⟨u, hremove, rfl⟩ := ends_on h₁
  rw [clean_uniquePaths] at hremove
  exact ⟨u, Host.ends_removeFiles hremove, rfl⟩

theorem fails_clean {f : Fault} (hs : w.session.buffers.isSome = true) (h : Fails clean w f w') :
    ∃ front path back c, w.session.layout.uniquePaths = front ++ path :: back ∧
      Host.Removal w.host front c w'.host ∧ w'.host.isFile (Path.ofString path) = .error f := by
  obtain hpaths | ⟨paths, _, hpaths, h₁⟩ := fails_bind h
  · exact absurd hpaths (answers_artifactPaths hs).on.not_fails
  obtain ⟨rfl, rfl⟩ := (answers_artifactPaths hs).on.eq_of_ends hpaths
  obtain ⟨u, hremove, rfl⟩ := fails_on h₁
  rw [clean_uniquePaths] at hremove
  exact Host.fails_removeFiles hremove

/-- Making the directory and writing the lines do not fail. -/
theorem answers_store {b : Buffers Rule.Line} (hdir : w.session.config.outputDir.Proper) :
    ∃ message u writing t, Answers createDirectory w message { w with host := u } ∧
      Answers (match message with
        | some message => pure ({ errors := [message] } : Host.Writing)
        | none => onHost (Host.writeBuffers Rule.Line.text b)) { w with host := u } writing
          { w with host := t } ∧
      Host.Stored w.session.config.outputDir b w.host writing t := by
  have hpath : Path.ofString w.session.config.outputDir.text = w.session.config.outputDir :=
    Path.ofString_text hdir
  cases hmade : w.host.makePath w.session.config.outputDir with
  | mk u outcome =>
    have hname : w.host.makePath (Path.ofString w.session.config.outputDir.text) = (u, outcome) := by
      rw [hpath, hmade]
    have hcreate : Answers createDirectory w _ { w with host := u } :=
      (answers_get w).bind (Host.answers_createDirectory hname).on
    cases outcome with
    | error r => exact ⟨_, u, _, u, hcreate, answers_pure _ _, .unmade hmade⟩
    | ok =>
      obtain ⟨writing, t, hwrite, hw⟩ := Host.answers_writePaths (h := u) (b := b)
        Rule.Line.text fun path hp => Buffers.mem_nonEmpty.mp hp
      exact ⟨_, u, writing, t, hcreate, hwrite.on, .made hmade hw⟩

/-- Checking the rules does not fail, and changes nothing. -/
theorem answers_verify (w : Workspace) :
    Answers verify w (w.host.linter.verify Linter.program Linter.patience) w :=
  (answers_get w).bind (Answers.on (fun _ => ⟨_, rfl⟩))

end Workspace

end MailRules
