import MailRules.Proofs.Generation.Failure
import MailRules.Proofs.Generation.Meaning
import MailRules.Proofs.Session.Cache

/-! A generator that cannot generate.

The only reason is that names or paths clash. Nothing is kept then, so a call to write the artifacts
generates again, comes to the same clash and writes nothing. -/
namespace MailRules

open MailRules.Action

namespace Session

variable {s : Session}

/-- What a valid configuration and a store filled from texts come to. -/
theorem fresh_cases {root : Path} {fields : Assoc String Value}
    (hconfig : Config.ofFields root fields = .ok s.config) (hstore : s.store.FromText)
    (hnamed : s.store.Named) : (∃ b, s.fresh.1 = .ok b) ∨ ∃ e, s.fresh.1 = .error (.naming e) := by
  obtain ⟨_, hid⟩ := Config.checkId_of_ofFields hconfig
  have hguarded : Guarded (Generation.Has s.config) IsNaming (Generation.generate s.store) :=
    Generation.guarded_generate hstore hnamed (Generation.unbraced_id hid)
  cases hanswer : s.fresh.1 with
  | ok b => exact .inl ⟨b, rfl⟩
  | error f =>
    have hstart : Generation.Has s.config ({ layout := s.start } : Generation) := rfl
    obtain ⟨e, rfl⟩ := (hguarded ⟨{ layout := s.start }, []⟩ hstart).2 f hanswer
    exact .inr ⟨e, rfl⟩

/-- A clash is the answer, whatever was kept, and nothing is kept after it. -/
theorem run_generate_clash {e : NamingError} (h : s.fresh.1 = .error (.naming e)) :
    (generate.run s).1 = .error (.generation e) ∧
      (generate.run s).2.1 = { s with layout := s.fresh.2.1.layout, buffers := none } := by
  rw [run_eq_exec, exec_generate]
  dsimp only
  cases hfresh : s.fresh with
  | mk answer rest =>
    rw [hfresh] at h
    obtain rfl : answer = .error (.naming e) := h
    exact ⟨rfl, rfl⟩

end Session

/-- Where generating anew comes to a clash and nothing is kept, nothing is written. -/
theorem Workspace.run_writeAll_clash {w : Workspace} {e : NamingError}
    (hkept : w.session.buffers = none) (h : w.session.fresh.1 = .error (.naming e)) :
    (writeAll.run w).1 = .error (.generation e) ∧ (writeAll.run w).2.1.host = w.host := by
  obtain ⟨hanswer, -⟩ := Session.run_generate_clash h
  rw [run_eq_exec, writeAll_eq, exec_get_bind, hkept]
  dsimp only
  rw [exec_bind, onSession, exec_on, hanswer]
  exact ⟨rfl, rfl⟩

/-- **A generation fails only by its names.** With a valid configuration, a store that was filled
from texts under keys with file names, and whatever pins, a generator answers with its buffers and
keeps them, or it stops at a naming error and keeps none. Then nothing can be written: a call to do
so stops at the same error and leaves the machine as it is. -/
theorem Session.generates_or_refuses {root : Path} {fields : Assoc String Value} {s : Session}
    (hconfig : Config.ofFields root fields = .ok s.config) (hstore : s.store.FromText)
    (hnamed : s.store.Named) :
    let t := (generate.run s).2.1
    (∃ b, (generate.run s).1 = .ok b ∧ t.buffers = some b) ∨
      ∃ e, (generate.run s).1 = .error (.generation e) ∧ t.buffers = none ∧
        ∀ host, (Workspace.writeAll.run ⟨host, t⟩).1 = .error (.generation e) ∧
          (Workspace.writeAll.run ⟨host, t⟩).2.1.host = host := by
  intro t
  rcases fresh_cases hconfig hstore hnamed with ⟨b, hfresh⟩ | ⟨e, hfresh⟩
  · obtain ⟨hanswer, hstate⟩ := (answers_generate hfresh).run
    exact .inl ⟨b, hanswer, congrArg Session.buffers hstate⟩
  · obtain ⟨hanswer, hstate⟩ := run_generate_clash hfresh
    have hkept : t.buffers = none := congrArg Session.buffers hstate
    have hagain : t.fresh.1 = .error (.naming e) := by
      rw [show t = _ from hstate, fresh_of_kept]
      exact hfresh
    exact .inr ⟨e, hanswer, hkept, fun host => Workspace.run_writeAll_clash hkept hagain⟩

/-! ### Two words with one name -/

/-- Two words that come to the same part of a name. -/
def Session.clashing : Session where
  config := Generation.sampleConfig
  store := ({ root := ⟨.root, []⟩ } : Store).run
    [.add "A" { word := "a-b" }, .add "A" { word := "a.b" }]
  layout := { config := Generation.sampleConfig }
  pins := Assoc.ofList [(⟨some "A", true⟩, "elsewhere.cf"), (⟨some "Z", false⟩, "")]

theorem Session.clashing_fromText : Session.clashing.store.FromText := by
  have hone : Declaration.read "a-b" = .ok (.declared { word := "a-b" }) := by decide +kernel
  have htwo : Declaration.read "a.b" = .ok (.declared { word := "a.b" }) := by decide +kernel
  exact .line (.line (.empty _ _) hone) htwo

/-- They cannot both have rules. -/
theorem Session.clashing_refused (b : Buffers Rule.Line) : clashing.fresh.1 ≠ .ok b := by
  intro h
  have hword (word : String) (hmem : word ∈ ["a-b", "a.b"]) :
      word ∈ clashing.store.componentWords "A" := by
    have hrules : clashing.store.files.get? "A" =
        some { groups := Assoc.ofList [("LOCAL", ["a-b", "a.b"])] } := by decide +kernel
    refine Store.mem_componentWords.mpr (.inl ⟨_, hrules, Store.mem_words.mpr (.inr ?_)⟩)
    exact ⟨"LOCAL", ["a-b", "a.b"], by decide +kernel, hmem⟩
  have hfile : "A" ∈ clashing.store.files.keys := by decide +kernel
  have hsame := (generated_fresh h).apart hfile hfile (hword "a-b" (by decide))
    (hword "a.b" (by decide)) (by decide +kernel)
  exact absurd hsame.2 (by decide)

theorem Session.generates_or_refuses_clashing :
    Config.ofFields ⟨.root, []⟩ Generation.sampleFields = .ok clashing.config ∧
      clashing.store.FromText ∧ clashing.store.Named ∧
      ∃ e, (generate.run clashing).1 = .error (.generation e) ∧
        (generate.run clashing).2.1.buffers = none := by
  have hnamed : clashing.store.Named := by
    show ∀ source ∈ clashing.store.files.keys, (FileName.segment? source).isSome
    decide +kernel
  have hvalid : Config.ofFields ⟨.root, []⟩ Generation.sampleFields = .ok clashing.config :=
    Generation.sampleConfig_valid
  refine ⟨hvalid, clashing_fromText, hnamed, ?_⟩
  rcases generates_or_refuses hvalid clashing_fromText hnamed with ⟨b, hb, -⟩ | ⟨e, he, hnone, -⟩
  · exact absurd (ends_generate_fresh (ends_run hb)).1 (clashing_refused b)
  · exact ⟨e, he, hnone⟩

end MailRules
