import MailRules.Proofs.Generation.Artifacts
import MailRules.Proofs.Session.Pins

/-! Artifacts that a check keeps apart.

Whatever paths are pinned, the check of a layout fails exactly if two artifacts share a path that
are not meant to, and it names two that do (`Checked`). A generation writes to the paths that it has
checked and to no others, so with a file for each source, no two sources meet at a path
(`sources_kept_apart`). -/
namespace MailRules

open MailRules.Action

namespace Layout

variable {l : Layout} {k j : ArtifactKey} {p : String}

/-- The artifacts are meant to share a path: they are of one source, or one file is for all; and
both are scores or neither is, or scores stand beside the rules. -/
def Aliases (config : Config) (k j : ArtifactKey) : Prop :=
  (config.isSingle = true ∨ k.source = j.source) ∧ (config.isJoined = true ∨ k.scores = j.scores)

/-- Two artifacts share a path and are not meant to. -/
structure Clash (l : Layout) (k j : ArtifactKey) (p : String) : Prop where
  ne : k ≠ j
  first : l.path? k = some p
  second : l.path? j = some p
  unmeant : ¬ Aliases l.config k j

theorem shareClass_eq_iff_aliases : l.shareClass k = l.shareClass j ↔ Aliases l.config k j :=
  shareClass_eq_iff

theorem clash_of_shareClass_ne (hk : l.path? k = some p) (hj : l.path? j = some p)
    (hclass : l.shareClass k ≠ l.shareClass j) : l.Clash k j p where
  ne he := hclass (he ▸ rfl)
  first := hk
  second := hj
  unmeant h := hclass (shareClass_eq_iff_aliases.mpr h)

/-- An artifact that the search stops at clashes with the owner of its path, which is one of the
artifacts before it. -/
theorem findClash_eq_some {owners : Assoc String ArtifactKey} {es : List (ArtifactKey × String)}
    {e : NamingError} (howners : ∀ p k, owners.get? p = some k → l.path? k = some p)
    (hes : ∀ a ∈ es, l.path? a.1 = some a.2) (h : l.findClash owners es = some e) :
    ∃ k j p, l.Clash k j p ∧ e = .sharedPath p k.text j.text := by
  induction es generalizing owners with
  | nil => cases h
  | cons a rest ih =>
    obtain ⟨key, path⟩ := a
    rw [List.forall_mem_cons] at hes
    rw [findClash] at h
    split at h
    next =>
      refine ih (fun p k hk => ?_) hes.2 h
      rw [Assoc.get?_insert] at hk
      split at hk
      next hp =>
        rw [hp, ← Option.some.inj hk]
        exact hes.1
      next => exact howners p k hk
    next owner howner =>
      split at h
      next => exact ih howners hes.2 h
      next hclass =>
        exact ⟨owner, key, path, clash_of_shareClass_ne (howners path owner howner) hes.1 hclass,
          (Option.some.inj h).symm⟩

theorem clash?_eq_some {e : NamingError} (h : l.clash? = some e) :
    ∃ k j p, l.Clash k j p ∧ e = .sharedPath p k.text j.text := by
  refine findClash_eq_some (fun p k hk => ?_) (fun a ha => ?_) h
  · cases hk
  · exact Assoc.get?_eq_some_iff.mpr (List.mem_mergeSort.mp ha)

theorem clash?_eq_none_iff_apart : l.clash? = none ↔ ∀ k j p, ¬ l.Clash k j p := by
  rw [clash?_eq_none_iff]
  constructor
  · exact fun h k j p hc => hc.unmeant (shareClass_eq_iff_aliases.mp (h k j p hc.first hc.second))
  · exact fun h k j p hk hj => by_contra fun hclass => h k j p (clash_of_shareClass_ne hk hj hclass)

theorem run_validate (l : Layout) :
    (validate.run l).1 = l.clash?.elim (.ok ()) (fun e => .error (.naming e)) ∧
      (validate.run l).2.1 = l := by
  rw [run_eq_exec, validate, exec_get_bind]
  cases l.clash? <;> exact ⟨rfl, rfl⟩

/-- The check of a layout is exact. -/
structure Checked (l : Layout) : Prop where
  fails_iff : (∃ e, (validate.run l).1 = .error (.naming e)) ↔ ∃ k j p, l.Clash k j p
  /-- An error is about artifacts that clash. -/
  names : ∀ f, (validate.run l).1 = .error f →
    ∃ k j p, l.Clash k j p ∧ f = .naming (.sharedPath p k.text j.text)
  passes : (∀ k j p, ¬ l.Clash k j p) → (validate.run l).1 = .ok ()
  /-- A check changes nothing. -/
  keeps : (validate.run l).2.1 = l

theorem checked (l : Layout) : Checked l := by
  obtain ⟨hanswer, hkeeps⟩ := run_validate l
  cases hclash : l.clash? with
  | none =>
    rw [hclash] at hanswer
    replace hanswer : (validate.run l).1 = .ok () := hanswer
    have hapart := clash?_eq_none_iff_apart.mp hclash
    refine ⟨iff_of_false ?_ ?_, fun f hf => ?_, fun _ => hanswer, hkeeps⟩
    · rintro ⟨e, he⟩
      cases hanswer.symm.trans he
    · rintro ⟨k, j, p, h⟩
      exact hapart k j p h
    · cases hanswer.symm.trans hf
  | some e =>
    rw [hclash] at hanswer
    replace hanswer : (validate.run l).1 = .error (.naming e) := hanswer
    obtain ⟨k, j, p, h, rfl⟩ := clash?_eq_some hclash
    refine ⟨iff_of_true ⟨_, hanswer⟩ ⟨k, j, p, h⟩, fun f hf => ?_,
      fun hapart => absurd h (hapart k j p), hkeeps⟩
    cases hanswer.symm.trans hf
    exact ⟨k, j, p, h, rfl⟩

end Layout

namespace Generation

open Layout

/-- The lines of a generation go where their artifacts are, no lines are anywhere else, and
artifacts with one path are of one source; they are both rules or both scores, unless scores stand
beside the rules. -/
structure Apart (config : Config) (store : Store) (m : Layout) (b : Buffers Rule.Line) : Prop where
  placed : ∀ e ∈ artifactPlan config store, ∃ p, m.path? e.1 = some p
  lines : ∀ p, b.linesAt p =
    ((artifactPlan config store).filter fun e => m.path? e.1 = some p).map Prod.snd
  apart : ∀ k j p, m.path? k = some p → m.path? j = some p →
    k.source = j.source ∧ (config.isJoined = true ∨ k.scores = j.scores)

variable {l m : Layout} {store : Store} {b : Buffers Rule.Line}

theorem Generated.clashless (h : Generated l m store b) : ∀ k j p, ¬ m.Clash k j p := by
  obtain ⟨_, hresolved⟩ := h.resolved
  obtain ⟨_, -, -, hclash⟩ := ends_resolveAll hresolved
  exact clash?_eq_none_iff_apart.mp hclash

theorem Generated.keepsApart (h : Generated l m store b) (hsingle : l.config.isSingle = false) :
    Apart l.config store m b where
  placed e he := h.placed (hasArtifacts_of_mem he) e.1.scores
  lines := h.linesAt_placed
  apart k j p hk hj := by
    by_cases hkj : k = j
    · exact ⟨hkj ▸ rfl, .inr (hkj ▸ rfl)⟩
    · have haliases : Aliases l.config k j := by
        by_contra hnot
        exact h.clashless k j p ⟨hkj, hk, hj, h.config ▸ hnot⟩
      exact ⟨haliases.1.resolve_left (by simp [hsingle]), haliases.2⟩

end Generation

namespace Session

open Layout Generation

/-- **The check of the paths is exact, and keeps sources apart.** Whatever artifacts have whatever
paths, the check fails exactly if two of them share a path that are not meant to, and names two
such. So if each source has a file of its own, then under any pins, the lines of a generation that
succeeds are where the paths checked put them; no path has lines of two sources, or of a source and
the global words, nor rules and separate scores. -/
theorem sources_kept_apart :
    (∀ l : Layout, Checked l) ∧
    ∀ (s : Session) (b : Buffers Rule.Line), (generate.run s).1 = .ok b →
      s.config.isSingle = false → Apart s.config s.store (generate.run s).2.1.layout b := by
  refine ⟨checked, fun s b hb hsingle => ?_⟩
  obtain ⟨m, hgenerated, hleft⟩ := ends_generate (ends_run hb)
  have hlayout : (generate.run s).2.1.layout = m := by rw [hleft]
  rw [hlayout]
  exact hgenerated.keepsApart hsingle

/-- The small session with scores apart from the rules, and the rules of its file pinned. -/
def sampleApart : Session :=
  { sample with config := sampleLaidOut false false }.pinAll [⟨"A", "/K/20_A.cf", false⟩]

/-- How the paths are chosen around the pinned one. -/
def apartChoice : Except Fault Unit × Layout × List Notice :=
  (Layout.chooseAll ["A"] true).run sampleApart.start

theorem sampleApart_generates : ∃ b, (generate.run sampleApart).1 = .ok b := by
  have hsources : Text.sorted sampleApart.store.files.keys = ["A"] := by decide +kernel
  have hglobal : (!sampleApart.store.origins.isEmpty || sampleApart.config.isSingle) = true := by
    decide +kernel
  have hcheck : (checkNames sampleApart.config.id sampleApart.store ["A"]).isOk = true := by
    decide +kernel
  have hrun : (Layout.chooseAll ["A"] true).run sampleApart.start = apartChoice := rfl
  have hchosen : apartChoice.1.isOk = true := by decide +kernel
  have hsorted : apartChoice.2.1.artifacts.entries.Pairwise
      fun a b => decide (a.1.text ≤ b.1.text) = true := by
    decide +kernel
  have hclash : apartChoice.2.1.findClash ∅ apartChoice.2.1.artifacts.entries = none := by
    decide +kernel
  have hemit : (exec (emitAll sampleApart.store)
      ⟨{ layout := apartChoice.2.1 }, apartChoice.2.2⟩).1.isOk = true := by
    decide +kernel
  exact generate_checked hsources hglobal hcheck hrun hchosen
    ((clash?_of_sorted hsorted).trans hclash) hemit

theorem sources_kept_apart_sample :
    ∃ b, (generate.run sampleApart).1 = .ok b ∧
      Apart sampleApart.config sampleApart.store (generate.run sampleApart).2.1.layout b ∧
      (generate.run sampleApart).2.1.layout.path? (rulesKey "A") = some "/K/20_A.cf" := by
  obtain ⟨b, hb⟩ := sampleApart_generates
  have hapart := sources_kept_apart.2 sampleApart b hb (by decide +kernel)
  obtain ⟨m, hgenerated, hleft⟩ := ends_generate (ends_run hb)
  have hlayout : (generate.run sampleApart).2.1.layout = m := by rw [hleft]
  obtain ⟨_, hresolved⟩ := hgenerated.resolved
  refine ⟨b, hb, hapart, ?_⟩
  rw [hlayout]
  exact (resolved_extends hresolved).1.path? _ _ (by decide +kernel)

end Session

end MailRules
