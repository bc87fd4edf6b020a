import MailRules.Proofs.Inputs.Reading
import MailRules.Proofs.Session.Pins

/-! What the policy does not decide.

The policy says which of two files holds a global word. Which files there are, which words are
global and which messages end a batch does not depend on it (`readAll_alike`), and neither do the
paths of the artifacts (`uniquePaths_policy`). -/
namespace MailRules

open MailRules.Action

/-! ### The store -/

namespace Store

variable {s t : Store}

/-- The same files and the same global words, whoever holds them. -/
structure Alike (s t : Store) : Prop where
  root : t.root = s.root
  files : t.files = s.files
  claimed : ∀ word, (t.origins.get? word).isSome = (s.origins.get? word).isSome

theorem Alike.add (h : s.Alike t) (key : String) (d : Declaration) :
    (s.add key d).1.Alike (t.add key d).1 where
  root := by rw [add_root, add_root, h.root]
  files := by rw [add_files, add_files, h.files]
  claimed word := by
    rw [add_origins, add_origins]
    split
    · rfl
    · exact h.claimed word

theorem Alike.takeFile (h : s.Alike t) (key : String) (ds : List Declaration) :
    (s.takeFile key ds).Alike (t.takeFile key ds) := by
  induction ds generalizing s t with
  | nil => exact h
  | cons d rest ih => exact ih (h.add key d)

theorem Alike.fileKey (h : s.Alike t) (path : String) : t.fileKey path = s.fileKey path := by
  rw [Store.fileKey, Store.fileKey, h.root]

theorem Alike.ingest (h : s.Alike t) (host : Host) (paths : List String) :
    (paths.foldl (Store.ingest host) s).Alike (paths.foldl (Store.ingest host) t) := by
  induction paths generalizing s t with
  | nil => exact h
  | cons path rest ih =>
    refine ih ?_
    rw [Store.ingest, Store.ingest, h.fileKey]
    exact h.takeFile _ _

theorem Alike.isEmpty (h : s.Alike t) : t.origins.isEmpty = s.origins.isEmpty := by
  have hnone {u : Store} :
      u.origins.isEmpty = true ↔ ∀ word, (u.origins.get? word).isSome = false := by
    rw [Assoc.isEmpty_iff]
    constructor
    · intro hnil word
      rw [Assoc.get?, hnil]
      rfl
    · intro hall
      refine List.eq_nil_iff_forall_not_mem.mpr fun e he => ?_
      have hsome := hall e.1
      rw [Assoc.get?_eq_some_iff.mpr he] at hsome
      cases hsome
  rw [Bool.eq_iff_iff, hnone, hnone]
  simp only [h.claimed]

/-- A batch that answers for one of the stores answers for the other, and they stay alike. -/
theorem readAll_alike (h : s.Alike t) {host : Host} {inputs failures : List String}
    (hread : ((readAll host inputs).run s).1 = .ok failures) :
    (∃ failures, ((readAll host inputs).run t).1 = .ok failures) ∧
      ((readAll host inputs).run s).2.1.Alike ((readAll host inputs).run t).2.1 := by
  cases hexpand : Expansion.ofInputs host s.root (inputs.map Path.ofString) with
  | mk e fault =>
    cases fault with
    | some f =>
      rw [run_eq_exec, readAll, exec_get_bind, hexpand] at hread
      cases hread
    | none =>
      have hexpand' := hexpand
      rw [← h.root] at hexpand'
      rw [run_eq_exec, exec_readAll hexpand] at hread
      rw [run_eq_exec, run_eq_exec, exec_readAll hexpand, exec_readAll hexpand']
      by_cases hl : ∀ path ∈ e.files, LegibleAt host path.text
      · obtain ⟨said, hs⟩ := readEach_legible hl ⟨s, e.notices⟩
        obtain ⟨said', ht⟩ := readEach_legible hl ⟨t, e.notices⟩
        rw [hs, ht]
        exact ⟨⟨_, rfl⟩, h.ingest host _⟩
      · rw [readEach_illegible hl] at hread
        cases hread

end Store

/-! ### The layout -/

namespace Layout

/-- The layout under another policy, whether more is said or not. -/
def retold (p : ConflictPolicy) (debug : Value) (l : Layout) : Layout :=
  { l with config := l.config.retold p debug }

variable (p : ConflictPolicy) (d : Value) (source : String)

theorem blind_assign (k : ArtifactKey) (path : String) :
    Blind (retold p d) (do Action.modify (·.assign k path); return path : Action Layout String) := by
  have hmodify : Blind (retold p d) (Action.modify (·.assign k path)) := blind_modify fun _ => rfl
  exact hmodify.bind fun _ => blind_pure path

theorem blind_rulesFile : Blind (retold p d) (rulesFile source) := by
  refine blind_get_bind (fun _ => rfl) fun l => ?_
  split
  · exact blind_pure _
  · dsimp only
    split
    · exact (blind_pure _).bind (blind_assign p d _)
    · split
      · exact (blind_pure _).bind (blind_assign p d _)
      · exact (blind_fail _).bind (blind_assign p d _)

theorem blind_scoresFile : Blind (retold p d) (scoresFile source) := by
  refine blind_get_bind (fun _ => rfl) fun l => ?_
  split
  · exact blind_pure _
  · dsimp only
    split
    · exact (blind_rulesFile p d source).bind (blind_assign p d _)
    · split
      · exact (blind_pure _).bind (blind_assign p d _)
      · exact (blind_rulesFile p d source).map.bind (blind_assign p d _)

theorem blind_globalFile : Blind (retold p d) globalFile := by
  refine blind_get_bind (fun _ => rfl) fun l => ?_
  split
  · exact blind_pure _
  · split
    · exact blind_fail _
    · exact (blind_debug _).bind fun _ => blind_assign p d _ _

theorem blind_globalScoresFile : Blind (retold p d) globalScoresFile := by
  refine blind_get_bind (fun _ => rfl) fun l => ?_
  split
  · exact blind_pure _
  · refine (blind_globalFile p d).bind fun rules => blind_get_bind (fun _ => rfl) fun l => ?_
    split
    · exact blind_fail _
    · exact (blind_debug _).bind fun _ => blind_assign p d _ _

theorem findClash_retold (l : Layout) (owners : Assoc String ArtifactKey)
    (entries : List (ArtifactKey × String)) :
    (l.retold p d).findClash owners entries = l.findClash owners entries := by
  induction entries generalizing owners with
  | nil => rfl
  | cons e rest ih =>
    rw [findClash, findClash]
    simp only [ih]
    rfl

theorem blind_validate : Blind (retold p d) validate := by
  refine blind_get_bind (fun l => ?_) fun l => ?_
  · rw [show (l.retold p d).clash? = l.clash? from findClash_retold p d l ∅ _]
  · split
    · exact blind_fail _
    · exact blind_pure _

theorem blind_resolveAll (sources : List String) (withGlobal : Bool) :
    Blind (retold p d) (resolveAll sources withGlobal) := by
  rw [resolveAll_eq]
  refine Blind.bind ?_ fun _ => blind_validate p d
  refine (blind_forIn (fun source _ => ?_) sources _).bind fun _ => ?_
  · exact (blind_rulesFile p d source).discard.bind fun _ =>
      (blind_scoresFile p d source).discard.bind fun _ => blind_pure _
  · split
    · exact (blind_globalFile p d).discard.bind fun _ => (blind_globalScoresFile p d).discard
    · exact blind_pure _

end Layout

/-! ### The generation -/

namespace Generation

/-- The generation under another policy, whether more is said or not. -/
def retold (p : ConflictPolicy) (debug : Value) (g : Generation) : Generation :=
  { g with layout := g.layout.retold p debug }

variable (p : ConflictPolicy) (d : Value) (store : Store) (source : String)

theorem blind_place {α : Type} {a : Action Layout α} (ha : Blind (Layout.retold p d) a) :
    Blind (retold p d) (place a) := ha.on (fun _ => rfl) fun _ _ => rfl

theorem blind_write (rulesPath scoresPath : String) (lines : List Emission) :
    Blind (retold p d) (write rulesPath scoresPath lines) := blind_modify fun _ => rfl

theorem blind_openPath (path : String) : Blind (retold p d) (openPath path) :=
  blind_modify fun _ => rfl

theorem blind_familyOf : Blind (retold p d) (familyOf source) := by
  refine blind_get_bind (fun _ => rfl) fun g => ?_
  split
  · exact blind_pure _
  · exact blind_fail _

theorem blind_openSource : Blind (retold p d) (openSource source) :=
  (blind_place p d (Layout.blind_rulesFile p d source)).bind fun rules =>
    (blind_openPath p d rules).bind fun _ =>
      (blind_place p d (Layout.blind_scoresFile p d source)).bind fun scores =>
        (blind_openPath p d scores).bind fun _ => blind_pure _

theorem blind_generateComponents : Blind (retold p d) (generateComponents store source) :=
  (blind_familyOf p d source).bind fun _ =>
    (blind_place p d (Layout.blind_rulesFile p d source)).bind fun path =>
      (blind_openPath p d path).bind fun _ => (blind_debug _).bind fun _ =>
        blind_get_bind (fun _ => rfl) fun _ => blind_write p d _ _ _

theorem blind_generateScored : Blind (retold p d) (generateScored store source) := by
  unfold generateScored
  dsimp only
  split
  · exact (blind_familyOf p d source).bind fun _ => (blind_openSource p d source).bind fun _ =>
      blind_get_bind (fun _ => rfl) fun _ => blind_write p d _ _ _
  · exact blind_pure _

theorem blind_generateGroups : Blind (retold p d) (generateGroups store source) := by
  unfold generateGroups
  dsimp only
  split
  · refine (blind_familyOf p d source).bind fun _ => (blind_openSource p d source).bind fun _ =>
      blind_get_bind (fun _ => rfl) fun _ => (blind_write p d _ _ _).bind fun _ => ?_
    split
    · exact blind_fail _
    · exact blind_pure _
  · exact blind_pure _

theorem blind_generateGlobals : Blind (retold p d) (generateGlobals store) := by
  unfold generateGlobals
  split
  · refine (blind_place p d (Layout.blind_globalFile p d)).bind fun rules =>
      (blind_openPath p d rules).bind fun _ =>
        (blind_place p d (Layout.blind_globalScoresFile p d)).bind fun scores =>
          (blind_openPath p d scores).bind fun _ => blind_get_bind (fun _ => rfl) fun g =>
            (blind_write p d _ _ _).bind fun _ => (blind_ofExcept _).bind fun refs => ?_
    split
    · exact blind_write p d _ _ _
    · exact blind_fail _
  · exact blind_pure _

/-- Generating from a store does not depend on the policy. -/
theorem blind_generate : Blind (retold p d) (generate store) := by
  unfold generate
  refine blind_get_bind (fun _ => rfl) fun g => (blind_ofExcept _).bind fun _ =>
    (blind_place p d (Layout.blind_resolveAll p d _ _)).bind fun _ =>
      (blind_forIn (fun source _ => ?_) _ _).bind fun _ =>
        (blind_generateGlobals p d store).bind fun _ => ?_
  · exact (blind_generateComponents p d store source).bind fun _ =>
      (blind_generateScored p d store source).bind fun _ =>
        (blind_generateGroups p d store source).bind fun _ => blind_pure _
  · exact blind_get_bind (fun _ => rfl) fun _ => blind_pure _

end Generation

/-! ### The paths of a generation -/

/-- From the same store, rules can be generated under both policies or under none. -/
theorem Session.fresh_retold {s t : Session} {p : ConflictPolicy} {d : Value}
    (hstore : t.store = s.store) (hstart : t.start = s.start.retold p d) :
    t.fresh.1 = s.fresh.1 := by
  rw [fresh, fresh, hstore, hstart, run_eq_exec, run_eq_exec]
  exact (Generation.blind_generate p d s.store { layout := s.start } [] []).1

/-- Where rules can be generated under both policies, the artifacts have the same paths. -/
theorem Session.uniquePaths_policy {s t : Session} {b b' : Buffers Rule.Line} {p : ConflictPolicy}
    {d : Value} (hstore : s.store.Alike t.store) (hstart : t.start = s.start.retold p d)
    (hs : s.fresh.1 = .ok b) (ht : t.fresh.1 = .ok b') :
    t.fresh.2.1.layout.uniquePaths = s.fresh.2.1.layout.uniquePaths := by
  obtain ⟨_, hresolved⟩ := (generated_fresh hs).resolved
  obtain ⟨_, hresolved'⟩ := (generated_fresh ht).resolved
  rw [hstore.files, hstore.isEmpty, hstart] at hresolved'
  obtain ⟨-, hlayout⟩ := (Layout.blind_resolveAll p d _ _).eq_of_ends hresolved hresolved'
  rw [hlayout]
  rfl

end MailRules
