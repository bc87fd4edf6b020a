import MailRules.Proofs.Declaration.Draft
import MailRules.Proofs.Store.History
import MailRules.Proofs.Text.Breaks
import MailRules.Store.Ingest

/-! Stores that are filled from texts.

All that such a store holds was declared by a line. A line leaves words without blanks, groups in
upper case and comments of one line, so that is what the store holds (`FromText.clean`), whatever
the texts are and under whatever keys they are taken in. -/
namespace MailRules

open Declaration

/-- The store holds what lines declared. -/
inductive Store.FromText : Store → Prop
  | empty (root : Path) (policy : ConflictPolicy) : FromText { root, policy }
  | line {s : Store} {key line : String} {d : Declaration} :
      FromText s → Declaration.read line = .ok (.declared d) → FromText (s.add key d).1
  | clear {s : Store} (key : String) : FromText s → FromText (s.step (.clear key))
  | clearAll {s : Store} : FromText s → FromText s.clearAll

/-! ### What the store of a file holds -/

/-- What lines leave of a file. -/
structure RuleSet.Clean (r : RuleSet) : Prop where
  scored : ∀ word ∈ r.scored.keys, IsCanonicalWord word
  groups : ∀ group words, r.groups.get? group = some words →
    IsCanonicalGroup group ∧ ∀ word ∈ words, IsCanonicalWord word
  comments : ∀ word text, r.comments.get? word = some text → Text.isUnbroken text = true

namespace RuleSet

theorem clean_empty : ({} : RuleSet).Clean where
  scored _ h := by cases h
  groups _ _ h := by cases h
  comments _ _ h := by cases h

variable {r : RuleSet}

theorem Clean.addToGroup (h : r.Clean) {group word : String} (hgroup : IsCanonicalGroup group)
    (hword : IsCanonicalWord word) : (r.addToGroup group word).Clean where
  scored := h.scored
  groups g words hwords := by
    replace hwords : (r.groups.update group [] (· ++ [word])).get? g = some words := hwords
    rw [Assoc.get?_update] at hwords
    split at hwords
    next hsame =>
      rw [hsame, ← Option.some.inj hwords]
      refine ⟨hgroup, List.forall_mem_append.mpr ⟨?_, List.forall_mem_singleton.mpr hword⟩⟩
      cases hold : r.groups.get? group with
      | none => exact List.forall_mem_nil _
      | some old => exact (h.groups group old hold).2
    next => exact h.groups g words hwords
  comments := h.comments

theorem isUnbroken_comment {d : Declaration} (hd : d.IsCanonical) :
    Text.isUnbroken d.comment = true := by
  obtain ⟨fields, hfields, hcomment⟩ := hd.comment
  have hjoin : String.ofList (List.intercalate [' '] fields) =
      " ".intercalate (fields.map String.ofList) := by
    rw [← String.toList_inj, String.toList_ofList, String.toList_intercalate, List.map_map]
    simp
  rw [hcomment, hjoin]
  refine Text.isUnbroken_intercalate (by decide) fun t ht => ?_
  obtain ⟨field, hfield, rfl⟩ := List.mem_map.mp ht
  refine Text.isUnbroken_of_isSolid (Text.isSolid_iff.mpr ?_)
  rw [String.toList_ofList]
  exact (hfields field hfield).solid

theorem Clean.add (h : r.Clean) {d : Declaration} (hd : d.IsCanonical) : (r.add d).Clean := by
  have hgrouped : ∀ (groups : List String) (r : RuleSet), r.Clean →
      (∀ g ∈ groups, IsCanonicalGroup g) →
      (groups.foldl (fun r g => r.addToGroup g d.word) r).Clean := by
    intro groups
    induction groups with
    | nil => exact fun _ hr _ => hr
    | cons g rest ih =>
      intro r hr hgroups
      rw [List.forall_mem_cons] at hgroups
      exact ih _ (hr.addToGroup hgroups.1 hd.word) hgroups.2
  have hall := hgrouped (d.groups.filter (· ≠ globalGroup)) r h fun g hg =>
    hd.groups g (List.mem_filter.mp hg).1
  refine ⟨fun word hword => ?_, hall.groups, fun word text htext => ?_⟩
  · rw [RuleSet.add] at hword
    dsimp only at hword
    split at hword
    next =>
      rcases Assoc.mem_keys_insert.mp hword with rfl | hword
      · exact hd.word
      · exact hall.scored word hword
    next => exact hall.scored word hword
  · rw [RuleSet.add] at htext
    dsimp only at htext
    split at htext
    next => exact hall.comments word text htext
    next =>
      rw [Assoc.get?_insert] at htext
      split at htext
      next =>
        rw [← Option.some.inj htext]
        exact isUnbroken_comment hd
      next => exact hall.comments word text htext

end RuleSet

/-! ### What the whole store holds -/

namespace Store

/-- What lines leave of all files. -/
structure Clean (s : Store) : Prop where
  files : ∀ key r, s.files.get? key = some r → r.Clean
  origins : ∀ word key, s.origins.get? word = some key → IsCanonicalWord word

variable {s : Store}

theorem Clean.add (h : s.Clean) (key : String) {d : Declaration} (hd : d.IsCanonical) :
    (s.add key d).1.Clean where
  files file r hr := by
    rw [add_files, Assoc.get?_update] at hr
    split at hr
    next =>
      rw [← Option.some.inj hr]
      cases hold : s.files.get? key with
      | none => exact RuleSet.clean_empty.add hd
      | some old => exact (h.files key old hold).add hd
    next => exact h.files file r hr
  origins word origin ho := by
    rw [add_origins] at ho
    split at ho
    next hclaimed => exact hclaimed.2 ▸ hd.word
    next => exact h.origins word origin ho

theorem Clean.clear (h : s.Clean) (key : String) : (s.step (.clear key)).Clean where
  files file r hr := by
    rw [clear_files] at hr
    split at hr
    next => cases hr
    next => exact h.files file r hr
  origins word origin ho := by
    replace ho : ((s.clear? key).getD s).origins.get? word = some origin := ho
    rw [clear?] at ho
    split at ho
    next =>
      replace ho : (s.origins.filter fun _ o => o ≠ key).get? word = some origin := ho
      rw [Assoc.get?_filter, Option.filter_eq_some_iff] at ho
      exact h.origins word origin ho.1
    next => exact h.origins word origin ho

/-- What is filled from texts is clean. -/
theorem FromText.clean (h : s.FromText) : s.Clean := by
  induction h with
  | empty => exact ⟨nofun, nofun⟩
  | line _ hline ih => exact ih.add _ (canonical_of_read hline)
  | clear key _ ih => exact ih.clear key
  | clearAll => exact ⟨nofun, nofun⟩

theorem FromText.originsKnown (h : s.FromText) : s.OriginsKnown := by
  induction h with
  | empty =>
    intro _ _ ho
    cases ho
  | @line s key line d _ _ ih => exact originsKnown_step s (.add key d) ih
  | @clear s key _ ih => exact originsKnown_step s (.clear key) ih
  | @clearAll s _ ih => exact originsKnown_step s .clearAll ih

/-- Every word with a component is as a line leaves it. -/
theorem Clean.componentWord (h : s.Clean) {key word : String} (hw : word ∈ s.componentWords key) :
    IsCanonicalWord word := by
  rcases mem_componentWords.mp hw with ⟨r, hr, hword⟩ | ho
  · rcases mem_words.mp hword with hscored | ⟨group, words, hgroup, hword⟩
    · exact (h.files key r hr).scored word hscored
    · exact ((h.files key r hr).groups group words hgroup).2 word hword
  · exact h.origins word key ho

/-! ### Reading texts -/

theorem FromText.read {p : Progress} (h : p.store.FromText) (key : String) (number : Nat)
    (lines : List String) : (p.read key number lines).1.store.FromText := by
  induction lines generalizing p number with
  | nil => exact h
  | cons line rest ih =>
    rw [Progress.read]
    split
    next => exact h
    next reading hreading =>
      refine ih ?_ (number + 1)
      cases reading with
      | skipped => exact h
      | malformed fault => exact h
      | declared d => exact h.line hreading

/-- Taking in a text keeps the store one that is filled from texts. -/
theorem FromText.readText (h : s.FromText) (key text : String) :
    (s.readText key text).1.store.FromText :=
  FromText.read (p := { store := s }) h key 1 (Text.linesOf text)

end Store

end MailRules
