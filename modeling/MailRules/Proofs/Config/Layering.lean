import MailRules.Proofs.Config

/-! Fields put over the fields of a configuration.

A configuration that is overridden is turned back into fields, and these are checked again with the
given ones over them. The checks leave alone what they have made themselves (`checked_toFields`), so
it does not matter whether the given fields go over those of the configuration or over those that it
was made from: overriding is making a configuration anew, and overriding twice is overriding once
(`withOverrides_layers`). -/
namespace MailRules.Config

open Outcome

variable {root root' : Path} {fields fields' : Assoc String Value} {c : Config}

/-! ### Fields that check alike -/

/-- The checks come to the same for both, whether they pass or not. -/
structure Alike (root root' : Path) (fields fields' : Assoc String Value) : Prop where
  known : ∀ name, name ∉ fieldNames → (fields.get? name = none ↔ fields'.get? name = none)
  id : checkId ((fields.get? "id").getD (.text "KW")) =
    checkId ((fields'.get? "id").getD (.text "KW"))
  priority : checkPriority ((fields.get? "priority").getD (.int 50)) =
    checkPriority ((fields'.get? "priority").getD (.int 50))
  policy : checkPolicy ((fields.get? "global_conflict").getD (.text "last")) =
    checkPolicy ((fields'.get? "global_conflict").getD (.text "last"))
  dir : checkDir ((fields.get? "dir").getD .null) = checkDir ((fields'.get? "dir").getD .null)
  root : checkPath ((fields.get? "root").getD (.path root)) =
    checkPath ((fields'.get? "root").getD (.path root'))
  groupScore : checkScore ((fields.get? "group_score").getD (.real defaultGroupScore)) =
    checkScore ((fields'.get? "group_score").getD (.real defaultGroupScore))
  debug : (fields.get? "debug").getD (.bool false) = (fields'.get? "debug").getD (.bool false)
  singleOutfile : (fields.get? "single_outfile").getD (.bool false) =
    (fields'.get? "single_outfile").getD (.bool false)
  joinScores : (fields.get? "join_scores").getD (.bool true) =
    (fields'.get? "join_scores").getD (.bool true)

/-- Fields that check alike make the same configuration, or fail in the same way. -/
theorem Alike.ofFields_eq (h : Alike root root' fields fields') :
    ofFields root fields = ofFields root' fields' := by
  have hknown : (fields.keys.any fun k => k ∉ fieldNames) =
      (fields'.keys.any fun k => k ∉ fieldNames) := by
    rw [Bool.eq_iff_iff, any_not_known_iff, any_not_known_iff]
    refine exists_congr fun name => ?_
    rw [and_comm, and_comm (a := fields'.get? name ≠ none)]
    exact and_congr_right fun hname => not_congr (h.known name hname)
  unfold ofFields
  dsimp only
  rw [hknown, h.id, h.priority, h.policy, h.dir, h.root, h.groupScore, h.debug, h.singleOutfile,
    h.joinScores]

theorem alike_of_checked (h : Checked root fields c) (h' : Checked root' fields' c) :
    Alike root root' fields fields' where
  known name hname :=
    iff_of_true (not_not.mp fun hget => hname (h.known name hget))
      (not_not.mp fun hget => hname (h'.known name hget))
  id := h.id.trans h'.id.symm
  priority := h.priority.trans h'.priority.symm
  policy := h.policy.trans h'.policy.symm
  dir := h.dir.trans h'.dir.symm
  root := h.root.trans h'.root.symm
  groupScore := h.groupScore.trans h'.groupScore.symm
  debug := h.debug.trans h'.debug.symm
  singleOutfile := h.singleOutfile.trans h'.singleOutfile.symm
  joinScores := h.joinScores.trans h'.joinScores.symm

theorem alike_of_get? (h : ∀ name, fields.get? name = fields'.get? name) :
    Alike root root fields fields' := by
  constructor <;> intros <;> rw [h]

/-- The same fields put over fields that check alike. -/
theorem Alike.merge (h : Alike root root' fields fields') (upper : Assoc String Value) :
    Alike root root' (fields.merge upper) (fields'.merge upper) := by
  have hfield {α : Type} (check : Value → α) {name : String} {fresh fresh' : Value}
      (hcheck : check ((fields.get? name).getD fresh) = check ((fields'.get? name).getD fresh')) :
      check (((fields.merge upper).get? name).getD fresh) =
        check (((fields'.merge upper).get? name).getD fresh') := by
    rw [Assoc.get?_merge, Assoc.get?_merge]
    cases upper.get? name with
    | none => exact hcheck
    | some v => rfl
  refine ⟨fun name hname => ?_, hfield checkId h.id, hfield checkPriority h.priority,
    hfield checkPolicy h.policy, hfield checkDir h.dir, hfield checkPath h.root,
    hfield checkScore h.groupScore, hfield (fun v => v) h.debug,
    hfield (fun v => v) h.singleOutfile, hfield (fun v => v) h.joinScores⟩
  rw [Assoc.get?_merge, Assoc.get?_merge, Option.or_eq_none_iff, Option.or_eq_none_iff]
  exact and_congr_right fun _ => h.known name hname

/-! ### The fields of a configuration -/

/-- A configuration that has been made passes the checks again as it is. -/
theorem checked_toFields (h : ofFields root fields = .ok c) : Checked c.root c.toFields c where
  known name hget := by
    rw [ne_eq, Assoc.get?_eq_none_iff, not_not] at hget
    exact hget
  id := checkId_again (ofFields_eq_ok_iff.mp h).id
  priority := by
    have hrange : (0 : Int) ≤ c.priority.val ∧ (c.priority.val : Int) ≤ 99 := by omega
    show checkPriority (.int c.priority.val) = _
    rw [checkPriority, dif_pos hrange]
    rfl
  policy := rfl
  dir := by
    show checkDir ((c.dir.map Value.path).getD .null) = _
    cases c.dir with
    | none => rfl
    | some dir => rfl
  root := rfl
  groupScore := rfl
  debug := rfl
  singleOutfile := rfl
  joinScores := rfl

theorem withOverrides_eq (h : ofFields root fields = .ok c) (overrides : Assoc String Value) :
    c.withOverrides overrides = ofFields root (fields.merge (givenFields overrides)) :=
  ((alike_of_checked (checked_toFields h) (ofFields_eq_ok_iff.mp h)).merge _).ofFields_eq

/-! ### Overriding twice -/

/-- A field that says something later counts; otherwise what was said before does. -/
theorem get?_givenFields_merge (overrides later : Assoc String Value) (name : String) :
    (givenFields (overrides.merge (givenFields later))).get? name =
      ((givenFields later).get? name).or ((givenFields overrides).get? name) := by
  rw [givenFields, Assoc.get?_filter, Assoc.get?_merge]
  cases hlater : (givenFields later).get? name with
  | none =>
    rw [Option.none_or, Option.none_or, givenFields, Assoc.get?_filter]
  | some v =>
    rw [givenFields, Assoc.get?_filter, Option.filter_eq_some_iff] at hlater
    rw [Option.some_or, Option.some_or, Option.filter_eq_some_iff]
    exact ⟨rfl, hlater.2⟩

/-- **Overriding is making a configuration anew.** What comes of it, a configuration or a fault, is
what comes of the fields that the configuration was made from with the given ones over them, null
ones left out. Overriding with nothing changes nothing, and overriding twice is overriding once, the
later fields over the earlier ones. -/
theorem withOverrides_layers (h : ofFields root fields = .ok c) (overrides : Assoc String Value) :
    c.withOverrides overrides = ofFields root (fields.merge (givenFields overrides)) ∧
      c.withOverrides ∅ = .ok c ∧
      ∀ (c' : Config) (later : Assoc String Value), c.withOverrides overrides = .ok c' →
        c'.withOverrides later = c.withOverrides (overrides.merge (givenFields later)) := by
  refine ⟨withOverrides_eq h overrides, (withOverrides_eq h ∅).trans h, fun c' later h' => ?_⟩
  rw [withOverrides_eq h', withOverrides]
  refine (alike_of_get? fun name => ?_).ofFields_eq
  rw [Assoc.get?_merge, Assoc.get?_merge, Assoc.get?_merge, get?_givenFields_merge, Option.or_assoc]

/-- The identifier has one letter less than its capitals. -/
def sampleFields : Assoc String Value :=
  Assoc.ofList [("id", .text "straße"), ("priority", .int 7)]

def sampleConfig : Config where
  id := "STRASSE"
  priority := ⟨7, by decide⟩
  root := ⟨.root, []⟩
  groupScore := defaultGroupScore

/-- The null entry leaves the identifier, and the priority is replaced and replaced again. -/
theorem withOverrides_layers_sample :
    let overrides := Assoc.ofList [("id", .null), ("priority", .int 8)]
    let later := Assoc.ofList [("priority", .int 9)]
    ofFields ⟨.root, []⟩ sampleFields = .ok sampleConfig ∧
      sampleConfig.withOverrides overrides =
        ofFields ⟨.root, []⟩ (sampleFields.merge (givenFields overrides)) ∧
      ∃ c', sampleConfig.withOverrides overrides = .ok c' ∧
        c'.withOverrides later = sampleConfig.withOverrides (overrides.merge (givenFields later)) := by
  intro overrides later
  have hmade : ofFields ⟨.root, []⟩ sampleFields = .ok sampleConfig := rfl
  obtain ⟨c', hover⟩ : ∃ c', sampleConfig.withOverrides overrides = .ok c' :=
    exists_of_isOk (by decide +kernel)
  obtain ⟨hlayers, -, htwice⟩ := withOverrides_layers hmade overrides
  exact ⟨hmade, hlayers, c', hover, htwice c' later hover⟩

end MailRules.Config
