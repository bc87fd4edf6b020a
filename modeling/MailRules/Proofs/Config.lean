import MailRules.Config.Fields
import MailRules.Proofs.Assoc
import MailRules.Proofs.Outcome
import MailRules.Proofs.Path
import MailRules.Proofs.Text.Breaks
import MailRules.Proofs.Text.Case

/-! What the checks of a configuration guarantee.

A configuration made from fields is well formed (`wellFormed_of_ofFields`): its identifier starts
with a letter and holds nothing but letters, digits and underscores, and its directories are
proper paths. -/
namespace MailRules.Config

open Outcome

structure WellFormed (c : Config) : Prop where
  idStart : (c.id.toList.head?.map Text.isLetter).getD false = true
  idLetters : ∀ ch ∈ c.id.toList, ch ≠ '_' → Text.isAlphanumeric ch = true
  root : c.root.Proper
  dir : ∀ d, c.dir = some d → d.Proper

/-- The configuration under another policy, whether more is said or not. -/
def retold (p : ConflictPolicy) (debug : Value) (c : Config) : Config :=
  { c with policy := p, debug }

/-! ### The identifier -/

/-- All that is asked of an identifier, and what becomes of it. -/
theorem checkId_eq_ok_iff {v : Value} {id : String} : checkId v = .ok id ↔
    v.isWritable = true ∧ Text.upper v.plain = id ∧
      (id.toList.head?.map Text.isLetter).getD false = true ∧
      ∀ ch ∈ id.toList, ch ≠ '_' → Text.isAlphanumeric ch = true := by
  have hall (id : String) : (id.toList.filter (· ≠ '_')).all Text.isAlphanumeric = true ↔
      ∀ ch ∈ id.toList, ch ≠ '_' → Text.isAlphanumeric ch = true := by
    rw [List.all_eq_true]
    simp only [List.mem_filter, decide_eq_true_eq, and_imp]
  rw [checkId, bind_eq_ok]
  constructor
  · rintro ⟨w, hw, hchecks⟩
    rw [writable] at hw
    split at hw
    next hwritable =>
      cases hw
      dsimp only at hchecks
      split at hchecks
      next => cases hchecks
      next hstart =>
        split at hchecks
        next => cases hchecks
        next hletters =>
          cases hchecks
          rw [Bool.not_eq_true', Bool.not_eq_false] at hstart hletters
          exact ⟨hwritable, rfl, hstart, (hall _).mp hletters⟩
    next => cases hw
  · rintro ⟨hwritable, rfl, hstart, hletters⟩
    refine ⟨v, by rw [writable, if_pos hwritable], ?_⟩
    dsimp only
    rw [hstart, (hall _).mpr hletters]
    rfl

theorem checkId_letters {v : Value} {id : String} (h : checkId v = .ok id) :
    (id.toList.head?.map Text.isLetter).getD false = true ∧
      ∀ ch ∈ id.toList, ch ≠ '_' → Text.isAlphanumeric ch = true :=
  (checkId_eq_ok_iff.mp h).2.2

/-- A checked identifier passes its check again and stays as it is. -/
theorem checkId_again {v : Value} {id : String} (h : checkId v = .ok id) :
    checkId (.text id) = .ok id := by
  obtain ⟨-, rfl, hchecks⟩ := checkId_eq_ok_iff.mp h
  exact checkId_eq_ok_iff.mpr ⟨rfl, Text.upper_upper _, hchecks⟩

/-- A checked identifier is in upper case, and not empty. -/
theorem checkId_upper {v : Value} {id : String} (h : checkId v = .ok id) :
    ∃ c rest, id.toList = c :: rest ∧ Text.upperChar c = [c] := by
  obtain ⟨-, hupper, hstart, -⟩ := checkId_eq_ok_iff.mp h
  cases hlist : id.toList with
  | nil =>
    rw [hlist] at hstart
    cases hstart
  | cons c rest =>
    have hmem : c ∈ Text.upperChars v.plain.toList := by
      rw [← String.toList_ofList (l := Text.upperChars v.plain.toList), ← Text.upper, hupper, hlist]
      exact List.mem_cons_self
    exact ⟨c, rest, rfl, Text.upperChar_of_mem hmem⟩

/-- No letter and no numeral is a blank. -/
theorem not_isBlank_of_isAlphanumeric {c : Char} (h : Text.isAlphanumeric c = true) :
    Text.isBlank c = false := by
  have hblanks : ∀ n ∈ Text.rangeCodes Text.blankRanges,
      Text.isAlphanumeric (Char.ofNat n) = false := by
    decide +kernel
  by_contra hblank
  rw [Bool.not_eq_false] at hblank
  have hnot := hblanks c.toNat (Text.mem_rangeCodes hblank)
  rw [Char.ofNat_toNat, h] at hnot
  cases hnot

theorem checkId_solid {v : Value} {id : String} (h : checkId v = .ok id) :
    Text.isSolid id = true := by
  refine Text.isSolid_iff.mpr fun c hc => ?_
  by_cases hbar : c = '_'
  · rw [hbar]
    decide
  · exact not_isBlank_of_isAlphanumeric ((checkId_letters h).2 c hc hbar)

/-! ### All fields -/

/-- Every check of the fields passes and gives what the configuration holds. -/
structure Checked (root : Path) (fields : Assoc String Value) (c : Config) : Prop where
  known : ∀ name, fields.get? name ≠ none → name ∈ fieldNames
  id : checkId ((fields.get? "id").getD (.text "KW")) = .ok c.id
  priority : checkPriority ((fields.get? "priority").getD (.int 50)) = .ok c.priority
  policy : checkPolicy ((fields.get? "global_conflict").getD (.text "last")) = .ok c.policy
  dir : checkDir ((fields.get? "dir").getD .null) = .ok c.dir
  root : checkPath ((fields.get? "root").getD (.path root)) = .ok c.root
  groupScore : checkScore ((fields.get? "group_score").getD (.real defaultGroupScore)) =
    .ok c.groupScore
  debug : (fields.get? "debug").getD (.bool false) = c.debug
  singleOutfile : (fields.get? "single_outfile").getD (.bool false) = c.singleOutfile
  joinScores : (fields.get? "join_scores").getD (.bool true) = c.joinScores

theorem any_not_known_iff {fields : Assoc String Value} :
    (fields.keys.any fun k => k ∉ fieldNames) = true ↔
      ∃ name, fields.get? name ≠ none ∧ name ∉ fieldNames := by
  rw [List.any_eq_true]
  refine exists_congr fun name => ?_
  rw [decide_eq_true_eq, ne_eq, Assoc.get?_eq_none_iff, not_not]

theorem ofFields_eq_ok_iff {root : Path} {fields : Assoc String Value} {c : Config} :
    ofFields root fields = .ok c ↔ Checked root fields c := by
  have hknown : ¬ (fields.keys.any fun k => k ∉ fieldNames) = true ↔
      ∀ name, fields.get? name ≠ none → name ∈ fieldNames := by
    rw [any_not_known_iff]
    simp only [not_exists, not_and, not_not]
  unfold ofFields
  dsimp only
  constructor
  · intro h
    split at h
    next => cases h
    next hk =>
      obtain ⟨id, hid, h⟩ := bind_eq_ok.mp h
      obtain ⟨priority, hpriority, h⟩ := bind_eq_ok.mp h
      obtain ⟨policy, hpolicy, h⟩ := bind_eq_ok.mp h
      obtain ⟨dir, hdir, h⟩ := bind_eq_ok.mp h
      obtain ⟨root', hroot, h⟩ := bind_eq_ok.mp h
      obtain ⟨groupScore, hscore, h⟩ := bind_eq_ok.mp h
      cases h
      exact ⟨hknown.mp hk, hid, hpriority, hpolicy, hdir, hroot, hscore, rfl, rfl, rfl⟩
  · rintro ⟨hk, hid, hpriority, hpolicy, hdir, hroot, hscore, hdebug, hsingle, hjoin⟩
    rw [if_neg (hknown.mpr hk), hid, hpriority, hpolicy, hdir, hroot, hscore, hdebug, hsingle,
      hjoin]
    rfl

theorem known_of_keys {fields : Assoc String Value} {name : String}
    (h : ∀ name ∈ fields.keys, name ∈ fieldNames) (hget : fields.get? name ≠ none) :
    name ∈ fieldNames := by
  obtain ⟨v, hv⟩ := Option.ne_none_iff_exists'.mp hget
  exact h name (Assoc.mem_keys_iff.mpr ⟨v, hv⟩)

theorem checkScore_real (x : Binary64) : checkScore (.real x) = .ok x := rfl

/-- Without fields, everything is as it is by default. -/
theorem ofFields_nothing (root : Path) :
    ofFields root ∅ = .ok { root, groupScore := defaultGroupScore } :=
  ofFields_eq_ok_iff.mpr {
    known := fun _ hget => absurd rfl hget
    id := by with_unfolding_all rfl
    priority := rfl
    policy := by with_unfolding_all rfl
    dir := rfl
    root := rfl
    groupScore := by
      -- The number itself must not be computed.
      generalize defaultGroupScore = x
      rfl
    debug := rfl
    singleOutfile := rfl
    joinScores := rfl }

/-- The identifier of a configuration has passed its check. -/
theorem checkId_of_ofFields {root : Path} {fields : Assoc String Value} {c : Config}
    (h : ofFields root fields = .ok c) : ∃ v, checkId v = .ok c.id :=
  ⟨_, (ofFields_eq_ok_iff.mp h).id⟩

theorem checkPath_proper {v : Value} {p : Path} (hv : ∀ q, v = .path q → q.Proper)
    (h : checkPath v = .ok p) : p.Proper := by
  unfold checkPath at h
  split at h
  next q =>
    cases h
    exact hv _ rfl
  next s =>
    cases h
    exact Path.proper_ofString s
  next => cases h

theorem checkDir_proper {v : Value} {dir : Option Path} (hv : ∀ q, v = .path q → q.Proper)
    (h : checkDir v = .ok dir) : ∀ d, dir = some d → d.Proper := by
  rintro d rfl
  unfold checkDir at h
  split at h
  next => cases h
  next =>
    cases hp : checkPath v with
    | error e =>
      rw [hp] at h
      cases h
    | ok p =>
      rw [hp] at h
      cases h
      exact checkPath_proper hv hp

/-- The fields that hold the directories of a configuration. -/
def pathFields : List String := ["dir", "root"]

/-- Fields with proper paths make a well formed configuration. -/
theorem wellFormed_of_ofFields {root : Path} {fields : Assoc String Value} {c : Config}
    (hroot : root.Proper)
    (hpaths : ∀ name ∈ pathFields, ∀ p, fields.get? name = some (.path p) → p.Proper)
    (h : ofFields root fields = .ok c) : c.WellFormed := by
  have hfield {name : String} (hname : name ∈ pathFields) {fresh : Value}
      (hfresh : ∀ q, fresh = .path q → q.Proper) :
      ∀ q, (fields.get? name).getD fresh = .path q → q.Proper := by
    intro q hq
    cases hget : fields.get? name with
    | none =>
      rw [hget] at hq
      exact hfresh q hq
    | some v =>
      rw [hget] at hq
      exact hpaths name hname q (hget.trans (congrArg some hq))
  have hc := ofFields_eq_ok_iff.mp h
  obtain ⟨hstart, hletters⟩ := checkId_letters hc.id
  refine ⟨hstart, hletters, checkPath_proper (hfield (by simp [pathFields]) ?_) hc.root,
    checkDir_proper (hfield (by simp [pathFields]) ?_) hc.dir⟩
  · rintro q hq
    cases hq
    exact hroot
  · rintro q hq
    cases hq

variable {c : Config}

theorem WellFormed.id_noSlash (h : c.WellFormed) : '/' ∉ c.id.toList := by
  intro hmem
  have hslash := h.idLetters '/' hmem (by decide)
  revert hslash
  decide +kernel

theorem WellFormed.outputDir (h : c.WellFormed) : c.outputDir.Proper := by
  rw [Config.outputDir]
  split
  next dir hdir => exact h.root.join (h.dir dir hdir)
  next => exact h.root.join (Path.proper_ofString c.id)

end MailRules.Config
