import MailRules.Command.Run
import MailRules.Proofs.Action
import MailRules.Proofs.Assoc
import MailRules.Proofs.Config

/-! Where the configuration of a command comes from. -/
namespace MailRules

open Outcome MailRules.Action

/-- A value that is written as one scalar. -/
def Value.isScalar : Value → Bool
  | .null | .bool _ | .int _ | .real _ | .text _ | .bytes _ | .date _ | .moment .. => true
  | _ => false

namespace Yaml

variable {v : Value} {fuel : Nat} {n : Node}

theorem timeOf_isScalar {text : String} (h : timeOf text = .ok v) : v.isScalar = true := by
  unfold timeOf at h
  split at h
  next => cases h
  next =>
    dsimp only at h
    split at h
    next =>
      split at h
      next =>
        cases h
        rfl
      next => cases h
    next =>
      obtain ⟨_, -, h⟩ := bind_eq_ok.mp h
      split at h
      next =>
        cases h
        rfl
      next => cases h

theorem plainValue_isScalar (h : plainValue fuel n = .ok v) : v.isScalar = true := by
  unfold plainValue at h
  split at h
  case h_6 =>
    obtain ⟨_, -, h⟩ := bind_eq_ok.mp h
    exact timeOf_isScalar h
  case h_8 => cases h
  all_goals
    obtain ⟨_, -, h⟩ := bind_eq_ok.mp h
    try obtain ⟨_, -, h⟩ := bind_eq_ok.mp h
    cases h
    rfl

/-- No value of a document is a path. -/
theorem valueOf_ne_path (h : valueOf fuel n = .ok v) (p : Path) : v ≠ .path p := by
  rintro rfl
  cases fuel with
  | zero => cases h
  | succ fuel =>
    unfold valueOf at h
    split at h
    case h_7 => cases plainValue_isScalar h
    case h_1 => cases h
    all_goals
      obtain ⟨_, -, h⟩ := bind_eq_ok.mp h
      try obtain ⟨_, -, h⟩ := bind_eq_ok.mp h
      cases h

/-! ### Mappings -/

theorem value_of_mem_putKey {k w : Value} {m : List (Value × Value)} {e : Value × Value}
    (h : e ∈ Value.putKey k w m) : e.2 = w ∨ ∃ e' ∈ m, e.2 = e'.2 := by
  induction m with
  | nil =>
    rw [Value.putKey, List.mem_singleton] at h
    exact .inl (congrArg Prod.snd h)
  | cons first rest ih =>
    rw [Value.putKey] at h
    split at h
    · rcases List.mem_cons.mp h with rfl | h
      · exact .inl rfl
      · exact .inr ⟨e, List.mem_cons_of_mem _ h, rfl⟩
    · rcases List.mem_cons.mp h with rfl | h
      · exact .inr ⟨_, List.mem_cons_self, rfl⟩
      · exact (ih h).imp_right fun ⟨e', he, hsame⟩ => ⟨e', List.mem_cons_of_mem _ he, hsame⟩

/-- The values of a mapping are values that were put there. -/
theorem value_of_mem_foldl {l m : List (Value × Value)} {e : Value × Value}
    (h : e ∈ l.foldl (fun m e => Value.putKey e.1 e.2 m) m) :
    (∃ e' ∈ l, e.2 = e'.2) ∨ ∃ e' ∈ m, e.2 = e'.2 := by
  induction l generalizing m with
  | nil => exact .inr ⟨e, h, rfl⟩
  | cons first rest ih =>
    rcases ih h with ⟨e', he, hsame⟩ | ⟨e', he, hsame⟩
    · exact .inl ⟨e', List.mem_cons_of_mem _ he, hsame⟩
    · rcases value_of_mem_putKey he with hput | ⟨e'', he', hold⟩
      · exact .inl ⟨first, List.mem_cons_self, hsame.trans hput⟩
      · exact .inr ⟨e'', he', hsame.trans hold⟩

/-- What a mapping holds are values of the document, too. -/
theorem exists_of_mem_entries {entries : List (Value × Value)}
    (h : valueOf fuel n = .ok (.map entries)) {e : Value × Value} (he : e ∈ entries) :
    ∃ fuel n, valueOf fuel n = .ok e.2 := by
  cases fuel with
  | zero => cases h
  | succ fuel =>
    unfold valueOf at h
    split at h
    case h_3 =>
      obtain ⟨_, -, h⟩ := bind_eq_ok.mp h
      obtain ⟨_, hread, h⟩ := bind_eq_ok.mp h
      cases h
      obtain ⟨e', he', hsame⟩ | ⟨_, hnone, -⟩ := value_of_mem_foldl he
      · obtain ⟨q, -, hq⟩ := exists_of_mem_mapM hread he'
        obtain ⟨_, -, hq⟩ := bind_eq_ok.mp hq
        obtain ⟨_, hvalue, hq⟩ := bind_eq_ok.mp hq
        cases hq
        exact ⟨fuel, q.2, hsame ▸ hvalue⟩
      · cases hnone
    case h_7 => cases plainValue_isScalar h
    case h_1 => cases h
    all_goals
      obtain ⟨_, -, h⟩ := bind_eq_ok.mp h
      try obtain ⟨_, -, h⟩ := bind_eq_ok.mp h
      cases h

/-- No value in a document's mapping is a path. -/
theorem load_ne_path {text : String} {entries : List (Value × Value)}
    (h : load text = .ok (.map entries)) {e : Value × Value} (he : e ∈ entries) (p : Path) :
    e.2 ≠ .path p := by
  unfold load at h
  obtain ⟨root?, -, h⟩ := bind_eq_ok.mp h
  cases root? with
  | none => cases h
  | some root =>
    obtain ⟨_, -, h⟩ := bind_eq_ok.mp h
    obtain ⟨_, -, h⟩ := bind_eq_ok.mp h
    obtain ⟨fuel, n, hvalue⟩ := exists_of_mem_entries h he
    exact valueOf_ne_path hvalue p

end Yaml

namespace Config

variable {root : Path} {h t : Host} {c : Config}

/-! ### The file -/

theorem spares_fieldsOf (file : Path) (fields : Assoc String Value) (pairs : List (Value × Value)) :
    Spares (fun h : Host => h) (fieldsOf file fields pairs) := by
  induction pairs generalizing fields with
  | nil => exact spares_pure _
  | cons e rest ih =>
    refine (spares_ofExcept _).bind fun key => ?_
    dsimp only
    split
    · exact ih _
    · exact (spares_say _).bind fun _ => ih _

theorem spares_readFile (file : Path) : Spares (fun h : Host => h) (readFile file) := by
  have hunreadable : Spares (fun h : Host => h) (do
      Action.say [.warning ("Failed to read " ++ file.text ++ ", using defaults")]
      return .null : Action Host Value) :=
    (spares_say _).bind fun _ => spares_pure _
  refine spares_get.bind fun h => ?_
  split
  next => exact hunreadable
  next =>
    split
    next => exact spares_fail _
    next =>
      split
      next => exact spares_pure _
      next => exact hunreadable
      next => exact spares_fail _

/-- Loading a configuration changes nothing. -/
theorem spares_load (path : Option Path) (root : Path) :
    Spares (fun h : Host => h) (load path root) := by
  unfold load
  refine spares_get.bind fun h => (spares_ofExcept _).bind fun isFile => ?_
  dsimp only
  split
  next =>
    split
    next => exact (spares_say _).bind fun _ => spares_ofExcept _
    next => exact spares_ofExcept _
  next =>
    refine (spares_readFile _).bind fun value => ?_
    split
    next => exact spares_ofExcept _
    next => exact (spares_fieldsOf _ _ _).bind fun _ => spares_ofExcept _
    next => exact (spares_say _).bind fun _ => spares_ofExcept _

/-- The fields have no paths. -/
def Pathless (fields : Assoc String Value) : Prop := ∀ name p, fields.get? name ≠ some (.path p)

theorem ends_fieldsOf {file : Path} {fields out : Assoc String Value} {pairs : List (Value × Value)}
    (hfields : Pathless fields) (hpairs : ∀ e ∈ pairs, ∀ p, e.2 ≠ .path p)
    (hends : Ends (fieldsOf file fields pairs) h out t) : Pathless out := by
  induction pairs generalizing fields h with
  | nil =>
    obtain ⟨rfl, -⟩ := ends_pure hends
    exact hfields
  | cons e rest ih =>
    have hrest : ∀ e ∈ rest, ∀ p, e.2 ≠ .path p := fun e' he => hpairs e' (List.mem_cons_of_mem _ he)
    obtain ⟨key, _, -, hends⟩ := ends_bind hends
    dsimp only at hends
    split at hends
    · refine ih (fun name p => ?_) hrest hends
      rw [Assoc.get?_insert]
      split
      · exact fun hv => hpairs e List.mem_cons_self p (Option.some.inj hv)
      · exact hfields name p
    · obtain ⟨_, _, -, hends⟩ := ends_bind hends
      exact ih hfields hrest hends

theorem ends_readFile {file : Path} {entries : List (Value × Value)}
    (hends : Ends (readFile file) h (.map entries) t) : ∀ e ∈ entries, ∀ p, e.2 ≠ .path p := by
  have hunreadable {h : Host} : ¬ Ends (do
      Action.say [.warning ("Failed to read " ++ file.text ++ ", using defaults")]
      return .null : Action Host Value) h (.map entries) t := by
    intro hends
    obtain ⟨_, _, -, hnull⟩ := ends_bind hends
    cases (ends_pure hnull).1
  obtain ⟨_, _, -, hends⟩ := ends_bind hends
  split at hends
  next => exact absurd hends hunreadable
  next =>
    split at hends
    next => exact absurd hends not_ends_fail
    next =>
      split at hends
      next hload =>
        obtain ⟨rfl, -⟩ := ends_pure hends
        exact fun e he p => Yaml.load_ne_path hload he p
      next => exact absurd hends hunreadable
      next => exact absurd hends not_ends_fail

/-- A configuration that is loaded is well formed. -/
theorem ends_load {path : Option Path} (hroot : root.Proper) (hends : Ends (load path root) h c t) :
    c.WellFormed := by
  have hmake {fields : Assoc String Value} (hfields : Pathless fields) {h t : Host}
      (hends : Ends (Action.ofExcept (ofFields root fields)) h c t) : c.WellFormed :=
    wellFormed_of_ofFields hroot (fun name _ p hget => absurd hget (hfields name p))
      (ends_ofExcept hends).1
  have hempty : Pathless ∅ := fun _ _ hget => by cases hget
  unfold load at hends
  obtain ⟨_, _, -, hends⟩ := ends_bind hends
  obtain ⟨_, _, -, hends⟩ := ends_bind hends
  dsimp only at hends
  split at hends
  next =>
    split at hends
    next =>
      obtain ⟨_, _, -, hends⟩ := ends_bind hends
      exact hmake hempty hends
    next => exact hmake hempty hends
  next =>
    obtain ⟨value, _, hread, hends⟩ := ends_bind hends
    split at hends
    next => exact hmake hempty hends
    next =>
      obtain ⟨fields, _, hfields, hends⟩ := ends_bind hends
      exact hmake (ends_fieldsOf hempty (ends_readFile hread) hfields) hends
    next =>
      obtain ⟨_, _, -, hends⟩ := ends_bind hends
      exact hmake hempty hends

/-! ### Fields from the command line -/

/-- The directories of a configuration are its own root and the directory it names. -/
theorem get?_toFields_path {name : String} (hname : name ∈ pathFields) {p : Path}
    (hget : c.toFields.get? name = some (.path p)) : p = c.root ∨ c.dir = some p := by
  simp only [toFields, Assoc.ofList, List.foldl_cons, List.foldl_nil, Assoc.get?_insert] at hget
  simp only [pathFields, List.mem_cons, List.not_mem_nil, or_false] at hname
  rcases hname with rfl | rfl
  · cases hdir : c.dir with
    | none =>
      rw [hdir] at hget
      simp at hget
    | some d =>
      rw [hdir] at hget
      simp at hget
      exact .inr (congrArg some hget)
  · simp at hget
    exact .inl hget.symm

/-- Overriding keeps a configuration well formed. -/
theorem WellFormed.withOverrides {c' : Config} {fields : Assoc String Value} (hc : c.WellFormed)
    (hfields : ∀ name ∈ pathFields, ∀ p, fields.get? name = some (.path p) → p.Proper)
    (h : c.withOverrides fields = .ok c') : c'.WellFormed := by
  refine wellFormed_of_ofFields hc.root (fun name hname p hget => ?_) h
  rw [Assoc.get?_merge, givenFields, Assoc.get?_filter] at hget
  rcases Option.or_eq_some_iff.mp hget with hgiven | ⟨-, hown⟩
  · exact hfields name hname p (Option.eq_some_of_filter_eq_some hgiven)
  · rcases get?_toFields_path hname hown with rfl | hdir
    · exact hc.root
    · exact hc.dir p hdir

/-- The fields that a cleaning is not told: the policy, and whether to say more. -/
def untoldFields : List String := ["global_conflict", "debug"]

/-- These fields decide what they say, and nothing else. -/
theorem ofFields_untold {fields fields' : Assoc String Value} {policy : ConflictPolicy}
    (hsame : ∀ name, name ∉ untoldFields → fields'.get? name = fields.get? name)
    (hpolicy : fields'.get? "global_conflict" = some (.policy policy))
    (h : ofFields root fields = .ok c) :
    ofFields root fields' =
      .ok (c.retold policy ((fields'.get? "debug").getD (.bool false))) := by
  have hc := ofFields_eq_ok_iff.mp h
  have hfield {name : String} (hname : name ∉ untoldFields) (fresh : Value) :
      (fields'.get? name).getD fresh = (fields.get? name).getD fresh := by
    rw [hsame name hname]
  refine ofFields_eq_ok_iff.mpr {
    known := fun name hget => ?_
    id := (congrArg checkId (hfield (by decide) _)).trans hc.id
    priority := (congrArg checkPriority (hfield (by decide) _)).trans hc.priority
    policy := ?_
    dir := (congrArg checkDir (hfield (by decide) _)).trans hc.dir
    root := (congrArg checkPath (hfield (by decide) _)).trans hc.root
    groupScore := (congrArg checkScore (hfield (by decide) _)).trans hc.groupScore
    debug := rfl
    singleOutfile := (hfield (by decide) _).trans hc.singleOutfile
    joinScores := (hfield (by decide) _).trans hc.joinScores }
  · by_cases hname : name ∈ untoldFields
    · exact (show ∀ name ∈ untoldFields, name ∈ fieldNames by decide) name hname
    · exact hc.known name (hsame name hname ▸ hget)
  · rw [hpolicy]
    rfl

/-- Without them, a configuration keeps what it has. -/
theorem withOverrides_untold {c' : Config} {fields : Assoc String Value}
    (h : c.withOverrides fields = .ok c') :
    c.withOverrides (fields.filterKeys (· ∉ untoldFields)) =
      .ok (c'.retold c.policy c.debug) := by
  have hget (name : String) :
      (c.toFields.merge (givenFields (fields.filterKeys (· ∉ untoldFields)))).get? name =
        if name ∈ untoldFields then c.toFields.get? name
        else (c.toFields.merge (givenFields fields)).get? name := by
    rw [Assoc.get?_merge, Assoc.get?_merge, givenFields, givenFields, Assoc.get?_filter,
      Assoc.get?_filter, Assoc.get?_filterKeys]
    by_cases hname : name ∈ untoldFields <;> simp [hname]
  have hdebug := hget "debug"
  rw [if_pos (by decide)] at hdebug
  have hmade := ofFields_untold (fun name hname => (hget name).trans (if_neg hname))
    ((hget "global_conflict").trans (if_pos (by decide))) h
  rw [hdebug] at hmade
  exact hmade

end Config

end MailRules
