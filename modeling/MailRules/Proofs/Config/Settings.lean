import MailRules.Proofs.Binary64.Rounding
import MailRules.Proofs.Config

/-! What becomes of settings, right and wrong.

Each setting has values that mean something for it, and these it accepts (`Setting.accepts`). Among
the others are some that its check does not even report: they end it with a fault that is no error
of the configuration (`Setting.derails`). One lemma for each check says that it judges its value so
(`Judged`). The checks come one after another, so the first setting that is refused decides what
comes of all (`ofFields_outcome`). -/
namespace MailRules.Config

open Outcome

/-- The settings that are checked. The flags take any value. -/
inductive Setting
  | id
  | priority
  | policy
  | dir
  | root
  | groupScore
deriving DecidableEq

namespace Setting

/-- The settings, in the order of their checks. -/
def all : List Setting := [.id, .priority, .policy, .dir, .root, .groupScore]

/-- The field that holds the setting. -/
def field : Setting → String
  | .id => "id"
  | .priority => "priority"
  | .policy => "global_conflict"
  | .dir => "dir"
  | .root => "root"
  | .groupScore => "group_score"

/-- The value of a setting that no field sets. -/
def fresh (root : Path) : Setting → Value
  | .id => .text "KW"
  | .priority => .int 50
  | .policy => .text "last"
  | .dir => .null
  | .root => .path root
  | .groupScore => .real defaultGroupScore

def value (root : Path) (fields : Assoc String Value) (s : Setting) : Value :=
  (fields.get? s.field).getD (s.fresh root)

/-- The setting that an error is about. -/
def ofError : ConfigError → Setting
  | .idStart _ | .idCharacters _ => .id
  | .priorityKind _ | .priorityRange _ => .priority
  | .policyName _ => .policy
  | .groupScoreKind _ => .groupScore

/-- The setting that a fault reports; nothing if it is no error of the configuration. -/
def ofFault? : Fault → Option Setting
  | .config e => some (ofError e)
  | _ => none

/-! ### What a value means -/

/-- Begins with a letter and holds letters, digits and underscores only. -/
def isIdentifier (id : String) : Bool :=
  (id.toList.head?.map Text.isLetter).getD false &&
    id.toList.all fun c => c = '_' || Text.isAlphanumeric c

def idOf? (v : Value) : Option String :=
  if v.isWritable && isIdentifier (Text.upper v.plain) then some (Text.upper v.plain) else none

theorem toNat_priority_lt {n : Int} (h : 0 ≤ n ∧ n ≤ 99) : n.toNat < 100 := by omega

def priorityOf? : Value → Option (Fin 100)
  | .int n => if h : 0 ≤ n ∧ n ≤ 99 then some ⟨n.toNat, toNat_priority_lt h⟩ else none
  | _ => none

def policyOf? : Value → Option ConflictPolicy
  | .policy p => some p
  | v => if v.isWritable then ConflictPolicy.ofName? v.plain else none

def pathOf? : Value → Option Path
  | .path p => some p
  | .text s => some (Path.ofString s)
  | _ => none

/-- The output directory may be left open. -/
def dirOf? : Value → Option (Option Path)
  | .null => some none
  | v => (pathOf? v).map some

/-- The number that a flag, a number or a numeral stands for. -/
def scoreOf? : Value → Option Binary64
  | .bool b => Binary64.ofInt? (if b then 1 else 0)
  | .int n => Binary64.ofInt? n
  | .real x => some x
  | .text s => Binary64.read? s.toList
  | .bytes data => Binary64.readBytes? data
  | _ => none

/-- The values that a setting may have. -/
def accepts : Setting → Value → Bool
  | .id, v => (idOf? v).isSome
  | .priority, v => (priorityOf? v).isSome
  | .policy, v => (policyOf? v).isSome
  | .dir, v => (dirOf? v).isSome
  | .root, v => (pathOf? v).isSome
  | .groupScore, v => (scoreOf? v).isSome

/-- A whole number beyond the floating point numbers. -/
def isBeyond : Value → Bool
  | .int n => Binary64.overflow ≤ n.natAbs
  | _ => false

/-- The values that end the check of a setting with a fault that is no error of the configuration:
directories that are no texts, whole numbers beyond the floating point numbers, and whatever holds a
number with more digits than a message can show. -/
def derails : Setting → Value → Bool
  | .dir, v => !accepts .dir v
  | .root, v => !accepts .root v
  | .groupScore, v => isBeyond v || !v.isWritable
  | .id, v | .priority, v | .policy, v => !v.isWritable

end Setting

open Setting

/-! ### One check -/

section Check
variable {α : Type} {s : Setting} {v : Value} {meaning : Option α}

/-- A check gives what the value means; without a meaning it reports the setting, unless the value
derails it. -/
structure Judged (s : Setting) (v : Value) (meaning : Option α) (x : Except Fault α) : Prop where
  passes : x.toOption = meaning
  fails : ∀ f, x = .error f → ofFault? f = if s.derails v then none else some s

theorem Judged.accepted {a : α} (h : meaning = some a) : Judged s v meaning (.ok a) :=
  ⟨h.symm, fun _ hf => nomatch hf⟩

theorem Judged.reported {e : ConfigError} (h : meaning = none) (hd : s.derails v = false)
    (herror : ofError e = s) : Judged s v meaning (.error (.config e)) := by
  refine ⟨h.symm, ?_⟩
  rintro _ ⟨⟩
  rw [hd, ← herror]
  rfl

theorem Judged.derailed {f : Fault} (h : meaning = none) (hd : s.derails v = true)
    (hfault : ofFault? f = none) : Judged s v meaning (.error f) := by
  refine ⟨h.symm, ?_⟩
  rintro _ ⟨⟩
  rw [hd]
  exact hfault

/-- A check that writes the value before it goes on. -/
theorem Judged.written {next : Value → Except Fault α}
    (hlong : v.isWritable = false → meaning = none ∧ s.derails v = true)
    (hshort : v.isWritable = true → Judged s v meaning (next v)) :
    Judged s v meaning (writable v >>= next) := by
  unfold writable
  split
  next hw => exact hshort hw
  next hw =>
    obtain ⟨h, hd⟩ := hlong (Bool.eq_false_iff.mpr hw)
    exact .derailed h hd rfl

/-- A refusal that quotes the value. -/
theorem Judged.quoted (e : Value → ConfigError) (h : meaning = none)
    (hderails : s.derails v = !v.isWritable) (herror : ofError (e v) = s) :
    Judged s v meaning (writable v >>= fun w => .error (.config (e w))) := by
  refine .written (fun hw => ⟨h, ?_⟩) fun hw => .reported h ?_ herror
  · rw [hderails, hw, Bool.not_false]
  · rw [hderails, hw, Bool.not_true]

end Check

/-! ### The checks -/

theorem isIdentifier_eq (id : String) : isIdentifier id =
    ((id.toList.head?.map Text.isLetter).getD false &&
      (id.toList.filter (· ≠ '_')).all Text.isAlphanumeric) := by
  rw [isIdentifier, List.all_filter]
  congr 2
  funext c
  by_cases hbar : c = '_' <;> simp [hbar]

theorem checkId_judged (v : Value) : Judged .id v (idOf? v) (checkId v) := by
  refine .written (fun hw => ?_) fun hw => ?_
  · rw [idOf?, derails, hw]
    exact ⟨rfl, rfl⟩
  · have hmeaning : idOf? v =
        if isIdentifier (Text.upper v.plain) then some (Text.upper v.plain) else none := by
      rw [idOf?, hw, Bool.true_and]
    have hd : derails .id v = false := by
      rw [derails, hw, Bool.not_true]
    rw [isIdentifier_eq] at hmeaning
    dsimp only
    split
    next hstart =>
      rw [Bool.not_eq_true'] at hstart
      rw [hstart] at hmeaning
      exact .reported hmeaning hd rfl
    next hstart =>
      rw [Bool.not_eq_true', Bool.not_eq_false] at hstart
      rw [hstart, Bool.true_and] at hmeaning
      split
      next hletters =>
        rw [Bool.not_eq_true'] at hletters
        rw [hletters] at hmeaning
        exact .reported hmeaning hd rfl
      next hletters =>
        rw [Bool.not_eq_true', Bool.not_eq_false] at hletters
        rw [hletters] at hmeaning
        exact .accepted hmeaning

theorem discard_bind {ε α β : Type} (x : Except ε α) (y : Except ε β) :
    (discard x >>= fun _ => y) = x >>= fun _ => y := by
  cases x <;> rfl

theorem checkPriority_judged (v : Value) :
    Judged .priority v (priorityOf? v) (checkPriority v) := by
  cases v with
  | int n =>
    unfold checkPriority priorityOf?
    dsimp only
    split
    next hrange => exact .accepted rfl
    next hrange =>
      show Judged _ _ _
        (discard (writable (.int n)) >>= fun _ => .error (.config (.priorityRange n)))
      rw [discard_bind]
      exact .quoted (fun _ => .priorityRange n) rfl rfl rfl
  | _ => exact .quoted .priorityKind rfl rfl rfl

theorem checkPolicy_judged (v : Value) : Judged .policy v (policyOf? v) (checkPolicy v) := by
  have hname {v : Value}
      (hmeaning : policyOf? v = if v.isWritable then ConflictPolicy.ofName? v.plain else none)
      (hcheck : checkPolicy v = writable v >>= fun w =>
        (ConflictPolicy.ofName? w.plain).elim (.error (.config (.policyName v))) .ok) :
      Judged .policy v (policyOf? v) (checkPolicy v) := by
    rw [hmeaning, hcheck]
    refine .written (fun hw => ?_) fun hw => ?_
    · rw [derails, hw]
      exact ⟨rfl, rfl⟩
    · rw [if_pos hw]
      have hd : derails .policy v = false := by
        rw [derails, hw, Bool.not_true]
      cases ConflictPolicy.ofName? v.plain with
      | some p => exact .accepted rfl
      | none => exact .reported rfl hd rfl
  cases v with
  | policy p => exact .accepted rfl
  | _ =>
    refine hname rfl (bind_congr fun w => ?_)
    cases ConflictPolicy.ofName? w.plain <;> rfl

/-- Whatever is no path derails the setting of a directory. -/
theorem checkPath_judged {s : Setting} {v : Value} (hderails : s.derails v = !(pathOf? v).isSome) :
    Judged s v (pathOf? v) (checkPath v) := by
  have hcheck : checkPath v = (pathOf? v).elim (.error .badField) .ok := by
    cases v <;> rfl
  rw [hcheck]
  cases hpath : pathOf? v with
  | some p => exact .accepted rfl
  | none => exact .derailed rfl (by rw [hderails, hpath]; rfl) rfl

theorem checkDir_judged (v : Value) : Judged .dir v (dirOf? v) (checkDir v) := by
  have hpath {v : Value} (hderails : derails .dir v = !(pathOf? v).isSome) :
      Judged .dir v ((pathOf? v).map some) (some <$> checkPath v) := by
    obtain ⟨hpasses, hfails⟩ := checkPath_judged hderails
    rw [← hpasses]
    cases hcheck : checkPath v with
    | ok p => exact .accepted rfl
    | error f =>
      refine ⟨rfl, ?_⟩
      rintro _ ⟨⟩
      exact hfails f hcheck
  cases v with
  | null => exact .accepted rfl
  | _ => exact hpath rfl

theorem scoreOf?_int {n : Int} : scoreOf? (.int n) = none ↔ isBeyond (.int n) = true := by
  rw [scoreOf?, Binary64.ofInt?_eq_none_iff, isBeyond, decide_eq_true_iff]

/-- Zero and one are no great numbers. -/
theorem exists_scoreOf?_bool (b : Bool) : ∃ x, scoreOf? (.bool b) = some x := by
  refine Option.ne_none_iff_exists'.mp fun h => ?_
  have hbig := Binary64.ofInt?_eq_none_iff.mp h
  cases b
  · revert hbig
    decide +kernel
  · revert hbig
    decide +kernel

theorem checkScore_judged (v : Value) : Judged .groupScore v (scoreOf? v) (checkScore v) := by
  have hread {v : Value} (number : Option Binary64) (hbeyond : isBeyond v = false)
      (hmeaning : scoreOf? v = number)
      (hcheck : checkScore v = number.elim
        (writable v >>= fun w => .error (.config (.groupScoreKind w))) .ok) :
      Judged .groupScore v (scoreOf? v) (checkScore v) := by
    rw [hmeaning, hcheck]
    cases number with
    | some x => exact .accepted rfl
    | none => exact .quoted .groupScoreKind rfl (by rw [derails, hbeyond]; rfl) rfl
  cases v with
  | bool b =>
    obtain ⟨x, hx⟩ := exists_scoreOf?_bool b
    have hcheck : checkScore (.bool b) = .ok ((scoreOf? (.bool b)).getD Binary64.zero) := rfl
    rw [hcheck, hx]
    exact .accepted rfl
  | int n =>
    have hcheck : checkScore (.int n) = (scoreOf? (.int n)).elim (.error .overflow) .ok := rfl
    rw [hcheck]
    cases hx : scoreOf? (.int n) with
    | some x => exact .accepted rfl
    | none =>
      refine .derailed rfl ?_ rfl
      rw [derails, scoreOf?_int.mp hx]
      rfl
  | real x => exact .accepted rfl
  | text s =>
    refine hread (Binary64.read? s.toList) rfl rfl ?_
    dsimp only [checkScore]
    cases Binary64.read? s.toList <;> rfl
  | bytes data =>
    refine hread (Binary64.readBytes? data) rfl rfl ?_
    dsimp only [checkScore]
    cases Binary64.readBytes? data <;> rfl
  | _ => exact .quoted .groupScoreKind rfl rfl rfl

/-! ### All checks -/

/-- The first of the settings that is refused. -/
def firstRefused? (value : Setting → Value) (settings : List Setting) : Option Setting :=
  settings.find? fun s => !s.accepts (value s)

/-- What comes of the checks of the settings is what comes of the first that is refused. -/
inductive Decided {α : Type} (value : Setting → Value) (settings : List Setting) :
    Except Fault α → Prop
  | made {a : α} : firstRefused? value settings = none → Decided value settings (.ok a)
  | failed {s : Setting} {f : Fault} : firstRefused? value settings = some s →
      ofFault? f = (if s.derails (value s) then none else some s) →
      Decided value settings (.error f)

section Checks
variable {α β : Type} {value : Setting → Value} {s : Setting} {rest : List Setting}

theorem Judged.bind {meaning : Option α} {x : Except Fault α} {next : α → Except Fault β}
    (hx : Judged s (value s) meaning x) (haccepts : s.accepts (value s) = meaning.isSome)
    (hnext : ∀ a, Decided value rest (next a)) : Decided value (s :: rest) (x >>= next) := by
  rw [← hx.passes] at haccepts
  cases x with
  | error f =>
    have hrefused : firstRefused? value (s :: rest) = some s :=
      List.find?_cons_of_pos (by rw [haccepts]; rfl)
    exact .failed hrefused (hx.fails f rfl)
  | ok a =>
    have hlater : firstRefused? value (s :: rest) = firstRefused? value rest :=
      List.find?_cons_of_neg (by rw [haccepts]; exact Bool.false_ne_true)
    have h := hnext a
    show Decided value (s :: rest) (next a)
    generalize next a = y at h ⊢
    cases h with
    | made h => exact .made (hlater.trans h)
    | failed h hfault => exact .failed (hlater.trans h) hfault

theorem Decided.ok_iff {x : Except Fault α} (h : Decided value rest x) :
    (∃ a, x = .ok a) ↔ firstRefused? value rest = none := by
  cases h with
  | made h => exact iff_of_true ⟨_, rfl⟩ h
  | failed h => exact iff_of_false (fun ⟨_, ha⟩ => nomatch ha) (by simp [h])

theorem Decided.fault_iff {x : Except Fault α} (h : Decided value rest x)
    (reported : Option Setting) :
    (∃ f, x = .error f ∧ ofFault? f = reported) ↔ ∃ s, firstRefused? value rest = some s ∧
      (if s.derails (value s) then none else some s) = reported := by
  cases h with
  | made h => exact iff_of_false (fun ⟨_, hf, _⟩ => nomatch hf) (by simp [h])
  | failed h hfault => simp [h, hfault]

end Checks

section Fields
variable {root : Path} {fields : Assoc String Value} {c : Config}

/-- The first refused setting decides. -/
theorem ofFields_decided (hknown : ∀ name ∈ fields.keys, name ∈ fieldNames) :
    Decided (Setting.value root fields) Setting.all (ofFields root fields) := by
  have hall : ¬ (fields.keys.any fun k => k ∉ fieldNames) = true := by
    rw [any_not_known_iff]
    rintro ⟨name, hget, hname⟩
    exact hname (known_of_keys hknown hget)
  unfold ofFields
  dsimp only
  rw [if_neg hall]
  refine (checkId_judged _).bind rfl fun id => ?_
  refine (checkPriority_judged _).bind rfl fun priority => ?_
  refine (checkPolicy_judged _).bind rfl fun policy => ?_
  refine (checkDir_judged _).bind rfl fun dir => ?_
  refine (checkPath_judged rfl).bind rfl fun dir => ?_
  exact (checkScore_judged _).bind rfl fun score => .made rfl

/-- What is promised of a configuration: its identifier is a name in upper case, and everything in
it is what the values mean. -/
structure Sound (value : Setting → Value) (c : Config) : Prop where
  id_ne : c.id ≠ ""
  id_upper : Text.upper c.id = c.id
  id_name : isIdentifier c.id = true
  id_eq : idOf? (value .id) = some c.id
  priority_eq : priorityOf? (value .priority) = some c.priority
  policy_eq : policyOf? (value .policy) = some c.policy
  dir_eq : dirOf? (value .dir) = some c.dir
  root_eq : pathOf? (value .root) = some c.root
  groupScore_eq : scoreOf? (value .groupScore) = some c.groupScore

theorem idOf?_eq_some {v : Value} {id : String} (h : idOf? v = some id) :
    Text.upper id = id ∧ isIdentifier id = true := by
  rw [idOf?] at h
  split at h
  next hv =>
    cases h
    rw [Bool.and_eq_true] at hv
    exact ⟨Text.upper_upper _, hv.2⟩
  next => cases h

theorem sound_of_ofFields (h : ofFields root fields = .ok c) :
    Sound (Setting.value root fields) c := by
  have hmeaning {α : Type} {s : Setting} {v : Value} {meaning : Option α} {x : Except Fault α}
      {a : α} (hx : Judged s v meaning x) (ha : x = .ok a) : meaning = some a := by
    rw [← hx.passes, ha]
    rfl
  have hc := ofFields_eq_ok_iff.mp h
  have hid := hmeaning (checkId_judged _) hc.id
  obtain ⟨hupper, hname⟩ := idOf?_eq_some hid
  refine ⟨?_, hupper, hname, hid, hmeaning (checkPriority_judged _) hc.priority,
    hmeaning (checkPolicy_judged _) hc.policy, hmeaning (checkDir_judged _) hc.dir,
    hmeaning (checkPath_judged (s := .root) rfl) hc.root,
    hmeaning (checkScore_judged _) hc.groupScore⟩
  intro hempty
  rw [hempty] at hname
  cases hname

theorem ofFault?_eq_some_iff {f : Fault} {s : Setting} :
    ofFault? f = some s ↔ ∃ e, f = .config e ∧ ofError e = s := by
  constructor
  · intro h
    cases f with
    | config e => exact ⟨e, rfl, Option.some.inj h⟩
    | _ => cases h
  · rintro ⟨e, rfl, rfl⟩
    rfl

/-- **The first refused setting decides what becomes of the fields.** If none is refused, they make
a configuration, and it is as its values say. Otherwise they end in an error of the configuration
that is about that setting or, if the value derails its check, in a fault of another kind. -/
theorem ofFields_outcome (hknown : ∀ name ∈ fields.keys, name ∈ fieldNames) :
    let value := Setting.value root fields
    let refused := firstRefused? value Setting.all
    (∀ c, ofFields root fields = .ok c → Sound value c) ∧
    ((∃ c, ofFields root fields = .ok c) ↔ refused = none) ∧
    (∀ s, (∃ e, ofFields root fields = .error (.config e) ∧ ofError e = s) ↔
      refused = some s ∧ s.derails (value s) = false) ∧
    ((∃ f, ofFields root fields = .error f ∧ ofFault? f = none) ↔
      ∃ s, refused = some s ∧ s.derails (value s) = true) := by
  intro value refused
  have h : Decided value Setting.all (ofFields root fields) := ofFields_decided hknown
  refine ⟨fun c => sound_of_ofFields, h.ok_iff, fun s => ?_, ?_⟩
  · calc (∃ e, ofFields root fields = .error (.config e) ∧ ofError e = s)
      _ ↔ ∃ f, ofFields root fields = .error f ∧ ofFault? f = some s := by
        constructor
        · rintro ⟨e, he, hs⟩
          exact ⟨_, he, congrArg some hs⟩
        · rintro ⟨f, hf, hs⟩
          obtain ⟨e, rfl, he⟩ := ofFault?_eq_some_iff.mp hs
          exact ⟨e, hf, he⟩
      _ ↔ ∃ t, refused = some t ∧ (if t.derails (value t) then none else some t) = some s :=
        h.fault_iff (some s)
      _ ↔ refused = some s ∧ s.derails (value s) = false := by
        constructor
        · rintro ⟨t, ht, hs⟩
          split at hs
          next => cases hs
          next hd =>
            cases hs
            exact ⟨ht, Bool.eq_false_iff.mpr hd⟩
        · rintro ⟨hs, hd⟩
          exact ⟨s, hs, if_neg (Bool.eq_false_iff.mp hd)⟩
  · refine (h.fault_iff none).trans (exists_congr fun s => and_congr_right fun _ => ?_)
    rw [ite_eq_left_iff, Bool.not_eq_true]
    simp

end Fields

/-- Two wrong values: a flag for the priority, and a number for the directory. -/
def mixedFields : Assoc String Value :=
  Assoc.ofList [("dir", .int 5), ("priority", .bool true)]

/-- The priority is checked first and reported, so the directory does no harm. -/
theorem ofFields_outcome_mixed :
    (∀ name ∈ mixedFields.keys, name ∈ fieldNames) ∧
      ∃ e, ofFields ⟨.root, []⟩ mixedFields = .error (.config e) ∧ ofError e = .priority := by
  have hknown : ∀ name ∈ mixedFields.keys, name ∈ fieldNames := by decide
  obtain ⟨-, -, hreported, -⟩ := @ofFields_outcome ⟨.root, []⟩ mixedFields hknown
  exact ⟨hknown, (hreported .priority).mpr ⟨by decide +kernel, by decide +kernel⟩⟩

/-- A number for the directory is no error of the configuration. -/
theorem dir_derails :
    ofFields ⟨.root, []⟩ (Assoc.ofList [("dir", .int 5)]) = .error .badField := by
  rfl

end MailRules.Config
