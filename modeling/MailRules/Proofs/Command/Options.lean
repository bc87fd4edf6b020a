import MailRules.Command.Request
import MailRules.Proofs.Command.Configured
import MailRules.Proofs.Text.Order

/-! The options that a cleaning shares with a generation.

A cleaning knows where the artifacts go, but nothing of policies, of reports and of checks. What it
makes of the options that it knows is what a generation makes of them (`ofWords_only`). -/
namespace MailRules.Command

open Outcome Config

/-- The words with no other switches than the allowed ones. -/
def Words.only (w : Words) (allowed : List Switch) : Words :=
  { w with given := w.given.filter fun g => g.1 ∈ allowed }

theorem Words.switches_only (w : Words) (allowed : List Switch) :
    (w.only allowed).switches = w.switches.filter (· ∈ allowed) := by
  rw [switches, switches, ← Text.eraseDups_filter, List.filter_map]
  rfl

theorem Words.get?_only (w : Words) {allowed : List Switch} {switch : Switch}
    (h : switch ∈ allowed) : (w.only allowed).get? switch = w.get? switch := by
  rw [get?, get?, only, ← List.filter_reverse, List.find?_filter]
  congr 2
  funext g
  by_cases hg : g.1 = switch
  · simp [hg, h]
  · simp [hg]

namespace Settings

variable {h : Host} {s t : Settings} {w : Words} {switch : Switch} {given : Given}

/-- The settings of a cleaning with the same options. -/
def forClean (s : Settings) : Settings where
  config := s.config
  fields := s.fields.filterKeys (· ∉ untoldFields)

theorem forClean_setField {name : String} {v : Value} :
    (s.setField name v).forClean =
      if name ∈ untoldFields then s.forClean else s.forClean.setField name v := by
  rw [forClean, setField, Assoc.filterKeys_insert]
  by_cases hname : name ∈ untoldFields
  · rw [if_pos hname, if_neg (by simpa using hname)]
    rfl
  · rw [if_neg hname, if_pos (by simpa using hname)]
    rfl

/-- The settings, with diagnostics asked for or not. -/
def told (s : Settings) (debug : Bool) : Settings :=
  if debug then s.setField "debug" (.bool true) else s

theorem told_verify (debug : Bool) : (s.told debug).verify = s.verify := by
  cases debug <;> rfl

/-- A cleaning is not told of diagnostics. -/
theorem forClean_told (debug : Bool) : (s.told debug).forClean = s.forClean := by
  cases debug with
  | false => rfl
  | true => exact forClean_setField.trans (if_pos (by decide))

/-- The directories that the settings name are proper paths. -/
def Proper (s : Settings) : Prop :=
  ∀ name ∈ pathFields, ∀ p, s.fields.get? name = some (.path p) → p.Proper

/-- A switch that a cleaning knows does the same for it. -/
theorem take_known (hknown : switch ∈ Command.clean.switches)
    (ht : s.take h switch given = .ok t) : s.forClean.take h switch given = .ok t.forClean := by
  have hset {name : String} (v : Value) (hname : name ∉ untoldFields) :
      s.forClean.setField name v = (s.setField name v).forClean := by
    rw [forClean_setField, if_neg hname]
  cases switch with
  | config =>
    cases given with
    | flag =>
      cases ht
      rfl
    | value text =>
      obtain ⟨p, hp, rfl⟩ := map_eq_ok.mp ht
      exact map_eq_ok.mpr ⟨p, hp, rfl⟩
  | id =>
    cases given with
    | flag =>
      cases ht
      rfl
    | value text =>
      cases ht
      exact congrArg _ (hset _ (by decide))
  | priority =>
    cases given with
    | flag =>
      cases ht
      rfl
    | value text =>
      obtain ⟨n, hn, rfl⟩ := map_eq_ok.mp ht
      exact map_eq_ok.mpr ⟨n, hn, hset _ (by decide)⟩
  | dir =>
    cases given with
    | flag =>
      cases ht
      rfl
    | value text =>
      obtain ⟨p, hp, rfl⟩ := map_eq_ok.mp ht
      exact map_eq_ok.mpr ⟨p, hp, hset _ (by decide)⟩
  | outfile | scores =>
    cases given with
    | flag on =>
      cases ht
      exact congrArg _ (hset _ (by decide))
    | value =>
      cases ht
      rfl
  | help =>
    cases given <;>
    · cases ht
      rfl
  | _ => exact absurd hknown (by decide)

/-- Any other switch does nothing for it. -/
theorem take_unknown (hunknown : switch ∉ Command.clean.switches)
    (ht : s.take h switch given = .ok t) : t.forClean = s.forClean := by
  cases switch with
  | globalConflict =>
    cases given with
    | flag =>
      cases ht
      rfl
    | value text =>
      obtain ⟨p, -, rfl⟩ := map_eq_ok.mp ht
      exact forClean_setField.trans (if_pos (by decide))
  | format =>
    cases given with
    | flag =>
      cases ht
      rfl
    | value text =>
      obtain ⟨f, -, rfl⟩ := map_eq_ok.mp ht
      rfl
  | strict | verify | json | debug | version =>
    cases given <;>
    · cases ht
      rfl
  | _ => exact absurd (by decide) hunknown

/-- Takes what one switch is given. -/
def takeSwitch (h : Host) (w : Words) (s : Settings) (switch : Switch) : Except UsageError Settings :=
  match w.get? switch with
  | some given => (s.take h switch given).mapError (.invalid switch.name)
  | none => .ok s

theorem ofWords_eq (h : Host) (w : Words) :
    ofWords h w = w.switches.foldlM (takeSwitch h w) {} := rfl

theorem takeSwitch_forClean (ht : takeSwitch h w s switch = .ok t) :
    if switch ∈ Command.clean.switches then
      takeSwitch h (w.only Command.clean.switches) s.forClean switch = .ok t.forClean
    else t.forClean = s.forClean := by
  unfold takeSwitch at ht ⊢
  cases hget : w.get? switch with
  | none =>
    rw [hget] at ht
    cases ht
    split
    next hknown => rw [w.get?_only hknown, hget]
    next => rfl
  | some given =>
    rw [hget] at ht
    have htake := mapError_eq_ok.mp ht
    split
    next hknown =>
      rw [w.get?_only hknown, hget]
      exact mapError_eq_ok.mpr (take_known hknown htake)
    next hunknown => exact take_unknown hunknown htake

theorem foldlM_forClean {l : List Switch} (ht : l.foldlM (takeSwitch h w) s = .ok t) :
    (l.filter (· ∈ Command.clean.switches)).foldlM
      (takeSwitch h (w.only Command.clean.switches)) s.forClean = .ok t.forClean := by
  induction l generalizing s with
  | nil =>
    cases ht
    rfl
  | cons switch rest ih =>
    rw [List.foldlM_cons] at ht
    obtain ⟨u, hu, hrest⟩ := bind_eq_ok.mp ht
    have hswitch := takeSwitch_forClean hu
    rw [List.filter_cons]
    by_cases hknown : switch ∈ Command.clean.switches
    · rw [if_pos hknown] at hswitch
      rw [if_pos (decide_eq_true hknown), List.foldlM_cons, hswitch]
      exact ih hrest
    · rw [if_neg hknown] at hswitch
      rw [if_neg (by simpa using hknown), ← hswitch]
      exact ih hrest

theorem readDirectoryPath_ok {needed : Bool} {path : String} {p : Path}
    (hp : readDirectoryPath h needed path = .ok p) : p = Path.ofString path := by
  unfold readDirectoryPath at hp
  split at hp
  · split at hp <;> cases hp
    rfl
  · cases hp
  · cases hp
    rfl

/-- The directories that switches name are proper. -/
theorem take_proper (hs : s.Proper) (ht : s.take h switch given = .ok t) : t.Proper := by
  have hset {name : String} {v : Value} (hv : ∀ p, v = .path p → p.Proper) :
      (s.setField name v).Proper := by
    intro other hother p hget
    rw [setField, Assoc.get?_insert] at hget
    split at hget
    · exact hv p (Option.some.inj hget)
    · exact hs other hother p hget
  unfold take at ht
  split at ht
  case h_1 | h_10 =>
    obtain ⟨_, -, rfl⟩ := map_eq_ok.mp ht
    exact hs
  case h_4 =>
    obtain ⟨p, hp, rfl⟩ := map_eq_ok.mp ht
    rw [readDirectoryPath_ok hp]
    exact hset fun _ he => Value.path.inj he ▸ Path.proper_ofString _
  case h_3 | h_7 =>
    obtain ⟨_, -, rfl⟩ := map_eq_ok.mp ht
    exact hset fun _ he => by cases he
  case h_2 | h_5 | h_6 =>
    cases ht
    exact hset fun _ he => by cases he
  all_goals
    cases ht
    exact hs

theorem ofWords_proper (hs : ofWords h w = .ok s) : s.Proper := by
  have hall {l : List Switch} {s t : Settings} (hs : s.Proper)
      (ht : l.foldlM (takeSwitch h w) s = .ok t) : t.Proper := by
    induction l generalizing s with
    | nil =>
      cases ht
      exact hs
    | cons switch rest ih =>
      rw [List.foldlM_cons] at ht
      obtain ⟨u, hu, hrest⟩ := bind_eq_ok.mp ht
      refine ih ?_ hrest
      unfold takeSwitch at hu
      split at hu
      · exact take_proper hs (mapError_eq_ok.mp hu)
      · cases hu
        exact hs
  exact hall (fun _ _ _ hget => by cases hget) hs

/-- The words that a cleaning knows make its settings. -/
theorem ofWords_only (hs : ofWords h w = .ok s) :
    ofWords h (w.only Command.clean.switches) = .ok s.forClean := by
  rw [ofWords_eq, w.switches_only]
  exact foldlM_forClean hs

theorem Proper.told (hs : s.Proper) (debug : Bool) : (s.told debug).Proper := by
  cases debug with
  | false => exact hs
  | true =>
    intro name hname p hget
    rw [Settings.told, if_pos rfl, setField, Assoc.get?_insert] at hget
    split at hget
    · cases hget
    · exact hs name hname p hget

end Settings

/-! ### The arguments of a command -/

/-- The arguments call the command with the words, for diagnostics or not. -/
def Calls (arguments : List String) (command : Command) (w : Words) (debug : Bool) : Prop :=
  ∃ outer rest, tellApart outerSwitches false arguments = .ok outer ∧ outer.urgent? = none ∧
    outer.others = command.name :: rest ∧ (outer.get? .debug).isSome = debug ∧
    tellApart command.switches true rest = .ok w

/-- The request of a command that takes inputs. -/
def requestOf (command : Command) (inputs : List String) (s : Settings) : Request :=
  match command with
  | .clean => .clean inputs s
  | _ => .generate inputs s

namespace Calls

variable {arguments : List String} {command : Command} {w : Words} {debug : Bool} {h : Host}
  {s : Settings}

theorem isEmpty_eq (hcalls : Calls arguments command w debug) : arguments.isEmpty = false := by
  cases arguments with
  | nil =>
    obtain ⟨_, _, hwords, -, hothers, -⟩ := hcalls
    cases hwords
    cases hothers
  | cons => rfl

/-- Inputs are asked for, and they make a request. -/
theorem ofArguments_eq (hcalls : Calls arguments command w debug)
    (hvariadic : command.isVariadic = true) (hasked : w.urgent? = none)
    (hs : Settings.ofWords h w = .ok s) :
    Invocation.ofArguments h arguments =
      if w.others = [] then .error (.missingArgument command.argument)
      else .ok { debug, request := requestOf command w.others s } := by
  obtain ⟨outer, rest, hwords, hurgent, hothers, rfl, hrest⟩ := hcalls
  have hname : Command.ofName? command.name = some command := by cases command <;> rfl
  have hcommand : Invocation.ofCommand h command rest =
      if w.others = [] then .error (.missingArgument command.argument)
      else .ok (requestOf command w.others s) := by
    rw [Invocation.ofCommand, hrest, Outcome.ok_bind, hasked, hs]
    cases hinputs : w.others with
    | nil => cases command <;> first | rfl | cases hvariadic
    | cons input inputs => cases command <;> first | rfl | cases hvariadic
  simp only [Invocation.ofArguments, hwords, Outcome.ok_bind, hurgent, Option.map_none, hothers,
    hname, hcommand]
  split <;> rfl

end Calls

end MailRules.Command
