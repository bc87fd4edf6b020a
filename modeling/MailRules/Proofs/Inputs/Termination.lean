import MailRules.Proofs.Inputs.Bounds
import MailRules.Proofs.Inputs.Reading

/-! An expansion comes to its end.

Each pending path is worth a step, and one at which nothing is found the steps of all that a pattern
can stand for; a link that can still be followed, and a place that can still be visited, are worth
the steps of what they lead to. Every step makes the sum smaller (`potential_lt`), so an expansion
takes all that is pending, unless a path is refused for its length (`ofInputs_ends`).

Links are told apart by their paths, and a link to itself by way of a directory has a longer path
each time it is met. Such a loop ends only where the path is refused (`loop_is_refused`). -/
namespace MailRules

namespace Host

instance (h : Host) (p : Path) : Decidable (h.NothingAt p) :=
  match hfind : h.tree.find h.home false p with
  | .ok _ => .isFalse fun ⟨_, ht, _⟩ => by
    rw [hfind] at ht
    cases ht
  | .error t =>
    if hlong : t = .nameTooLong then .isFalse fun ⟨_, ht, hne⟩ => by
      rw [hfind, hlong] at ht
      cases ht
      exact hne rfl
    else .isTrue ⟨t, hfind, hlong⟩

end Host

namespace Expansion

variable {h : Host} {root path : Path} {e next : Expansion} {pending : List Path}
  {links : List String} {places : List Location}

/-- How many steps a pending path is worth. -/
def weight (h : Host) (path : Path) : Nat := if h.NothingAt path then 1 + matchBound h else 1

/-- How many steps are left at most. -/
def potential (h : Host) (pending : List Path) (links : List String) (places : List Location) :
    Nat :=
  (pending.map (weight h)).sum + (linkBound h - links.length) * (1 + matchBound h) +
    (placeBound h - places.length) * placeBound h

/-- What has been taken is known, and each is there once. -/
structure Tracked (h : Host) (links : List String) (places : List Location) : Prop where
  links_nodup : links.Nodup
  links_short : ∀ link ∈ links,
    link.utf8ByteSize < Tree.pathLimit + h.homePath.text.utf8ByteSize + 1
  places_nodup : places.Nodup
  places_known : ∀ place ∈ places, place ∈ h.tree.places h.home

theorem Tracked.links_le (ht : Tracked h links places) : links.length ≤ linkBound h :=
  Text.length_le_of_short ht.links_nodup ht.links_short

theorem Tracked.places_le (ht : Tracked h links places) : places.length ≤ placeBound h := by
  have hle := (List.subperm_of_subset ht.places_nodup ht.places_known).length_le
  rwa [Tree.length_places] at hle

theorem Tracked.link {target : String} (ht : Tracked h links places)
    (hlink : h.LinkAt path target) (hnew : (h.absolute path).text ∉ links) :
    Tracked h ((h.absolute path).text :: links) places where
  links_nodup := List.nodup_cons.mpr ⟨hnew, ht.links_nodup⟩
  links_short := by
    obtain ⟨place, hfind⟩ := hlink
    have hshort := (Tree.goal_eq_ok_iff.mp (Tree.find_eq_ok_iff.mp hfind)).1
    have hle := h.size_absolute_le path
    rw [List.forall_mem_cons]
    exact ⟨by omega, ht.links_short⟩
  places_nodup := ht.places_nodup
  places_known := ht.places_known

theorem Tracked.visit {place : Location} {entry : Entry} (hhome : Tree.normalize h.home = h.home)
    (ht : Tracked h links places) (hentry : h.EntryAt path place entry)
    (hnew : h.resolve path ∉ places) : Tracked h links (h.resolve path :: places) where
  links_nodup := ht.links_nodup
  links_short := ht.links_short
  places_nodup := List.nodup_cons.mpr ⟨hnew, ht.places_nodup⟩
  places_known := by
    have hplace : h.resolve path = place :=
      Tree.resolve_eq hhome (Tree.find_eq_ok_iff.mp hentry.follow)
    rw [List.forall_mem_cons, hplace]
    exact ⟨Tree.mem_places_of_find hentry.follow, ht.places_known⟩

/-! ### What a step is worth -/

theorem weight_pos (h : Host) (path : Path) : 1 ≤ weight h path := by
  unfold weight
  split <;> omega

theorem weight_le (h : Host) (path : Path) : weight h path ≤ 1 + matchBound h := by
  unfold weight
  split <;> omega

/-- Paths at which something is found are worth one step each. -/
theorem sum_weight {paths : List Path} (hfound : ∀ p ∈ paths, ¬ h.NothingAt p) :
    (paths.map (weight h)).sum = paths.length := by
  induction paths with
  | nil => rfl
  | cons p rest ih =>
    rw [List.forall_mem_cons] at hfound
    rw [List.map_cons, List.sum_cons, ih hfound.2, weight, if_neg hfound.1, List.length_cons,
      Nat.add_comm]

theorem potential_push (h : Host) (paths pending : List Path) (links : List String)
    (places : List Location) :
    potential h (paths ++ pending) links places =
      (paths.map (weight h)).sum + potential h pending links places := by
  unfold potential
  rw [List.map_append, List.sum_append]
  omega

/-- A link that is followed gives back the steps that it was worth. -/
theorem potential_link (pending : List Path) (places : List Location) {link : String}
    (ht : Tracked h (link :: links) places) :
    potential h pending (link :: links) places + (1 + matchBound h) =
      potential h pending links places := by
  have hle := ht.links_le
  rw [List.length_cons] at hle
  have hleft : linkBound h - links.length = (linkBound h - (links.length + 1)) + 1 := by omega
  unfold potential
  rw [List.length_cons, hleft, Nat.succ_mul]
  omega

theorem potential_place (pending : List Path) (links : List String) {place : Location}
    (ht : Tracked h links (place :: places)) :
    potential h pending links (place :: places) + placeBound h =
      potential h pending links places := by
  have hle := ht.places_le
  rw [List.length_cons] at hle
  have hleft : placeBound h - places.length = (placeBound h - (places.length + 1)) + 1 := by omega
  unfold potential
  rw [List.length_cons, hleft, Nat.succ_mul]
  omega

theorem length_children_lt (h : Host) (path : Path) :
    (children h path).length < placeBound h := by
  have hnames := h.length_names_le path
  unfold children placeBound
  rw [List.length_map, (Text.sorted_perm _).length_eq]
  have hshown := List.length_filter_le (fun n => decide (n.toList.head? ≠ some '.'))
    (h.names path)
  omega

theorem not_nothingAt_children {q : Path} (hq : q ∈ children h path) : ¬ h.NothingAt q := by
  obtain ⟨name, hname, rfl⟩ := List.mem_map.mp hq
  exact Host.not_nothingAt_child (List.mem_of_mem_filter (Text.mem_sorted.mp hname))

theorem length_matches_le (hnothing : h.NothingAt path) :
    (h.matchPattern path).length ≤ matchBound h := by
  obtain ⟨t, hfind, hne⟩ := hnothing
  have hshort : path.text.utf8ByteSize < Tree.pathLimit := by
    refine Host.short_of_goal (h := h) fun hlong => ?_
    rw [Tree.find, hlong] at hfind
    cases hfind
    exact hne rfl
  have hparts : path.parts.reverse.length ≤ Tree.pathLimit := by
    have hle := path.length_parts_le
    rw [List.length_reverse]
    omega
  have hplaces : h.tree.entries.size + 1 ≤ placeBound h := by
    unfold placeBound
    omega
  rw [Host.matchPattern, (List.mergeSort_perm _ _).length_eq]
  exact Nat.le_trans (h.length_matchParts_le _ _ _)
    (Nat.le_trans (Nat.pow_le_pow_left hplaces _)
      (Nat.pow_le_pow_right (Nat.lt_of_lt_of_le (Nat.succ_pos _) hplaces) hparts))

/-- **Every step makes the potential smaller**, and keeps track of what has been taken. -/
theorem Taken.potential_lt (hhome : Tree.normalize h.home = h.home)
    (ht : Tracked h e.links e.places) (htaken : Taken h root path e next) :
    Tracked h next.links next.places ∧
      potential h next.pending next.links next.places <
        weight h path + potential h e.pending e.links e.places := by
  have hpos := weight_pos h path
  cases htaken with
  | looped | missing | visited => exact ⟨ht, Nat.lt_add_of_pos_left hpos⟩
  | refused hlink hnew =>
    have htracked := ht.link hlink hnew
    have hstep := potential_link e.pending e.places htracked
    refine ⟨htracked, ?_⟩
    show potential h e.pending ((h.absolute path).text :: e.links) e.places < _
    omega
  | @followed target hlink hnew =>
    have htracked := ht.link hlink hnew
    have hstep := potential_link e.pending e.places htracked
    have htarget := weight_le h (path.parent.join (Path.ofString target))
    refine ⟨htracked, ?_⟩
    show potential h ([path.parent.join (Path.ofString target)] ++ e.pending)
      ((h.absolute path).text :: e.links) e.places < _
    rw [potential_push, List.map_singleton, List.sum_singleton]
    omega
  | matched hnothing hwildcard =>
    have hmatches := length_matches_le hnothing
    have hweight : weight h path = 1 + matchBound h := if_pos hnothing
    refine ⟨ht, ?_⟩
    show potential h (h.matchPattern path ++ e.pending) e.links e.places < _
    rw [potential_push, sum_weight fun q => Host.not_nothingAt_matchPattern hwildcard]
    omega
  | directory hentry hnew =>
    have htracked := ht.visit hhome hentry hnew
    have hstep := potential_place e.pending e.links htracked
    have hchildren := length_children_lt h path
    refine ⟨htracked, ?_⟩
    show potential h (children h path ++ e.pending) e.links (h.resolve path :: e.places) < _
    rw [potential_push, sum_weight fun q => not_nothingAt_children]
    omega
  | file hentry hnew | odd hentry hnew =>
    have htracked := ht.visit hhome hentry hnew
    have hstep := potential_place e.pending e.links htracked
    refine ⟨htracked, ?_⟩
    show potential h e.pending e.links (h.resolve path :: e.places) < _
    omega

/-! ### Whole runs -/

/-- Nothing is left to take, or the next path is refused for its length. -/
def Finished (h : Host) (outcome : Expansion × Option Fault) : Prop :=
  outcome.2 = none ∧ outcome.1.pending = [] ∨
    ∃ path rest, outcome.1.pending = path :: rest ∧ h.TooLongAt path ∧
      outcome.2 = some (.system .nameTooLong path.text)

/-- A run with more steps than its potential finishes, and does not change with more of them. -/
theorem run_finished {n : Nat} (hhome : Tree.normalize h.home = h.home)
    (ht : Tracked h e.links e.places) (hn : potential h e.pending e.links e.places < n) :
    Finished h (run h root n e) ∧ ∀ m, n ≤ m → run h root m e = run h root n e := by
  induction n generalizing e with
  | zero => exact absurd hn (Nat.not_lt_zero _)
  | succ n ih =>
    have hmore {m : Nat} (hle : n + 1 ≤ m) : ∃ k, m = k + 1 ∧ n ≤ k := by
      obtain ⟨k, rfl⟩ := Nat.exists_eq_add_of_le' hle
      exact ⟨k + n, rfl, Nat.le_add_left n k⟩
    cases hpending : e.pending with
    | nil =>
      have hdone (m : Nat) : run h root (m + 1) e = (e, none) := by
        rw [run, hpending]
      refine ⟨.inl (by rw [hdone]; exact ⟨rfl, hpending⟩), fun m hle => ?_⟩
      obtain ⟨k, rfl, -⟩ := hmore hle
      rw [hdone, hdone]
    | cons path rest =>
      cases htake : take h root path { e with pending := rest } with
      | ok next =>
        have hstep := run_taken hpending htake
        obtain ⟨htracked, hless⟩ :=
          (take_ok htake).potential_lt (e := { e with pending := rest }) hhome ht
        have hfirst := potential_push h [path] rest e.links e.places
        rw [List.map_singleton, List.sum_singleton, List.singleton_append, ← hpending] at hfirst
        obtain ⟨hfinished, hsame⟩ := ih htracked (by rw [← hfirst] at hless; omega)
        refine ⟨hstep n ▸ hfinished, fun m hle => ?_⟩
        obtain ⟨k, rfl, hk⟩ := hmore hle
        rw [hstep, hstep, hsame k hk]
      | error f =>
        have hrefused (m : Nat) : run h root (m + 1) e = (e, some f) := by
          rw [run, hpending]
          dsimp only
          rw [htake]
        obtain ⟨hlong, rfl⟩ := take_error htake
        refine ⟨.inr ⟨path, rest, ?_⟩, fun m hle => ?_⟩
        · rw [hrefused]
          exact ⟨hpending, hlong, rfl⟩
        · obtain ⟨k, rfl, -⟩ := hmore hle
          rw [hrefused, hrefused]

theorem tracked_start (h : Host) : Tracked h [] [] :=
  ⟨List.nodup_nil, fun _ hl => absurd hl List.not_mem_nil, List.nodup_nil,
    fun _ hp => absurd hp List.not_mem_nil⟩

/-- The bound on the steps is more than the inputs are worth. -/
theorem potential_lt_bound (h : Host) (inputs : List Path) :
    potential h inputs [] [] < bound h inputs := by
  have hsum : (inputs.map (weight h)).sum ≤ inputs.length * (1 + matchBound h) := by
    induction inputs with
    | nil => exact Nat.zero_le _
    | cons path rest ih =>
      rw [List.map_cons, List.sum_cons, List.length_cons, Nat.succ_mul, Nat.add_comm]
      exact Nat.add_le_add ih (weight_le h path)
  unfold potential bound
  rw [List.length_nil, List.length_nil, Nat.sub_zero, Nat.sub_zero, Nat.add_mul]
  omega

/-- **An expansion takes all that is pending, unless a path is refused for its length.** Whatever
links the tree has, and whatever inputs there are, the steps are enough: more of them change
nothing. -/
theorem ofInputs_ends (h : Host) (root : Path) (inputs : List Path)
    (hhome : Tree.normalize h.home = h.home) :
    let outcome := ofInputs h root inputs
    (outcome.2 = none ∧ outcome.1.pending = [] ∨
      ∃ path rest, outcome.1.pending = path :: rest ∧ h.TooLongAt path ∧
        outcome.2 = some (.system .nameTooLong path.text)) ∧
    ∀ steps, bound h inputs ≤ steps → run h root steps { pending := inputs } = outcome :=
  run_finished (e := { pending := inputs }) hhome (tracked_start h) (potential_lt_bound h inputs)

/-- Two links that lead to each other. -/
def mutualHost : Host where
  tree := ⟨Assoc.ofList [(["a"], .link "b"), (["b"], .link "a")]⟩

theorem ofInputs_ends_mutual :
    Tree.normalize mutualHost.home = mutualHost.home ∧
      Finished mutualHost (ofInputs mutualHost ⟨.root, []⟩ (["a", "b"].map Path.ofString)) := by
  have hhome : Tree.normalize mutualHost.home = mutualHost.home := rfl
  exact ⟨hhome, (ofInputs_ends mutualHost ⟨.root, []⟩ (["a", "b"].map Path.ofString) hhome).1⟩

/-! ### A loop that is refused -/

/-- A directory with a link to itself, by way of the directory. -/
def loopHost : Host where
  tree := ⟨Assoc.ofList [(["d"], .directory), (["d", "l"], .link "../d/l")]⟩

/-- The parts of the path of the link when it has been followed `n` times. -/
def loopParts : Nat → List String
  | 0 => ["d", "l"]
  | n + 1 => "d" :: ".." :: loopParts n

def loopPath (n : Nat) : Path := ⟨.relative, loopParts n⟩

/-- How often the link can be followed. -/
def loopRounds : Nat := 819

theorem loopParts_ne_nil (n : Nat) : loopParts n ≠ [] := by
  cases n <;> exact List.cons_ne_nil _ _

theorem size_loopParts (n : Nat) : ("/".intercalate (loopParts n)).utf8ByteSize = 5 * n + 3 := by
  have hsum : ((loopParts n).map fun p => p.utf8ByteSize + 1).sum = 5 * n + 4 := by
    induction n with
    | zero => rfl
    | succ n ih =>
      have hup : "..".utf8ByteSize = 2 := by decide
      have hdown : "d".utf8ByteSize = 1 := by decide
      rw [loopParts, List.map_cons, List.map_cons, List.sum_cons, List.sum_cons, ih, hup, hdown]
      omega
  have hsize := Path.size_parts (loopParts_ne_nil n)
  omega

theorem size_loopPath (n : Nat) : (loopPath n).text.utf8ByteSize = 5 * n + 3 := by
  have htext : (loopPath n).text = "" ++ "/".intercalate (loopParts n) :=
    if_neg fun hempty => loopParts_ne_nil n hempty.2
  rw [htext, String.utf8ByteSize_append, size_loopParts]
  exact Nat.zero_add _

theorem size_absolute_loopPath (n : Nat) :
    (loopHost.absolute (loopPath n)).text.utf8ByteSize = 5 * n + 4 := by
  have htext : (loopHost.absolute (loopPath n)).text = "/" ++ "/".intercalate (loopParts n) :=
    if_neg fun hempty => by cases hempty.1
  have hslash : "/".utf8ByteSize = 1 := by decide
  rw [htext, String.utf8ByteSize_append, size_loopParts, hslash]
  omega

/-- The next path is that of the link, by way of the directory. -/
theorem loopPath_succ (n : Nat) :
    (loopPath n).parent.join (Path.ofString "../d/l") = loopPath (n + 1) := by
  have htarget : Path.ofString "../d/l" = ⟨.relative, ["..", "d", "l"]⟩ := by decide
  have hparts : (loopParts n).dropLast ++ ["..", "d", "l"] = loopParts (n + 1) := by
    induction n with
    | zero => rfl
    | succ n ih =>
      rw [loopParts, List.dropLast_cons_of_ne_nil (List.cons_ne_nil _ _),
        List.dropLast_cons_of_ne_nil (loopParts_ne_nil n), List.cons_append, List.cons_append, ih]
      rfl
  rw [htarget]
  exact congrArg (Path.mk .relative) hparts

theorem walk_loopParts (n : Nat) :
    loopHost.tree.walk false Tree.linkLimit [] (loopParts n) =
      .ok (.found ["d", "l"] (.link "../d/l")) := by
  induction n with
  | zero => rfl
  | succ n ih =>
    have hdown : loopHost.tree.Goes [] "d" ["d"] := .down ⟨by decide, by decide, by decide⟩ rfl
    have hup : loopHost.tree.Goes ["d"] ".." [] := .up rfl
    rw [loopParts, Tree.walk_goes hdown, Tree.walk_goes hup, ih]

theorem linkAt_loopPath {n : Nat} (hn : n < loopRounds) :
    loopHost.LinkAt (loopPath n) "../d/l" := by
  refine ⟨["d", "l"], Tree.find_eq_ok_iff.mpr (Tree.goal_eq_ok_iff.mpr ⟨?_, ?_⟩)⟩
  · rw [loopRounds] at hn
    rw [size_loopPath, Tree.pathLimit]
    omega
  · exact Tree.reaches_of_walk (walk_loopParts n)

/-- The link leads nowhere outside the root of the tree. -/
theorem escapes_loopPath (n : Nat) :
    escapes loopHost ⟨.root, []⟩ (loopPath n) "../d/l" = false := by
  have hgoal : loopHost.tree.goal loopHost.home true ⟨.root, []⟩ = .ok (.found [] .directory) :=
    rfl
  have hroot : loopHost.resolve ⟨.root, []⟩ = [] := Tree.resolve_eq rfl hgoal
  have hrelative : "../d/l".toList.head? ≠ some '/' := by decide
  rw [escapes, if_neg hrelative, hroot]
  rfl

theorem run_loop {n steps : Nat} (hpending : e.pending = [loopPath n])
    (hlinks : ∀ link ∈ e.links, link.utf8ByteSize < 5 * n + 4) (hn : n ≤ loopRounds)
    (hsteps : loopRounds < n + steps) :
    ∃ e', run loopHost ⟨.root, []⟩ steps e =
      (e', some (.system .nameTooLong (loopPath loopRounds).text)) := by
  induction steps generalizing n e with
  | zero => omega
  | succ steps ih =>
    rw [run, hpending]
    dsimp only
    rw [take_eq]
    rcases Nat.lt_or_eq_of_le hn with hn | rfl
    · obtain ⟨place, hfind⟩ := linkAt_loopPath hn
      have hnew : (loopHost.absolute (loopPath n)).text ∉ e.links := fun hmem =>
        absurd (hlinks _ hmem) (by rw [size_absolute_loopPath]; exact Nat.lt_irrefl _)
      rw [hfind]
      dsimp only
      rw [takeLink]
      dsimp only
      rw [if_neg hnew, escapes_loopPath, if_neg Bool.false_ne_true, loopPath_succ]
      refine ih (n := n + 1) rfl (fun link hlink => ?_) hn (by omega)
      rcases List.mem_cons.mp hlink with rfl | hlink
      · rw [size_absolute_loopPath]
        omega
      · have hsize := hlinks link hlink
        omega
    · have hlong : loopHost.TooLongAt (loopPath loopRounds) := by
        have hsize : Tree.pathLimit ≤ (loopPath loopRounds).text.utf8ByteSize := by
          rw [size_loopPath]
          decide
        rw [Host.TooLongAt, Tree.find, Tree.goal_eq, if_pos hsize]
        rfl
      rw [Host.TooLongAt] at hlong
      rw [hlong]
      exact ⟨e, rfl⟩

/-- A link to itself, by way of the directory that it is in, is followed under longer and longer
paths until the last is refused. -/
theorem loop_is_refused :
    ∃ e, ofInputs loopHost ⟨.root, []⟩ (["d/l"].map Path.ofString) =
      (e, some (.system .nameTooLong (loopPath loopRounds).text)) := by
  have hinputs : ["d/l"].map Path.ofString = [loopPath 0] := by decide
  have hsame : ∀ m, bound loopHost [loopPath 0] ≤ m →
      run loopHost ⟨.root, []⟩ m { pending := [loopPath 0] } =
        ofInputs loopHost ⟨.root, []⟩ [loopPath 0] :=
    (run_finished (e := { pending := [loopPath 0] }) rfl (tracked_start loopHost)
      (potential_lt_bound loopHost [loopPath 0])).2
  have hrun : ∃ e, run loopHost ⟨.root, []⟩ (bound loopHost [loopPath 0] + 820)
      { pending := [loopPath 0] } = (e, some (.system .nameTooLong (loopPath loopRounds).text)) :=
    run_loop rfl (fun _ hlink => absurd hlink List.not_mem_nil) (Nat.zero_le _)
      (by rw [loopRounds]; omega)
  rw [hsame _ (Nat.le_add_right _ _)] at hrun
  exact hinputs ▸ hrun

end Expansion

end MailRules
