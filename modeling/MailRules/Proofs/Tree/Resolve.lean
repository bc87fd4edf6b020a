import MailRules.Proofs.Assoc
import MailRules.Proofs.Tree.Host

/-! Resolving a path that leads somewhere.

`Arrives` is a walk that follows every link, whether what it goes through exists or not, with the
number of links on it; one start has one end and one number (`Arrives.unique`). A resolution
remembers what its links lead to, and gives up at a link whose target it is still on. On a walk
that ends there is no such link, since the walk from the link would be longer than itself; so the
resolution comes to the place where the walk does (`resolve_eq`). Whether it ends so or gives up, a
longer path goes on from there (`goesOn`). -/
namespace MailRules.Tree

variable {t : Tree} {home here place mid : Location} {name target : String}
  {parts rest : List String} {n m : Nat} {p : Path}

/-- The walk comes to the place, with that many links followed. -/
inductive Arrives (t : Tree) : Location → List String → Location → Nat → Prop
  | here {here : Location} : Arrives t here [] here 0
  | stay {here place : Location} {name : String} {rest : List String} {n : Nat} :
      isStay name = true → Arrives t here rest place n → Arrives t here (name :: rest) place n
  | up {here place : Location} {rest : List String} {n : Nat} :
      Arrives t here.dropLast rest place n → Arrives t here (".." :: rest) place n
  | plain {here place : Location} {name : String} {rest : List String} {n : Nat} :
      isStay name = false → name ≠ ".." →
      (∀ target, t.at? (here ++ [name]) ≠ some (.link target)) →
      Arrives t (here ++ [name]) rest place n → Arrives t here (name :: rest) place n
  | link {here mid place : Location} {name target : String} {rest : List String} {n m : Nat} :
      isStay name = false → name ≠ ".." → t.at? (here ++ [name]) = some (.link target) →
      Arrives t (targetBase here target) (targetParts target) mid n →
      Arrives t mid rest place m → Arrives t here (name :: rest) place (n + m + 1)

namespace Arrives

theorem unique {place' : Location} {n' : Nat} (h : Arrives t here parts place n)
    (h' : Arrives t here parts place' n') : place' = place ∧ n' = n := by
  induction h generalizing place' n' with
  | here =>
    cases h'
    exact ⟨rfl, rfl⟩
  | stay hstay _ ih =>
    cases h' with
    | stay _ h' => exact ih h'
    | up => exact absurd hstay (by decide)
    | plain hmoves => simp [hstay] at hmoves
    | link hmoves => simp [hstay] at hmoves
  | up _ ih =>
    cases h' with
    | stay hstay => exact absurd hstay (by decide)
    | up h' => exact ih h'
    | plain _ hup => exact absurd rfl hup
    | link _ hup => exact absurd rfl hup
  | plain hmoves hup hplain _ ih =>
    cases h' with
    | stay hstay => simp [hmoves] at hstay
    | up => exact absurd rfl hup
    | plain _ _ _ h' => exact ih h'
    | link _ _ hat => exact absurd hat (hplain _)
  | link hmoves hup hat _ _ ihTarget ihRest =>
    cases h' with
    | stay hstay => simp [hmoves] at hstay
    | up => exact absurd rfl hup
    | plain _ _ hplain => exact absurd hat (hplain _)
    | link _ _ hat' htarget hrest =>
      rw [hat] at hat'
      cases hat'
      obtain ⟨rfl, rfl⟩ := ihTarget htarget
      obtain ⟨rfl, rfl⟩ := ihRest hrest
      exact ⟨rfl, rfl⟩

/-- A walk breaks at each of its parts. -/
theorem of_append (h : Arrives t here (parts ++ rest) place n) :
    ∃ mid a b, Arrives t here parts mid a ∧ Arrives t mid rest place b ∧ n = a + b := by
  induction parts generalizing here n with
  | nil => exact ⟨here, 0, n, .here, h, (Nat.zero_add n).symm⟩
  | cons name parts ih =>
    cases h with
    | stay hstay h =>
      obtain ⟨mid, a, b, hparts, hrest, rfl⟩ := ih h
      exact ⟨mid, a, b, .stay hstay hparts, hrest, rfl⟩
    | up h =>
      obtain ⟨mid, a, b, hparts, hrest, rfl⟩ := ih h
      exact ⟨mid, a, b, .up hparts, hrest, rfl⟩
    | plain hmoves hup hplain h =>
      obtain ⟨mid, a, b, hparts, hrest, rfl⟩ := ih h
      exact ⟨mid, a, b, .plain hmoves hup hplain hparts, hrest, rfl⟩
    | link hmoves hup hat htarget h =>
      obtain ⟨mid, a, b, hparts, hrest, rfl⟩ := ih h
      exact ⟨mid, _, b, .link hmoves hup hat htarget hparts, hrest, by omega⟩

/-- A walk can go on where another has come to. -/
theorem append (h : Arrives t here parts mid n) (h' : Arrives t mid rest place m) :
    Arrives t here (parts ++ rest) place (n + m) := by
  induction h with
  | here => exact (Nat.zero_add m).symm ▸ h'
  | stay hstay _ ih => exact .stay hstay (ih h')
  | up _ ih => exact .up (ih h')
  | plain hmoves hup hplain _ ih => exact .plain hmoves hup hplain (ih h')
  | @link _ _ _ _ _ _ a b hmoves hup hat htarget _ _ ih =>
    have hcount : a + b + 1 + m = a + (b + m) + 1 := by omega
    rw [hcount]
    exact .link hmoves hup hat htarget (ih h')

end Arrives

/-- A walk that succeeds arrives, with no more links than it may follow. -/
theorem Reaches.arrives {links : Nat} {goal : Goal} (h : Reaches t true links here parts goal) :
    ∃ n ≤ links, Arrives t here parts goal.location n := by
  induction h with
  | done => exact ⟨0, Nat.zero_le _, .here⟩
  | go hgoes _ ih =>
    obtain ⟨n, hn, harrives⟩ := ih
    refine ⟨n, hn, ?_⟩
    cases hgoes with
    | stay hstay => exact .stay hstay harrives
    | up hup => exact hup ▸ .up harrives
    | down hname hat => exact .plain hname.moves hname.ne_up (by simp [hat]) harrives
  | jump hname hat _ _ ih =>
    obtain ⟨n, hn, harrives⟩ := ih
    obtain ⟨mid, a, b, htarget, hrest, rfl⟩ := harrives.of_append
    exact ⟨a + b + 1, Nat.succ_le_succ hn, .link hname.moves hname.ne_up hat htarget hrest⟩
  | vacant hname hat =>
    exact ⟨0, Nat.zero_le _, .plain hname.moves hname.ne_up (by simp [hat]) .here⟩
  | halt hname hat _ hlink =>
    refine ⟨0, Nat.zero_le _, .plain hname.moves hname.ne_up (fun target htarget => ?_) .here⟩
    rw [hat, Option.some.injEq] at htarget
    exact absurd (hlink ⟨target, htarget⟩) (by decide)

/-! ### Places of paths without links -/

/-- The path as a resolution keeps it: it has no part that stays where it is. -/
def Tidy (p : Path) : Prop := ∀ part ∈ p.parts, isStay part = false

theorem normalize_concat (names : List String) (name : String) :
    normalize (names ++ [name]) =
      if isStay name then normalize names
      else if name = ".." then (normalize names).dropLast
      else normalize names ++ [name] := by
  rw [normalize, List.foldl_append]
  rfl

theorem locate_child (home : Location) (p : Path) (name : String) :
    locate home (p.child name) =
      if isStay name then locate home p
      else if name = ".." then (locate home p).dropLast
      else locate home p ++ [name] := by
  have habsolute : (p.child name).isAbsolute = p.isAbsolute := rfl
  rw [locate, locate, habsolute]
  split
  · exact normalize_concat _ _
  · show normalize (home ++ (p.parts ++ [name])) = _
    rw [← List.append_assoc]
    exact normalize_concat _ _

theorem Tidy.child (hp : Tidy p) (hmoves : isStay name = false) : Tidy (p.child name) := by
  intro part hpart
  rcases List.mem_append.mp hpart with hpart | hpart
  · exact hp part hpart
  · rw [List.mem_singleton.mp hpart]
    exact hmoves

theorem locate_name (hmoves : isStay name = false) (hup : name ≠ "..") :
    locate home (p.child name) = locate home p ++ [name] := by
  rw [locate_child, if_neg (by simp [hmoves]), if_neg hup]

theorem Tidy.above (hp : Tidy p) : Tidy (above p) := by
  unfold Tree.above
  split
  next =>
    split
    · exact hp
    · exact hp.child (by decide)
  next =>
    split
    · exact hp.child (by decide)
    · exact fun part hpart => hp part (List.dropLast_subset _ hpart)

theorem locate_above (hp : Tidy p) : locate home (above p) = (locate home p).dropLast := by
  have hup : locate home (p.child "..") = (locate home p).dropLast := by
    rw [locate_child, if_neg (by decide), if_pos rfl]
  unfold Tree.above
  split
  next hlast =>
    split
    next habsolute =>
      rw [List.getLast?_eq_none_iff] at hlast
      rw [locate, if_pos habsolute, hlast]
      rfl
    next => exact hup
  next name hlast =>
    split
    next => exact hup
    next hname =>
      obtain ⟨before, hparts⟩ := List.getLast?_eq_some_iff.mp hlast
      have hself : p = p.parent.child name := by
        rw [Path.child, Path.parent, hparts, List.dropLast_concat, ← hparts]
      have hmoves : isStay name = false := hp name (List.mem_of_getLast? hlast)
      rw [hself, locate_name hmoves hname, List.dropLast_concat, ← hself]

/-! ### Steps of a resolution -/

section Steps

variable {fuel : Nat} {known : Assoc Path (Option Path)} {here : Path} {legs : List Leg}

theorem resolveLegs_nil : t.resolveLegs home fuel known here [] = here := by
  cases fuel <;> rfl

theorem resolveLegs_reached {link : Path} :
    t.resolveLegs home fuel known here (.reached link :: legs) =
      t.resolveLegs home fuel (known.insert link (some here)) here legs := by
  cases fuel <;> rw [resolveLegs, resolveWith]

theorem resolveLegs_stay (hstay : isStay name = true) :
    t.resolveLegs home fuel known here (.down name :: legs) =
      t.resolveLegs home fuel known here legs := by
  cases fuel <;> rw [resolveLegs, resolveWith, if_pos hstay]

theorem resolveLegs_up :
    t.resolveLegs home fuel known here (.down ".." :: legs) =
      t.resolveLegs home fuel known (above here) legs := by
  cases fuel <;> rfl

theorem resolveLegs_plain (hmoves : isStay name = false) (hup : name ≠ "..")
    (hplain : ∀ target, t.at? (locate home (here.child name)) ≠ some (.link target)) :
    t.resolveLegs home fuel known here (.down name :: legs) =
      t.resolveLegs home fuel known (here.child name) legs := by
  cases fuel <;>
  · rw [resolveLegs, resolveWith, if_neg (by simp [hmoves]), if_neg hup]
    dsimp only
    split
    next target hat => exact absurd hat (hplain target)
    next => rfl

theorem resolveLegs_known {resolved : Path} (hmoves : isStay name = false) (hup : name ≠ "..")
    (hat : t.at? (locate home (here.child name)) = some (.link target))
    (hknown : known.get? (here.child name) = some (some resolved)) :
    t.resolveLegs home fuel known here (.down name :: legs) =
      t.resolveLegs home fuel known resolved legs := by
  cases fuel <;>
  · rw [resolveLegs, resolveWith, if_neg (by simp [hmoves]), if_neg hup]
    dsimp only
    rw [hat]
    dsimp only
    rw [hknown]

/-- Where the resolution of a link's target starts. -/
def targetStart (here : Path) (target : String) : Path :=
  if target.toList.head? = some '/' then ⟨.root, []⟩ else here

theorem resolveLegs_new (hmoves : isStay name = false) (hup : name ≠ "..")
    (hat : t.at? (locate home (here.child name)) = some (.link target))
    (hnew : known.get? (here.child name) = none) :
    t.resolveLegs home (fuel + 1) known here (.down name :: legs) =
      t.resolveLegs home fuel (known.insert (here.child name) none) (targetStart here target)
        ((targetParts target).map .down ++ .reached (here.child name) :: legs) := by
  rw [resolveLegs, resolveWith, if_neg (by simp [hmoves]), if_neg hup]
  dsimp only
  rw [hat]
  dsimp only
  rw [hnew]
  rfl

/-- At a link whose target the resolution is still on, what is left is kept as it is. -/
theorem resolveLegs_loop (hmoves : isStay name = false) (hup : name ≠ "..")
    (hat : t.at? (locate home (here.child name)) = some (.link target))
    (hon : known.get? (here.child name) = some none) :
    t.resolveLegs home fuel known here (.down name :: legs) =
      (here.child name).join ⟨.relative, legs.filterMap Leg.name?⟩ := by
  cases fuel <;>
  · rw [resolveLegs, resolveWith, if_neg (by simp [hmoves]), if_neg hup]
    dsimp only
    rw [hat]
    dsimp only
    rw [hon]

theorem names_down (names : List String) (legs : List Leg) :
    (names.map Leg.down ++ legs).filterMap Leg.name? = names ++ legs.filterMap Leg.name? := by
  rw [List.filterMap_append, List.filterMap_map]
  exact congrArg (· ++ _) List.filterMap_some

/-- At a new link when no more are followed, so is its target with what is left. -/
theorem resolveLegs_spent (hmoves : isStay name = false) (hup : name ≠ "..")
    (hat : t.at? (locate home (here.child name)) = some (.link target))
    (hnew : known.get? (here.child name) = none) :
    t.resolveLegs home 0 known here (.down name :: legs) =
      (targetStart here target).join
        ⟨.relative, targetParts target ++ legs.filterMap Leg.name?⟩ := by
  rw [resolveLegs, resolveWith, if_neg (by simp [hmoves]), if_neg hup]
  dsimp only
  rw [hat]
  dsimp only
  rw [hnew]
  dsimp only
  rw [names_down]
  rfl

theorem Tidy.targetStart (h : Tidy here) : Tidy (targetStart here target) := by
  unfold Tree.targetStart
  split
  · exact fun part hpart => absurd hpart List.not_mem_nil
  · exact h

theorem locate_targetStart :
    locate home (targetStart here target) = targetBase (locate home here) target := by
  unfold targetStart targetBase
  split <;> rfl

/-! ### Resolutions that go on -/

/-- More legs are gone from where the first ones lead, or are all kept as they are. -/
def GoesOn (t : Tree) (home : Location) (fuel : Nat) (known : Assoc Path (Option Path)) (here : Path)
    (legs : List Leg) : Prop :=
  (∃ fuel' known', ∀ more, t.resolveLegs home fuel known here (legs ++ more) =
    t.resolveLegs home fuel' known' (t.resolveLegs home fuel known here legs) more) ∨
  ∀ more, t.resolveLegs home fuel known here (legs ++ more) =
    (t.resolveLegs home fuel known here legs).join ⟨.relative, more.filterMap Leg.name?⟩

theorem GoesOn.step {fuel' : Nat} {known' : Assoc Path (Option Path)} {next : Path}
    {legs' : List Leg} (h : GoesOn t home fuel' known' next legs')
    (hstep : ∀ more, t.resolveLegs home fuel known here (legs ++ more) =
      t.resolveLegs home fuel' known' next (legs' ++ more)) :
    GoesOn t home fuel known here legs := by
  have hsame : t.resolveLegs home fuel known here legs =
      t.resolveLegs home fuel' known' next legs' := by
    simpa using hstep []
  simp only [GoesOn, hsame, hstep]
  exact h

theorem goesOn_kept (base : Path) (names : List String)
    (h : ∀ more, t.resolveLegs home fuel known here (legs ++ more) =
      base.join ⟨.relative, names ++ more.filterMap Leg.name?⟩) :
    GoesOn t home fuel known here legs := by
  have hself : t.resolveLegs home fuel known here legs = base.join ⟨.relative, names⟩ := by
    simpa using h []
  refine .inr fun more => ?_
  rw [h, hself]
  exact congrArg (Path.mk base.anchor) (List.append_assoc _ _ _).symm

theorem goesOn (t : Tree) (home : Location) (fuel : Nat) (known : Assoc Path (Option Path))
    (here : Path) (legs : List Leg) : GoesOn t home fuel known here legs := by
  induction fuel using Nat.strongRecOn generalizing known here legs with
  | ind fuel ihFuel =>
    induction legs generalizing known here with
    | nil =>
      refine .inl ⟨fuel, known, fun more => ?_⟩
      rw [resolveLegs_nil, List.nil_append]
    | cons leg rest ih =>
      cases leg with
      | reached link => exact (ih _ _).step fun _ => resolveLegs_reached
      | down name =>
        by_cases hstay : isStay name = true
        · exact (ih _ _).step fun _ => resolveLegs_stay hstay
        rw [Bool.not_eq_true] at hstay
        by_cases hup : name = ".."
        · subst hup
          exact (ih _ _).step fun _ => resolveLegs_up
        by_cases hlink : ∃ target, t.at? (locate home (here.child name)) = some (.link target)
        · obtain ⟨target, hat⟩ := hlink
          cases hget : known.get? (here.child name) with
          | none =>
            cases fuel with
            | zero =>
              refine goesOn_kept (targetStart here target)
                (targetParts target ++ rest.filterMap Leg.name?) fun more => ?_
              rw [List.cons_append, resolveLegs_spent hstay hup hat hget, List.filterMap_append,
                List.append_assoc]
            | succ fuel =>
              have htarget := ihFuel fuel (Nat.lt_succ_self fuel)
                (known.insert (here.child name) none) (targetStart here target)
                ((targetParts target).map Leg.down ++ .reached (here.child name) :: rest)
              refine htarget.step fun more => ?_
              rw [List.cons_append, resolveLegs_new hstay hup hat hget, List.append_assoc,
                List.cons_append]
          | some state =>
            cases state with
            | none =>
              refine goesOn_kept (here.child name) (rest.filterMap Leg.name?) fun more => ?_
              rw [List.cons_append, resolveLegs_loop hstay hup hat hget, List.filterMap_append]
            | some resolved =>
              exact (ih _ _).step fun _ => resolveLegs_known hstay hup hat hget
        · exact (ih _ _).step fun _ => resolveLegs_plain hstay hup (not_exists.mp hlink)

end Steps

/-! ### A whole resolution -/

/-- The path is that of a link, and the walk to its target comes to the place. -/
def Leads (t : Tree) (home : Location) (link : Path) (place : Location) (n : Nat) : Prop :=
  ∃ target, t.at? (locate home link) = some (.link target) ∧
    Arrives t (targetBase (locate home link).dropLast target) (targetParts target) place n

section Whole

variable {known known' : Assoc Path (Option Path)} {link resolved : Path} {fuel : Nat} {here : Path}

theorem Leads.unique {place' : Location} (h : Leads t home link place n)
    (h' : Leads t home link place' m) : place' = place ∧ m = n := by
  obtain ⟨target, hat, harrives⟩ := h
  obtain ⟨target', hat', harrives'⟩ := h'
  rw [hat] at hat'
  cases hat'
  exact harrives.unique harrives'

/-- The target of a link in the directory that the resolution has come to. -/
theorem leads_child (hmoves : isStay name = false) (hup : name ≠ "..")
    (hat : t.at? (locate home here ++ [name]) = some (.link target))
    (h : Arrives t (targetBase (locate home here) target) (targetParts target) mid n) :
    Leads t home (here.child name) mid n := by
  have hplace : locate home (here.child name) = locate home here ++ [name] :=
    locate_name hmoves hup
  refine ⟨target, hplace ▸ hat, ?_⟩
  rw [hplace, List.dropLast_concat]
  exact h

/-- What a resolution knows its links to lead to is right. -/
def Right (t : Tree) (home : Location) (known : Assoc Path (Option Path)) : Prop :=
  ∀ link resolved, known.get? link = some (some resolved) →
    Tidy resolved ∧ ∃ n, Leads t home link (locate home resolved) n

/-- From each link whose target the resolution is still on, the walk is at least so long. -/
def Ahead (t : Tree) (home : Location) (known : Assoc Path (Option Path)) (n : Nat) : Prop :=
  ∀ link, known.get? link = some none → ∃ place m, Leads t home link place m ∧ n ≤ m

/-- The resolution is on no more targets than before. -/
def Settles (known known' : Assoc Path (Option Path)) : Prop :=
  ∀ link, known'.get? link = some none → known.get? link = some none

theorem Ahead.mono (h : Ahead t home known n) (hle : m ≤ n) (hsettles : Settles known known') :
    Ahead t home known' m := by
  intro link hon
  obtain ⟨place, k, hleads, hk⟩ := h link (hsettles link hon)
  exact ⟨place, k, hleads, Nat.le_trans hle hk⟩

theorem Right.enter (h : Right t home known) : Right t home (known.insert link none) := by
  intro other resolved hget
  rw [Assoc.get?_insert] at hget
  split at hget
  · cases hget
  · exact h other resolved hget

theorem Ahead.enter (h : Ahead t home known n) (hle : m ≤ n) (hleads : Leads t home link mid m) :
    Ahead t home (known.insert link none) m := by
  intro other hon
  rw [Assoc.get?_insert] at hon
  split at hon
  next heq => exact ⟨mid, m, heq ▸ hleads, Nat.le_refl m⟩
  next => exact h.mono hle (fun _ => id) other hon

theorem Right.leave (h : Right t home known) (hresolved : Tidy resolved)
    (hleads : Leads t home link (locate home resolved) m) :
    Right t home (known.insert link (some resolved)) := by
  intro other resolved' hget
  rw [Assoc.get?_insert] at hget
  split at hget
  next heq =>
    cases hget
    exact ⟨hresolved, m, heq ▸ hleads⟩
  next => exact h other resolved' hget

theorem Settles.leave (h : Settles (known.insert link none) known') :
    Settles known (known'.insert link (some resolved)) := by
  intro other hon
  rw [Assoc.get?_insert] at hon
  split at hon
  · cases hon
  next hne =>
    have hbefore := h other hon
    rwa [Assoc.get?_insert, if_neg hne] at hbefore

/-- The resolution of some parts goes through, to a path of the place, with at most `n` new links;
then it goes on with the legs that are left. -/
structure Through (t : Tree) (home : Location) (fuel : Nat) (known : Assoc Path (Option Path))
    (here : Path) (parts : List String) (place : Location) (n : Nat)
    (fuel' : Nat) (known' : Assoc Path (Option Path)) (there : Path) : Prop where
  left : fuel ≤ fuel' + n
  right : Right t home known'
  settles : Settles known known'
  tidy : Tidy there
  place : locate home there = place
  legs : ∀ legs, t.resolveLegs home fuel known here (parts.map .down ++ legs) =
    t.resolveLegs home fuel' known' there legs

/-- One step takes the first part. -/
theorem Through.cons {next there : Path} {rest : List String} {fuel' : Nat}
    (h : Through t home fuel known next rest place n fuel' known' there)
    (hstep : ∀ legs, t.resolveLegs home fuel known here (.down name :: legs) =
      t.resolveLegs home fuel known next legs) :
    Through t home fuel known here (name :: rest) place n fuel' known' there :=
  { h with legs := fun legs => (hstep _).trans (h.legs legs) }

theorem Through.mono {there : Path} {parts : List String} {fuel' : Nat}
    (h : Through t home fuel known here parts place n fuel' known' there) (hle : n ≤ m) :
    Through t home fuel known here parts place m fuel' known' there :=
  { h with left := Nat.le_trans h.left (Nat.add_le_add_left hle fuel') }

/-- The first part is a new link; its target is gone through, and then what is after the link. -/
theorem Through.cons_link {there : Path} {rest : List String} {known₁ known₂ : Assoc Path (Option Path)}
    {fuel₁ fuel₂ a b : Nat} (hmoves : isStay name = false) (hup : name ≠ "..")
    (hat : t.at? (locate home (here.child name)) = some (.link target))
    (hnew : known.get? (here.child name) = none)
    (htarget : Through t home fuel (known.insert (here.child name) none) (targetStart here target)
      (targetParts target) mid a fuel₁ known₁ resolved)
    (hrest : Through t home fuel₁ (known₁.insert (here.child name) (some resolved)) resolved rest
      place b fuel₂ known₂ there) :
    Through t home (fuel + 1) known here (name :: rest) place (a + b + 1) fuel₂ known₂ there where
  left := by
    have hleft := htarget.left
    have hleft' := hrest.left
    omega
  right := hrest.right
  settles link hon := htarget.settles.leave link (hrest.settles link hon)
  tidy := hrest.tidy
  place := hrest.place
  legs legs := by
    rw [List.map_cons, List.cons_append, resolveLegs_new hmoves hup hat hnew, htarget.legs,
      resolveLegs_reached, hrest.legs]

theorem Arrives.resolves {start : Location} (h : Arrives t start parts place n)
    (hstart : locate home here = start) (htidy : Tidy here) (hright : Right t home known)
    (hahead : Ahead t home known n) (hfuel : n ≤ fuel) :
    ∃ fuel' known' there,
      Through t home fuel known here parts place n fuel' known' there := by
  induction h generalizing fuel known here with
  | here =>
    exact ⟨fuel, known, here, Nat.le_refl _, hright, fun _ => id, htidy, hstart, fun _ => rfl⟩
  | stay hstay _ ih =>
    obtain ⟨fuel', known', there, h⟩ := ih hstart htidy hright hahead hfuel
    exact ⟨fuel', known', there, h.cons fun _ => resolveLegs_stay hstay⟩
  | up _ ih =>
    have habove := (locate_above htidy).trans (congrArg List.dropLast hstart)
    obtain ⟨fuel', known', there, h⟩ := ih habove htidy.above hright hahead hfuel
    exact ⟨fuel', known', there, h.cons fun _ => resolveLegs_up⟩
  | @plain start place name rest n hmoves hup hplain _ ih =>
    subst hstart
    have hchild : locate home (here.child name) = locate home here ++ [name] :=
      locate_name hmoves hup
    obtain ⟨fuel', known', there, h⟩ := ih hchild (htidy.child hmoves) hright hahead hfuel
    exact ⟨fuel', known', there,
      h.cons fun _ => resolveLegs_plain hmoves hup (hchild ▸ hplain)⟩
  | @link start mid place name target rest a b hmoves hup hat htarget _ ihTarget ihRest =>
    subst hstart
    have hchild : locate home (here.child name) = locate home here ++ [name] :=
      locate_name hmoves hup
    have hleads := leads_child hmoves hup hat htarget
    rw [← hchild] at hat
    cases hget : known.get? (here.child name) with
    | none =>
      obtain ⟨fuel, rfl⟩ := Nat.exists_eq_add_of_le' (Nat.le_trans (Nat.succ_pos _) hfuel)
      obtain ⟨fuel₁, known₁, resolved, h₁⟩ :=
        ihTarget locate_targetStart htidy.targetStart hright.enter
          (hahead.enter (by omega : a ≤ a + b + 1) hleads)
          (Nat.le_trans (Nat.le_add_right a b) (Nat.le_of_succ_le_succ hfuel))
      rw [← h₁.place] at hleads
      have hleft := h₁.left
      have hrest : b ≤ fuel₁ := by omega
      obtain ⟨fuel₂, known₂, there, h₂⟩ :=
        ihRest h₁.place h₁.tidy (h₁.right.leave h₁.tidy hleads)
          (hahead.mono (by omega : b ≤ a + b + 1) h₁.settles.leave) hrest
      exact ⟨fuel₂, known₂, there, .cons_link hmoves hup hat hget h₁ h₂⟩
    | some state =>
      cases state with
      | none =>
        -- the link is met on the way to its own target
        obtain ⟨place', m, hleads', hm⟩ := hahead _ hget
        obtain ⟨-, rfl⟩ := hleads.unique hleads'
        omega
      | some resolved =>
        obtain ⟨hresolved, m, hleads'⟩ := hright _ _ hget
        obtain ⟨hplace, -⟩ := hleads.unique hleads'
        have hrest : b ≤ a + b + 1 := by omega
        obtain ⟨fuel', known', there, h⟩ :=
          ihRest hplace hresolved hright (hahead.mono hrest fun _ => id) (Nat.le_trans hrest hfuel)
        exact ⟨fuel', known', there,
          (h.cons fun _ => resolveLegs_known hmoves hup hat hget).mono hrest⟩

end Whole

theorem Reaches.resolve {goal : Goal} (hhome : normalize home = home)
    (h : Reaches t true linkLimit (start home p) p.parts goal) :
    t.resolve home p = goal.location := by
  obtain ⟨n, hn, harrives⟩ := h.arrives
  have hstart : locate home ⟨if p.isAbsolute then .root else .relative, []⟩ = start home p := by
    unfold start
    split
    · rfl
    · exact (congrArg normalize (List.append_nil home)).trans hhome
  have hempty : Tidy ⟨if p.isAbsolute then .root else .relative, []⟩ :=
    fun _ hpart => absurd hpart List.not_mem_nil
  have hnone {state : Option Path} (link : Path) :
      (∅ : Assoc Path (Option Path)).get? link ≠ some state := by
    rw [Assoc.get?_empty]
    exact Option.some_ne_none state |>.symm
  have hbound : n ≤ linkLimit + t.entries.size * (home.length + 2) :=
    Nat.le_trans hn (Nat.le_add_right _ _)
  obtain ⟨fuel, known, there, hthrough⟩ := harrives.resolves hstart hempty
    (fun link _ hget => absurd hget (hnone link)) (fun link hget => absurd hget (hnone link)) hbound
  have hlegs := hthrough.legs []
  rw [List.append_nil, resolveLegs_nil] at hlegs
  rw [Tree.resolve, hlegs]
  exact hthrough.place

/-- **A path that leads somewhere is resolved to the place that it leads to.** -/
theorem resolve_eq {goal : Goal} (hhome : normalize home = home)
    (h : t.goal home true p = .ok goal) : t.resolve home p = goal.location :=
  (goal_eq_ok_iff.mp h).2.resolve hhome

end MailRules.Tree
