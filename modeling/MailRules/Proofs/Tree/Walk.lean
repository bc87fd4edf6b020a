import MailRules.Proofs.Assoc
import MailRules.Tree.Basic

/-! Where walks lead.

`Reaches` is a walk that succeeds, as a relation: it goes on from place to place (`Goes`) or jumps
along a link, until it halts at its last part. What leads to a directory are directories and links,
so the walk comes there in every tree that has them too (`Reaches.mono`). It halts in the last
directory on its way, where what holds all along the way holds too (`Reaches.halts`). A longer walk
goes on from there (`Reaches.walk_append`), which is why a walk that succeeds has come to a directory
before each of its parts (`Reaches.front`). -/
namespace MailRules

/-- Something that a walk can go through. -/
def Entry.isPassage : Entry → Bool
  | .directory | .link _ => true
  | .file _ | .pipe => false

def Entry.isDirectory : Entry → Bool
  | .directory => true
  | _ => false

def Entry.isLink : Entry → Bool
  | .link _ => true
  | _ => false

namespace Tree

/-- The place that a path leads to, whether something is there or not. -/
def Goal.location : Goal → Location
  | .found place _ => place
  | .vacant directory name => directory ++ [name]

variable {t t' : Tree} {follow : Bool} {links : Nat} {here place : Location} {name : String}
  {parts rest : List String} {goal : Goal}

@[simp] theorem at?_put (t : Tree) (place : Location) (name : String) (e : Entry) (q : Location) :
    (t.put (place ++ [name]) e).at? q = if q = place ++ [name] then some e else t.at? q := by
  by_cases hq : q = []
  · simp [at?, hq]
  · simp only [at?, hq, if_false]
    exact Assoc.get?_insert _ _ _ _

@[simp] theorem at?_remove (t : Tree) (place : Location) (name : String) (q : Location) :
    (t.remove (place ++ [name])).at? q = if q = place ++ [name] then none else t.at? q := by
  by_cases hq : q = []
  · simp [at?, hq]
  · simp only [at?, hq, if_false]
    exact Assoc.get?_erase _ _ _

/-! ### One part of a walk -/

/-- A name that is looked up. -/
structure IsName (name : String) : Prop where
  moves : isStay name = false
  ne_up : name ≠ ".."
  short : name.utf8ByteSize ≤ nameLimit

/-- A part that leads from a place to another, links apart. -/
inductive Goes (t : Tree) (here : Location) (name : String) : Location → Prop
  | stay : isStay name = true → Goes t here name here
  | up : name = ".." → Goes t here name here.dropLast
  | down : IsName name → t.at? (here ++ [name]) = some .directory → Goes t here name (here ++ [name])

theorem walk_nil : t.walk follow links here [] = .ok (.found here .directory) := by
  cases links <;> rfl

theorem walk_name (h : IsName name) :
    t.walk follow links here (name :: rest) = match t.at? (here ++ [name]) with
      | none =>
        if rest = [] then .ok (.vacant here name)
        else .error (if rest.all String.isEmpty then .isDirectory else .noEntry)
      | some (.link target) =>
        if rest = [] ∧ !follow then .ok (.found (here ++ [name]) (.link target))
        else match links with
          | 0 => .error .linkLoop
          | links + 1 => t.walk follow links (targetBase here target) (targetParts target ++ rest)
      | some .directory => t.walk follow links (here ++ [name]) rest
      | some e =>
        if rest = [] then .ok (.found (here ++ [name]) e)
        else .error (if rest.all String.isEmpty then .isDirectory else .notDirectory) := by
  cases links <;>
    rw [walk, walkWith, if_neg (by simp [h.moves]), if_neg h.ne_up, if_neg (Nat.not_lt.mpr h.short)]
  all_goals rfl

theorem walk_goes (h : Goes t here name place) :
    t.walk follow links here (name :: rest) = t.walk follow links place rest := by
  cases h with
  | stay h => cases links <;> rw [walk, walkWith, if_pos h]
  | up h =>
    subst h
    cases links <;> rfl
  | down hname hat => rw [walk_name hname, hat]

theorem walk_tooLong (hmoves : isStay name = false) (hup : name ≠ "..")
    (h : nameLimit < name.utf8ByteSize) :
    t.walk follow links here (name :: rest) = .error .nameTooLong := by
  cases links <;> rw [walk, walkWith, if_neg (by simp [hmoves]), if_neg hup, if_pos h]

/-! ### Walks that succeed -/

/-- The walk succeeds, with at most `links` links. -/
inductive Reaches (t : Tree) (follow : Bool) : (links : Nat) → Location → List String → Goal → Prop
  | done {links : Nat} {here : Location} : Reaches t follow links here [] (.found here .directory)
  | go {links : Nat} {here place : Location} {name : String} {rest : List String} {goal : Goal} :
      Goes t here name place → Reaches t follow links place rest goal →
      Reaches t follow links here (name :: rest) goal
  | jump {links : Nat} {here : Location} {name target : String} {rest : List String} {goal : Goal} :
      IsName name → t.at? (here ++ [name]) = some (.link target) → (rest ≠ [] ∨ follow = true) →
      Reaches t follow links (targetBase here target) (targetParts target ++ rest) goal →
      Reaches t follow (links + 1) here (name :: rest) goal
  | vacant {links : Nat} {here : Location} {name : String} :
      IsName name → t.at? (here ++ [name]) = none → Reaches t follow links here [name] (.vacant here name)
  | halt {links : Nat} {here : Location} {name : String} {e : Entry} :
      IsName name → t.at? (here ++ [name]) = some e → e ≠ .directory →
      ((∃ target, e = .link target) → follow = false) →
      Reaches t follow links here [name] (.found (here ++ [name]) e)

theorem Reaches.walk_eq (h : Reaches t follow links here parts goal) :
    t.walk follow links here parts = .ok goal := by
  induction h with
  | done => exact walk_nil
  | go hgoes _ ih => rw [walk_goes hgoes, ih]
  | jump hname hat hon _ ih =>
    rw [walk_name hname, hat]
    dsimp only
    rw [if_neg, ih]
    rintro ⟨rfl, hfollow⟩
    simp_all
  | vacant hname hat => rw [walk_name hname, hat, if_pos rfl]
  | halt hname hat hne hlink =>
    rw [walk_name hname, hat]
    split
    next h => cases h
    next target h =>
      cases h
      rw [if_pos ⟨rfl, by simp [hlink ⟨target, rfl⟩]⟩]
    next h => exact absurd (Option.some.inj h) hne
    next e' _ _ h =>
      cases h
      rw [if_pos rfl]

theorem reaches_of_walk (h : t.walk follow links here parts = .ok goal) :
    Reaches t follow links here parts goal := by
  induction links using Nat.strongRecOn generalizing here parts with
  | ind links ihLinks =>
    induction parts generalizing here with
    | nil =>
      rw [walk_nil] at h
      cases h
      exact .done
    | cons name rest ih =>
      by_cases hstay : isStay name = true
      · have hgoes : Goes t here name here := .stay hstay
        rw [walk_goes hgoes] at h
        exact .go hgoes (ih h)
      by_cases hup : name = ".."
      · have hgoes : Goes t here name here.dropLast := .up hup
        rw [walk_goes hgoes] at h
        exact .go hgoes (ih h)
      rw [Bool.not_eq_true] at hstay
      by_cases hshort : name.utf8ByteSize ≤ nameLimit
      · have hname : IsName name := ⟨hstay, hup, hshort⟩
        rw [walk_name hname] at h
        split at h
        next hat =>
          split at h
          next hrest =>
            cases h
            subst hrest
            exact .vacant hname hat
          next => cases h
        next target hat =>
          split at h
          next hstop =>
            obtain ⟨rfl, hfollow⟩ := hstop
            cases h
            exact .halt hname hat (by simp) fun _ => by simpa using hfollow
          next hon =>
            split at h
            next => cases h
            next links =>
              refine .jump hname hat ?_ (ihLinks links (Nat.lt_succ_self links) h)
              by_contra hneither
              exact hon (by simpa using hneither)
        next hat =>
          have hgoes : Goes t here name (here ++ [name]) := .down hname hat
          exact .go hgoes (ih h)
        next e hlink hdirectory hat =>
          split at h
          next hrest =>
            cases h
            subst hrest
            exact .halt hname hat hdirectory fun ⟨target, he⟩ => absurd he (hlink target)
          next => cases h
      · rw [walk_tooLong hstay hup (Nat.lt_of_not_le hshort)] at h
        cases h

theorem walk_eq_ok_iff :
    t.walk follow links here parts = .ok goal ↔ Reaches t follow links here parts goal :=
  ⟨reaches_of_walk, Reaches.walk_eq⟩

/-! ### Walks through other trees -/

/-- What a walk can go through in the first tree is in the second too. -/
def Within (t t' : Tree) : Prop :=
  ∀ place e, e.isPassage = true → t.at? place = some e → t'.at? place = some e

theorem Goes.mono (ht : t.Within t') (h : Goes t here name place) : Goes t' here name place := by
  cases h with
  | stay h => exact .stay h
  | up h => exact .up h
  | down hname hat => exact .down hname (ht _ _ rfl hat)

theorem Reaches.mono (ht : t.Within t') {directory : Location}
    (h : Reaches t follow links here parts (.found directory .directory)) :
    Reaches t' follow links here parts (.found directory .directory) := by
  generalize hgoal : Goal.found directory .directory = goal at h ⊢
  induction h with
  | done => exact .done
  | go hgoes _ ih => exact .go (hgoes.mono ht) (ih hgoal)
  | jump hname hat hon _ ih => exact .jump hname (ht _ _ rfl hat) hon (ih hgoal)
  | vacant => cases hgoal
  | halt _ _ hne =>
    cases hgoal
    exact absurd rfl hne

/-- A walk comes to the same end if that is the same in the second tree. -/
theorem Reaches.kept (ht : t.Within t') (hat : t'.at? goal.location = t.at? goal.location)
    (h : Reaches t follow links here parts goal) : Reaches t' follow links here parts goal := by
  induction h with
  | done => exact .done
  | go hgoes _ ih => exact .go (hgoes.mono ht) (ih hat)
  | jump hname hlink hon _ ih => exact .jump hname (ht _ _ rfl hlink) hon (ih hat)
  | vacant hname hnone => exact .vacant hname (hat.trans hnone)
  | halt hname hsome hne hlink => exact .halt hname (hat.trans hsome) hne hlink

/-- A walk to a vacant name comes to a directory as soon as one is made there. -/
theorem Reaches.filled {directory : Location} (ht : t.Within t')
    (hmade : t'.at? (directory ++ [name]) = some .directory)
    (h : Reaches t follow links here parts (.vacant directory name)) :
    Reaches t' true links here parts (.found (directory ++ [name]) .directory) := by
  generalize hgoal : Goal.vacant directory name = goal at h
  induction h with
  | done => cases hgoal
  | go hgoes _ ih => exact .go (hgoes.mono ht) (ih hgoal)
  | jump hname hat _ _ ih => exact .jump hname (ht _ _ rfl hat) (.inr rfl) (ih hgoal)
  | vacant hname =>
    cases hgoal
    exact .go (.down hname hmade) .done
  | halt => cases hgoal

/-! ### Where a walk ends -/

/-- Where this holds of the first place of a walk, it holds of every place on its way. -/
structure Along (t : Tree) (P : Location → Prop) : Prop where
  root : P []
  up {here : Location} : P here → P here.dropLast
  down {here : Location} {name : String} :
    P here → t.at? (here ++ [name]) = some .directory → P (here ++ [name])

/-- The end of a walk, from the last directory on its way: that directory, or a name in it. -/
inductive Halts (t : Tree) (last : Location) : Goal → Prop
  | there : Halts t last (.found last .directory)
  | vacant {name : String} : t.at? (last ++ [name]) = none → Halts t last (.vacant last name)
  | entry {name : String} {e : Entry} : t.at? (last ++ [name]) = some e → e ≠ .directory →
      Halts t last (.found (last ++ [name]) e)

theorem Along.goes {P : Location → Prop} (hP : Along t P) (hgoes : Goes t here name place)
    (hhere : P here) : P place := by
  cases hgoes with
  | stay => exact hhere
  | up => exact hP.up hhere
  | down _ hat => exact hP.down hhere hat

theorem Along.base {P : Location → Prop} (hP : Along t P) (target : String) (hhere : P here) :
    P (targetBase here target) := by
  unfold targetBase
  split
  · exact hP.root
  · exact hhere

theorem Reaches.halts {P : Location → Prop} (hP : Along t P)
    (h : Reaches t follow links here parts goal) (hhere : P here) :
    ∃ last, P last ∧ Halts t last goal := by
  induction h with
  | done => exact ⟨_, hhere, .there⟩
  | go hgoes _ ih => exact ih (hP.goes hgoes hhere)
  | jump _ _ _ _ ih => exact ih (hP.base _ hhere)
  | vacant _ hat => exact ⟨_, hhere, .vacant hat⟩
  | halt _ hat hne => exact ⟨_, hhere, .entry hat hne⟩

theorem along_true (t : Tree) : Along t fun _ => True := ⟨trivial, id, fun _ _ => trivial⟩

theorem Reaches.vacant_at {directory : Location}
    (h : Reaches t follow links here parts (.vacant directory name)) :
    t.at? (directory ++ [name]) = none := by
  obtain ⟨_, -, _ | hat | _⟩ := h.halts (along_true t) trivial
  exact hat

/-- What a walk finds, other than a directory, is at the place. -/
theorem Reaches.found_at {e : Entry} (h : Reaches t follow links here parts (.found place e))
    (hne : e ≠ .directory) : t.at? place = some e := by
  obtain ⟨_, -, _ | _ | ⟨hat, -⟩⟩ := h.halts (along_true t) trivial
  · exact absurd rfl hne
  · exact hat

/-! ### Longer walks -/

/-- After a walk to a directory, a longer walk goes on from there. -/
theorem Reaches.walk_append {directory : Location}
    (h : Reaches t true links here parts (.found directory .directory)) :
    ∃ left, ∀ follow rest, rest ≠ [] →
      t.walk follow links here (parts ++ rest) = t.walk follow left directory rest := by
  generalize hgoal : Goal.found directory .directory = goal at h
  induction h with
  | done =>
    cases hgoal
    exact ⟨_, fun _ _ _ => rfl⟩
  | go hgoes _ ih =>
    obtain ⟨left, hleft⟩ := ih hgoal
    refine ⟨left, fun follow rest hne => ?_⟩
    rw [List.cons_append, walk_goes hgoes, hleft follow rest hne]
  | jump hname hat _ _ ih =>
    obtain ⟨left, hleft⟩ := ih hgoal
    refine ⟨left, fun follow rest hne => ?_⟩
    rw [← hleft follow rest hne, List.cons_append, walk_name hname, hat]
    dsimp only
    rw [if_neg fun hstop => hne (List.append_eq_nil_iff.mp hstop.1).2, List.append_assoc]
  | vacant => cases hgoal
  | halt _ _ hne =>
    cases hgoal
    exact absurd rfl hne

/-- A walk that succeeds has come to a directory before its last parts. -/
theorem Reaches.front (h : Reaches t follow links here (parts ++ rest) goal) (hrest : rest ≠ []) :
    ∃ directory, Reaches t true links here parts (.found directory .directory) := by
  generalize hall : parts ++ rest = all at h
  induction h generalizing parts with
  | done => exact absurd (List.append_eq_nil_iff.mp hall).2 hrest
  | go hgoes _ ih =>
    cases parts with
    | nil => exact ⟨_, .done⟩
    | cons name parts =>
      obtain ⟨rfl, htail⟩ := List.cons.inj hall
      obtain ⟨directory, hfront⟩ := ih htail
      exact ⟨directory, .go hgoes hfront⟩
  | jump hname hat _ _ ih =>
    cases parts with
    | nil => exact ⟨_, .done⟩
    | cons name parts =>
      obtain ⟨rfl, rfl⟩ := List.cons.inj hall
      obtain ⟨directory, hfront⟩ := ih (List.append_assoc _ _ _)
      exact ⟨directory, .jump hname hat (.inr rfl) hfront⟩
  | vacant =>
    obtain ⟨rfl, -⟩ | ⟨-, hnil⟩ := List.append_eq_singleton_iff.mp hall
    · exact ⟨_, .done⟩
    · exact absurd hnil hrest
  | halt =>
    obtain ⟨rfl, -⟩ | ⟨-, hnil⟩ := List.append_eq_singleton_iff.mp hall
    · exact ⟨_, .done⟩
    · exact absurd hnil hrest

/-! ### Links at the end -/

/-- The walk stops at a link. -/
def StopsAtLink (outcome : Except Trouble Goal) : Prop :=
  ∃ place target, outcome = .ok (.found place (.link target))

theorem walkWith_follow {onLink onLink' : Location → List String → Except Trouble Goal}
    (hon : ∀ base parts, StopsAtLink (onLink base parts) ∨ onLink base parts = onLink' base parts) :
    StopsAtLink (t.walkWith false onLink here parts) ∨
      t.walkWith false onLink here parts = t.walkWith true onLink' here parts := by
  induction parts generalizing here with
  | nil => exact .inr rfl
  | cons name rest ih =>
    rw [walkWith, walkWith]
    split
    next => exact ih
    split
    next => exact ih
    split
    next => exact .inr rfl
    split
    next => exact .inr rfl
    next target _ =>
      by_cases hrest : rest = []
      · rw [if_pos ⟨hrest, rfl⟩]
        exact .inl ⟨_, _, rfl⟩
      · rw [if_neg fun h => hrest h.1, if_neg fun h => hrest h.1]
        exact hon _ _
    next => exact ih
    next => exact .inr rfl

/-- Whether the last link is followed matters only if there is one. -/
theorem walk_follow :
    StopsAtLink (t.walk false links here parts) ∨
      t.walk false links here parts = t.walk true links here parts := by
  induction links generalizing here parts with
  | zero => exact walkWith_follow fun _ _ => .inr rfl
  | succ links ih => exact walkWith_follow fun _ _ => ih

end Tree

end MailRules
