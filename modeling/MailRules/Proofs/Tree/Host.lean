import MailRules.Proofs.Path
import MailRules.Proofs.Tree.Walk
import MailRules.Tree.Host

/-! Directories and what is in them.

A path with one more name leads to that name in the directory that the path leads to
(`goal_child`). Making a directory with its parents makes directories and nothing else, on the way
to the path (`Made`). Where a part of the path goes up from a directory that has to be made first,
the path may come to an old directory through the new one; where none does (`Climbable`), a
directory that is made is empty (`made_makePath`). -/
namespace MailRules

namespace Tree

variable {t t' : Tree} {home directory place : Location} {follow : Bool} {p q : Path}
  {name : String} {goal : Goal}

/-- Where the walk of a path starts. -/
def start (home : Location) (p : Path) : Location := if p.isAbsolute then [] else home

theorem goal_eq (t : Tree) (home : Location) (follow : Bool) (p : Path) :
    t.goal home follow p =
      if pathLimit ≤ p.text.utf8ByteSize then .error .nameTooLong
      else t.walk follow linkLimit (start home p) p.parts := rfl

theorem goal_eq_ok_iff :
    t.goal home follow p = .ok goal ↔
      p.text.utf8ByteSize < pathLimit ∧
        Reaches t follow linkLimit (start home p) p.parts goal := by
  rw [goal_eq, ← walk_eq_ok_iff]
  split
  next hlong => simp [Nat.not_lt.mpr hlong]
  next hshort => simp [Nat.lt_of_not_le hshort]

theorem find_eq_ok_iff {e : Entry} :
    t.find home follow p = .ok (place, e) ↔ t.goal home follow p = .ok (.found place e) := by
  rw [find]
  cases t.goal home follow p with
  | error f => simp [bind, Except.bind]
  | ok g => cases g <;> simp [bind, Except.bind, pure, Except.pure, throw, throwThe, MonadExceptOf.throw]

/-- Nothing is there, though all that a path needs to be looked up is. -/
theorem find_eq_noEntry_iff :
    t.find home follow p = .error .noEntry ↔
      t.goal home follow p = .error .noEntry ∨
        ∃ directory name, t.goal home follow p = .ok (.vacant directory name) := by
  rw [find]
  cases t.goal home follow p with
  | error f => simp [bind, Except.bind]
  | ok g => cases g <;> simp [bind, Except.bind, pure, Except.pure, throw, throwThe, MonadExceptOf.throw]

/-! ### Paths to directories -/

/-- The path leads to a directory. -/
def LeadsTo (t : Tree) (home : Location) (p : Path) (directory : Location) : Prop :=
  t.find home true p = .ok (directory, .directory)

theorem leadsTo_iff :
    t.LeadsTo home p directory ↔
      p.text.utf8ByteSize < pathLimit ∧
        Reaches t true linkLimit (start home p) p.parts (.found directory .directory) :=
  find_eq_ok_iff.trans goal_eq_ok_iff

theorem LeadsTo.unique {other : Location} (h : t.LeadsTo home p directory)
    (h' : t.LeadsTo home p other) : other = directory := by
  have heq : (Except.ok (other, Entry.directory) : Except Trouble _) = .ok (directory, .directory) :=
    h'.symm.trans h
  exact (Prod.mk.inj (Except.ok.inj heq)).1

theorem LeadsTo.mono (ht : t.Within t') (h : t.LeadsTo home p directory) :
    t'.LeadsTo home p directory := by
  obtain ⟨hsize, hreaches⟩ := leadsTo_iff.mp h
  exact leadsTo_iff.mpr ⟨hsize, hreaches.mono ht⟩

/-- Whether the last link of a path is followed matters only if there is one. -/
theorem goal_kept (ht : t.Within t') (hat : t'.at? goal.location = t.at? goal.location)
    (h : t.goal home follow p = .ok goal) : t'.goal home follow p = .ok goal := by
  rw [goal_eq_ok_iff] at h ⊢
  exact ⟨h.1, h.2.kept ht hat⟩

theorem goal_follow (t : Tree) (home : Location) (p : Path) :
    StopsAtLink (t.goal home false p) ∨ t.goal home false p = t.goal home true p := by
  rw [goal_eq, goal_eq]
  split
  next => exact .inr rfl
  next => exact walk_follow

/-- A path to a directory leads to something even if the last link is not followed. -/
theorem LeadsTo.found (h : t.LeadsTo home p directory) :
    ∃ place e, t.goal home false p = .ok (.found place e) := by
  obtain ⟨place, target, hlink⟩ | heq := goal_follow t home p
  · exact ⟨place, .link target, hlink⟩
  · exact ⟨directory, .directory, heq.trans (find_eq_ok_iff.mp h)⟩

theorem find_of_missing (h : t.goal home false p = .error .noEntry) :
    t.find home true p = .error .noEntry := by
  obtain ⟨place, target, hlink⟩ | heq := goal_follow t home p
  · rw [h] at hlink
    cases hlink
  · exact find_eq_noEntry_iff.mpr (.inl (heq.symm.trans h))

theorem find_of_vacant (h : t.goal home false p = .ok (.vacant directory name)) :
    t.find home true p = .error .noEntry := by
  obtain ⟨place, target, hlink⟩ | heq := goal_follow t home p
  · rw [h] at hlink
    cases hlink
  · exact find_eq_noEntry_iff.mpr (.inr ⟨_, _, heq.symm.trans h⟩)

theorem not_leadsTo (h : t.find home true p = .error .noEntry) : ¬ t.LeadsTo home p directory := by
  rw [LeadsTo, h]
  exact fun heq => by cases heq

/-! ### Names in a directory -/

/-- What a name in a directory leads to, links apart. -/
def goalAt (t : Tree) (directory : Location) (name : String) : Goal :=
  match t.at? (directory ++ [name]) with
  | none => .vacant directory name
  | some e => .found (directory ++ [name]) e

theorem isStay_of_isPart (h : Path.IsPart name) : isStay name = false := by
  have hdot : name ≠ "." := by
    rintro rfl
    exact h.notDot rfl
  have hempty : name ≠ "" := by
    rintro rfl
    exact h.nonempty rfl
  simp [isStay, hdot, hempty]

theorem walk_last {links : Nat} {here : Location} (hname : IsName name)
    (hlink : ∀ target, t.at? (here ++ [name]) ≠ some (.link target)) :
    t.walk follow links here [name] = .ok (t.goalAt here name) := by
  rw [walk_name hname, goalAt]
  split
  next hat => rw [hat, if_pos rfl]
  next target hat => exact absurd hat (hlink target)
  next hat => rw [hat, walk_nil]
  next e _ _ hat => rw [hat, if_pos rfl]

/-- A path with one more name leads to that name in the directory of the path. -/
theorem goal_child (hp : p.IsChild q name) (hup : name ≠ "..") (hq : t.LeadsTo home q directory)
    (hlink : ∀ target, t.at? (directory ++ [name]) ≠ some (.link target)) (follow : Bool) :
    t.goal home follow p =
      if pathLimit ≤ p.text.utf8ByteSize ∨ nameLimit < name.utf8ByteSize then .error .nameTooLong
      else .ok (t.goalAt directory name) := by
  obtain ⟨left, hleft⟩ := (leadsTo_iff.mp hq).2.walk_append
  have hstay := isStay_of_isPart hp.isPart
  have hstart : start home p = start home q := by rw [start, start, hp.isAbsolute]
  rw [goal_eq, hstart, hp.parts, hleft follow [name] (List.cons_ne_nil _ _)]
  by_cases hlong : pathLimit ≤ p.text.utf8ByteSize
  · rw [if_pos hlong, if_pos (.inl hlong)]
  rw [if_neg hlong]
  by_cases hname : nameLimit < name.utf8ByteSize
  · rw [if_pos (.inr hname), walk_tooLong hstay hup hname]
  · rw [if_neg (not_or.mpr ⟨hlong, hname⟩), walk_last ⟨hstay, hup, Nat.le_of_not_lt hname⟩ hlink]

/-- If a path with one more name leads anywhere, the path leads to a directory. -/
theorem leadsTo_of_child (hp : p.IsChild q name) (h : t.goal home follow p = .ok goal) :
    ∃ directory, t.LeadsTo home q directory := by
  obtain ⟨hsize, hreaches⟩ := goal_eq_ok_iff.mp h
  rw [hp.parts] at hreaches
  obtain ⟨directory, hfront⟩ := hreaches.front (List.cons_ne_nil _ _)
  rw [start, hp.isAbsolute] at hfront
  exact ⟨directory, leadsTo_iff.mpr ⟨Nat.lt_of_le_of_lt hp.size_le hsize, hfront⟩⟩

/-! ### Well-formed trees -/

/-- Whatever is in the tree is in a directory. -/
def WellFormed (t : Tree) : Prop :=
  ∀ place name, t.at? (place ++ [name]) ≠ none → t.at? place = some .directory

/-- Only the places of the entries have to be looked at. -/
theorem wellFormed_of_keys
    (h : (t.entries.keys.all fun place => (t.at? place.dropLast).any Entry.isDirectory) = true) :
    t.WellFormed := by
  intro place name hsome
  obtain ⟨e, he⟩ := Option.ne_none_iff_exists'.mp hsome
  rw [at?, if_neg (by simp)] at he
  have hkey := List.all_eq_true.mp h _ (Assoc.mem_keys_iff.mpr ⟨e, he⟩)
  rw [List.dropLast_concat, Option.any_eq_true] at hkey
  obtain ⟨d, hd, hdirectory⟩ := hkey
  cases d with
  | directory => exact hd
  | file => cases hdirectory
  | link => cases hdirectory
  | pipe => cases hdirectory

theorem no_link_of_values (h : t.entries.values.all (!Entry.isLink ·) = true) (place : Location)
    (target : String) : t.at? place ≠ some (.link target) := by
  intro hat
  rw [at?] at hat
  split at hat
  next => cases hat
  next =>
    have hvalue := List.all_eq_true.mp h _ (Assoc.mem_values_iff.mpr ⟨place, hat⟩)
    cases hvalue

theorem WellFormed.empty (h : t.WellFormed) (hnone : t.at? directory = none) (name : String) :
    t.at? (directory ++ [name]) = none := by
  by_contra hsome
  rw [h directory name hsome] at hnone
  cases hnone

end Tree

namespace Host

open MailRules.Tree

variable {h t : Host} {p q : Path} {r : Refusal} {directory : Location}

/-! ### Making directories -/

/-- The second machine is the first with directories made on the way to the path. -/
structure Grown (p : Path) (h t : Host) : Prop where
  rest : t = { h with tree := t.tree }
  frame : ∀ place, t.tree.at? place ≠ h.tree.at? place →
    h.tree.at? place = none ∧ t.tree.at? place = some .directory ∧
      ∃ front back, p.parts = front ++ back ∧ t.tree.LeadsTo t.home ⟨p.anchor, front⟩ place

theorem Grown.refl (p : Path) (h : Host) : Grown p h h := ⟨rfl, fun _ hne => absurd rfl hne⟩

theorem Grown.at?_some (hg : Grown p h t) {place : Location} {e : Entry}
    (hat : h.tree.at? place = some e) : t.tree.at? place = some e := by
  by_contra hne
  have hnone := (hg.frame place fun heq => hne (heq.trans hat)).1
  rw [hat] at hnone
  cases hnone

theorem Grown.within (hg : Grown p h t) : h.tree.Within t.tree := fun _ _ _ => hg.at?_some

theorem Grown.at?_none (hg : Grown p h t) {place : Location} (hat : t.tree.at? place = none) :
    h.tree.at? place = none := by
  by_contra hsome
  obtain ⟨e, he⟩ := Option.ne_none_iff_exists'.mp hsome
  rw [hg.at?_some he] at hat
  cases hat

/-- What was not there and is there now is a directory. -/
theorem Grown.at?_new (hg : Grown p h t) {place : Location} (hnone : h.tree.at? place = none) :
    t.tree.at? place = none ∨ t.tree.at? place = some .directory := by
  by_cases hsame : t.tree.at? place = h.tree.at? place
  · exact .inl (hsame.trans hnone)
  · exact .inr (hg.frame place hsame).2.1

theorem Grown.of_parent (hg : Grown p.parent h t) : Grown p h t := by
  refine ⟨hg.rest, fun place hne => ?_⟩
  obtain ⟨hnone, hmade, front, back, hparts, hleads⟩ := hg.frame place hne
  obtain ⟨last, hlast⟩ := p.exists_parts_parent
  refine ⟨hnone, hmade, front, back ++ last, ?_, hleads⟩
  rw [← List.append_assoc, ← hparts]
  exact hlast

theorem makeDirectory_ok (hm : h.makeDirectory p = .ok t) :
    ∃ place name, h.tree.goal h.home false p = .ok (.vacant place name) ∧
      t = { h with tree := h.tree.put (place ++ [name]) .directory } := by
  unfold makeDirectory at hm
  split at hm
  next place name hgoal =>
    cases hm
    exact ⟨place, name, hgoal, rfl⟩
  next => cases hm
  next => cases hm

theorem makeDirectory_error (hm : h.makeDirectory p = .error r) (hr : r.trouble = .noEntry) :
    h.tree.goal h.home false p = .error .noEntry := by
  unfold makeDirectory at hm
  split at hm
  next => cases hm
  next =>
    cases hm
    cases hr
  next trouble hgoal =>
    cases hm
    rw [hgoal]
    exact congrArg _ hr

theorem unlessDirectory_ok {u : Unit} (hu : h.unlessDirectory p r = .ok u) :
    ∃ directory, h.tree.LeadsTo h.home p directory := by
  unfold unlessDirectory at hu
  split at hu
  next directory hfind => exact ⟨directory, hfind⟩
  next => cases hu

theorem unlessDirectory_error {r' : Refusal} (hu : h.unlessDirectory p r = .error r') :
    ¬ h.tree.LeadsTo h.home p directory := by
  unfold unlessDirectory at hu
  split at hu
  next => cases hu
  next hfind => exact hfind directory

theorem unlessDirectory_of_leadsTo (hleads : h.tree.LeadsTo h.home p directory) :
    h.unlessDirectory p r = .ok () := by
  rw [LeadsTo] at hleads
  rw [unlessDirectory, hleads]

/-- Where a name is vacant, a directory can be made that the path then leads to. -/
theorem grown_put {place : Location} {name : String}
    (hgoal : h.tree.goal h.home false p = .ok (.vacant place name))
    (ht : t = { h with tree := h.tree.put (place ++ [name]) .directory }) :
    Grown p h t ∧ t.tree.LeadsTo t.home p (place ++ [name]) ∧
      h.tree.at? (place ++ [name]) = none := by
  obtain ⟨hsize, hreaches⟩ := goal_eq_ok_iff.mp hgoal
  have hnone := hreaches.vacant_at
  have hat (q : Location) : t.tree.at? q =
      if q = place ++ [name] then some .directory else h.tree.at? q := by
    rw [ht]
    exact at?_put h.tree place name .directory q
  have hmade : t.tree.at? (place ++ [name]) = some .directory := by rw [hat, if_pos rfl]
  have hwithin : h.tree.Within t.tree := by
    intro q e _ he
    rw [hat, if_neg, he]
    rintro rfl
    rw [hnone] at he
    cases he
  have hleads : t.tree.LeadsTo t.home p (place ++ [name]) := by
    have hhome : t.home = h.home := by rw [ht]
    rw [hhome]
    exact leadsTo_iff.mpr ⟨hsize, hreaches.filled hwithin hmade⟩
  refine ⟨⟨by rw [ht], fun q hne => ?_⟩, hleads, hnone⟩
  obtain rfl : q = place ++ [name] := by
    by_contra hq
    exact hne (by rw [hat, if_neg hq])
  exact ⟨hnone, hmade, p.parts, [], (List.append_nil _).symm, hleads⟩

theorem Grown.trans {u : Host} (hg : Grown p h t) (hu : Grown p t u) : Grown p h u := by
  refine ⟨?_, fun place hne => ?_⟩
  · rw [hu.rest, hg.rest]
  · by_cases hsame : u.tree.at? place = t.tree.at? place
    · obtain ⟨hnone, hmade, front, back, hparts, hleads⟩ := hg.frame place (hsame ▸ hne)
      refine ⟨hnone, hsame.trans hmade, front, back, hparts, ?_⟩
      have hhome : u.home = t.home := by rw [hu.rest]
      rw [hhome]
      exact hleads.mono hu.within
    · obtain ⟨hnone, hmade, hway⟩ := hu.frame place hsame
      exact ⟨hg.at?_none hnone, hmade, hway⟩

/-- Every part of the path that goes up starts from something that is there. -/
def Climbable (h : Host) (p : Path) : Prop :=
  ∀ front back, p.parts = front ++ ".." :: back →
    h.tree.find h.home true ⟨p.anchor, front⟩ ≠ .error .noEntry

theorem climbable_of_no_up (hup : ".." ∉ p.parts) : h.Climbable p := by
  intro front back hparts
  exact absurd (hparts ▸ List.mem_append_right front List.mem_cons_self) hup

theorem Climbable.parent (hc : h.Climbable p) : h.Climbable p.parent := by
  intro front back hparts
  obtain ⟨last, hlast⟩ := p.exists_parts_parent
  refine hc front (back ++ last) ?_
  rw [← List.cons_append, ← List.append_assoc, ← hparts]
  exact hlast

/-- What making a directory with its parents comes to. The directory was there, or it is new and
has nothing in it yet. -/
structure Made (p : Path) (h t : Host) (outcome : Except Refusal Unit) : Prop where
  grown : Grown p h t
  leads : outcome = .ok () → ∃ directory, t.tree.LeadsTo t.home p directory ∧
    (t = h ∨ h.tree.find h.home true p = .error .noEntry ∧
      ∀ name, h.tree.at? (directory ++ [name]) = none)
  fails : ∀ r, outcome = .error r → ∀ directory, ¬ t.tree.LeadsTo t.home p directory

theorem made_anyway (h : Host) (p : Path) (r : Refusal) : Made p h h (h.unlessDirectory p r) where
  grown := .refl p h
  leads hu := by
    obtain ⟨directory, hleads⟩ := unlessDirectory_ok hu
    exact ⟨directory, hleads, .inl rfl⟩
  fails _ hu _ := unlessDirectory_error hu

theorem made_new (hg : Grown p h t) (hleads : t.tree.LeadsTo t.home p directory)
    (hmissing : h.tree.find h.home true p = .error .noEntry)
    (hempty : ∀ name, h.tree.at? (directory ++ [name]) = none) : Made p h t (.ok ()) :=
  ⟨hg, fun _ => ⟨directory, hleads, .inr ⟨hmissing, hempty⟩⟩, fun _ hu => by cases hu⟩

theorem not_made (hg : Grown p h t) (hnot : ∀ directory, ¬ t.tree.LeadsTo t.home p directory)
    (r : Refusal) : Made p h t (.error r) :=
  ⟨hg, fun hu => by (cases hu), fun _ _ => hnot⟩

/-- Below a parent that is new, a directory is new, and nothing is in it yet. -/
theorem empty_below {name : String} {above : Location} (hwf : h.tree.WellFormed)
    (hc : h.Climbable p) (hp : p.IsChild p.parent name) (hg : Grown p h t)
    (habove : t.tree.LeadsTo t.home p.parent above)
    (hnew : h.tree.find h.home true p.parent = .error .noEntry)
    (hempty : ∀ name, h.tree.at? (above ++ [name]) = none)
    (hleads : t.tree.LeadsTo t.home p directory) (entry : String) :
    h.tree.at? (directory ++ [entry]) = none := by
  have hup : name ≠ ".." := by
    rintro rfl
    exact hc p.parent.parts [] hp.parts hnew
  have hlink (target : String) : t.tree.at? (above ++ [name]) ≠ some (.link target) := by
    rcases hg.at?_new (hempty name) with hnone | hmade
    · rw [hnone]
      exact fun he => by cases he
    · rw [hmade]
      exact fun he => by cases he
  have hgoal := find_eq_ok_iff.mp hleads
  rw [goal_child hp hup habove hlink] at hgoal
  split at hgoal
  next => cases hgoal
  next =>
    have hdirectory : directory = above ++ [name] := by
      rw [goalAt] at hgoal
      split at hgoal
      next => cases hgoal
      next =>
        cases hgoal
        rfl
    rw [hdirectory]
    exact hwf.empty (hempty name) entry

/-- A path that leads nowhere is a child of its parent. -/
theorem isChild_of_missing (hp : p.Proper)
    (hmissing : h.tree.goal h.home false p = .error .noEntry) :
    ∃ name, p.IsChild p.parent name := by
  cases hlast : p.parts.getLast? with
  | some name => exact ⟨name, Path.isChild_parent hp hlast⟩
  | none =>
    rw [goal_eq, List.getLast?_eq_none_iff.mp hlast, walk_nil] at hmissing
    split at hmissing <;> cases hmissing

theorem made_at_once (hwf : h.tree.WellFormed) (hm : h.makeDirectory p = .ok t) :
    Made p h t (.ok ()) := by
  obtain ⟨place, name, hgoal, ht⟩ := makeDirectory_ok hm
  obtain ⟨hg, hleads, hnone⟩ := grown_put hgoal ht
  exact made_new hg hleads (find_of_vacant hgoal) (hwf.empty hnone)

/-- The second attempt, when the parent is there. -/
theorem made_again (hwf : h.tree.WellFormed) (hp : p.Proper) (hc : h.Climbable p)
    (hmissing : h.tree.goal h.home false p = .error .noEntry)
    (hparent : Made p.parent h t (.ok ())) :
    (∀ u, t.makeDirectory p = .ok u → Made p h u (.ok ())) ∧
      ∀ r, t.makeDirectory p = .error r →
        Made p h t (if r.trouble = .noEntry then .error r else t.unlessDirectory p r) := by
  have hg := hparent.grown.of_parent
  constructor
  · intro u hm
    obtain ⟨place, name, hgoal, hu⟩ := makeDirectory_ok hm
    obtain ⟨hlast, hleads, hnone⟩ := grown_put hgoal hu
    exact made_new (hg.trans hlast) hleads (find_of_missing hmissing)
      (hwf.empty (hg.at?_none hnone))
  · intro r hm
    split
    next hr => exact not_made hg (fun _ => not_leadsTo (find_of_missing (makeDirectory_error hm hr))) r
    next =>
      obtain ⟨above, habove, rfl | ⟨hnew, hempty⟩⟩ := hparent.leads rfl
      · exact made_anyway t p r
      · cases hu : t.unlessDirectory p r with
        | error r' => exact not_made hg (fun _ => unlessDirectory_error hu) r'
        | ok =>
          obtain ⟨directory, hleads⟩ := unlessDirectory_ok hu
          obtain ⟨name, hchild⟩ := isChild_of_missing hp hmissing
          exact made_new hg hleads (find_of_missing hmissing)
            (empty_below hwf hc hchild hg habove hnew hempty hleads)

theorem made_makeDirectories (hwf : h.tree.WellFormed) (hp : p.Proper) (hc : h.Climbable p)
    (depth : Nat) :
    Made p h (makeDirectories depth p h).1 (makeDirectories depth p h).2 := by
  induction depth generalizing p with
  | zero =>
    rw [makeDirectories]
    split
    next t hm => exact made_at_once hwf hm
    next r hm =>
      split
      next => exact made_anyway h p r
      next hr =>
        have hmissing := makeDirectory_error hm (not_not.mp hr)
        exact not_made (.refl p h) (fun _ => not_leadsTo (find_of_missing hmissing)) r
  | succ depth ih =>
    rw [makeDirectories]
    split
    next t hm => exact made_at_once hwf hm
    next r hm =>
      split
      next => exact made_anyway h p r
      next hr =>
        have hmissing := makeDirectory_error hm (not_not.mp hr)
        obtain ⟨name, hchild⟩ := isChild_of_missing hp hmissing
        have hparent := ih hp.parent hc.parent
        dsimp only
        split
        next t r hrun =>
          rw [hrun] at hparent
          refine not_made hparent.grown.of_parent (fun directory hleads => ?_) r
          obtain ⟨above, habove⟩ := leadsTo_of_child hchild (find_eq_ok_iff.mp hleads)
          exact hparent.fails r rfl above habove
        next t hrun =>
          rw [hrun] at hparent
          obtain ⟨hmade, hagain⟩ := made_again hwf hp hc hmissing hparent
          split
          next u hm => exact hmade u hm
          next r hm => exact hagain r hm

/-- Making a directory makes directories on the way to it and nothing else, and answers whether the
path leads to one in the end. One that is new is empty. -/
theorem made_makePath (hwf : h.tree.WellFormed) (hp : p.Proper) (hc : h.Climbable p) :
    Made p h (h.makePath p).1 (h.makePath p).2 :=
  made_makeDirectories hwf hp hc _

/-- A directory that is refused for another reason than a missing parent is not tried again. -/
theorem makePath_of_refused (hm : h.makeDirectory p = .error r) (hr : r.trouble ≠ .noEntry) :
    h.makePath p = (h, h.unlessDirectory p r) := by
  rw [makePath, makeDirectories.eq_def]
  dsimp only
  rw [hm]
  dsimp only
  rw [if_pos hr]

/-- Where the path leads to a directory, nothing is made. -/
theorem makePath_of_leadsTo (hleads : h.tree.LeadsTo h.home p directory) :
    h.makePath p = (h, .ok ()) := by
  obtain ⟨place, e, hgoal⟩ := hleads.found
  have hm : h.makeDirectory p = .error ⟨.exists, p.text⟩ := by
    unfold makeDirectory
    rw [hgoal]
  rw [makePath_of_refused hm (by simp), unlessDirectory_of_leadsTo hleads]

theorem makePath_of_tooLong (hlong : pathLimit ≤ p.text.utf8ByteSize) :
    ∃ r, h.makePath p = (h, .error r) := by
  have hgoal (follow : Bool) : h.tree.goal h.home follow p = .error .nameTooLong := by
    rw [goal_eq, if_pos hlong]
  have hm : h.makeDirectory p = .error ⟨.nameTooLong, p.text⟩ := by
    unfold makeDirectory
    rw [hgoal]
  have hfind : h.tree.find h.home true p = .error .nameTooLong := by
    rw [find, hgoal]
    rfl
  refine ⟨⟨.nameTooLong, p.text⟩, ?_⟩
  rw [makePath_of_refused hm (by simp), unlessDirectory, hfind]

end Host

end MailRules
