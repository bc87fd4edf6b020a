import MailRules.Proofs.Inputs.Bounds
import MailRules.Proofs.Inputs.Termination

/-! Where links lead.

A link is followed only if its target does not lie outside the root. A relative target is resolved
for that, and so stands for a place in the root (`relative_inside`). An absolute one need only begin
with the text of the root: it stands for a place in the root if it goes straight down from there
(`below_inside`), but not if it goes up again (`link_leaves_root`). What is taken by way of a link
then lies in the root too (`links_stay_inside`), unless the target is tried as a pattern: what the
pattern stands for can be reached by links that nobody looks at (`pattern_leaves_root`). -/
namespace MailRules

namespace Tree

variable {t : Tree} {home here place : Location} {name : String} {parts : List String} {links : Nat}
  {p : Path}

/-- The parts lead down from a place, with no link on the way. -/
def Straight (t : Tree) : Location → List String → Prop
  | _, [] => True
  | here, name :: rest =>
    name ≠ ".." ∧ (∀ target, t.at? (here ++ [name]) ≠ some (.link target)) ∧
      t.Straight (here ++ [name]) rest

theorem Straight.resolveLegs (fuel : Nat) (known : Assoc Path (Option Path)) {here : Path}
    (h : t.Straight (locate home here) parts) (hmoves : ∀ name ∈ parts, isStay name = false) :
    t.resolveLegs home fuel known here (parts.map .down) = here.join ⟨.relative, parts⟩ ∧
      locate home (here.join ⟨.relative, parts⟩) = locate home here ++ parts := by
  induction parts generalizing here with
  | nil =>
    have hself : here.join ⟨.relative, []⟩ = here :=
      congrArg (Path.mk here.anchor) (List.append_nil _)
    rw [hself, List.append_nil]
    exact ⟨resolveLegs_nil, rfl⟩
  | cons name rest ih =>
    obtain ⟨hup, hplain, hrest⟩ := h
    rw [List.forall_mem_cons] at hmoves
    have hchild : locate home (here.child name) = locate home here ++ [name] :=
      locate_name hmoves.1 hup
    have hjoin : here.join ⟨.relative, name :: rest⟩ = (here.child name).join ⟨.relative, rest⟩ :=
      congrArg (Path.mk here.anchor) (List.append_cons _ _ _)
    obtain ⟨hlegs, hplace⟩ := ih (hchild ▸ hrest) hmoves.2
    rw [hjoin, hplace, hchild, List.append_assoc, List.singleton_append]
    exact ⟨(resolveLegs_plain hmoves.1 hup (hchild ▸ hplain)).trans hlegs, rfl⟩

/-- A path that goes straight down from another is resolved to what is below the place of that,
whether there is something or not. -/
theorem Straight.resolve {root : Path} (h : t.Straight (t.resolve home root) parts)
    (hmoves : ∀ name ∈ parts, isStay name = false) (habsolute : p.isAbsolute = root.isAbsolute)
    (hparts : p.parts = root.parts ++ parts) :
    t.resolve home p = t.resolve home root ++ parts := by
  rw [Tree.resolve] at h ⊢
  rw [Tree.resolve, habsolute, hparts, List.map_append]
  generalize linkLimit + t.entries.size * (home.length + 2) = fuel at h ⊢
  generalize (⟨if root.isAbsolute then .root else .relative, []⟩ : Path) = start at h ⊢
  obtain ⟨hlegs, hplace⟩ := h.resolveLegs fuel ∅ hmoves
  rw [← hplace]
  rcases goesOn t home fuel ∅ start (root.parts.map .down) with ⟨fuel', known', hmore⟩ | hmore
  · rw [hmore, (h.resolveLegs fuel' known' hmoves).1]
  · have hnames := names_down parts []
    rw [List.append_nil] at hnames
    rw [hmore, hnames]
    simp

/-- A name other than that of the directory above leads to a place below, links apart. -/
theorem prefix_of_walk {e : Entry} (hup : name ≠ "..")
    (h : t.walk false links here [name] = .ok (.found place e)) : here <+: place := by
  cases reaches_of_walk h with
  | go hgoes hrest =>
    cases hrest
    cases hgoes with
    | stay => exact List.prefix_refl here
    | up heq => exact absurd heq hup
    | down => exact List.prefix_append here [name]
  | jump _ _ hon => exact absurd hon (by simp)
  | halt => exact List.prefix_append here [name]

end Tree

namespace Expansion

variable {h : Host} {root p q : Path} {inputs : List Path} {target : String} {linked : Bool}

/-- The path comes from the inputs, by way of a link or not. -/
inductive Comes (h : Host) (root : Path) (inputs : List Path) : (linked : Bool) → Path → Prop
  | given {p : Path} : p ∈ inputs → Comes h root inputs false p
  | followed {linked : Bool} {p : Path} {target : String} :
      Comes h root inputs linked p → h.LinkAt p target → escapes h root p target = false →
      Comes h root inputs true (p.parent.join (Path.ofString target))
  | listed {linked : Bool} {p q : Path} {place : Location} :
      Comes h root inputs linked p → h.EntryAt p place .directory → q ∈ children h p →
      Comes h root inputs linked q
  | matched {linked : Bool} {p q : Path} :
      Comes h root inputs linked p → h.NothingAt p → Host.hasWildcard p = true →
      q ∈ h.matchPattern p → Comes h root inputs linked q

/-- The path stands for a place in the root, whether something is there or not. -/
def Inside (h : Host) (root p : Path) : Prop := h.resolve root <+: h.resolve p

theorem Inside.found {place : Location} {e : Entry} (hhome : Tree.normalize h.home = h.home)
    (hinside : Inside h root p) (hfind : h.tree.find h.home true p = .ok (place, e)) :
    h.resolve root <+: place := by
  have hplace : h.resolve p = place := Tree.resolve_eq hhome (Tree.find_eq_ok_iff.mp hfind)
  rwa [Inside, hplace] at hinside

/-- Absolute targets that begin with the root lead straight down from it. -/
def StraightTargets (h : Host) (root : Path) : Prop :=
  ∀ p rest, h.LinkAt p (root.text ++ "/" ++ rest) →
    h.tree.Straight (h.resolve root) (Path.ofString rest).parts

theorem relative_inside (hrelative : target.toList.head? ≠ some '/')
    (hstays : escapes h root p target = false) :
    Inside h root (p.parent.join (Path.ofString target)) := by
  rwa [escapes, if_neg hrelative, Bool.not_eq_false', List.isPrefixOf_iff_prefix] at hstays

/-- An absolute path that begins with the root and goes straight down from there. -/
theorem below_inside {rest : String} (hroot : root.Proper)
    (hstraight : h.tree.Straight (h.resolve root) (Path.ofString rest).parts) :
    Inside h root (Path.ofString (root.text ++ "/" ++ rest)) := by
  have hparts : (Path.ofString (root.text ++ "/" ++ rest)).parts =
      root.parts ++ (Path.ofString rest).parts := by
    have hchars : (root.text ++ "/" ++ rest).toList = root.text.toList ++ '/' :: rest.toList := by
      simp
    rw [Path.ofString, hchars, Path.parts_append]
    exact congrArg (·.parts ++ (Path.ofString rest).parts) (Path.ofString_text hroot)
  have hmoves : ∀ name ∈ (Path.ofString rest).parts, Tree.isStay name = false := fun name hname =>
    Tree.isStay_of_isPart (Path.proper_ofString rest name hname)
  rw [Inside, Host.resolve, Host.resolve,
    hstraight.resolve hmoves (Path.isAbsolute_below hroot rest) hparts]
  exact List.prefix_append _ _

/-- **A link that is followed leads to the root**: its target, fully resolved, is a place in the
root, if the target is relative or goes straight down, be something there or not. -/
theorem target_inside (hroot : root.Proper) (hstraight : StraightTargets h root)
    (hlink : h.LinkAt p target) (hstays : escapes h root p target = false) :
    Inside h root (p.parent.join (Path.ofString target)) := by
  by_cases habsolute : target.toList.head? = some '/'
  · rw [escapes, if_pos habsolute, Bool.not_eq_false', String.isPrefixOf,
      String.startsWith_string_iff] at hstays
    obtain ⟨rest, hrest⟩ := hstays
    obtain rfl : target = root.text ++ "/" ++ String.ofList rest := by
      rw [← String.toList_inj, ← hrest]
      simp
    have hjoin : p.parent.join (Path.ofString (root.text ++ "/" ++ String.ofList rest)) =
        Path.ofString (root.text ++ "/" ++ String.ofList rest) := by
      rw [Path.join, Path.ofString, Path.isAbsolute_ofChars, habsolute]
      rfl
    rw [hjoin]
    exact below_inside hroot (hstraight p _ hlink)
  · exact relative_inside habsolute hstays

/-- What a directory in the root lists is in the root, links apart. -/
theorem child_inside {place place' : Location} {e : Entry} (hentry : h.EntryAt p place .directory)
    (hinside : h.resolve root <+: place) (hq : q ∈ children h p)
    (hnot : ∀ target, ¬ h.LinkAt q target) (hfind : h.tree.find h.home true q = .ok (place', e)) :
    h.resolve root <+: place' := by
  obtain ⟨name, hname, rfl⟩ := List.mem_map.mp hq
  have hshown : name.toList.head? ≠ some '.' := by
    simpa using (List.mem_filter.mp (Text.mem_sorted.mp hname)).2
  have hup : name ≠ ".." := by
    rintro rfl
    exact hshown rfl
  obtain ⟨left, hleft⟩ := (Tree.leadsTo_iff.mp hentry.follow).2.walk_append
  rw [Host.find_follow hnot, Tree.find_eq_ok_iff, Tree.goal_eq] at hfind
  split at hfind
  next => cases hfind
  next =>
    have hwalk : h.tree.walk false left place [name] = .ok (.found place' e) :=
      (hleft false [name] (List.cons_ne_nil name [])).symm.trans hfind
    exact hinside.trans (Tree.prefix_of_walk hup hwalk)

/-- What is found by way of a link, and is no link again, is in the root. -/
theorem Comes.inside {place : Location} {e : Entry} (hhome : Tree.normalize h.home = h.home)
    (hroot : root.Proper) (hstraight : StraightTargets h root)
    (hpatterns : ∀ p, Comes h root inputs true p → h.NothingAt p → Host.hasWildcard p = false)
    (hcomes : Comes h root inputs linked p) (hlinked : linked = true)
    (hnot : ∀ target, ¬ h.LinkAt p target) (hfind : h.tree.find h.home true p = .ok (place, e)) :
    h.resolve root <+: place := by
  induction hcomes generalizing place e with
  | given => cases hlinked
  | followed _ hlink hstays => exact (target_inside hroot hstraight hlink hstays).found hhome hfind
  | @listed linked p q above _ hentry hq ih =>
    refine child_inside hentry (ih hlinked (fun target hlink => ?_) hentry.follow) hq hnot hfind
    obtain ⟨place', hlink⟩ := hlink
    rw [hentry.1] at hlink
    cases hlink
  | matched hcomes hnothing hwildcard =>
    subst hlinked
    rw [hpatterns _ hcomes hnothing] at hwildcard
    cases hwildcard

/-- Where everything comes from that an expansion still has to take, and that it has found. -/
structure Traced (h : Host) (root : Path) (inputs : List Path) (e : Expansion) : Prop where
  pending : ∀ p ∈ e.pending, ∃ linked, Comes h root inputs linked p
  files : ∀ p ∈ e.files, ∃ linked place content, Comes h root inputs linked p ∧
    h.EntryAt p place (.file content)

theorem Traced.taken {e next : Expansion} (ht : Traced h root inputs e)
    (hp : ∃ linked, Comes h root inputs linked p) (htaken : Taken h root p e next) :
    Traced h root inputs next := by
  obtain ⟨linked, hcomes⟩ := hp
  have hpush {paths : List Path} (hall : ∀ q ∈ paths, ∃ linked, Comes h root inputs linked q) :
      ∀ q ∈ paths ++ e.pending, ∃ linked, Comes h root inputs linked q :=
    fun q hq => (List.mem_append.mp hq).elim (hall q) (ht.pending q)
  cases htaken with
  | looped | refused | missing | visited | odd => exact ⟨ht.pending, ht.files⟩
  | followed hlink _ hstays =>
    refine ⟨hpush fun q hq => ⟨true, ?_⟩, ht.files⟩
    rw [List.mem_singleton.mp hq]
    exact hcomes.followed hlink hstays
  | matched hnothing hwildcard =>
    exact ⟨hpush fun q hq => ⟨linked, hcomes.matched hnothing hwildcard hq⟩, ht.files⟩
  | directory hentry => exact ⟨hpush fun q hq => ⟨linked, hcomes.listed hentry hq⟩, ht.files⟩
  | file hentry =>
    refine ⟨ht.pending, fun q hq => ?_⟩
    rcases List.mem_append.mp hq with hq | hq
    · exact ht.files q hq
    · rw [List.mem_singleton.mp hq]
      exact ⟨linked, _, _, hcomes, hentry⟩

theorem traced_run (h : Host) (root : Path) (inputs : List Path) (steps : Nat) :
    Traced h root inputs (run h root steps { pending := inputs }).1 := by
  refine run_keeps (fun path rest e next hpending ht htaken => ?_) steps ?_
  · have hfront : ∃ linked, Comes h root inputs linked path :=
      ht.pending path (hpending ▸ List.mem_cons_self)
    refine Traced.taken (e := { e with pending := rest })
      ⟨fun p hp => ht.pending p ?_, ht.files⟩ hfront htaken
    rw [hpending]
    exact List.mem_cons_of_mem path hp
  · exact ⟨fun p hp => ⟨false, .given hp⟩, fun p hp => absurd hp List.not_mem_nil⟩

def subRoot : Path := ⟨.root, ["sub"]⟩

def subLink : Path := ⟨.root, ["sub", "l"]⟩

/-- A link that is found is an entry of the tree. -/
theorem mem_of_linkAt (hlink : h.LinkAt p target) :
    ∃ place, (place, .link target) ∈ h.tree.entries.entries := by
  obtain ⟨place, hfind⟩ := hlink
  have hat := (Tree.goal_eq_ok_iff.mp (Tree.find_eq_ok_iff.mp hfind)).2.found_at (by simp)
  rw [Tree.at?] at hat
  split at hat
  · cases hat
  · exact ⟨place, Assoc.get?_eq_some_iff.mp hat⟩

/-- A directory with a link to the one above it, and a link whose target is a pattern. -/
def upHost : Host where
  tree := ⟨Assoc.ofList [(["a.txt"], .file "pear 2\n".toUTF8), (["sub"], .directory),
    (["sub", "l"], .link "u*/a.txt"), (["sub", "up"], .link "..")]⟩

/-- No target begins with the root. -/
theorem upHost_straight : StraightTargets upHost subRoot := by
  intro p rest hlink
  obtain ⟨place, hmem⟩ := mem_of_linkAt hlink
  have hentries : upHost.tree.entries.entries =
      [(["a.txt"], .file "pear 2\n".toUTF8), (["sub"], .directory),
        (["sub", "l"], .link "u*/a.txt"), (["sub", "up"], .link "..")] := rfl
  have hhead : (subRoot.text ++ "/" ++ rest).toList.head? = some '/' := by
    rw [String.append_assoc, String.toList_append]
    rfl
  rw [hentries] at hmem
  simp only [List.mem_cons, Prod.mk.injEq, reduceCtorEq, and_false, false_or, Entry.link.injEq,
    List.not_mem_nil, or_false] at hmem
  rcases hmem with ⟨-, htarget⟩ | ⟨-, htarget⟩ <;>
  · rw [htarget] at hhead
    exact absurd hhead (by decide)

/-- Nothing comes from a link but by way of it. -/
theorem comes_unlinked {start : Path} (hlink : h.LinkAt start target)
    (hcomes : Comes h root [start] linked p) (hlinked : linked = false) : p = start := by
  obtain ⟨place, hfind⟩ := hlink
  induction hcomes with
  | given hp => exact List.mem_singleton.mp hp
  | followed => cases hlinked
  | listed _ hentry _ ih =>
    obtain rfl := ih hlinked
    cases hfind.symm.trans hentry.1
  | matched _ hnothing _ _ ih =>
    obtain rfl := ih hlinked
    obtain ⟨_, hnothing, -⟩ := hnothing
    cases hfind.symm.trans hnothing

/-- All targets are relative and stay in the root, but one of them is a pattern, and what that
stands for is outside: a part of it is a link that was not taken itself. -/
theorem pattern_leaves_root :
    Tree.normalize upHost.home = upHost.home ∧ subRoot.Proper ∧ StraightTargets upHost subRoot ∧
      ∃ file ∈ (ofInputs upHost subRoot [subLink]).1.files,
        ¬ Comes upHost subRoot [subLink] false file ∧
        ∃ place content, upHost.tree.find upHost.home true file = .ok (place, .file content) ∧
          ¬ upHost.resolve subRoot <+: place := by
  have hnone : (run upHost subRoot 3 { pending := [subLink] }).2.isNone = true := by
    decide +kernel
  have hfiles : (run upHost subRoot 3 { pending := [subLink] }).1.files =
      [⟨.root, ["sub", "up", "a.txt"]⟩] := by
    decide +kernel
  have hdone : (run upHost subRoot 3 { pending := [subLink] }).1.pending = [] := by
    decide +kernel
  have hbound : 3 ≤ bound upHost [subLink] := by
    have hplaces : placeBound upHost * placeBound upHost = 25 := rfl
    unfold bound
    omega
  have hrun : ofInputs upHost subRoot [subLink] =
      ((run upHost subRoot 3 { pending := [subLink] }).1, none) :=
    Store.run_enough (Prod.ext rfl (Option.isNone_iff_eq_none.mp hnone)) hdone hbound
  have hmem : ⟨.root, ["sub", "up", "a.txt"]⟩ ∈ (ofInputs upHost subRoot [subLink]).1.files := by
    rw [hrun, hfiles]
    exact List.mem_singleton_self _
  have hlink : upHost.LinkAt subLink "u*/a.txt" := ⟨["sub", "l"], rfl⟩
  refine ⟨rfl, Path.proper_ofString "/sub", upHost_straight, _, hmem, fun hcomes => ?_, ["a.txt"],
    "pear 2\n".toUTF8, rfl, by decide +kernel⟩
  exact absurd (comes_unlinked hlink hcomes rfl) (by decide)

end Expansion

end MailRules
