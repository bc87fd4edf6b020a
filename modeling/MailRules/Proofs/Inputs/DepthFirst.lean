import MailRules.Proofs.Inputs.Links
import MailRules.Proofs.Inputs.Listing

/-! An expansion goes down first.

On a plain tree, an input stands for itself or, if it is a directory, for the leaves below it
(`metFrom`). An expansion goes through what its inputs stand for, one after the other, and keeps
what it has not come to before (`ofInputs_depth_first`). It skips a directory that it has taken
already, so the leaves below have to be known by then: all that such a directory shows has been
taken too, unless the directory is still open, above the path that is taken now (`Closed`). -/
namespace MailRules

/-! ### First occurrences -/

section Firsts
variable {α β κ : Type} [DecidableEq κ] {key : α → Option κ} {seen seen' : List κ} {l m : List α}

/-- The items whose key is not among those seen and has not come before; without a key, an item
stays. -/
def firsts (key : α → Option κ) : List κ → List α → List α
  | _, [] => []
  | seen, a :: rest =>
    match key a with
    | none => a :: firsts key seen rest
    | some k => if k ∈ seen then firsts key seen rest else a :: firsts key (k :: seen) rest

theorem firsts_congr (h : ∀ a ∈ l, ∀ k, key a = some k → (k ∈ seen ↔ k ∈ seen')) :
    firsts key seen l = firsts key seen' l := by
  induction l generalizing seen seen' with
  | nil => rfl
  | cons a rest ih =>
    rw [List.forall_mem_cons] at h
    rw [firsts, firsts]
    split
    next => rw [ih h.2]
    next k hk =>
      have hnext : firsts key (k :: seen) rest = firsts key (k :: seen') rest :=
        ih fun b hb j hj => by rw [List.mem_cons, List.mem_cons, h.2 b hb j hj]
      simp only [h.1 k hk, ih h.2, hnext]

theorem firsts_append (h : ∀ b ∈ m, ∀ k, key b = some k →
      (k ∈ seen' ↔ k ∈ seen ∨ ∃ a ∈ l, key a = some k)) :
    firsts key seen (l ++ m) = firsts key seen l ++ firsts key seen' m := by
  induction l generalizing seen with
  | nil => exact firsts_congr fun b hb k hk => by simp [h b hb k hk]
  | cons a rest ih =>
    simp only [List.mem_cons, exists_eq_or_imp] at h
    rw [List.cons_append, firsts, firsts]
    split
    next hnone => rw [ih fun b hb k hk => by simp [h b hb k hk, hnone], List.cons_append]
    next k hk =>
      split
      next hseen =>
        refine ih fun b hb j hj => ?_
        rw [h b hb j hj, hk, Option.some_inj, ← or_assoc, or_iff_left_of_imp (a := j ∈ seen)]
        rintro rfl
        exact hseen
      next =>
        rw [ih fun b hb j hj => ?_, List.cons_append]
        rw [h b hb j hj, hk, Option.some_inj, List.mem_cons, ← or_assoc, or_comm (a := j ∈ seen),
          eq_comm]

theorem firsts_of_seen (h : ∀ a ∈ l, ∃ k ∈ seen, key a = some k) : firsts key seen l = [] := by
  induction l with
  | nil => rfl
  | cons a rest ih =>
    rw [List.forall_mem_cons] at h
    obtain ⟨⟨k, hseen, hk⟩, hrest⟩ := h
    rw [firsts, hk]
    exact (if_pos hseen).trans (ih hrest)

/-- Items without a key all stay. -/
theorem filterMap_firsts_of_keyless {f : α → Option β}
    (h : ∀ a ∈ l, f a ≠ none → key a = none) :
    (firsts key seen l).filterMap f = l.filterMap f := by
  induction l generalizing seen with
  | nil => rfl
  | cons a rest ih =>
    rw [List.forall_mem_cons] at h
    rw [firsts]
    split
    next => rw [List.filterMap_cons, List.filterMap_cons, ih h.2]
    next k hk =>
      have hf : f a = none := by
        by_contra hne
        rw [h.1 hne] at hk
        cases hk
      rw [List.filterMap_cons_none hf]
      split
      next => exact ih h.2
      next => rw [List.filterMap_cons_none hf, ih h.2]

/-- Items that are left out do not matter for the others, if their keys are different. -/
theorem filterMap_firsts {f : α → Option β} {key' : β → Option κ}
    (hkey : ∀ a ∈ l, ∀ b, f a = some b → key' b = key a)
    (hother : ∀ a ∈ l, f a = none → ∀ k, key a = some k → ∀ b ∈ l, f b ≠ none → key b ≠ some k)
    (hseen : ∀ a ∈ l, f a ≠ none → ∀ k, key a = some k → (k ∈ seen ↔ k ∈ seen')) :
    (firsts key seen l).filterMap f = firsts key' seen' (l.filterMap f) := by
  induction l generalizing seen seen' with
  | nil => rfl
  | cons a rest ih =>
    have ihrest {seen seen' : List κ}
        (hseen : ∀ b ∈ rest, f b ≠ none → ∀ k, key b = some k → (k ∈ seen ↔ k ∈ seen')) :
        (firsts key seen rest).filterMap f = firsts key' seen' (rest.filterMap f) :=
      ih (fun b hb => hkey b (List.mem_cons_of_mem a hb))
        (fun b hb hnone k hk c hc =>
          hother b (List.mem_cons_of_mem a hb) hnone k hk c (List.mem_cons_of_mem a hc)) hseen
    have hrest : ∀ b ∈ rest, f b ≠ none → ∀ k, key b = some k → (k ∈ seen ↔ k ∈ seen') :=
      fun b hb => hseen b (List.mem_cons_of_mem a hb)
    cases hf : f a with
    | none =>
      rw [List.filterMap_cons_none hf, firsts]
      split
      next => rw [List.filterMap_cons_none hf, ihrest hrest]
      next k hk =>
        split
        next => exact ihrest hrest
        next =>
          rw [List.filterMap_cons_none hf]
          refine ihrest fun b hb hb' j hj => ?_
          have hne : j ≠ k := by
            rintro rfl
            exact hother a List.mem_cons_self hf j hk b (List.mem_cons_of_mem a hb) hb' hj
          rw [List.mem_cons, or_iff_right hne, hrest b hb hb' j hj]
    | some b =>
      rw [List.filterMap_cons_some hf, firsts, firsts, hkey a List.mem_cons_self b hf]
      split
      next => rw [List.filterMap_cons_some hf, ihrest hrest]
      next k hk =>
        have hsame := hseen a List.mem_cons_self (by rw [hf]; exact Option.some_ne_none b) k hk
        split
        next hmem => rw [if_pos (hsame.mp hmem), ihrest hrest]
        next hnew =>
          rw [if_neg (mt hsame.mpr hnew), List.filterMap_cons_some hf]
          congr 1
          refine ihrest fun c hc hc' j hj => ?_
          rw [List.mem_cons, List.mem_cons, hrest c hc hc' j hj]

end Firsts

/-! ### What an input stands for -/

/-- Something that an expansion comes to, other than a directory. -/
inductive Met
  | file (path : Path)
  /-- There is something else at the path. -/
  | odd (path : Path)
  /-- There is nothing at the path. -/
  | missing (path : Path)

namespace Met

def ofEntry (path : Path) : Entry → Met
  | .file _ => .file path
  | _ => .odd path

def file? : Met → Option Path
  | .file path => some path
  | _ => none

/-- What is said about it, if it cannot be taken. -/
def message? : Met → Option String
  | .file _ => none
  | .odd path => some (path.text ++ " is not a regular file")
  | .missing path => some (path.text ++ " does not exist")

/-- The place of what is there. -/
def place? (h : Host) : Met → Option Location
  | .file path | .odd path => some (h.resolve path)
  | .missing _ => none

end Met

/-- What is met at a path that leads to the entry: the entry, or the leaves below the directory. -/
def metAt (t : Tree) (path : Path) (place : Location) : Entry → List Met
  | .directory => (t.leaves place).map fun leaf => .ofEntry (path.join ⟨.relative, leaf.1⟩) leaf.2
  | e => [.ofEntry path e]

/-- Nothing can be found at the path. -/
def Host.isMissing (h : Host) (path : Path) : Bool := !(h.tree.find h.home true path).isOk

/-- What a path stands for. -/
def metFrom (h : Host) (path : Path) : List Met :=
  match h.tree.find h.home true path with
  | .ok (place, e) => metAt h.tree path place e
  | .error _ => [.missing path]

theorem metAt_directory (t : Tree) (path : Path) (place : Location) :
    metAt t path place .directory = (t.shown place).flatMap fun name =>
      match t.at? (place ++ [name]) with
      | none => []
      | some e => metAt t (path.child name) (place ++ [name]) e := by
  have hmet (path : Path) (place : Location) : metAt t path place .directory =
      (t.leaves place).map fun leaf => .ofEntry (path.join ⟨.relative, leaf.1⟩) leaf.2 := rfl
  rw [hmet, Tree.leaves_eq, List.map_flatMap]
  refine List.flatMap_congr fun name _ => ?_
  cases t.at? (place ++ [name]) with
  | none => rfl
  | some e =>
    cases e with
    | directory =>
      dsimp only
      rw [hmet, List.map_map]
      refine List.map_congr_left fun leaf _ => ?_
      rw [Path.child_join]
      rfl
    | _ => rfl

/-! ### Places that have been taken -/

/-- Something other than a directory is at the place. -/
def Tree.IsLeaf (t : Tree) (place : Location) : Prop :=
  ∃ e, t.at? place = some e ∧ e ≠ .directory

/-- What is met is met at leaves. -/
def Leafy (h : Host) (items : List Met) : Prop :=
  ∀ item ∈ items, ∀ place, item.place? h = some place → h.tree.IsLeaf place

/-- All that the places show is among them, those apart that are still open. -/
def Closed (t : Tree) (opened places : List Location) : Prop :=
  ∀ place ∈ places, place ∉ opened → ∀ name ∈ t.shown place, place ++ [name] ∈ places

section Met
variable {h : Host} {path : Path} {place : Location} {entry : Entry}

theorem Met.place?_ofEntry : (Met.ofEntry path entry).place? h = some (h.resolve path) := by
  cases entry <;> rfl

theorem metAt_leaf (t : Tree) (path : Path) (place : Location) (hne : entry ≠ .directory) :
    metAt t path place entry = [.ofEntry path entry] := by
  cases entry with
  | directory => exact absurd rfl hne
  | _ => rfl

theorem Met.place?_of_reached (hplain : h.Plain) (hp : h.Reached path place entry) :
    (Met.ofEntry path entry).place? h = some place := by
  rw [Met.place?_ofEntry, hp.resolve hplain]

/-- What is met at a path is at its place, or below the directory there. -/
theorem mem_metAt (hplain : h.Plain) (hp : h.Reached path place entry) {item : Met}
    (hitem : item ∈ metAt h.tree path place entry) :
    ∃ q below e, item = .ofEntry q e ∧ h.Reached q (place ++ below) e ∧ e ≠ .directory ∧
      (below = [] ∨ (below, e) ∈ h.tree.leaves place) := by
  by_cases hdirectory : entry = .directory
  · subst hdirectory
    obtain ⟨⟨below, e⟩, hleaf, rfl⟩ := List.mem_map.mp hitem
    obtain ⟨hbelow, hne⟩ := hp.leaf hplain hleaf
    exact ⟨_, below, e, rfl, hbelow, hne, .inr hleaf⟩
  · rw [metAt_leaf _ _ _ hdirectory] at hitem
    refine ⟨path, [], entry, List.mem_singleton.mp hitem, ?_, hdirectory, .inl rfl⟩
    rwa [List.append_nil]

theorem leafy_metAt (hplain : h.Plain) (hp : h.Reached path place entry) :
    Leafy h (metAt h.tree path place entry) := by
  intro item hitem place' hplace
  obtain ⟨q, below, e, rfl, hreached, hne, -⟩ := mem_metAt hplain hp hitem
  cases (Met.place?_of_reached hplain hreached).symm.trans hplace
  exact ⟨e, hreached.at? hplain, hne⟩

/-- The leaves below a closed place are among the places, too. -/
theorem Closed.leaf {t : Tree} {opened places : List Location} (hclosed : Closed t opened places)
    (hplace : place ∈ places) (hopened : ∀ other ∈ opened, other.length < place.length)
    {below : Location} {e : Entry} (hleaf : (below, e) ∈ t.leaves place) :
    place ++ below ∈ places := by
  induction place using Tree.descend (t := t) generalizing below with
  | step place ih =>
    have hnot : place ∉ opened := fun hmem => Nat.lt_irrefl _ (hopened place hmem)
    rw [Tree.leaves_eq, List.mem_flatMap] at hleaf
    obtain ⟨name, hname, hleaf⟩ := hleaf
    have hchild := hclosed place hplace hnot name hname
    split at hleaf
    next => cases hleaf
    next =>
      obtain ⟨⟨later, e'⟩, hlater, heq⟩ := List.mem_map.mp hleaf
      cases heq
      have hbelow := ih name hname hchild (fun other hother => ?_) hlater
      · rwa [List.append_assoc, List.singleton_append] at hbelow
      · rw [List.length_append]
        exact Nat.lt_add_right _ (hopened other hother)
    next =>
      cases List.mem_singleton.mp hleaf
      exact hchild

end Met

/-! ### Steps -/

namespace Expansion

variable {h : Host} {root path : Path} {e e' e'' next : Expansion} {items items' : List Met}
  {opened : List Location} {paths paths' : List Path}

/-- After some steps the expansion has come to the second. -/
def Leads (h : Host) (root : Path) (e e' : Expansion) : Prop :=
  ∃ k, ∀ n, run h root (n + k) e = run h root n e'

theorem Leads.refl (e : Expansion) : Leads h root e e := ⟨0, fun _ => rfl⟩

theorem Leads.trans (hfirst : Leads h root e e') (hlater : Leads h root e' e'') :
    Leads h root e e'' := by
  obtain ⟨k, hk⟩ := hfirst
  obtain ⟨m, hm⟩ := hlater
  exact ⟨m + k, fun n => by rw [← Nat.add_assoc, hk, hm]⟩

/-- The expansion comes to no path that is refused. -/
def Unrefused (h : Host) (root : Path) (e : Expansion) : Prop :=
  ∃ enough, ∀ n, enough ≤ n → (run h root n e).2 = none

theorem Unrefused.leads (hu : Unrefused h root e) (hleads : Leads h root e e') :
    Unrefused h root e' := by
  obtain ⟨enough, henough⟩ := hu
  obtain ⟨k, hk⟩ := hleads
  exact ⟨enough, fun n hn => by rw [← hk]; exact henough _ (Nat.le_add_right_of_le hn)⟩

theorem Unrefused.step {rest : List Path} (hu : Unrefused h root e)
    (hpending : e.pending = path :: rest) :
    ∃ next, take h root path { e with pending := rest } = .ok next ∧ Leads h root e next := by
  cases htake : take h root path { e with pending := rest } with
  | ok next => exact ⟨next, rfl, 1, run_taken hpending htake⟩
  | error f =>
    obtain ⟨enough, henough⟩ := hu
    have hnone := henough (enough + 1) (Nat.le_succ _)
    simp only [run, hpending, htake] at hnone
    cases hnone

theorem Unrefused.not_tooLong {rest : List Path} (hu : Unrefused h root e)
    (hpending : e.pending = path :: rest) : ¬ h.TooLongAt path := by
  intro hlong
  obtain ⟨next, htake, -⟩ := hu.step hpending
  rw [take_eq, hlong] at htake
  cases htake

/-- Where the next path leads somewhere, that is visited. -/
theorem Unrefused.visits {rest : List Path} {place : Location} {entry : Entry} (hplain : h.Plain)
    (hp : h.Reached path place entry) (hu : Unrefused h root e)
    (hpending : e.pending = path :: rest) :
    h.EntryAt path place entry ∧
      Leads h root e (visit h path entry { e with pending := rest }) := by
  have hentry := (hp.found hplain).resolve_left (hu.not_tooLong hpending)
  obtain ⟨next, htake, hleads⟩ := hu.step hpending
  rw [take_eq, hentry.1] at htake
  refine ⟨hentry, ?_⟩
  cases entry with
  | link target => cases hentry.2
  | _ =>
    cases htake
    exact hleads

/-! ### What a walk through some paths does -/

/-- The second expansion has recorded, of what is met, what was not known before. -/
structure Walked (h : Host) (e : Expansion) (items : List Met) (e' : Expansion) : Prop where
  files : e'.files = e.files ++ (firsts (Met.place? h) e.places items).filterMap Met.file?
  failures : e'.failures =
    e.failures ++ (firsts (Met.place? h) e.places items).filterMap Met.message?
  places : ∀ place ∈ e.places, place ∈ e'.places
  leaves : ∀ place, h.tree.IsLeaf place →
    (place ∈ e'.places ↔ place ∈ e.places ∨ ∃ item ∈ items, item.place? h = some place)

theorem Walked.refl (h : Host) (e : Expansion) : Walked h e [] e where
  files := (List.append_nil _).symm
  failures := (List.append_nil _).symm
  places _ hplace := hplace
  leaves _ _ := by simp

theorem Walked.trans (hfirst : Walked h e items e') (hlater : Walked h e' items' e'')
    (hleafy : Leafy h items') : Walked h e (items ++ items') e'' := by
  have hsplit : firsts (Met.place? h) e.places (items ++ items') =
      firsts (Met.place? h) e.places items ++ firsts (Met.place? h) e'.places items' :=
    firsts_append fun item hitem place hplace =>
      hfirst.leaves place (hleafy item hitem place hplace)
  refine ⟨?_, ?_, fun place hplace => hlater.places place (hfirst.places place hplace),
    fun place hleaf => ?_⟩
  · rw [hsplit, List.filterMap_append, hlater.files, hfirst.files, List.append_assoc]
  · rw [hsplit, List.filterMap_append, hlater.failures, hfirst.failures, List.append_assoc]
  · simp only [hlater.leaves place hleaf, hfirst.leaves place hleaf, List.mem_append, or_and_right,
      exists_or, or_assoc]

/-- Whenever the paths come next, and no path is refused, the expansion walks through them and goes
on with what is behind. -/
structure Walks (h : Host) (root : Path) (opened : List Location) (paths : List Path)
    (items : List Met) : Prop where
  leafy : Leafy h items
  walked : ∀ e rest, e.pending = paths ++ rest → Unrefused h root e →
    Closed h.tree opened e.places → ∃ e', Leads h root e e' ∧ e'.pending = rest ∧
      Walked h e items e' ∧ Closed h.tree opened e'.places ∧
      ∀ p ∈ paths, ∀ place entry, h.Reached p place entry → place ∈ e'.places

theorem Walks.nil : Walks h root opened [] [] where
  leafy _ hitem := absurd hitem List.not_mem_nil
  walked e _ hpending _ hclosed :=
    ⟨e, .refl e, hpending, .refl h e, hclosed, fun _ hp => absurd hp List.not_mem_nil⟩

theorem Walks.append (hfirst : Walks h root opened paths items)
    (hlater : Walks h root opened paths' items') :
    Walks h root opened (paths ++ paths') (items ++ items') := by
  refine ⟨fun item hitem => (List.mem_append.mp hitem).elim (hfirst.leafy item) (hlater.leafy item),
    fun e rest hpending hu hclosed => ?_⟩
  obtain ⟨e', hleads, hpending', hwalked, hclosed', hplaces⟩ :=
    hfirst.walked e (paths' ++ rest) (by rw [hpending, List.append_assoc]) hu hclosed
  obtain ⟨e'', hleads', hpending'', hwalked', hclosed'', hplaces'⟩ :=
    hlater.walked e' rest hpending' (hu.leads hleads) hclosed'
  refine ⟨e'', hleads.trans hleads', hpending'', hwalked.trans hwalked' hlater.leafy, hclosed'',
    fun p hp place entry hreached => ?_⟩
  rcases List.mem_append.mp hp with hp | hp
  · exact hwalked'.places place (hplaces p hp place entry hreached)
  · exact hplaces' p hp place entry hreached

theorem Walks.flatMap {α : Type} {l : List α} {path : α → Path} {met : α → List Met}
    (hall : ∀ a ∈ l, Walks h root opened [path a] (met a)) :
    Walks h root opened (l.map path) (l.flatMap met) := by
  induction l with
  | nil => exact .nil
  | cons a rest ih =>
    rw [List.forall_mem_cons] at hall
    rw [List.map_cons, List.flatMap_cons, ← List.singleton_append]
    exact hall.1.append (ih hall.2)

/-! ### Taking one path -/

theorem children_eq {place : Location} (hentry : h.EntryAt path place .directory) :
    children h path = (h.tree.shown place).map path.child := by
  have hnames : h.names path = h.tree.names place := by
    rw [Host.names, hentry.follow]
  rw [children, hnames]
  rfl

/-- What is met at a place that has been taken is known. -/
theorem walked_again (hplain : h.Plain) {place : Location} {entry : Entry}
    (hp : h.Reached path place entry) (hclosed : Closed h.tree opened e.places)
    (hopened : ∀ other ∈ opened, other.length < place.length) (hseen : place ∈ e.places)
    (hfiles : e'.files = e.files) (hfailures : e'.failures = e.failures)
    (hplaces : e'.places = e.places) : Walked h e (metAt h.tree path place entry) e' := by
  have hknown : ∀ item ∈ metAt h.tree path place entry, ∃ q ∈ e.places, item.place? h = some q := by
    intro item hitem
    obtain ⟨q, below, leaf, rfl, hreached, -, hbelow⟩ := mem_metAt hplain hp hitem
    refine ⟨place ++ below, ?_, Met.place?_of_reached hplain hreached⟩
    rcases hbelow with rfl | hleaf
    · rwa [List.append_nil]
    · exact hclosed.leaf hseen hopened hleaf
  have hnone := firsts_of_seen hknown
  refine ⟨by rw [hnone, hfiles]; exact (List.append_nil _).symm,
    by rw [hnone, hfailures]; exact (List.append_nil _).symm, fun q hq => hplaces ▸ hq,
    fun q _ => ?_⟩
  rw [hplaces, or_iff_left_of_imp]
  rintro ⟨item, hitem, hq⟩
  obtain ⟨q', hq', hplace⟩ := hknown item hitem
  cases hplace.symm.trans hq
  exact hq'

/-- A file is recorded, and so is what is none. -/
theorem walked_leaf (rest : List Path) {entry : Entry} (hnew : h.resolve path ∉ e.places)
    (hne : entry ≠ .directory) :
    Walked h e [.ofEntry path entry] (visit h path entry { e with pending := rest }) ∧
      (visit h path entry { e with pending := rest }).pending = rest ∧
      (visit h path entry { e with pending := rest }).places = h.resolve path :: e.places := by
  have hfirsts : firsts (Met.place? h) e.places [.ofEntry path entry] = [.ofEntry path entry] := by
    rw [firsts, Met.place?_ofEntry]
    exact if_neg hnew
  have hplaces (q : Location) : q ∈ h.resolve path :: e.places ↔
      q ∈ e.places ∨ ∃ item ∈ [Met.ofEntry path entry], item.place? h = some q := by
    simp [Met.place?_ofEntry, or_comm, eq_comm]
  rw [visit, if_neg (mt List.contains_iff_mem.mp hnew)]
  cases entry with
  | directory => exact absurd rfl hne
  | file content =>
    exact ⟨⟨by rw [hfirsts]; rfl, by rw [hfirsts]; exact (List.append_nil _).symm,
      fun q hq => List.mem_cons_of_mem _ hq, fun q _ => hplaces q⟩, rfl, rfl⟩
  | _ =>
    exact ⟨⟨by rw [hfirsts]; exact (List.append_nil _).symm, by rw [hfirsts]; rfl,
      fun q hq => List.mem_cons_of_mem _ hq, fun q _ => hplaces q⟩, rfl, rfl⟩

/-- A directory that is taken is not met itself. -/
theorem Walked.enter {place : Location} (hwalked : Walked h next items e')
    (hleafy : Leafy h items) (hplace : ¬ h.tree.IsLeaf place) (hfiles : next.files = e.files)
    (hfailures : next.failures = e.failures) (hplaces : next.places = place :: e.places) :
    Walked h e items e' := by
  have hother {q : Location} (hq : h.tree.IsLeaf q) : q ∈ next.places ↔ q ∈ e.places := by
    rw [hplaces, List.mem_cons, or_iff_right]
    rintro rfl
    exact hplace hq
  have hfirsts : firsts (Met.place? h) next.places items = firsts (Met.place? h) e.places items :=
    firsts_congr fun item hitem q hq => hother (hleafy item hitem q hq)
  refine ⟨?_, ?_, fun q hq => hwalked.places q (hplaces ▸ List.mem_cons_of_mem place hq),
    fun q hq => by rw [hwalked.leaves q hq, hother hq]⟩
  · rw [hwalked.files, hfiles, hfirsts]
  · rw [hwalked.failures, hfailures, hfirsts]

/-- Where a path leads somewhere, only a place that is new has to be looked at. -/
theorem walks_of_new (hplain : h.Plain) {place : Location} {entry : Entry}
    (hp : h.Reached path place entry) (hopened : ∀ other ∈ opened, other.length < place.length)
    (hnew : ∀ e rest, Unrefused h root (visit h path entry { e with pending := rest }) →
      h.EntryAt path place entry → Closed h.tree opened e.places → h.resolve path ∉ e.places →
      ∃ e', Leads h root (visit h path entry { e with pending := rest }) e' ∧ e'.pending = rest ∧
        Walked h e (metAt h.tree path place entry) e' ∧ Closed h.tree opened e'.places ∧
        place ∈ e'.places) :
    Walks h root opened [path] (metAt h.tree path place entry) := by
  refine ⟨leafy_metAt hplain hp, fun e rest hpending hu hclosed => ?_⟩
  have hplace : h.resolve path = place := hp.resolve hplain
  have hself {places : List Location} (hmem : place ∈ places) : ∀ p ∈ [path], ∀ place' entry',
      h.Reached p place' entry' → place' ∈ places := by
    intro p hpath place' entry' hreached
    rw [List.mem_singleton.mp hpath] at hreached
    rwa [(hp.unique hreached).1]
  rw [List.singleton_append] at hpending
  obtain ⟨hentry, hleads⟩ := hu.visits hplain hp hpending
  by_cases hseen : h.resolve path ∈ e.places
  · have hvisit : visit h path entry { e with pending := rest } =
        { e with pending := rest }.note ("Skipping already visited " ++ path.text) :=
      if_pos (List.contains_iff_mem.mpr hseen)
    rw [hvisit] at hleads
    rw [hplace] at hseen
    exact ⟨_, hleads, rfl, walked_again hplain hp hclosed hopened hseen rfl rfl rfl, hclosed,
      hself hseen⟩
  · obtain ⟨e', hlater, hpending', hwalked, hclosed', hmem⟩ :=
      hnew e rest (hu.leads hleads) hentry hclosed hseen
    exact ⟨e', hleads.trans hlater, hpending', hwalked, hclosed', hself hmem⟩

/-- A directory is walked through if the paths of all that it shows are. -/
theorem walks_directory (hplain : h.Plain) {place : Location}
    (hp : h.Reached path place .directory)
    (hopened : ∀ other ∈ opened, other.length < place.length)
    (hchildren : Walks h root (place :: opened) ((h.tree.shown place).map path.child)
      (metAt h.tree path place .directory)) :
    Walks h root opened [path] (metAt h.tree path place .directory) := by
  refine walks_of_new hplain hp hopened fun e rest hu hentry hclosed hnew => ?_
  have hplace : h.resolve path = place := hp.resolve hplain
  have hvisit : visit h path .directory { e with pending := rest } =
      { e with pending := (h.tree.shown place).map path.child ++ rest,
               places := place :: e.places } := by
    rw [visit, if_neg (mt List.contains_iff_mem.mp hnew), hplace, ← children_eq hentry]
    rfl
  rw [hvisit] at hu ⊢
  have hopen : Closed h.tree (place :: opened) (place :: e.places) := by
    intro q hq hqopened name hname
    rw [List.mem_cons, not_or] at hqopened
    have hq := (List.mem_cons.mp hq).resolve_left hqopened.1
    exact List.mem_cons_of_mem _ (hclosed q hq hqopened.2 name hname)
  obtain ⟨e', hleads, hpending, hwalked, hclosed', hshown⟩ := hchildren.walked _ rest rfl hu hopen
  have hmem : place ∈ e'.places := hwalked.places place List.mem_cons_self
  have hleaf : ¬ h.tree.IsLeaf place := by
    rintro ⟨entry, hat, hne⟩
    cases (hp.at? hplain).symm.trans hat
    exact hne rfl
  refine ⟨e', hleads, hpending, hwalked.enter hchildren.leafy hleaf rfl rfl rfl, ?_, hmem⟩
  -- Now that all it shows has been taken, the directory is closed, too.
  intro q hq hqopened name hname
  by_cases hself : q = place
  · subst hself
    obtain ⟨entry, hat⟩ := Tree.at?_of_mem_names (Tree.mem_names_of_shown hname)
    exact hshown _ (List.mem_map_of_mem hname) _ entry (hp.child hplain hat)
  · exact hclosed' q hq (by simp [hself, hqopened]) name hname

/-- **A path that leads somewhere is walked through**: the entry is recorded, or all the leaves that
are below the directory. -/
theorem walks_entry (hplain : h.Plain) {place : Location} {entry : Entry}
    (hp : h.Reached path place entry) (hopened : ∀ other ∈ opened, other.length < place.length) :
    Walks h root opened [path] (metAt h.tree path place entry) := by
  induction place using Tree.descend (t := h.tree) generalizing path entry opened with
  | step place ih =>
    by_cases hdirectory : entry = .directory
    · subst hdirectory
      refine walks_directory hplain hp hopened ?_
      rw [metAt_directory]
      refine Walks.flatMap fun name hname => ?_
      obtain ⟨e, hat⟩ := Tree.at?_of_mem_names (Tree.mem_names_of_shown hname)
      simp only [hat]
      refine ih name hname (hp.child hplain hat) fun other hother => ?_
      rw [List.length_append, List.length_singleton, Nat.lt_succ_iff]
      rcases List.mem_cons.mp hother with rfl | hother
      · exact Nat.le_refl _
      · exact Nat.le_of_lt (hopened other hother)
    · refine walks_of_new hplain hp hopened fun e rest hu hentry hclosed hnew => ?_
      obtain ⟨hwalked, hpending, hplaces⟩ := walked_leaf rest hnew hdirectory
      rw [metAt_leaf _ _ _ hdirectory]
      rw [hp.resolve hplain] at hplaces
      refine ⟨_, .refl _, hpending, hwalked, ?_, by rw [hplaces]; exact List.mem_cons_self⟩
      intro q hq hqopened name hname
      rw [hplaces] at hq ⊢
      rcases List.mem_cons.mp hq with rfl | hq
      · -- A leaf shows nothing, since whatever is in the tree is in a directory.
        obtain ⟨e', hat⟩ := Tree.at?_of_mem_names (Tree.mem_names_of_shown hname)
        have hat' := hplain.wellFormed q name (by rw [hat]; exact Option.some_ne_none e')
        cases (hp.at? hplain).symm.trans hat'
        exact absurd rfl hdirectory
      · exact List.mem_cons_of_mem _ (hclosed q hq hqopened name hname)

theorem take_nothing (hnothing : h.NothingAt path) :
    take h root path e = .ok (takeMissing h path e) := by
  obtain ⟨t, hfind, hne⟩ := hnothing
  rw [take_eq, hfind]
  cases t with
  | nameTooLong => exact absurd rfl hne
  | _ => rfl

/-- Nothing is met where nothing is found, and that is noted. -/
theorem walks_missing (hnothing : h.NothingAt path) (hliteral : Host.hasWildcard path = false)
    (hnone : ∀ place entry, ¬ h.Reached path place entry) :
    Walks h root opened [path] [.missing path] := by
  refine ⟨fun item hitem place hplace => ?_, fun e rest hpending hu hclosed => ?_⟩
  · rw [List.mem_singleton.mp hitem] at hplace
    cases hplace
  · rw [List.singleton_append] at hpending
    obtain ⟨next, htake, hleads⟩ := hu.step hpending
    rw [take_nothing hnothing, takeMissing, hliteral] at htake
    cases htake
    refine ⟨_, hleads, rfl, ⟨(List.append_nil _).symm, rfl, fun _ hplace => hplace, ?_⟩, hclosed,
      ?_⟩
    · intro place _
      rw [or_iff_left]
      · rfl
      · rintro ⟨item, hitem, hplace⟩
        rw [List.mem_singleton.mp hitem] at hplace
        cases hplace
    · intro p hp place entry hreached
      rw [List.mem_singleton.mp hp] at hreached
      exact absurd hreached (hnone place entry)

theorem metFrom_of_error {t : Trouble} (hfind : h.tree.find h.home false path = .error t) :
    metFrom h path = [.missing path] := by
  rw [metFrom, Host.find_follow (Host.not_linkAt_of_error hfind), hfind]

theorem metFrom_of_entry {place : Location} {entry : Entry} (hentry : h.EntryAt path place entry) :
    metFrom h path = metAt h.tree path place entry := by
  rw [metFrom, hentry.follow]

/-- An input without wildcards is walked through: what it stands for is recorded. -/
theorem walks_metFrom (hplain : h.Plain) (hliteral : Host.hasWildcard path = false) :
    Walks h root [] [path] (metFrom h path) := by
  rcases hplain.look path with hlong | hnothing | ⟨place, entry, hentry⟩
  · rw [metFrom_of_error hlong]
    refine ⟨fun item hitem place hplace => ?_, fun e rest hpending hu _ => ?_⟩
    · rw [List.mem_singleton.mp hitem] at hplace
      cases hplace
    · exact absurd hlong (hu.not_tooLong hpending)
  · obtain ⟨t, hfind, hne⟩ := hnothing
    rw [metFrom_of_error hfind]
    refine walks_missing ⟨t, hfind, hne⟩ hliteral fun place entry hreached => ?_
    rcases hreached.found hplain with hlong | hentry
    · cases hfind.symm.trans hlong
      exact hne rfl
    · cases hfind.symm.trans hentry.1
  · rw [metFrom_of_entry hentry]
    exact walks_entry hplain hentry.reached fun _ hother => absurd hother List.not_mem_nil

/-! ### Whole expansions -/

/-- An expansion that is not refused has walked through all that its inputs stand for. -/
theorem walked_ofInputs (hplain : h.Plain) {inputs : List Path}
    (hliteral : ∀ p ∈ inputs, Host.hasWildcard p = false)
    (hnone : (ofInputs h root inputs).2 = none) :
    Walked h { pending := inputs } (inputs.flatMap (metFrom h)) (ofInputs h root inputs).1 := by
  have hsame := (ofInputs_ends h root inputs (hplain.normalize_eq hplain.home)).2
  have hu : Unrefused h root { pending := inputs } :=
    ⟨bound h inputs, fun n hn => by rw [hsame n hn, hnone]⟩
  have hwalks : Walks h root [] (inputs.map fun p => p) (inputs.flatMap (metFrom h)) :=
    .flatMap fun p hp => walks_metFrom hplain (hliteral p hp)
  rw [List.map_id'] at hwalks
  obtain ⟨e', ⟨k, hk⟩, hpending, hwalked, -, -⟩ :=
    hwalks.walked { pending := inputs } [] (List.append_nil _).symm hu
      fun _ hplace => absurd hplace List.not_mem_nil
  have hdone : run h root (bound h inputs) e' = (e', none) := by
    cases bound h inputs with
    | zero => rfl
    | succ n => rw [run, hpending]
  rw [← hsame _ (Nat.le_add_right _ k), hk, hdone]
  exact hwalked

theorem metFrom_cases (hplain : h.Plain) {item : Met} (hitem : item ∈ metFrom h path) :
    item = .missing path ∧ h.isMissing path = true ∨
      ∃ q place e, item = .ofEntry q e ∧ h.Reached q place e ∧ e ≠ .directory := by
  unfold metFrom at hitem
  split at hitem
  next place e hfind =>
    have hreached : h.Reached path place e :=
      (Tree.goal_eq_ok_iff.mp (Tree.find_eq_ok_iff.mp hfind)).2
    obtain ⟨q, below, leaf, hleaf, hbelow, hne, -⟩ := mem_metAt hplain hreached hitem
    exact .inr ⟨q, place ++ below, leaf, hleaf, hbelow, hne⟩
  next t hfind =>
    refine .inl ⟨List.mem_singleton.mp hitem, ?_⟩
    rw [Host.isMissing, hfind]
    rfl

/-- Whether a file is met shows at its place. -/
theorem file?_of_metFrom (hplain : h.Plain) {item : Met} {place : Location}
    (hitem : item ∈ metFrom h path) (hplace : item.place? h = some place) :
    item.file? ≠ none ↔ ∃ content, h.tree.at? place = some (.file content) := by
  rcases metFrom_cases hplain hitem with ⟨rfl, -⟩ | ⟨q, place', e, rfl, hreached, -⟩
  · cases hplace
  · cases (Met.place?_of_reached hplain hreached).symm.trans hplace
    rw [hreached.at? hplain]
    cases e <;> simp [Met.ofEntry, Met.file?]

theorem files_of_firsts (hplain : h.Plain) (inputs : List Path) :
    (firsts (Met.place? h) [] (inputs.flatMap (metFrom h))).filterMap Met.file? =
      firsts (fun p => some (h.resolve p)) []
        ((inputs.flatMap (metFrom h)).filterMap Met.file?) := by
  refine filterMap_firsts (fun item _ q hq => ?_)
    (fun item hitem hnone place hplace other hother hfile hplace' => ?_) fun _ _ _ _ _ => Iff.rfl
  · cases item with
    | file path =>
      cases hq
      rfl
    | _ => cases hq
  · obtain ⟨p, -, hitem⟩ := List.mem_flatMap.mp hitem
    obtain ⟨p', -, hother⟩ := List.mem_flatMap.mp hother
    exact (file?_of_metFrom hplain hitem hplace).mpr
      ((file?_of_metFrom hplain hother hplace').mp hfile) hnone

/-- Where nothing is odd, only what is missing is noted. -/
theorem messages_of_metFrom (hplain : h.Plain) (hpipes : ∀ place, h.tree.at? place ≠ some .pipe)
    {item : Met} (hitem : item ∈ metFrom h path) (hmessage : item.message? ≠ none) :
    item = .missing path ∧ h.isMissing path = true := by
  refine (metFrom_cases hplain hitem).resolve_right ?_
  rintro ⟨q, place, e, rfl, hreached, hne⟩
  have hat := hreached.at? hplain
  cases e with
  | directory => exact hne rfl
  | file content => exact hmessage rfl
  | link target => exact hplain.no_links place target hat
  | pipe => exact hpipes place hat

theorem failures_of_firsts (hplain : h.Plain) (hpipes : ∀ place, h.tree.at? place ≠ some .pipe)
    (inputs : List Path) :
    (firsts (Met.place? h) [] (inputs.flatMap (metFrom h))).filterMap Met.message? =
      (inputs.filter h.isMissing).map fun p => p.text ++ " does not exist" := by
  rw [filterMap_firsts_of_keyless fun item hitem hmessage => ?_]
  · induction inputs with
    | nil => rfl
    | cons p rest ih =>
      rw [List.flatMap_cons, List.filterMap_append, ih]
      cases hfind : h.tree.find h.home true p with
      | error t =>
        have hmissing : h.isMissing p = true := by
          rw [Host.isMissing, hfind]
          rfl
        have hmet : metFrom h p = [.missing p] := by rw [metFrom, hfind]
        rw [List.filter_cons_of_pos hmissing, hmet]
        rfl
      | ok found =>
        have hmissing : ¬ h.isMissing p = true := by
          rw [Host.isMissing, hfind]
          exact Bool.false_ne_true
        have hnone : (metFrom h p).filterMap Met.message? = [] := by
          rw [List.filterMap_eq_nil_iff]
          intro item hitem
          by_contra hmessage
          exact hmissing (messages_of_metFrom hplain hpipes hitem hmessage).2
        rw [List.filter_cons_of_neg hmissing, hnone, List.nil_append]
  · obtain ⟨p, -, hitem⟩ := List.mem_flatMap.mp hitem
    rw [(messages_of_metFrom hplain hpipes hitem hmessage).1]
    rfl

/-- **An expansion goes down first.** On a plain tree, and for inputs without wildcards, its files
are those that the inputs stand for, one input after the other: a file itself, and for a directory
the files below it, in the order of the names and without what is hidden; of the paths of one file
only the first stays. What is noted is, in the same order, which inputs do not exist and, once each,
what is neither a file nor a directory; if there is nothing of that kind, it is the missing inputs
alone. The expansion comes to its end unless it comes to a path that is too long. -/
theorem ofInputs_depth_first (h : Host) (root : Path) (inputs : List Path) (hplain : h.Plain)
    (hliteral : ∀ p ∈ inputs, Host.hasWildcard p = false) :
    let outcome := ofInputs h root inputs
    let met := inputs.flatMap (metFrom h)
    ((∀ linked p, Comes h root inputs linked p → ¬ h.TooLongAt p) → outcome.2 = none) ∧
    (outcome.2 = none →
      outcome.1.files = firsts (fun p => some (h.resolve p)) [] (met.filterMap Met.file?) ∧
      outcome.1.failures = (firsts (Met.place? h) [] met).filterMap Met.message? ∧
      ((∀ place, h.tree.at? place ≠ some .pipe) → outcome.1.failures =
        (inputs.filter h.isMissing).map fun p => p.text ++ " does not exist")) := by
  intro outcome met
  have hhome : Tree.normalize h.home = h.home := hplain.normalize_eq hplain.home
  refine ⟨fun hshort => ?_, fun hnone => ?_⟩
  · obtain ⟨⟨hnone, -⟩ | ⟨path, rest, hpending, hlong, -⟩, -⟩ := ofInputs_ends h root inputs hhome
    · exact hnone
    · have hfront : path ∈ outcome.1.pending := by
        rw [hpending]
        exact List.mem_cons_self
      obtain ⟨linked, hcomes⟩ := (traced_run h root inputs _).pending path hfront
      exact absurd hlong (hshort linked path hcomes)
  · obtain ⟨hfiles, hfailures, -, -⟩ := walked_ofInputs hplain hliteral hnone
    exact ⟨hfiles.trans (files_of_firsts hplain inputs), hfailures,
      fun hpipes => hfailures.trans (failures_of_firsts hplain hpipes inputs)⟩

/-- A directory with two files and a hidden one, and a pipe beside it. -/
def shelfHost : Host where
  tree := ⟨Assoc.ofList [(["d"], .directory), (["d", "b.txt"], .file "pear\n".toUTF8),
    (["d", "a.txt"], .file "plum\n".toUTF8), (["d", ".old"], .file "fig\n".toUTF8),
    (["p"], .pipe)]⟩

def shelfInputs : List Path := ["d/b.txt", "gone", "d", "d/../p"].map Path.ofString

theorem plain_shelfHost : shelfHost.Plain where
  wellFormed := Tree.wellFormed_of_keys (by decide +kernel)
  no_links := Tree.no_link_of_values (by decide +kernel)
  names := Tree.names_of_keys (by decide +kernel)
  home := rfl

theorem shown_shelf : shelfHost.tree.shown ["d"] = ["a.txt", "b.txt"] := by
  have hnames : ((shelfHost.tree.names ["d"]).filter fun n => n.toList.head? ≠ some '.') =
      ["b.txt", "a.txt"] := by
    decide +kernel
  rw [Tree.shown, hnames, Text.sorted_congr (List.Perm.swap "a.txt" "b.txt" [])]
  exact List.mergeSort_of_pairwise (by decide +kernel)

theorem metFrom_shelf : shelfInputs.flatMap (metFrom shelfHost) =
    [.file ⟨.relative, ["d", "b.txt"]⟩, .missing ⟨.relative, ["gone"]⟩,
      .file ⟨.relative, ["d", "a.txt"]⟩, .file ⟨.relative, ["d", "b.txt"]⟩,
      .odd ⟨.relative, ["d", "..", "p"]⟩] := by
  have hleaves : shelfHost.tree.leaves ["d"] =
      [(["a.txt"], .file "plum\n".toUTF8), (["b.txt"], .file "pear\n".toUTF8)] := by
    rw [Tree.leaves_eq, shown_shelf]
    rfl
  have hdirectory : metFrom shelfHost (Path.ofString "d") =
      [.file ⟨.relative, ["d", "a.txt"]⟩, .file ⟨.relative, ["d", "b.txt"]⟩] := by
    have hmet : metFrom shelfHost (Path.ofString "d") = (shelfHost.tree.leaves ["d"]).map
        fun leaf => .ofEntry ((Path.ofString "d").join ⟨.relative, leaf.1⟩) leaf.2 := rfl
    rw [hmet, hleaves]
    rfl
  rw [shelfInputs, List.map_cons, List.map_cons, List.map_cons, List.flatMap_cons,
    List.flatMap_cons, List.flatMap_cons, hdirectory]
  rfl

/-- All that the expansion can come to. -/
theorem comes_shelf {linked : Bool} (hcomes : Comes shelfHost ⟨.root, []⟩ shelfInputs linked path) :
    path ∈ shelfInputs ++ ["d/a.txt"].map Path.ofString := by
  induction hcomes with
  | given hp => exact List.mem_append_left _ hp
  | followed _ hlink =>
    obtain ⟨place, hfind⟩ := hlink
    exact absurd ((Tree.goal_eq_ok_iff.mp (Tree.find_eq_ok_iff.mp hfind)).2.found_at (by simp))
      (plain_shelfHost.no_links place _)
  | @listed _ p q place _ hentry hq ih =>
    rw [children_eq hentry] at hq
    have hother : ∀ other ∈ shelfInputs ++ ["d/a.txt"].map Path.ofString,
        other = Path.ofString "d" ∨
          (shelfHost.tree.find shelfHost.home false other).toOption.all
            (!·.2.isDirectory) = true := by
      decide +kernel
    rcases hother p ih with rfl | hnone
    · have hfind : shelfHost.tree.find shelfHost.home false (Path.ofString "d") =
          .ok (["d"], .directory) := rfl
      cases hfind.symm.trans hentry.1
      rw [shown_shelf] at hq
      revert q
      decide +kernel
    · rw [hentry.1] at hnone
      cases hnone
  | matched _ _ hwildcard _ ih =>
    have hliteral : ∀ p ∈ shelfInputs ++ ["d/a.txt"].map Path.ofString,
        Host.hasWildcard p = false := by
      decide +kernel
    rw [hliteral _ ih] at hwildcard
    cases hwildcard

/-- One file is named before the directory that it is in, so it comes first, and only there. -/
theorem ofInputs_depth_first_shelf :
    shelfHost.Plain ∧ (∀ p ∈ shelfInputs, Host.hasWildcard p = false) ∧
      (ofInputs shelfHost ⟨.root, []⟩ shelfInputs).2 = none ∧
      (ofInputs shelfHost ⟨.root, []⟩ shelfInputs).1.files =
        [⟨.relative, ["d", "b.txt"]⟩, ⟨.relative, ["d", "a.txt"]⟩] ∧
      (ofInputs shelfHost ⟨.root, []⟩ shelfInputs).1.failures =
        ["gone does not exist", "d/../p is not a regular file"] := by
  have hliteral : ∀ p ∈ shelfInputs, Host.hasWildcard p = false := by decide +kernel
  obtain ⟨hends, hmet⟩ :=
    ofInputs_depth_first shelfHost ⟨.root, []⟩ shelfInputs plain_shelfHost hliteral
  have hshort : ∀ p ∈ shelfInputs ++ ["d/a.txt"].map Path.ofString,
      (match shelfHost.tree.find shelfHost.home false p with
        | .error t => t ≠ .nameTooLong
        | .ok _ => true : Bool) = true := by
    decide +kernel
  have hnone := hends fun linked p hcomes hlong => by
    have hfound := hshort p (comes_shelf hcomes)
    rw [hlong] at hfound
    cases hfound
  obtain ⟨hfiles, hfailures, -⟩ := hmet hnone
  rw [metFrom_shelf] at hfiles hfailures
  refine ⟨plain_shelfHost, hliteral, hnone, hfiles.trans ?_, hfailures.trans ?_⟩
  · decide +kernel
  · decide +kernel

/-- What is neither a file nor a directory is noted, although it is not missing. -/
theorem pipe_is_noted :
    shelfHost.Plain ∧ shelfHost.isMissing (Path.ofString "p") = false ∧
      (ofInputs shelfHost ⟨.root, []⟩ [Path.ofString "p"]).1.failures =
        ["p is not a regular file"] := by
  refine ⟨plain_shelfHost, by decide +kernel, ?_⟩
  have hnone : (run shelfHost ⟨.root, []⟩ 1 { pending := [Path.ofString "p"] }).2.isNone = true := by
    decide +kernel
  have hrun : run shelfHost ⟨.root, []⟩ 1 { pending := [Path.ofString "p"] } =
      ((run shelfHost ⟨.root, []⟩ 1 { pending := [Path.ofString "p"] }).1, none) :=
    Prod.ext rfl (Option.isNone_iff_eq_none.mp hnone)
  rw [Store.ofInputs_enough (by decide) hrun (by decide +kernel)]
  decide +kernel

end Expansion

end MailRules
