import MailRules.Proofs.Layout.Directory
import MailRules.Proofs.Layout.Order

/-! Where the rules over all files go when paths are pinned.

A source has its pinned path, or the one that its name gives. Of the names that are tried for the
rules over all files, the first and the third are compared with the last of these paths; the name
of the next priority is not, since without pins it comes after all of them anyway. So these rules
come last exactly if no source is pinned at or after that name, or there is no next priority
(`Resolved.last_iff`). -/
namespace MailRules.Layout

open MailRules.Action

variable {l m r : Layout} {source p q : String}

/-- The path of the rules of a source: the one it has, or else the one that its name gives. -/
def rulesPath? (l : Layout) (source : String) : Option String :=
  (l.path? (rulesKey source)).or (l.ownPath? source)

/-- The shared path of the next priority. -/
def nextPath (l : Layout) : String := l.path (l.config.priority.val + 1) [l.config.id]

/-- The names that are tried for the rules over all files. -/
def globalNames (l : Layout) : List String :=
  l.sharedPath :: (if l.config.priority.val < 99 then [l.nextPath] else [])
    ++ [FileName.doubledPath l.sharedPath]

/-- The path is loaded after the rules of all the sources. -/
def LoadedLast (l : Layout) (sources : List String) (path : String) : Prop :=
  ∀ source ∈ sources, ∀ p, l.rulesPath? source = some p → p < path

/-- No source has a path at or after the shared path of the next priority, if there is one. -/
def NextIsFree (l : Layout) (sources : List String) : Prop :=
  l.config.priority.val < 99 →
    ∀ source ∈ sources, ∀ p, l.path? (rulesKey source) = some p → p < l.nextPath

/-! ### While the sources get their paths -/

/-- The layout `r` has come from `l` by giving sources their paths. -/
structure Underway (l r : Layout) : Prop where
  config : r.config = l.config
  rulesPath? : ∀ source, r.rulesPath? source = l.rulesPath? source
  global : l.path? .global = none → r.path? .global = none

theorem Underway.refl (l : Layout) : Underway l l := ⟨rfl, fun _ => rfl, id⟩

theorem Underway.trans (h : Underway l r) (h' : Underway r m) : Underway l m :=
  ⟨h'.config.trans h.config, fun s => (h'.rulesPath? s).trans (h.rulesPath? s),
    fun hl => h'.global (h.global hl)⟩

theorem underway_assignRules (hnone : l.path? (rulesKey source) = none)
    (hown : l.ownPath? source = some p) : Underway l (l.assign (rulesKey source) p) where
  config := rfl
  rulesPath? s := by
    rw [rulesPath?, rulesPath?, path?_assign]
    by_cases hs : s = source
    · rw [if_pos (by rw [hs]), hs, hnone, hown]
      rfl
    · rw [if_neg (by simpa using hs)]
      rfl
  global hl := (path?_assign_source _ _ _ _ _).trans hl

theorem underway_assignScores (l : Layout) (source path : String) :
    Underway l (l.assign (scoresKey source) path) where
  config := rfl
  rulesPath? s := by
    rw [rulesPath?, rulesPath?, path?_assign, if_neg (by simp)]
    rfl
  global hl := (path?_assign_source _ _ _ _ _).trans hl

theorem rulesFile_underway (h : Ends (rulesFile source) l p m) : Underway l m := by
  cases ends_rulesFile h with
  | known => exact .refl l
  | chosen hnone hr =>
    obtain ⟨rfl, hown⟩ := hr
    exact underway_assignRules hnone hown

theorem scoresFile_underway (h : Ends (scoresFile source) l p m) : Underway l m := by
  cases ends_scoresFile h with
  | known => exact .refl l
  | chosen _ hr =>
    cases hr with
    | joined _ hrules => exact (rulesFile_underway hrules).trans (underway_assignScores _ _ _)
    | single => exact underway_assignScores _ _ _
    | beside _ _ hrules _ => exact (rulesFile_underway hrules).trans (underway_assignScores _ _ _)

theorem rounds_underway {sources : List String} (h : Rounds SourceRound sources l m) :
    Underway l m := by
  refine h.keeps (P := Underway l) ?_ (.refl l)
  rintro source s t ⟨_, _, _, hrules, hscores⟩ hs
  exact (hs.trans (rulesFile_underway hrules)).trans (scoresFile_underway hscores)

/-! ### The choice -/

theorem shared_lt_next (h : l.config.priority.val < 99) : l.sharedPath < l.nextPath :=
  path_lt_next l h _ _

theorem doubleUnderscore_append {digits : List Char} (h : '_' ∉ digits) (rest : List Char) :
    FileName.doubleUnderscore (digits ++ rest) = digits ++ FileName.doubleUnderscore rest := by
  induction digits with
  | nil => rfl
  | cons c digits ih =>
    rw [List.mem_cons, not_or] at h
    rw [List.cons_append, FileName.doubleUnderscore, if_neg (Ne.symm h.1), ih h.2]
    rfl

/-- A path as a directory, a name and the extension. -/
theorem path_eq (l : Layout) (n : Nat) (parts : List String) :
    l.path n parts = l.directory ++ "/" ++
      (Value.padded 2 n ++ "_" ++ "_".intercalate parts) ++ ".cf" := by
  rw [path]
  simp only [String.append_assoc]

/-- The first underscore of the shared path is the one before the identifier. -/
theorem doubledPath_shared (hl : l.config.WellFormed) :
    FileName.doubledPath l.sharedPath = l.directory ++ "/" ++
      (Value.padded 2 l.config.priority.val ++ "_" ++ ("_" ++ l.config.id)) ++ ".cf" := by
  obtain ⟨hslash, hbar⟩ := padded_plain ⟨l.config.priority.val, by omega⟩
  let name := (Value.padded 2 l.config.priority.val).toList ++ '_' :: (l.config.id ++ ".cf").toList
  have hshared : l.sharedPath = String.ofList (l.directory.toList ++ '/' :: name) := by
    rw [← String.toList_inj, String.toList_ofList]
    simp [sharedPath, path, name]
  have hname : '/' ∉ name := by
    have hcf : '/' ∉ ".cf".toList := by decide
    simp only [name, String.toList_append, List.mem_append, List.mem_cons, not_or]
    exact ⟨hslash, by decide, hl.id_noSlash, hcf⟩
  rw [← String.toList_inj, hshared]
  refine (FileName.doubledPath_below (FileName.isDirectoryText_text hl.outputDir) hname).trans ?_
  rw [doubleUnderscore_append hbar, FileName.doubleUnderscore, if_pos rfl]
  simp [directory]

/-- Doubling an underscore does not reach the next priority. -/
theorem doubled_lt_next (hl : l.config.WellFormed) (h : l.config.priority.val < 99) :
    FileName.doubledPath l.sharedPath < l.nextPath := by
  obtain ⟨hlt, hlen⟩ := padded_lt ⟨l.config.priority.val, h⟩
  rw [doubledPath_shared hl, nextPath, path_eq, Text.lt_iff_toList]
  simp only [String.toList_append, List.append_assoc]
  exact List.append_left_lt (List.append_left_lt (Text.append_lt_append hlen hlt))

/-- The chosen name sorts after the paths there are, or is that of the next priority. -/
theorem globalChoice_cases (hmulti : l.config.isSingle = false) {g : String}
    (hg : l.globalChoice? = some g) :
    g ∈ l.globalNames ∧
      ((g = l.nextPath ∧ l.config.priority.val < 99) ∨
        (g = l.sharedPath ∨ g = FileName.doubledPath l.sharedPath) ∧
          FileName.sortsAfter g l.lastRulesPath? = true) := by
  unfold globalChoice? at hg
  rw [hmulti, if_neg Bool.false_ne_true] at hg
  dsimp only at hg
  rw [globalNames]
  split at hg
  next hfits =>
    obtain rfl := Option.some.inj hg
    exact ⟨by simp, .inr ⟨.inl rfl, (Bool.and_eq_true_iff.mp hfits).1⟩⟩
  next =>
    split at hg
    next hnext =>
      obtain rfl := Option.some.inj hg
      have hlt := of_decide_eq_true (Bool.and_eq_true_iff.mp hnext).1
      exact ⟨by simp [hlt, nextPath], .inl ⟨rfl, hlt⟩⟩
    next =>
      split at hg
      next hfits =>
        obtain rfl := Option.some.inj hg
        exact ⟨by simp, .inr ⟨.inr rfl, (Bool.and_eq_true_iff.mp hfits).1⟩⟩
      next => cases hg

/-! ### The whole layout -/

/-- What resolving a layout of many files with global words has done, `g` being the path of the
rules over all files. -/
structure Resolved (l m : Layout) (sources : List String) (g : String) : Prop where
  chosen : ∃ r, Underway l r ∧ r.globalChoice? = some g ∧
    ∀ source ∈ sources, r.path? (rulesKey source) = l.rulesPath? source
  global : m.pathAt .global = g
  rules : ∀ source ∈ sources, l.rulesPath? source = some (m.pathAt (rulesKey source))

theorem resolved_of_ends {sources : List String} {u : Unit} (hnone : l.path? .global = none)
    (h : Ends (resolveAll sources true) l u m) : ∃ g, Resolved l m sources g := by
  obtain ⟨r, hrounds, hlast, -⟩ := ends_resolveAll h
  replace hlast : GlobalRound r m := hlast
  have hunder := rounds_underway hrounds
  have hrules : ∀ source ∈ sources, r.path? (rulesKey source) = l.rulesPath? source ∧
      l.rulesPath? source = some (m.pathAt (rulesKey source)) := by
    intro source hs
    obtain ⟨⟨p, hp⟩, -⟩ := (rounds_extends hrounds).2 source hs
    have hl : l.rulesPath? source = some p := by
      rw [← hunder.rulesPath?, rulesPath?, hp]
      rfl
    rw [hl, hp, pathAt_eq (hlast.extends.1.path? _ _ hp)]
    exact ⟨rfl, rfl⟩
  obtain ⟨g, t, _, hglobal, hscores⟩ := hlast
  have hg := (globalScoresFile_extends hscores).1.path? _ _ (globalFile_extends hglobal).2
  cases ends_globalFile hglobal with
  | known hknown =>
    rw [hunder.global hnone] at hknown
    cases hknown
  | chosen _ hchoice =>
    obtain ⟨rfl, hchoice⟩ := hchoice
    exact ⟨g, ⟨_, hunder, hchoice, fun source hs => (hrules source hs).1⟩, pathAt_eq hg,
      fun source hs => (hrules source hs).2⟩

variable {sources : List String} {g : String}

theorem Underway.names (h : Underway l r) :
    r.sharedPath = l.sharedPath ∧ r.nextPath = l.nextPath ∧ r.globalNames = l.globalNames := by
  have hpath (n : Nat) (parts : List String) : r.path n parts = l.path n parts := by
    rw [path, path, directory, directory, h.config]
  have hshared : r.sharedPath = l.sharedPath := by
    rw [sharedPath, sharedPath, hpath, h.config]
  have hnext : r.nextPath = l.nextPath := by
    rw [nextPath, nextPath, hpath, h.config]
  refine ⟨hshared, hnext, ?_⟩
  rw [globalNames, globalNames, hshared, hnext, h.config]

/-- The rules over all files come last exactly if the name of the next priority is free. -/
theorem Resolved.last_iff (h : Resolved l m sources g) (hc : l.config.WellFormed)
    (hmulti : l.config.isSingle = false) :
    (∀ source ∈ sources, m.pathAt (rulesKey source) < m.pathAt .global) ↔
      l.NextIsFree sources := by
  obtain ⟨⟨r, hunder, hchoice, hrules⟩, hglobal, hpaths⟩ := h
  obtain ⟨-, hnext, -⟩ := hunder.names
  have hpinned {source p : String} (hs : source ∈ sources) (hp : l.path? (rulesKey source) = some p) :
      m.pathAt (rulesKey source) = p := by
    have hsome := hpaths source hs
    rw [rulesPath?, hp] at hsome
    exact (Option.some.inj hsome).symm
  obtain ⟨-, ⟨rfl, hlt⟩ | ⟨hname, hafter⟩⟩ := globalChoice_cases (hunder.config ▸ hmulti) hchoice
  · rw [hglobal, hnext]
    constructor
    · intro hall _ source hs p hp
      exact hpinned hs hp ▸ hall source hs
    · intro hfree source hs
      have hsome := hpaths source hs
      rw [rulesPath?, Option.or_eq_some_iff] at hsome
      rw [hunder.config] at hlt
      rcases hsome with hp | ⟨-, hown⟩
      · exact hfree hlt source hs _ hp
      · -- A name that is not pinned has this priority.
        rw [ownPath?, hmulti, if_neg Bool.false_ne_true] at hown
        obtain ⟨segment, -, hown⟩ := Option.map_eq_some_iff.mp hown
        exact hown ▸ path_lt_next l hlt _ _
  · have hall : ∀ source ∈ sources, m.pathAt (rulesKey source) < m.pathAt .global := by
      intro source hs
      rw [hglobal]
      exact lt_of_sortsAfter hafter ((hrules source hs).trans (hpaths source hs))
    refine ⟨fun _ hlt source hs p hp => ?_, fun _ => hall⟩
    have hg : g < l.nextPath := by
      rw [← hnext]
      rcases hname with rfl | rfl
      · exact shared_lt_next (hunder.config ▸ hlt)
      · exact doubled_lt_next (hunder.config ▸ hc) (hunder.config ▸ hlt)
    have hp := hpinned hs hp ▸ hall source hs
    rw [hglobal] at hp
    exact String.lt_trans hp hg

/-- Where the rules over all files come last, one of the names that are tried does. -/
theorem Resolved.exists_last (h : Resolved l m sources g) (hmulti : l.config.isSingle = false)
    (hlast : ∀ source ∈ sources, m.pathAt (rulesKey source) < m.pathAt .global) :
    ∃ p ∈ l.globalNames, l.LoadedLast sources p := by
  obtain ⟨⟨r, hunder, hchoice, -⟩, hglobal, hpaths⟩ := h
  obtain ⟨-, -, hnames⟩ := hunder.names
  have hmem := (globalChoice_cases (hunder.config ▸ hmulti) hchoice).1
  refine ⟨g, hnames ▸ hmem, fun source hs p hp => ?_⟩
  rw [hpaths source hs] at hp
  rw [← Option.some.inj hp, ← hglobal]
  exact hlast source hs

end MailRules.Layout
