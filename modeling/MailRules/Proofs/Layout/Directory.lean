import MailRules.Proofs.Config
import MailRules.Proofs.Layout.Choice
import MailRules.Proofs.Layout.FileName
import MailRules.Proofs.Text.Case

/-! The directory of the artifacts.

Every path that a layout chooses by itself is a plain name in the output directory, and stays one
when the scores are set apart or an underscore is doubled. So a layout that nothing is pinned in has
all its paths there (`resolved_inDirectory`). -/
namespace MailRules.FileName

/-- A name that a directory can hold: without a slash, and not of dots alone. -/
structure IsPlain (name : List Char) : Prop where
  noSlash : '/' ∉ name
  solid : ∃ c ∈ name, c ≠ '.'

theorem IsPlain.isPart {name : String} (h : IsPlain name.toList) : Path.IsPart name := by
  obtain ⟨c, hc, hdot⟩ := h.solid
  refine ⟨List.ne_nil_of_mem hc, ?_, h.noSlash⟩
  intro hname
  rw [hname, List.mem_singleton] at hc
  exact hdot hc

theorem IsPlain.ne_up {name : String} (h : IsPlain name.toList) : name ≠ ".." := by
  rintro rfl
  obtain ⟨c, hc, hdot⟩ := h.solid
  have hdots : ".".toList ++ ".".toList = "..".toList := by decide
  rw [← hdots] at hc
  simp at hc
  exact hdot hc

theorem splitSlash_below (directory : List Char) {name : List Char} (h : '/' ∉ name) :
    splitSlash (directory ++ '/' :: name) = (directory ++ ['/'], name) := by
  have hcut : LastCut '/' (directory ++ ['/']) name := ⟨.inr (by simp), h⟩
  have hsplit := hcut.splitSlash
  rwa [List.append_assoc, List.singleton_append] at hsplit

/-- The scores of an artifact lie beside it. -/
theorem scoresPath_below (directory : List Char) {name : List Char} (h : IsPlain name) :
    ∃ name', IsPlain name' ∧
      (scoresPath (String.ofList (directory ++ '/' :: name))).toList = directory ++ '/' :: name' := by
  have hmark : '_' ∈ scoresMark := by decide
  refine ⟨scoresName name, ⟨scoresName_noSlash h.noSlash, '_', ?_, by decide⟩, ?_⟩
  · exact List.mem_append_left _ (List.mem_append_right _ hmark)
  · rw [toList_scoresPath, String.toList_ofList, splitSlash_below directory h.noSlash]
    simp

theorem mem_doubleUnderscore {name : List Char} {c : Char} :
    c ∈ doubleUnderscore name ↔ c ∈ name := by
  induction name with
  | nil => rfl
  | cons d rest ih =>
    rw [doubleUnderscore]
    split
    next hd => simp [hd]
    next => rw [List.mem_cons, List.mem_cons, ih]

/-- A directory as the text of a path has it: no slash at its end, unless it is the root. -/
def IsDirectoryText (directory : List Char) : Prop :=
  directory.all (· = '/') = true ∨ directory.getLast? ≠ some '/'

theorem getLast?_intercalate {parts : List String} (h : ∀ part ∈ parts, Path.IsPart part)
    (hne : parts ≠ []) :
    ∃ c, (List.intercalate ['/'] (parts.map String.toList)).getLast? = some c ∧ c ≠ '/' := by
  induction parts with
  | nil => exact absurd rfl hne
  | cons part rest ih =>
    cases rest with
    | nil =>
      have hpart := h part List.mem_cons_self
      refine ⟨part.toList.getLast hpart.nonempty, ?_, fun hslash => ?_⟩
      · simpa using List.getLast?_eq_some_getLast hpart.nonempty
      · exact hpart.noSlash (hslash ▸ List.getLast_mem hpart.nonempty)
    | cons next later =>
      obtain ⟨c, hc, hslash⟩ := ih (fun q hq => h q (List.mem_cons_of_mem part hq)) (by simp)
      refine ⟨c, ?_, hslash⟩
      rw [List.map_cons] at hc
      rw [List.map_cons, List.map_cons, List.intercalate_cons_cons, List.getLast?_append, hc]
      rfl

theorem isDirectoryText_text {p : Path} (hp : p.Proper) : IsDirectoryText p.text.toList := by
  rw [Path.text]
  split
  next => exact .inr (by decide)
  next hdot =>
    rw [String.toList_append, String.toList_intercalate]
    by_cases hparts : p.parts = []
    · rw [hparts]
      cases hanchor : p.anchor with
      | relative => exact absurd ⟨hanchor, hparts⟩ hdot
      | root => exact .inl (by decide)
      | doubleRoot => exact .inl (by decide)
    · obtain ⟨c, hc, hslash⟩ := getLast?_intercalate hp hparts
      refine .inr ?_
      show ((Path.Anchor.text p.anchor).toList
        ++ List.intercalate ['/'] (p.parts.map String.toList)).getLast? ≠ some '/'
      rw [List.getLast?_append, hc]
      simpa using hslash

theorem joinSlash_trimSlashes {directory : List Char} (h : IsDirectoryText directory)
    (name : List Char) :
    joinSlash (trimSlashes (directory ++ ['/'])) name = directory ++ '/' :: name := by
  by_cases hall : directory.all (· = '/') = true
  · have hboth : (directory ++ ['/']).all (· = '/') = true := by
      rw [List.all_append, hall]
      rfl
    rw [trimSlashes, if_pos hboth, joinSlash, if_pos (by simp)]
    simp
  · have hlast := h.resolve_left hall
    have hboth : ¬ (directory ++ ['/']).all (· = '/') = true := by
      rw [List.all_append, Bool.and_eq_true]
      exact fun hb => hall hb.1
    have hkept : directory.reverse.dropWhile (· = '/') = directory.reverse := by
      cases hrev : directory.reverse with
      | nil => rfl
      | cons c rest =>
        have hc : directory.getLast? = some c := by
          rw [← List.head?_reverse, hrev]
          rfl
        rw [hc] at hlast
        exact List.dropWhile_cons_of_neg (by simpa using hlast)
    have hne : directory ≠ [] := by
      rintro rfl
      exact hall rfl
    rw [trimSlashes, if_neg hboth, List.reverse_append, List.reverse_singleton,
      List.singleton_append, List.dropWhile_cons_of_pos (by simp), hkept, List.reverse_reverse,
      joinSlash, if_neg]
    simp [hne, hlast]

/-- A name with its first underscore doubled stays in its directory. -/
theorem doubledPath_below {directory : List Char} (hd : IsDirectoryText directory)
    {name : List Char} (h : '/' ∉ name) :
    (doubledPath (String.ofList (directory ++ '/' :: name))).toList =
      directory ++ '/' :: doubleUnderscore name := by
  rw [doubledPath, String.toList_ofList, String.toList_ofList, splitSlash_below directory h]
  exact joinSlash_trimSlashes hd _

theorem segment?_noSlash {source segment : String} (h : segment? source = some segment) :
    '/' ∉ segment.toList := by
  obtain ⟨p, -, rfl⟩ := Option.map_eq_some_iff.mp h
  rw [Text.upper, String.toList_ofList]
  refine Text.upperChars_noSlash ?_
  rw [String.toList_map]
  intro hmem
  obtain ⟨c, -, hc⟩ := List.mem_map.mp hmem
  split at hc
  next => exact absurd hc (by decide)
  next hne => exact hne hc

end MailRules.FileName

namespace MailRules.Layout

open MailRules.Action FileName

/-- A plain name in the output directory. -/
def IsInside (directory p : String) : Prop :=
  ∃ name : String, IsPlain name.toList ∧ p = directory ++ "/" ++ name

theorem isInside_iff {directory p : String} :
    IsInside directory p ↔
      ∃ name, IsPlain name ∧ p.toList = directory.toList ++ '/' :: name := by
  have hchars (name : String) : (directory ++ "/" ++ name).toList =
      directory.toList ++ '/' :: name.toList := by
    simp
  constructor
  · rintro ⟨name, hname, rfl⟩
    exact ⟨name.toList, hname, hchars name⟩
  · rintro ⟨name, hname, hp⟩
    refine ⟨String.ofList name, by rwa [String.toList_ofList], ?_⟩
    rw [← String.toList_inj, hchars, hp, String.toList_ofList]

/-- Every path of the layout lies in its output directory. -/
def InDirectory (l : Layout) : Prop := ∀ k p, l.path? k = some p → IsInside l.directory p

variable {l m : Layout} {p q : String}

theorem padded_plain : ∀ n : Fin 101,
    '/' ∉ (Value.padded 2 n).toList ∧ '_' ∉ (Value.padded 2 n).toList := by
  decide +kernel

theorem isInside_path (l : Layout) {n : Nat} (hn : n ≤ 100) {parts : List String}
    (hparts : ∀ part ∈ parts, '/' ∉ part.toList) : IsInside l.directory (l.path n parts) := by
  refine ⟨Value.padded 2 n ++ "_" ++ "_".intercalate parts ++ ".cf", ⟨?_, ?_⟩, ?_⟩
  · have hcf : '/' ∉ ".cf".toList := by decide
    have hbar : '/' ∉ "_".toList := by decide
    have hnames : '/' ∉ List.intercalate "_".toList (parts.map String.toList) := by
      intro hmem
      rcases Text.mem_intercalate hmem with hsep | ⟨chars, hchars, hslash⟩
      · exact hbar hsep
      · obtain ⟨part, hpart, rfl⟩ := List.mem_map.mp hchars
        exact hparts part hpart hslash
    simp only [String.toList_append, String.toList_intercalate, List.mem_append, not_or]
    exact ⟨⟨⟨(padded_plain ⟨n, by omega⟩).1, hbar⟩, hnames⟩, hcf⟩
  · refine ⟨'_', ?_, by decide⟩
    have hbar : '_' ∈ "_".toList := by decide
    simp only [String.toList_append, List.mem_append]
    exact .inl (.inl (.inr hbar))
  · rw [path]
    simp only [String.append_assoc]

variable {source : String}

theorem IsInside.scoresPath (hp : IsInside l.directory p) :
    IsInside l.directory (FileName.scoresPath p) := by
  obtain ⟨name, hname, hp⟩ := isInside_iff.mp hp
  obtain ⟨name', hname', hscores⟩ := scoresPath_below l.directory.toList hname
  refine isInside_iff.mpr ⟨name', hname', ?_⟩
  rw [← hscores, ← hp, String.ofList_toList]

theorem IsInside.doubledPath (hl : l.config.WellFormed) (hp : IsInside l.directory p) :
    IsInside l.directory (FileName.doubledPath p) := by
  obtain ⟨name, hname, hp⟩ := isInside_iff.mp hp
  obtain ⟨c, hc, hdot⟩ := hname.solid
  have hdoubled := doubledPath_below (isDirectoryText_text hl.outputDir) hname.noSlash
  refine isInside_iff.mpr ⟨doubleUnderscore name, ⟨?_, c, mem_doubleUnderscore.mpr hc, hdot⟩, ?_⟩
  · exact fun hslash => hname.noSlash (mem_doubleUnderscore.mp hslash)
  · rw [← String.ofList_toList (s := p), hp]
    exact hdoubled

theorem isInside_shared (hl : l.config.WellFormed) : IsInside l.directory l.sharedPath :=
  isInside_path l (by omega) fun part hpart => by
    rw [List.mem_singleton.mp hpart]
    exact hl.id_noSlash

theorem isInside_own (hl : l.config.WellFormed) (h : l.ownPath? source = some p) :
    IsInside l.directory p := by
  rw [ownPath?] at h
  split at h
  next => exact Option.some.inj h ▸ isInside_shared hl
  next =>
    obtain ⟨segment, hsegment, rfl⟩ := Option.map_eq_some_iff.mp h
    refine isInside_path l (by omega) fun part hpart => ?_
    rcases List.mem_cons.mp hpart with rfl | hpart
    · exact hl.id_noSlash
    · rw [List.mem_singleton.mp hpart]
      exact segment?_noSlash hsegment

theorem isInside_globalChoice (hl : l.config.WellFormed) (h : l.globalChoice? = some p) :
    IsInside l.directory p := by
  have hid : ∀ part ∈ [l.config.id], '/' ∉ part.toList := fun part hpart => by
    rw [List.mem_singleton.mp hpart]
    exact hl.id_noSlash
  unfold globalChoice? at h
  split at h
  next => exact Option.some.inj h ▸ isInside_shared hl
  next =>
    dsimp only at h
    split at h
    next => exact Option.some.inj h ▸ isInside_shared hl
    next =>
      split at h
      next => exact Option.some.inj h ▸ isInside_path l (by omega) hid
      next =>
        split at h
        next => exact Option.some.inj h ▸ (isInside_shared hl).doubledPath hl
        next => cases h

theorem isInside_globalScoresChoice (hl : l.config.WellFormed) (hp : IsInside l.directory p)
    (h : l.globalScoresChoice? p = some q) : IsInside l.directory q := by
  have hscores : ∀ part ∈ [l.config.id, "SCORES"], '/' ∉ part.toList := by
    intro part hpart
    rcases List.mem_cons.mp hpart with rfl | hpart
    · exact hl.id_noSlash
    · rw [List.mem_singleton.mp hpart]
      decide
  unfold globalScoresChoice? at h
  split at h
  next => exact Option.some.inj h ▸ hp
  next =>
    split at h
    next => exact Option.some.inj h ▸ (isInside_shared hl).scoresPath
    next =>
      have hmem := List.mem_of_find?_eq_some h
      rw [globalScoresCandidates, List.mem_append, List.mem_cons, List.mem_cons,
        List.mem_singleton] at hmem
      rcases hmem with (rfl | rfl | hnext) | rfl
      · exact hp.scoresPath
      · exact isInside_path l (by omega) hscores
      · split at hnext
        next n hn =>
          split at hnext
          next hlt =>
            rw [List.mem_singleton.mp hnext]
            exact isInside_path l (by omega) hscores
          next => cases hnext
        next => cases hnext
      · exact hp.doubledPath hl

/-! ### Layouts -/

theorem inDirectory_unpinned (config : Config) : InDirectory { config } :=
  fun _ _ h => by cases h

theorem InDirectory.assign (hl : InDirectory l) (k : ArtifactKey) (hp : IsInside l.directory p) :
    InDirectory (l.assign k p) := by
  intro j q hq
  rw [path?_assign] at hq
  split at hq
  next => exact Option.some.inj hq ▸ hp
  next => exact hl j q hq

theorem rulesFile_inDirectory (hc : l.config.WellFormed) (hl : InDirectory l)
    (h : Ends (rulesFile source) l p m) : InDirectory m ∧ IsInside l.directory p := by
  cases ends_rulesFile h with
  | known hp => exact ⟨hl, hl _ _ hp⟩
  | chosen _ hr =>
    obtain ⟨rfl, hown⟩ := hr
    have hp := isInside_own hc hown
    exact ⟨hl.assign _ hp, hp⟩

theorem scoresFile_inDirectory (hc : l.config.WellFormed) (hl : InDirectory l)
    (h : Ends (scoresFile source) l q m) : InDirectory m := by
  cases ends_scoresFile h with
  | known => exact hl
  | chosen _ hr =>
    cases hr with
    | joined _ hrules =>
      obtain ⟨hr, hp⟩ := rulesFile_inDirectory hc hl hrules
      exact hr.assign _ (by rwa [directory, (rulesFile_extends hrules).1.config])
    | single _ _ hq => exact hl.assign _ (hq ▸ (isInside_shared hc).scoresPath)
    | beside _ _ hrules hq =>
      obtain ⟨hr, hp⟩ := rulesFile_inDirectory hc hl hrules
      refine hr.assign _ ?_
      rw [directory, (rulesFile_extends hrules).1.config, hq]
      exact hp.scoresPath

theorem globalFile_inDirectory (hc : l.config.WellFormed) (hl : InDirectory l)
    (h : Ends globalFile l p m) : InDirectory m ∧ IsInside l.directory p := by
  cases ends_globalFile h with
  | known hp => exact ⟨hl, hl _ _ hp⟩
  | chosen _ hr =>
    obtain ⟨rfl, hchoice⟩ := hr
    have hp := isInside_globalChoice hc hchoice
    exact ⟨hl.assign _ hp, hp⟩

theorem globalScoresFile_inDirectory (hc : l.config.WellFormed) (hl : InDirectory l)
    (h : Ends globalScoresFile l q m) : InDirectory m := by
  cases ends_globalScoresFile h with
  | known => exact hl
  | chosen _ hr =>
    obtain ⟨rules, hrules, hchoice⟩ := hr
    obtain ⟨hr, hp⟩ := globalFile_inDirectory hc hl hrules
    have hconfig := (globalFile_extends hrules).1.config
    refine hr.assign _ (isInside_globalScoresChoice (hconfig ▸ hc) ?_ hchoice)
    rwa [directory, hconfig]

/-- Every path of a layout that is resolved without pins lies in the output directory. -/
theorem resolved_inDirectory {config : Config} (hc : config.WellFormed) {sources : List String}
    {withGlobal : Bool} {u : Unit} (h : Ends (resolveAll sources withGlobal) { config } u m) :
    InDirectory m := by
  obtain ⟨l, hrounds, hlast, -⟩ := ends_resolveAll h
  have hl : l.config = config ∧ InDirectory l := by
    refine hrounds.keeps (P := fun l => l.config = config ∧ InDirectory l) ?_
      ⟨rfl, inDirectory_unpinned config⟩
    rintro source s t ⟨_, r, _, hrules, hscores⟩ ⟨hconfig, hs⟩
    have hr := (rulesFile_inDirectory (hconfig ▸ hc) hs hrules).1
    have hrconfig := (rulesFile_extends hrules).1.config.trans hconfig
    exact ⟨(scoresFile_extends hscores).1.config.trans hrconfig,
      scoresFile_inDirectory (hrconfig ▸ hc) hr hscores⟩
  obtain ⟨hconfig, hl⟩ := hl
  split at hlast
  next =>
    obtain ⟨_, r, _, hrules, hscores⟩ := hlast
    have hr := (globalFile_inDirectory (hconfig ▸ hc) hl hrules).1
    have hrconfig := (globalFile_extends hrules).1.config.trans hconfig
    exact globalScoresFile_inDirectory (hrconfig ▸ hc) hr hscores
  next => exact hlast ▸ hl

end MailRules.Layout
