import MailRules.Proofs.Declaration.Draft
import MailRules.Proofs.Layout.Pinned

/-! The choice of the names where nothing is pinned.

The names of a source have an underscore and more after the identifier, where the shared path has
the dot of its extension (`Named`). The dot comes before the underscore, so the shared path is before
all of them; the underscore comes after every capital letter, so with the one before the identifier
doubled it is after all of them. One of the names that are tried for the rules over all files thus
always fits, and then the first that is tried for their scores does. So the paths can be chosen
whatever the sources are, and nothing but a clash of two of them is left to fail
(`resolveAll_unpinned`). -/
namespace MailRules.FileName

theorem splitExtension_cf {stem : List Char} (h : ∃ c ∈ stem, c ≠ '.') :
    splitExtension (stem ++ ".cf".toList) = (stem, ".cf".toList) := by
  have hcf : ".cf".toList = ['.', 'c', 'f'] := by decide
  have hcut : LastCut '.' (stem ++ ['.']) ['c', 'f'] := ⟨.inr (by simp), by decide⟩
  have hsolid : stem.any (· ≠ '.') = true := by simpa using h
  have hsplit := hcut.splitExtension
  rw [List.dropLast_concat, if_pos hsolid, List.append_assoc] at hsplit
  rwa [hcf]

theorem scoresPath_cf (directory : String) {stem : String} (hslash : '/' ∉ stem.toList)
    (hsolid : ∃ c ∈ stem.toList, c ≠ '.') :
    scoresPath (directory ++ "/" ++ stem ++ ".cf") =
      directory ++ "/" ++ (stem ++ "_SCORES") ++ ".cf" := by
  have hname : '/' ∉ stem.toList ++ ".cf".toList := by
    rw [List.mem_append, not_or]
    exact ⟨hslash, by decide⟩
  have hpath : (directory ++ "/" ++ stem ++ ".cf").toList =
      directory.toList ++ '/' :: (stem.toList ++ ".cf".toList) := by
    simp
  rw [scoresPath, hpath, splitSlash_below _ hname]
  dsimp only
  rw [splitExtension_cf hsolid, ← String.toList_inj, String.toList_ofList]
  simp

end MailRules.FileName

namespace MailRules.Layout

open MailRules.Action FileName

variable {l m : Layout} {source p q g : String} {sources : List String}

/-! ### Names with a number -/

/-- In the directory, two digits, an underscore, a text without slashes and the extension. -/
def IsNumbered (directory p : String) : Prop :=
  ∃ digits stem : String, digits.length = 2 ∧ (∀ c ∈ digits.toList, c.isDigit = true) ∧
    '/' ∉ stem.toList ∧ p = directory ++ "/" ++ (digits ++ "_" ++ stem) ++ ".cf"

theorem padded_digits (n : Fin 100) : (Value.padded 2 n).length = 2 ∧
    ∀ c ∈ (Value.padded 2 n).toList, c.isDigit = true := by
  have hall : ∀ n : Fin 100, (Value.padded 2 n).length = 2 ∧
      (Value.padded 2 n).toList.all Char.isDigit = true := by
    decide +kernel
  exact (hall n).imp_right List.all_eq_true.mp

theorem digits_noSlash {digits : String} (h : ∀ c ∈ digits.toList, c.isDigit = true) :
    '/' ∉ digits.toList := fun hmem => absurd (h '/' hmem) (by decide)

theorem intercalate_noSlash {parts : List String} (h : ∀ part ∈ parts, '/' ∉ part.toList) :
    '/' ∉ ("_".intercalate parts).toList := by
  rw [String.toList_intercalate]
  intro hmem
  rcases Text.mem_intercalate hmem with hsep | ⟨chars, hchars, hslash⟩
  · exact absurd hsep (by decide)
  · obtain ⟨part, hpart, rfl⟩ := List.mem_map.mp hchars
    exact h part hpart hslash

theorem isNumbered_path (l : Layout) {n : Nat} (hn : n < 100) {parts : List String}
    (h : ∀ part ∈ parts, '/' ∉ part.toList) : IsNumbered l.directory (l.path n parts) := by
  obtain ⟨hlength, hdigits⟩ := padded_digits ⟨n, hn⟩
  exact ⟨_, _, hlength, hdigits, intercalate_noSlash h, path_eq l n parts⟩

/-- The scores have the number of the rules, and more after their name. -/
theorem scoresPath_numbered (directory : String) {digits stem : String}
    (hdigits : ∀ c ∈ digits.toList, c.isDigit = true) (hstem : '/' ∉ stem.toList) :
    scoresPath (directory ++ "/" ++ (digits ++ "_" ++ stem) ++ ".cf") =
      directory ++ "/" ++ (digits ++ "_" ++ (stem ++ "_SCORES")) ++ ".cf" := by
  have hbar : "_".toList = ['_'] := by decide
  rw [scoresPath_cf]
  · simp only [String.append_assoc]
  · simp only [String.toList_append, hbar, List.mem_append, List.mem_singleton, not_or]
    exact ⟨⟨digits_noSlash hdigits, by decide⟩, hstem⟩
  · refine ⟨'_', ?_, by decide⟩
    simp only [String.toList_append, hbar, List.mem_append]
    exact .inl (.inr (List.mem_singleton_self _))

theorem scoresSuffix_noSlash {stem : String} (h : '/' ∉ stem.toList) :
    '/' ∉ (stem ++ "_SCORES").toList := by
  rw [String.toList_append, List.mem_append, not_or]
  exact ⟨h, by decide⟩

theorem IsNumbered.scores {directory : String} (h : IsNumbered directory p) :
    IsNumbered directory (scoresPath p) := by
  obtain ⟨digits, stem, hlength, hdigits, hstem, rfl⟩ := h
  exact ⟨digits, stem ++ "_SCORES", hlength, hdigits, scoresSuffix_noSlash hstem,
    scoresPath_numbered directory hdigits hstem⟩

/-! ### Names of one layout -/

/-- The path of a source without pins: more follows the identifier. -/
def IsNamed (l : Layout) (p : String) : Prop :=
  ∃ part : String, '/' ∉ part.toList ∧ p = l.path l.config.priority.val [l.config.id, part]

theorem intercalate_pair (a b : String) : "_".intercalate [a, b] = a ++ "_" ++ b := rfl

theorem isNamed_own (hmulti : l.config.isSingle = false) (h : l.ownPath? source = some p) :
    IsNamed l p := by
  rw [ownPath?, hmulti, if_neg Bool.false_ne_true] at h
  obtain ⟨segment, hsegment, rfl⟩ := Option.map_eq_some_iff.mp h
  exact ⟨segment, segment?_noSlash hsegment, rfl⟩

theorem IsNamed.numbered (hc : l.config.WellFormed) (h : IsNamed l p) :
    IsNumbered l.directory p := by
  obtain ⟨part, hpart, rfl⟩ := h
  refine isNumbered_path l (by omega) fun name hname => ?_
  rcases List.mem_cons.mp hname with rfl | hname
  · exact hc.id_noSlash
  · rwa [List.mem_singleton.mp hname]

/-- Scores beside the rules of a source have a name of the same kind. -/
theorem IsNamed.scores (hc : l.config.WellFormed) (h : IsNamed l p) : IsNamed l (scoresPath p) := by
  obtain ⟨part, hpart, rfl⟩ := h
  obtain ⟨-, hdigits⟩ := padded_digits ⟨l.config.priority.val, by omega⟩
  have hstem : '/' ∉ ("_".intercalate [l.config.id, part]).toList := by
    refine intercalate_noSlash fun name hname => ?_
    rcases List.mem_cons.mp hname with rfl | hname
    · exact hc.id_noSlash
    · rwa [List.mem_singleton.mp hname]
  refine ⟨part ++ "_SCORES", scoresSuffix_noSlash hpart, ?_⟩
  rw [path_eq, scoresPath_numbered _ hdigits hstem, path_eq, intercalate_pair, intercalate_pair]
  simp only [String.append_assoc]

/-- The dot of the extension comes before the underscore. -/
theorem shared_lt_named (h : IsNamed l p) : l.sharedPath < p := by
  obtain ⟨part, -, rfl⟩ := h
  have hcf : ".cf".toList = '.' :: "cf".toList := by decide
  have hbar : "_".toList = ['_'] := by decide
  have hid : "_".intercalate [l.config.id] = l.config.id := rfl
  rw [sharedPath, path_eq, path_eq, intercalate_pair, hid, Text.lt_iff_toList]
  simp only [String.toList_append, List.append_assoc]
  refine List.append_left_lt (List.append_left_lt (List.append_left_lt (List.append_left_lt
    (List.append_left_lt ?_))))
  rw [hcf, hbar]
  exact List.cons_lt_cons_iff.mpr (.inl (by decide))

theorem named_lt_next (h : IsNamed l p) (hlt : l.config.priority.val < 99) : p < l.nextPath := by
  obtain ⟨part, -, rfl⟩ := h
  exact path_lt_next l hlt _ _

/-- The identifier begins with a capital letter of the basic alphabet. -/
def BeginsCapital (c : Config) : Prop := ∃ ch rest, c.id.toList = ch :: rest ∧ ch.isUpper = true

/-- A capital letter comes before the underscore. -/
theorem named_lt_doubled (hc : l.config.WellFormed) (hid : BeginsCapital l.config)
    (h : IsNamed l p) : p < doubledPath l.sharedPath := by
  obtain ⟨part, -, rfl⟩ := h
  obtain ⟨c, rest, hlist, hupper⟩ := hid
  have hbar : "_".toList = ['_'] := by decide
  have hlt : c < '_' := by
    have hrange : c.val ≥ 'A'.val ∧ c.val ≤ 'Z'.val := of_decide_eq_true hupper
    exact UInt32.lt_of_le_of_lt hrange.2 (by decide)
  rw [doubledPath_shared hc, path_eq, intercalate_pair, Text.lt_iff_toList]
  simp only [String.toList_append, List.append_assoc]
  refine List.append_left_lt (List.append_left_lt (List.append_left_lt (List.append_left_lt ?_)))
  rw [hlist, hbar]
  exact List.cons_lt_cons_iff.mpr (.inl hlt)

/-! ### While the sources get their paths -/

/-- Every path that is there is one that a source has without pins. -/
structure Named (l : Layout) : Prop where
  multi : l.config.isSingle = false
  wellFormed : l.config.WellFormed
  named : ∀ k p, l.path? k = some p → IsNamed l p

theorem named_unpinned {config : Config} (hmulti : config.isSingle = false)
    (hc : config.WellFormed) : Named { config } := ⟨hmulti, hc, fun _ _ h => by cases h⟩

theorem Named.assign (hl : Named l) (k : ArtifactKey) (hp : IsNamed l p) :
    Named (l.assign k p) where
  multi := hl.multi
  wellFormed := hl.wellFormed
  named j q hq := by
    rw [path?_assign] at hq
    split at hq
    next => exact Option.some.inj hq ▸ hp
    next => exact hl.named j q hq

theorem rulesFile_named (hl : Named l) (h : Ends (rulesFile source) l p m) :
    Named m ∧ IsNamed m p := by
  cases ends_rulesFile h with
  | known hp => exact ⟨hl, hl.named _ _ hp⟩
  | chosen _ hr =>
    obtain ⟨rfl, hown⟩ := hr
    have hp := isNamed_own hl.multi hown
    exact ⟨hl.assign _ hp, hp⟩

theorem scoresFile_named (hl : Named l) (h : Ends (scoresFile source) l q m) : Named m := by
  cases ends_scoresFile h with
  | known => exact hl
  | chosen _ hr =>
    cases hr with
    | joined _ hrules =>
      obtain ⟨hr, hp⟩ := rulesFile_named hl hrules
      exact hr.assign _ hp
    | single _ hsingle =>
      rw [hl.multi] at hsingle
      cases hsingle
    | beside _ _ hrules hq =>
      obtain ⟨hr, hp⟩ := rulesFile_named hl hrules
      exact hr.assign _ (hq ▸ hp.scores hr.wellFormed)

theorem rounds_named (h : Rounds SourceRound sources l m) (hl : Named l) : Named m := by
  refine h.keeps ?_ hl
  rintro source s t ⟨_, _, _, hrules, hscores⟩ hs
  exact scoresFile_named (rulesFile_named hs hrules).1 hscores

/-! ### What is after all paths -/

/-- The path comes after every path of the layout. -/
def IsAfterAll (l : Layout) (path : String) : Prop := ∀ k p, l.path? k = some p → p < path

theorem IsAfterAll.fits (h : IsAfterAll l p) (except : ArtifactKey) :
    sortsAfter p l.lastRulesPath? = true ∧ l.isTaken p except = false := by
  have hentry {e : ArtifactKey × String} (he : e ∈ l.artifacts.entries) : e.2 < p :=
    h e.1 e.2 (Assoc.get?_eq_some_iff.mpr he)
  constructor
  · cases hlast : l.lastRulesPath? with
    | none => rfl
    | some last =>
      obtain ⟨e, he, rfl⟩ := List.mem_map.mp (Text.greatest?_mem hlast)
      exact decide_eq_true (hentry (List.mem_filter.mp he).1)
  · rw [isTaken, List.any_eq_false]
    intro e he hsame
    rw [Bool.and_eq_true, decide_eq_true_eq, decide_eq_true_eq] at hsame
    exact String.lt_irrefl p (hsame.2 ▸ hentry he)

theorem globalChoice_shared (hmulti : l.config.isSingle = false) (h : IsAfterAll l l.sharedPath) :
    l.globalChoice? = some l.sharedPath := by
  obtain ⟨hsorts, hfree⟩ := h.fits .global
  simp [globalChoice?, hmulti, hsorts, hfree]

theorem globalChoice_next (hmulti : l.config.isSingle = false)
    (hshared : sortsAfter l.sharedPath l.lastRulesPath? = false)
    (hlt : l.config.priority.val < 99) (h : IsAfterAll l l.nextPath) :
    l.globalChoice? = some l.nextPath := by
  have hfree := (h.fits .global).2
  rw [nextPath] at hfree
  simp [globalChoice?, hmulti, hshared, hlt, hfree, nextPath]

theorem globalChoice_doubled (hmulti : l.config.isSingle = false)
    (hshared : sortsAfter l.sharedPath l.lastRulesPath? = false)
    (hlast : ¬ l.config.priority.val < 99) (h : IsAfterAll l (doubledPath l.sharedPath)) :
    l.globalChoice? = some (doubledPath l.sharedPath) := by
  obtain ⟨hsorts, hfree⟩ := h.fits .global
  simp [globalChoice?, hmulti, hshared, hlast, hsorts, hfree]

/-- One of the names for the rules over all files fits, and it comes after all paths there are. -/
theorem Named.exists_global (hl : Named l) (hid : BeginsCapital l.config)
    (hrules : ∀ k p, l.path? k = some p → ∃ source r, l.path? (rulesKey source) = some r) :
    ∃ g, l.globalChoice? = some g ∧ IsAfterAll l g ∧ IsNumbered l.directory g := by
  have hnoSlash : ∀ part ∈ [l.config.id], '/' ∉ part.toList := fun part hpart => by
    rw [List.mem_singleton.mp hpart]
    exact hl.wellFormed.id_noSlash
  by_cases hempty : ∃ k p, l.path? k = some p
  · obtain ⟨k, p, hp⟩ := hempty
    obtain ⟨source, r, hr⟩ := hrules k p hp
    have hshared : sortsAfter l.sharedPath l.lastRulesPath? = false := by
      by_contra hafter
      rw [Bool.not_eq_false] at hafter
      exact String.lt_asymm (lt_of_sortsAfter hafter hr) (shared_lt_named (hl.named _ _ hr))
    by_cases hlt : l.config.priority.val < 99
    · have hafter : IsAfterAll l l.nextPath := fun k p hp => named_lt_next (hl.named k p hp) hlt
      exact ⟨_, globalChoice_next hl.multi hshared hlt hafter, hafter,
        isNumbered_path l (by omega) hnoSlash⟩
    · have hafter : IsAfterAll l (doubledPath l.sharedPath) :=
        fun k p hp => named_lt_doubled hl.wellFormed hid (hl.named k p hp)
      obtain ⟨hlength, hdigits⟩ := padded_digits ⟨l.config.priority.val, by omega⟩
      refine ⟨_, globalChoice_doubled hl.multi hshared hlt hafter, hafter, _, "_" ++ l.config.id,
        hlength, hdigits, ?_, doubledPath_shared hl.wellFormed⟩
      rw [String.toList_append, List.mem_append, not_or]
      exact ⟨by decide, hl.wellFormed.id_noSlash⟩
  · have hafter : IsAfterAll l l.sharedPath := fun k p hp => absurd ⟨k, p, hp⟩ hempty
    exact ⟨_, globalChoice_shared hl.multi hafter, hafter, isNumbered_path l (by omega) hnoSlash⟩

/-- The first name for the scores over all files fits, unless they stand beside the rules. -/
theorem globalScoresChoice_after (hmulti : l.config.isSingle = false) (hafter : IsAfterAll l g) :
    (l.assign .global g).globalScoresChoice? g =
      some (if l.config.isJoined then g else scoresPath g) := by
  have hscores : IsAfterAll (l.assign .global g) (scoresPath g) := by
    intro k p hp
    rw [path?_assign] at hp
    split at hp
    next => exact Option.some.inj hp ▸ lt_scoresPath g
    next => exact String.lt_trans (hafter k p hp) (lt_scoresPath g)
  have hsorts : sortsAfter (scoresPath g) (some g) = true := decide_eq_true (lt_scoresPath g)
  have hfree := (hscores.fits .globalScores).2
  have hmulti' : (l.assign .global g).config.isSingle = false := hmulti
  have hjoined : (l.assign .global g).config.isJoined = l.config.isJoined := rfl
  rw [globalScoresChoice?, hmulti', hjoined]
  cases l.config.isJoined with
  | true => rfl
  | false =>
    rw [if_neg Bool.false_ne_true, if_neg Bool.false_ne_true, globalScoresCandidates,
      List.cons_append, List.find?_cons_of_pos]
    · rfl
    · rw [hsorts, hfree]
      rfl

/-! ### All choices are made -/

theorem answers_enter (l : Layout) (k : ArtifactKey) (path : String) :
    Answers (do Action.modify (·.assign k path); return path : Action Layout String) l path
      (l.assign k path) :=
  (answers_modify _ l).bind (answers_pure path _)

theorem answers_rulesFile (hmulti : l.config.isSingle = false)
    (hsource : (segment? source).isSome = true) : ∃ p m, Answers (rulesFile source) l p m := by
  obtain ⟨segment, hsegment⟩ := Option.isSome_iff_exists.mp hsource
  cases hpath : l.artifacts.get? ⟨some source, false⟩ with
  | some path =>
    refine ⟨path, l, (answers_get l).bind ?_⟩
    rw [hpath]
    exact answers_pure path l
  | none =>
    let own := l.path l.config.priority.val [l.config.id, segment]
    refine ⟨own, l.assign (rulesKey source) own, (answers_get l).bind ?_⟩
    rw [hpath]
    dsimp only
    rw [hmulti, if_neg Bool.false_ne_true, hsegment]
    exact (answers_pure own l).bind (answers_enter l _ own)

theorem answers_scoresFile (hmulti : l.config.isSingle = false)
    (hsource : (segment? source).isSome = true) : ∃ q m, Answers (scoresFile source) l q m := by
  obtain ⟨p, r, hrules⟩ := answers_rulesFile hmulti hsource
  cases hpath : l.artifacts.get? ⟨some source, true⟩ with
  | some path =>
    refine ⟨path, l, (answers_get l).bind ?_⟩
    rw [hpath]
    exact answers_pure path l
  | none =>
    let q := if l.config.isJoined then p else scoresPath p
    refine ⟨q, r.assign (scoresKey source) q, (answers_get l).bind ?_⟩
    rw [hpath]
    dsimp only [q]
    cases l.config.isJoined with
    | true => exact hrules.bind (answers_enter r _ p)
    | false =>
      rw [hmulti, if_neg Bool.false_ne_true]
      exact hrules.map.bind (answers_enter r _ (scoresPath p))

/-- Sources that have a file name get their paths. -/
theorem answers_sources (hmulti : l.config.isSingle = false)
    (hsources : ∀ source ∈ sources, (segment? source).isSome = true) :
    ∃ r, Answers (chooseAll sources false) l () r ∧ Rounds SourceRound sources l r := by
  let round (source : String) (_ : PUnit) : Action Layout (ForInStep PUnit) := do
    discard (rulesFile source)
    discard (scoresFile source)
    return .yield ⟨⟩
  have hround : ∀ source ∈ sources, ∀ u (s : Layout), s.config.isSingle = false →
      ∃ t, Answers (round source u) s (.yield ⟨⟩) t ∧ t.config.isSingle = false := by
    intro source hs u s hmulti
    obtain ⟨p, r, hrules⟩ := answers_rulesFile hmulti (hsources source hs)
    have hr : r.config.isSingle = false := (rulesFile_extends hrules.ends).1.config ▸ hmulti
    obtain ⟨q, t, hscores⟩ := answers_scoresFile hr (hsources source hs)
    have ht : t.config.isSingle = false := (scoresFile_extends hscores.ends).1.config ▸ hr
    exact ⟨t, hrules.discard.bind (hscores.discard.bind (answers_pure _ t)), ht⟩
  obtain ⟨r, hloop⟩ := answers_forIn hround (u := ⟨⟩) hmulti
  have hall : Answers (chooseAll sources false) l () r := hloop.bind (answers_pure () r)
  obtain ⟨_, hrounds, rfl⟩ := ends_chooseAll hall.ends
  exact ⟨_, hall, hrounds⟩

theorem answers_globalFile (hnone : l.path? .global = none) (hg : l.globalChoice? = some g) :
    Answers globalFile l g (l.assign .global g) := by
  refine (answers_get l).bind ?_
  rw [show l.artifacts.get? .global = none from hnone, hg]
  exact (answers_debug _ l).bind (answers_enter l _ g)

theorem answers_globalScoresFile (hg : l.path? .global = some g)
    (hnone : l.path? .globalScores = none) (hq : l.globalScoresChoice? g = some q) :
    Answers globalScoresFile l q (l.assign .globalScores q) := by
  have hglobal : Answers globalFile l g l := by
    refine (answers_get l).bind ?_
    rw [show l.artifacts.get? .global = some g from hg]
    exact answers_pure g l
  refine (answers_get l).bind ?_
  rw [show l.artifacts.get? .globalScores = none from hnone]
  refine hglobal.bind ((answers_get l).bind ?_)
  rw [hq]
  exact (answers_debug _ l).bind (answers_enter l _ q)

/-- What is left to fail after the choice of every path is the check. -/
theorem run_resolveAll_chosen {withGlobal : Bool}
    (h : Answers (chooseAll sources withGlobal) l () m) :
    ((resolveAll sources withGlobal).run l).1 = (match m.clash? with
      | none => .ok ()
      | some e => .error (.naming e)) ∧ ((resolveAll sources withGlobal).run l).2.1 = m := by
  obtain ⟨said, h⟩ := h []
  rw [run_eq_exec, resolveAll_eq, exec_bind, h]
  dsimp only
  rw [validate, exec_get_bind]
  cases m.clash? <;> exact ⟨rfl, rfl⟩

theorem clash?_sharedPath {e : NamingError} (h : l.clash? = some e) :
    ∃ path first second, e = .sharedPath path first second := by
  have hfind (owners : Assoc String ArtifactKey) (es : List (ArtifactKey × String))
      (h : l.findClash owners es = some e) : ∃ path first second, e = .sharedPath path first second := by
    induction es generalizing owners with
    | nil => cases h
    | cons entry rest ih =>
      rw [findClash] at h
      split at h
      next => exact ih _ h
      next =>
        split at h
        next => exact ih _ h
        next => exact ⟨_, _, _, (Option.some.inj h).symm⟩
  exact hfind _ _ h

theorem chooseAll_true (sources : List String) :
    chooseAll sources true = (do
      chooseAll sources false
      discard globalFile
      discard globalScoresFile) := by
  unfold chooseAll
  simp only [bind_assoc, Bool.false_eq_true, if_false, if_true, pure_bind]

/-! ### The main result -/

/-- The paths that sources get without pins, and those of the artifacts over all files. -/
structure Arranged (config : Config) (sources : List String) (m : Layout) : Prop where
  numbered : ∀ k p, m.path? k = some p → IsNumbered config.outputDir.text p
  sources : ∀ source ∈ sources, ∃ p q, m.path? (rulesKey source) = some p ∧
    m.path? (scoresKey source) = some q ∧ p ≤ q
  global : ∃ g q, m.path? .global = some g ∧ m.path? .globalScores = some q ∧
    (∀ k p, k.isGlobal = false → m.path? k = some p → p < g) ∧
    g ≤ q ∧ (config.isJoined = false → g < q)

/-- A layout with the paths of its sources, and after them those of the artifacts over all files. -/
theorem arranged_assign (hl : Named l) (ho : Ordered l)
    (hplaced : ∀ source ∈ sources, Placed l source) (hafter : IsAfterAll l g)
    (hg : IsNumbered l.directory g) (hq : q = if l.config.isJoined then g else scoresPath g) :
    Arranged l.config sources ((l.assign .global g).assign .globalScores q) := by
  have hpath (k : ArtifactKey) : ((l.assign .global g).assign .globalScores q).path? k =
      if k = .globalScores then some q else if k = .global then some g else l.path? k := by
    rw [path?_assign, path?_assign]
  have hsource (source : String) (scores : Bool) :
      ((l.assign .global g).assign .globalScores q).path? ⟨some source, scores⟩ =
        l.path? ⟨some source, scores⟩ := by
    rw [hpath, if_neg (by rintro ⟨⟩), if_neg (by rintro ⟨⟩)]
  refine ⟨fun k p hp => ?_, fun source hs => ?_, g, q, ?_, ?_, fun k p hk hp => ?_, ?_, ?_⟩
  · rw [hpath] at hp
    split at hp
    next =>
      rw [← Option.some.inj hp, hq]
      split
      · exact hg
      · exact hg.scores
    next =>
      split at hp
      next => exact Option.some.inj hp ▸ hg
      next => exact (hl.named k p hp).numbered hl.wellFormed
  · obtain ⟨⟨r, hr⟩, t, ht⟩ := hplaced source hs
    exact ⟨r, t, (hsource source false).trans hr, (hsource source true).trans ht,
      ho.scores_le hr ht⟩
  · rw [hpath, if_neg (by decide), if_pos rfl]
  · rw [hpath, if_pos rfl]
  · obtain ⟨_ | source, scores⟩ := k
    · cases hk
    · exact hafter _ p ((hsource source scores).symm.trans hp)
  · rw [hq]
    split
    · exact String.le_refl g
    · exact Text.le_of_lt (lt_scoresPath g)
  · intro hjoined
    rw [hq, hjoined, if_neg Bool.false_ne_true]
    exact lt_scoresPath g

theorem beginsCapital_of_alpha {config : Config} {v : Value} (hid : Config.checkId v = .ok config.id)
    (halpha : (config.id.toList.head?.map Char.isAlpha).getD false = true) :
    BeginsCapital config := by
  obtain ⟨c, rest, hlist, hupper⟩ := Config.checkId_upper hid
  rw [hlist] at halpha
  replace halpha : c.isAlpha = true := halpha
  have hname : Declaration.isNameChar c = true := by
    rw [Declaration.isNameChar, Char.isAlphanum, halpha]
    rfl
  exact ⟨c, rest, hlist, Declaration.forall_nameChar
    (P := fun c => c.isAlpha = true → Text.upperChar c = [c] → c.isUpper = true)
    (by decide +kernel) hname halpha hupper⟩

/-- **Without pins, names can always be chosen, and in the right order.** A valid configuration of
many files, whose identifier begins with a letter of the basic alphabet, gives paths to any sources
that have a file name and to the artifacts over all files, so that nothing is left to fail but the
check for a path that is shared. All paths are numbered names in the output directory; the scores of
a source come at or after its rules, the rules over all files after everything of every source, and
their scores at or after them, or strictly after if scores stand apart. -/
theorem resolveAll_unpinned {root : Path} {fields : Assoc String Value} {config : Config}
    (hroot : root.Proper)
    (hpaths : ∀ name ∈ Config.pathFields, ∀ p, fields.get? name = some (.path p) → p.Proper)
    (hmade : Config.ofFields root fields = .ok config) (hmulti : config.isSingle = false)
    (halpha : (config.id.toList.head?.map Char.isAlpha).getD false = true) {sources : List String}
    (hsources : ∀ source ∈ sources, (FileName.segment? source).isSome = true) :
    let resolved := (resolveAll sources true).run { config }
    (resolved.1 = match resolved.2.1.clash? with
      | none => .ok ()
      | some e => .error (.naming e)) ∧
      (∀ e, resolved.2.1.clash? = some e → ∃ path first second, e = .sharedPath path first second) ∧
      Arranged config sources resolved.2.1 := by
  have hc : config.WellFormed := Config.wellFormed_of_ofFields hroot hpaths hmade
  obtain ⟨_, hid⟩ := Config.checkId_of_ofFields hmade
  obtain ⟨r, hchoose, hrounds⟩ := answers_sources (l := { config }) hmulti hsources
  have hr := rounds_named hrounds (named_unpinned hmulti hc)
  have ho := rounds_ordered hrounds (ordered_unpinned config)
  obtain ⟨hextends, hplaced⟩ := rounds_extends hrounds
  have hconfig : r.config = config := hextends.config
  have hrules : ∀ k p, r.path? k = some p → ∃ source p', r.path? (rulesKey source) = some p' := by
    intro k p hp
    cases hrounds with
    | nil => cases hp
    | @cons source =>
      obtain ⟨⟨p', hp'⟩, -⟩ := hplaced source List.mem_cons_self
      exact ⟨source, p', hp'⟩
  obtain ⟨g, hg, hafter, hnumbered⟩ :=
    hr.exists_global (hconfig ▸ beginsCapital_of_alpha hid halpha) hrules
  have hq := globalScoresChoice_after hr.multi hafter
  generalize hqe : (if r.config.isJoined then g else scoresPath g) = q at hq
  have hglobal : (r.assign .global g).path? .global = some g := by rw [path?_assign, if_pos rfl]
  have hnone : (r.assign .global g).path? .globalScores = none := by
    rw [path?_assign, if_neg (by decide)]
    exact ho.globalScores
  have hall : Answers (chooseAll sources true) { config } ()
      ((r.assign .global g).assign .globalScores q) := by
    rw [chooseAll_true]
    exact hchoose.bind ((answers_globalFile ho.global hg).discard.bind
      (answers_globalScoresFile hglobal hnone hq).discard)
  intro resolved
  obtain ⟨hanswer, hlayout⟩ := run_resolveAll_chosen hall
  refine ⟨?_, fun e he => clash?_sharedPath he, ?_⟩
  · rw [show resolved.2.1 = _ from hlayout]
    exact hanswer
  · rw [show resolved.2.1 = _ from hlayout, ← hconfig]
    exact arranged_assign hr ho hplaced hafter hnumbered hqe.symm

/-- There is no next priority, and scores stand apart. -/
def lateFields : Assoc String Value :=
  Assoc.ofList [("priority", .int 99), ("join_scores", .bool false)]

def lateConfig : Config where
  priority := Fin.last 99
  joinScores := .bool false
  root := ⟨.root, []⟩
  groupScore := Config.defaultGroupScore

theorem resolveAll_unpinned_sample :
    Config.ofFields ⟨.root, []⟩ lateFields = .ok lateConfig ∧
      (∀ source ∈ ["a.txt", "b/c"], (segment? source).isSome = true) ∧
      Arranged lateConfig ["a.txt", "b/c"]
        ((resolveAll ["a.txt", "b/c"] true).run { config := lateConfig }).2.1 := by
  have hmade : Config.ofFields ⟨.root, []⟩ lateFields = .ok lateConfig := rfl
  have hpaths : ∀ name ∈ Config.pathFields, ∀ p, lateFields.get? name = some (.path p) → p.Proper := by
    intro name hname p hp
    simp only [Config.pathFields, List.mem_cons, List.not_mem_nil, or_false] at hname
    rcases hname with rfl | rfl <;> cases hp
  have hproper : ({ anchor := .root, parts := [] } : Path).Proper := fun _ hpart =>
    absurd hpart List.not_mem_nil
  have hsources : ∀ source ∈ ["a.txt", "b/c"], (segment? source).isSome = true := by
    decide +kernel
  obtain ⟨-, -, harranged⟩ :=
    resolveAll_unpinned hproper hpaths hmade rfl (by decide) hsources
  exact ⟨hmade, hsources, harranged⟩

end MailRules.Layout
