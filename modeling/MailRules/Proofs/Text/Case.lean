import Mathlib.Data.Nat.Bitwise
import MailRules.Text.Basic
import MailRules.Text.Case
import MailRules.Text.Digit

/-! Letters and their cases.

A case table leaves a character as it is, or puts characters of its `images` in its place. No
image of the lower case is itself a source, a blank or a digit, so lower case stays as it is
(`lowerChars_lowerChars`), and what was no blank, digit or comment sign becomes none. The tables
are compared as sets of bits, one for each code point. -/
namespace MailRules.Text

/-! ### Sets of code points -/

def codeSet (codes : List Nat) : Nat :=
  codes.foldr (fun n set => Nat.lor (Nat.shiftLeft 1 n) set) 0

theorem testBit_codeSet {codes : List Nat} {n : Nat} :
    (codeSet codes).testBit n = true ↔ n ∈ codes := by
  induction codes with
  | nil => simp [codeSet]
  | cons m rest ih =>
    show (Nat.lor (Nat.shiftLeft 1 m) (codeSet rest)).testBit n = true ↔ _
    have hlor : Nat.lor (Nat.shiftLeft 1 m) (codeSet rest) = 1 <<< m ||| codeSet rest := rfl
    rw [hlor, Nat.testBit_or, Bool.or_eq_true, ih, List.mem_cons, Nat.testBit_shiftLeft]
    refine or_congr_left ?_
    rw [Bool.and_eq_true, decide_eq_true_eq, Nat.testBit_one_eq_true_iff_self_eq_zero]
    omega

/-- Two sets without a common bit have no common element. -/
theorem not_mem_of_land {as bs : List Nat} (h : Nat.land (codeSet as) (codeSet bs) = 0) {n : Nat}
    (ha : n ∈ as) : n ∉ bs := by
  intro hb
  have hboth : (codeSet as &&& codeSet bs).testBit n = true := by
    rw [Nat.testBit_and, testBit_codeSet.mpr ha, testBit_codeSet.mpr hb]
    rfl
  have hzero : codeSet as &&& codeSet bs = 0 := h
  rw [hzero, Nat.zero_testBit] at hboth
  cases hboth

/-! ### What a table does -/

/-- The code points of a run. -/
def CaseRun.sources : CaseRun → List Nat
  | (first, last, step, _) => (List.range ((last - first) / step + 1)).map fun k => first + k * step

/-- What a run puts in the place of a code point. -/
def CaseRun.image (run : CaseRun) (n : Nat) : Nat := ((n : Int) + run.2.2.2).toNat

/-- The code points that a table changes. -/
def caseSources (runs : List CaseRun) (expansions : List (Nat × List Nat)) : List Nat :=
  runs.flatMap CaseRun.sources ++ expansions.map Prod.fst

/-- The code points that a table gives; zero stands for numbers that are none. -/
def caseImages (runs : List CaseRun) (expansions : List (Nat × List Nat)) : List Nat :=
  0 :: (runs.flatMap fun run => run.sources.map run.image)
    ++ expansions.flatMap Prod.snd

theorem mem_sources {run : CaseRun} {n : Nat} {shift : Int} (h : run.shift? n = some shift) :
    n ∈ run.sources ∧ run.2.2.2 = shift := by
  obtain ⟨first, last, step, shift'⟩ := run
  rw [CaseRun.shift?] at h
  split at h
  next hin =>
    obtain ⟨hfirst, hlast, hstep⟩ := hin
    refine ⟨List.mem_map.mpr ⟨(n - first) / step, ?_, ?_⟩, Option.some.inj h⟩
    · exact List.mem_range.mpr (Nat.lt_succ_of_le (Nat.div_le_div_right (by omega)))
    · have hdvd := Nat.div_mul_cancel (Nat.dvd_of_mod_eq_zero hstep)
      omega
  next => cases h

theorem toNat_ofNat_mem {codes : List Nat} {n : Nat} (h : n ∈ codes) :
    (Char.ofNat n).toNat ∈ 0 :: codes := by
  by_cases hvalid : n.isValidChar
  · have hchar : Char.ofNat n = Char.ofNatAux n hvalid := dif_pos hvalid
    exact List.mem_cons_of_mem 0 (hchar ▸ h)
  · have hchar : Char.ofNat n = '\x00' := dif_neg hvalid
    rw [hchar]
    exact List.mem_cons_self

/-- A character that is no source stays. -/
theorem mapCase_of_not_source {runs : List CaseRun} {expansions : List (Nat × List Nat)} {c : Char}
    (h : c.toNat ∉ caseSources runs expansions) : mapCase runs expansions c = [c] := by
  rw [caseSources, List.mem_append, not_or] at h
  have hruns : runs.findSome? (CaseRun.shift? · c.toNat) = none := by
    rw [List.findSome?_eq_none_iff]
    intro run hrun
    rw [Option.eq_none_iff_forall_ne_some]
    exact fun shift hshift => h.1 (List.mem_flatMap.mpr ⟨run, hrun, (mem_sources hshift).1⟩)
  have hexpansions : expansions.lookup c.toNat = none := by
    rw [List.lookup_eq_none_iff]
    intro e he
    rw [bne_iff_ne]
    exact fun hc => h.2 (List.mem_map.mpr ⟨e, he, hc.symm⟩)
  rw [mapCase, hruns, hexpansions]

/-- A character stays, or only images take its place. -/
theorem mapCase_images (runs : List CaseRun) (expansions : List (Nat × List Nat)) (c : Char) :
    mapCase runs expansions c = [c] ∨
      ∀ d ∈ mapCase runs expansions c, d.toNat ∈ caseImages runs expansions := by
  rw [mapCase]
  split
  next shift hshift =>
    obtain ⟨run, hrun, hshift⟩ := List.exists_of_findSome?_eq_some hshift
    obtain ⟨hsource, rfl⟩ := mem_sources hshift
    refine .inr fun d hd => ?_
    rw [List.mem_singleton.mp hd]
    have hmem := toNat_ofNat_mem (List.mem_map_of_mem (f := run.image) hsource)
    rcases List.mem_cons.mp hmem with hzero | himage
    · exact hzero ▸ List.mem_cons_self
    · exact List.mem_cons_of_mem 0 (List.mem_append_left _ (List.mem_flatMap.mpr ⟨run, hrun, himage⟩))
  next =>
    split
    next codes hcodes =>
      refine .inr fun d hd => ?_
      obtain ⟨n, hn, rfl⟩ := List.mem_map.mp hd
      rcases List.mem_cons.mp (toNat_ofNat_mem hn) with hzero | himage
      · exact hzero ▸ List.mem_cons_self
      · obtain ⟨before, after, hsplit, -⟩ := List.lookup_eq_some_iff.mp hcodes
        have hentry : (c.toNat, codes) ∈ expansions :=
          hsplit ▸ List.mem_append_right _ List.mem_cons_self
        exact List.mem_cons_of_mem 0
          (List.mem_append_right _ (List.mem_flatMap.mpr ⟨_, hentry, himage⟩))
    next => exact .inl rfl

/-! ### Lower case -/

/-- The code points of a table of ranges. -/
def rangeCodes (ranges : List CodeRange) : List Nat :=
  ranges.flatMap fun r => (List.range (r.2 + 1 - r.1)).map (r.1 + ·)

theorem mem_rangeCodes {ranges : List CodeRange} {c : Char} (h : covered ranges c = true) :
    c.toNat ∈ rangeCodes ranges := by
  obtain ⟨r, hr, hc⟩ := List.any_eq_true.mp h
  rw [CodeRange.covers, Bool.and_eq_true, decide_eq_true_eq, decide_eq_true_eq] at hc
  refine List.mem_flatMap.mpr ⟨r, hr, List.mem_map.mpr ⟨c.toNat - r.1, ?_, ?_⟩⟩
  · exact List.mem_range.mpr (by omega)
  · omega

/-- The decimal digits of every script. -/
def digitCodes : List Nat := zeros.flatMap fun z => (List.range 10).map (z + ·)

theorem mem_digitCodes {c : Char} (h : isDigit c = true) : c.toNat ∈ digitCodes := by
  obtain ⟨v, hv⟩ := Option.isSome_iff_exists.mp h
  obtain ⟨z, hz, -⟩ := Option.map_eq_some_iff.mp hv
  have hin := List.find?_some hz
  rw [Bool.and_eq_true, decide_eq_true_eq, decide_eq_true_eq] at hin
  refine List.mem_flatMap.mpr ⟨z, List.mem_of_find?_eq_some hz, List.mem_map.mpr ⟨c.toNat - z, ?_, ?_⟩⟩
  · exact List.mem_range.mpr (by omega)
  · omega

/-- What no image of the lower case is: a source, a blank, a digit or the comment sign. -/
def unlowered : List Nat :=
  caseSources lowerRuns lowerExpansions ++ (rangeCodes blankRanges ++ (digitCodes ++ ['#'.toNat]))

theorem lowerImages_apart :
    Nat.land (codeSet (caseImages lowerRuns lowerExpansions)) (codeSet unlowered) = 0 := by
  decide +kernel

theorem lowerChar_images (c : Char) :
    lowerChar c = [c] ∨ ∀ d ∈ lowerChar c, d.toNat ∉ unlowered :=
  (mapCase_images lowerRuns lowerExpansions c).imp_right fun h d hd =>
    not_mem_of_land lowerImages_apart (h d hd)

theorem lowerChar_ne_nil (c : Char) : lowerChar c ≠ [] := by
  rw [lowerChar, mapCase]
  split
  next => exact List.cons_ne_nil _ _
  next =>
    split
    next codes hcodes =>
      obtain ⟨before, after, hsplit, -⟩ := List.lookup_eq_some_iff.mp hcodes
      have hentry : (c.toNat, codes) ∈ lowerExpansions :=
        hsplit ▸ List.mem_append_right _ List.mem_cons_self
      have hall : ∀ e ∈ lowerExpansions, e.2 ≠ [] := by decide
      exact fun hnil => hall _ hentry (List.map_eq_nil_iff.mp hnil)
    next => exact List.cons_ne_nil _ _

/-- A character that lower case leaves alone, wherever it stands. -/
def IsLow (c : Char) : Prop := lowerChar c = [c] ∧ c ≠ 'Σ'

theorem isLow_of_not_mem {c : Char} (h : c.toNat ∉ unlowered) : IsLow c := by
  have hsource : c.toNat ∉ caseSources lowerRuns lowerExpansions :=
    fun hc => h (List.mem_append_left _ hc)
  refine ⟨mapCase_of_not_source hsource, ?_⟩
  rintro rfl
  exact hsource (by decide +kernel)

theorem isLow_of_mem_lowerChar {c d : Char} (hc : c ≠ 'Σ') (hd : d ∈ lowerChar c) : IsLow d := by
  rcases lowerChar_images c with hself | himages
  · rw [hself] at hd
    obtain rfl := List.mem_singleton.mp hd
    exact ⟨hself, hc⟩
  · exact isLow_of_not_mem (himages d hd)

/-- The small sigmas are low, and no blanks. -/
theorem smallSigma_not_mem {c : Char} (h : c = 'ς' ∨ c = 'σ') : c.toNat ∉ unlowered := by
  rcases h with rfl | rfl <;> decide +kernel

theorem mem_lowerFrom {inWord : Bool} {s : List Char} {d : Char} (h : d ∈ lowerFrom inWord s) :
    (d = 'ς' ∨ d = 'σ') ∨ ∃ c ∈ s, c ≠ 'Σ' ∧ d ∈ lowerChar c := by
  induction s generalizing inWord with
  | nil => cases h
  | cons c rest ih =>
    rw [lowerFrom] at h
    rcases List.mem_append.mp h with hhere | hlater
    · split at hhere
      next =>
        refine .inl ?_
        rw [List.mem_singleton] at hhere
        rw [hhere]
        split
        · exact .inl rfl
        · exact .inr rfl
      next hc => exact .inr ⟨c, List.mem_cons_self, hc, hhere⟩
    · exact (ih hlater).imp_right fun ⟨c', hc', hrest⟩ => ⟨c', List.mem_cons_of_mem c hc', hrest⟩

theorem isLow_of_mem_lowerFrom {inWord : Bool} {s : List Char} {d : Char}
    (h : d ∈ lowerFrom inWord s) : IsLow d := by
  rcases mem_lowerFrom h with hsigma | ⟨c, -, hc, hd⟩
  · exact isLow_of_not_mem (smallSigma_not_mem hsigma)
  · exact isLow_of_mem_lowerChar hc hd

theorem lowerFrom_of_isLow {inWord : Bool} {s : List Char} (h : ∀ c ∈ s, IsLow c) :
    lowerFrom inWord s = s := by
  induction s generalizing inWord with
  | nil => rfl
  | cons c rest ih =>
    obtain ⟨hlow, hsigma⟩ := h c List.mem_cons_self
    rw [lowerFrom, if_neg hsigma, hlow, ih fun d hd => h d (List.mem_cons_of_mem c hd)]
    rfl

/-- Lower case stays as it is. -/
theorem lowerChars_lowerChars (s : List Char) : lowerChars (lowerChars s) = lowerChars s :=
  lowerFrom_of_isLow fun _ hd => isLow_of_mem_lowerFrom hd

theorem isBlank_of_mem_unlowered {c : Char} (h : c.toNat ∉ unlowered) : isBlank c = false := by
  by_contra hblank
  rw [Bool.not_eq_false] at hblank
  exact h (List.mem_append_right _ (List.mem_append_left _ (mem_rangeCodes hblank)))

/-- Lower case holds a blank only where there was one. -/
theorem lowerChars_not_blank {s : List Char} (h : ∀ c ∈ s, isBlank c = false) :
    ∀ d ∈ lowerChars s, isBlank d = false := by
  intro d hd
  rcases mem_lowerFrom hd with hsigma | ⟨c, hc, -, hd⟩
  · exact isBlank_of_mem_unlowered (smallSigma_not_mem hsigma)
  · rcases lowerChar_images c with hself | himages
    · rw [hself] at hd
      exact List.mem_singleton.mp hd ▸ h c hc
    · exact isBlank_of_mem_unlowered (himages d hd)

/-- What starts a word in lower case was there, or is no digit and no comment sign. -/
theorem lowerChars_head {c : Char} (rest : List Char) (hdigit : isDigit c = false) (hsign : c ≠ '#') :
    ∃ d later, lowerChars (c :: rest) = d :: later ∧ isDigit d = false ∧ d ≠ '#' := by
  have happart {d : Char} (hd : d.toNat ∉ unlowered) : isDigit d = false ∧ d ≠ '#' := by
    constructor
    · by_contra hdigit
      rw [Bool.not_eq_false] at hdigit
      exact hd (List.mem_append_right _ (List.mem_append_right _ (List.mem_append_left _
        (mem_digitCodes hdigit))))
    · rintro rfl
      exact hd (List.mem_append_right _ (List.mem_append_right _ (List.mem_append_right _
        List.mem_cons_self)))
  rw [lowerChars, lowerFrom]
  split
  next =>
    refine ⟨_, _, rfl, happart (smallSigma_not_mem ?_)⟩
    split
    · exact .inl rfl
    · exact .inr rfl
  next =>
    cases hlower : lowerChar c with
    | nil => exact absurd hlower (lowerChar_ne_nil c)
    | cons d later =>
      refine ⟨d, _, rfl, ?_⟩
      rcases lowerChar_images c with hself | himages
      · rw [hself] at hlower
        obtain ⟨rfl, -⟩ := List.cons.inj hlower
        exact ⟨hdigit, hsign⟩
      · exact happart (himages d (hlower ▸ List.mem_cons_self))

/-! ### Upper case -/

theorem upperImages_apart : Nat.land (codeSet (caseImages upperRuns upperExpansions))
    (codeSet ['/'.toNat]) = 0 := by
  decide +kernel

/-- Upper case holds a slash only where there was one. -/
theorem upperChars_noSlash {s : List Char} (h : '/' ∉ s) : '/' ∉ upperChars s := by
  intro hmem
  obtain ⟨c, hc, hslash⟩ := List.mem_flatMap.mp hmem
  rcases mapCase_images upperRuns upperExpansions c with hself | himages
  · rw [upperChar, hself, List.mem_singleton] at hslash
    exact h (hslash ▸ hc)
  · exact not_mem_of_land upperImages_apart (himages _ hslash) List.mem_cons_self

theorem upperImages_notSources : Nat.land (codeSet (caseImages upperRuns upperExpansions))
    (codeSet (caseSources upperRuns upperExpansions)) = 0 := by
  decide +kernel

theorem upperChar_of_mem {s : List Char} {c : Char} (h : c ∈ upperChars s) : upperChar c = [c] := by
  obtain ⟨d, -, hd⟩ := List.mem_flatMap.mp h
  rcases mapCase_images upperRuns upperExpansions d with hself | himages
  · rw [upperChar, hself] at hd
    rw [List.mem_singleton.mp hd]
    exact hself
  · exact mapCase_of_not_source (not_mem_of_land upperImages_notSources (himages c hd))

/-- Upper case stays as it is. -/
theorem upper_upper (s : String) : upper (upper s) = upper s := by
  rw [upper, upper, String.toList_ofList]
  refine congrArg String.ofList ?_
  have hstays {t : List Char} (h : ∀ c ∈ t, upperChar c = [c]) : upperChars t = t := by
    induction t with
    | nil => rfl
    | cons c rest ih =>
      rw [List.forall_mem_cons] at h
      rw [upperChars, List.flatMap_cons, h.1, ← upperChars, ih h.2]
      rfl
  exact hstays fun _ => upperChar_of_mem

end MailRules.Text
