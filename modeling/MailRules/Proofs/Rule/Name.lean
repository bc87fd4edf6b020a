import MailRules.Proofs.Declaration.Draft
import MailRules.Proofs.Text.Breaks
import MailRules.Rule.Name

/-! What the parts of rule names are made of.

A text as a part of a name has nothing but capital letters of the basic alphabet, digits and
underscores (`segment_capital`), and so have the families of sources and the groups that lines
leave. Such parts are solid. -/
namespace MailRules.Rule

open Text

/-- A capital letter of the basic alphabet, a digit or an underscore. -/
def isCapital (c : Char) : Bool := c.isUpper || c.isDigit || c = '_'

/-- The text has nothing but capital letters, digits and underscores. -/
def isCapitalText (s : String) : Bool := s.toList.all isCapital

@[simp] theorem isCapitalText_append (s t : String) :
    isCapitalText (s ++ t) = (isCapitalText s && isCapitalText t) := by
  rw [isCapitalText, String.toList_append, List.all_append]
  rfl

theorem isNameChar_of_isCapital {c : Char} (h : isCapital c = true) : isNameChar c = true := by
  simp only [isCapital, Bool.or_eq_true, decide_eq_true_eq] at h
  show (((c.isUpper || c.isLower) || c.isDigit) || decide (c = '_')) = true
  rcases h with (h | h) | h <;> simp [h]

theorem isSolid_of_isCapitalText {s : String} (h : isCapitalText s = true) : isSolid s = true := by
  refine isSolid_iff.mpr fun c hc => ?_
  exact Declaration.forall_nameChar (P := fun c => isBlank c = false) (by decide +kernel)
    (isNameChar_of_isCapital (List.all_eq_true.mp h c hc))

/-! ### Segments -/

/-- The small letters of the basic alphabet. -/
def smallCodes : List Nat := (List.range 26).map (97 + ·)

theorem upperImages_notSmall :
    Nat.land (codeSet (caseImages upperRuns upperExpansions)) (codeSet smallCodes) = 0 := by
  decide +kernel

/-- Upper case has no small letters of the basic alphabet. -/
theorem isCapital_of_upper {s : List Char} {c : Char} (h : c ∈ upperChars s)
    (hname : isNameChar c = true) : isCapital c = true := by
  obtain ⟨d, -, hd⟩ := List.mem_flatMap.mp h
  rcases mapCase_images upperRuns upperExpansions d with hself | himages
  · rw [upperChar, hself] at hd
    rw [← List.mem_singleton.mp hd] at hself
    exact Declaration.forall_nameChar
      (P := fun c => upperChar c = [c] → isCapital c = true) (by decide +kernel) hname hself
  · have hsmall := not_mem_of_land upperImages_notSmall (himages c hd)
    exact Declaration.forall_nameChar
      (P := fun c => c.toNat ∉ smallCodes → isCapital c = true) (by decide +kernel) hname hsmall

theorem segment_capital (text : String) : isCapitalText (segment text) = true := by
  rw [isCapitalText, segment, String.toList_ofList, List.all_map, List.all_eq_true]
  intro c hc
  show isCapital (if isNameChar c then c else '_') = true
  split
  next hname => exact isCapital_of_upper hc hname
  next => rfl

theorem family_capital {id source family : String} (h : family? id source = some family) :
    isCapitalText family = true := by
  obtain ⟨s, -, rfl⟩ := Option.map_eq_some_iff.mp h
  exact segment_capital _

/-- A group that a line leaves is a part of a name. -/
theorem group_capital {group : String} (h : Declaration.IsCanonicalGroup group) :
    isCapitalText group = true := by
  refine List.all_eq_true.mpr fun c hc => ?_
  have hhigh : c.toUpper = c := List.map_inj_left.mp (h.high.trans (List.map_id _).symm) c hc
  exact Declaration.forall_nameChar (P := fun c => c.toUpper = c → isCapital c = true)
    (by decide +kernel) (Declaration.mem_isGroupName h.name c hc) hhigh

/-- Numbers are parts of names. -/
theorem natText_capital (n : Nat) : isCapitalText (toString n) = true := by
  refine List.all_eq_true.mpr fun c hc => ?_
  rw [Nat.toString_eq_repr, Nat.toList_repr] at hc
  simp [isCapital, isDigit_toDigits hc]

/-! ### Patterns -/

/-- Escaping adds backslashes only. -/
theorem mem_backslashed {kind : Char → Bool} {s : List Char} {c : Char}
    (h : c ∈ backslashed kind s) : c = '\\' ∨ c ∈ s := by
  obtain ⟨d, hd, hc⟩ := List.mem_flatMap.mp h
  split at hc
  next =>
    rcases List.mem_cons.mp hc with hbackslash | hc
    · exact .inl hbackslash
    · exact .inr (List.mem_singleton.mp hc ▸ hd)
  next => exact .inr (List.mem_singleton.mp hc ▸ hd)

/-- The pattern of a word without blanks stands on one line. -/
theorem isUnbroken_wordPattern {word : String} (h : isSolid word = true) :
    isUnbroken (wordPattern word) = true := by
  have hescaped : isUnbroken (String.ofList (escape word.toList)) = true := by
    refine isUnbroken_of_isSolid (isSolid_iff.mpr fun c hc => ?_)
    rw [String.toList_ofList] at hc
    rcases mem_backslashed hc with rfl | hc
    · decide
    rcases mem_backslashed hc with rfl | hc
    · decide
    · exact isSolid_iff.mp h c hc
  rw [wordPattern, isUnbroken_append, isUnbroken_append, hescaped]
  decide

end MailRules.Rule
