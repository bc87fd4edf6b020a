import MailRules.Text.Template

/-! Templates that can be filled.

Text without braces stands for itself, and a place with a known name for its value, so a template
that is made of such parts is filled part by part. -/
namespace MailRules.Text

/-- No brace opens or closes a place. -/
def Unbraced (s : List Char) : Prop := '\x7b' ∉ s ∧ '\x7d' ∉ s

instance (s : List Char) : Decidable (Unbraced s) := inferInstanceAs (Decidable (_ ∧ _))

variable {value : String → Option String}

theorem fillFrom_char {c : Char} (hopen : c ≠ '\x7b') (hclose : c ≠ '\x7d') (rest : List Char) :
    fillFrom value .text (c :: rest) = (c :: ·) <$> fillFrom value .text rest := by
  rw [fillFrom]
  · exact hopen
  · exact hclose

theorem Unbraced.cons {c : Char} {rest : List Char} (h : Unbraced (c :: rest)) :
    c ≠ '\x7b' ∧ c ≠ '\x7d' ∧ Unbraced rest := by
  obtain ⟨hopen, hclose⟩ := h
  rw [List.mem_cons, not_or] at hopen hclose
  exact ⟨Ne.symm hopen.1, Ne.symm hclose.1, hopen.2, hclose.2⟩

theorem Unbraced.append {s t : List Char} (hs : Unbraced s) (ht : Unbraced t) :
    Unbraced (s ++ t) :=
  ⟨fun h => (List.mem_append.mp h).elim hs.1 ht.1, fun h => (List.mem_append.mp h).elim hs.2 ht.2⟩

/-- Text stands for itself. -/
theorem fillFrom_unbraced {s : List Char} (hs : Unbraced s) (rest : List Char) :
    fillFrom value .text (s ++ rest) = (s ++ ·) <$> fillFrom value .text rest := by
  induction s with
  | nil => cases h : fillFrom value .text rest <;> simp [h]
  | cons c s ih =>
    obtain ⟨hopen, hclose, hs⟩ := hs.cons
    rw [List.cons_append, fillFrom_char hopen hclose, ih hs]
    cases fillFrom value .text rest <;> rfl

theorem fillFrom_name {key : List Char} (hkey : Unbraced key) (read rest : List Char) :
    fillFrom value (.name read) (key ++ rest) =
      fillFrom value (.name (key.reverse ++ read)) rest := by
  induction key generalizing read with
  | nil => rfl
  | cons c key ih =>
    obtain ⟨hopen, hclose, hkey⟩ := hkey.cons
    rw [List.cons_append, fillFrom, ih hkey, List.reverse_cons, List.append_assoc]
    · rfl
    · exact hopen
    · exact hclose

/-- A place stands for the value of its name. -/
theorem fillFrom_place {key : List Char} {filled : String} (hkey : Unbraced key)
    (hname : placeName key = key) (hword : key.all isDigit = false)
    (hvalue : value (String.ofList key) = some filled) (rest : List Char) :
    fillFrom value .text ('\x7b' :: (key ++ '\x7d' :: rest)) =
      (filled.toList ++ ·) <$> fillFrom value .text rest := by
  cases key with
  | nil => cases hword
  | cons c key =>
    obtain ⟨hopen, hclose, hrest⟩ := hkey.cons
    rw [fillFrom, List.cons_append, fillFrom, fillFrom_name hrest, fillFrom]
    · have hread : (key.reverse ++ [c]).reverse = c :: key := by simp
      rw [hread]
      simp only [hname, hword, hvalue]
      rfl
    · exact hopen
    · exact hclose

end MailRules.Text
