import Mathlib.Data.List.Basic
import MailRules.Text.Basic
import MailRules.Text.Lines

/-! Texts, their fields and their lines.

A blank between two texts keeps their fields apart (`fields_append`), so texts that are joined by
blanks have the fields of each, in order (`fields_join`), and fields that are joined by blanks are
read back (`fields_join_fields`). -/
namespace MailRules.Text

/-- A text without blanks, but not without characters. -/
structure IsField (s : List Char) : Prop where
  nonempty : s ≠ []
  solid : ∀ c ∈ s, isBlank c = false

theorem isBlank_space : isBlank ' ' = true := by decide

theorem fieldsFrom_blank {c : Char} (hc : isBlank c = true) (rest : List Char) :
    fieldsFrom (c :: rest) = ([], fields rest) := by
  rw [fieldsFrom, fields]
  dsimp only
  rw [if_pos hc]

theorem fieldsFrom_solid {c : Char} (hc : isBlank c = false) (rest : List Char) :
    fieldsFrom (c :: rest) = (c :: (fieldsFrom rest).1, (fieldsFrom rest).2) := by
  rw [fieldsFrom]
  dsimp only
  rw [hc, if_neg Bool.false_ne_true]

/-- More fields behind the open one. -/
theorem fields_more {s t : List Char} {more : List (List Char)}
    (h : fieldsFrom t = ((fieldsFrom s).1, (fieldsFrom s).2 ++ more)) :
    fields t = fields s ++ more := by
  rw [fields, h, fields]
  dsimp only
  split <;> rfl

theorem fieldsFrom_append {b : Char} (hb : isBlank b = true) (s t : List Char) :
    fieldsFrom (s ++ b :: t) = ((fieldsFrom s).1, (fieldsFrom s).2 ++ fields t) := by
  induction s with
  | nil => exact fieldsFrom_blank hb t
  | cons c rest ih =>
    cases hc : isBlank c with
    | true =>
      rw [List.cons_append, fieldsFrom_blank hc, fieldsFrom_blank hc, fields_more ih]
    | false => rw [List.cons_append, fieldsFrom_solid hc, fieldsFrom_solid hc, ih]

/-- A blank keeps the fields before it and the fields after it apart. -/
theorem fields_append {b : Char} (hb : isBlank b = true) (s t : List Char) :
    fields (s ++ b :: t) = fields s ++ fields t :=
  fields_more (fieldsFrom_append hb s t)

theorem fields_of_isField {s : List Char} (h : IsField s) : fields s = [s] := by
  have hfrom : ∀ s : List Char, (∀ c ∈ s, isBlank c = false) → fieldsFrom s = (s, []) := by
    intro s
    induction s with
    | nil => exact fun _ => rfl
    | cons c rest ih =>
      intro hs
      rw [fieldsFrom_solid (hs c List.mem_cons_self),
        ih fun d hd => hs d (List.mem_cons_of_mem c hd)]
  rw [fields, hfrom s h.solid]
  dsimp only
  rw [List.isEmpty_eq_false_iff.mpr h.nonempty, if_neg Bool.false_ne_true]

theorem isField_of_mem {s field : List Char} (h : field ∈ fields s) : IsField field := by
  have hfrom : ∀ s : List Char, (∀ c ∈ (fieldsFrom s).1, isBlank c = false) ∧
      ∀ field ∈ (fieldsFrom s).2, IsField field := by
    intro s
    induction s with
    | nil => exact ⟨fun _ hc => absurd hc List.not_mem_nil, fun _ hf => absurd hf List.not_mem_nil⟩
    | cons c rest ih =>
      cases hc : isBlank c with
      | true =>
        rw [fieldsFrom_blank hc, fields]
        refine ⟨fun _ hd => absurd hd List.not_mem_nil, fun field hf => ?_⟩
        dsimp only at hf
        split at hf
        next => exact ih.2 field hf
        next hne =>
          rcases List.mem_cons.mp hf with rfl | hf
          · exact ⟨by simpa using hne, ih.1⟩
          · exact ih.2 field hf
      | false =>
        rw [fieldsFrom_solid hc]
        refine ⟨fun d hd => ?_, ih.2⟩
        rcases List.mem_cons.mp hd with rfl | hd
        · exact hc
        · exact ih.1 d hd
  rw [fields] at h
  dsimp only at h
  split at h
  next => exact (hfrom s).2 field h
  next hne =>
    rcases List.mem_cons.mp h with rfl | h
    · exact ⟨by simpa using hne, (hfrom s).1⟩
    · exact (hfrom s).2 field h

/-- Texts that are joined by blanks have the fields of each. -/
theorem fields_join (texts : List (List Char)) :
    fields (List.intercalate [' '] texts) = texts.flatMap fields := by
  induction texts with
  | nil => rfl
  | cons text rest ih =>
    cases rest with
    | nil => simp
    | cons next later =>
      rw [List.intercalate_cons_cons, List.append_assoc, List.singleton_append,
        fields_append isBlank_space, ih, List.flatMap_cons (x := text)]

/-- Fields that are joined by blanks are read back. -/
theorem fields_join_fields {all : List (List Char)} (h : ∀ field ∈ all, IsField field) :
    fields (List.intercalate [' '] all) = all := by
  rw [fields_join]
  induction all with
  | nil => rfl
  | cons field rest ih =>
    rw [List.flatMap_cons, fields_of_isField (h field List.mem_cons_self),
      ih fun f hf => h f (List.mem_cons_of_mem field hf)]
    rfl

/-- Blanks at the front do not count. -/
theorem fields_trimStart (s : List Char) : fields (trimStart s) = fields s := by
  induction s with
  | nil => rfl
  | cons c rest ih =>
    cases hc : isBlank c with
    | true =>
      have hdrop : trimStart (c :: rest) = trimStart rest := List.dropWhile_cons_of_pos hc
      have hfields : fields (c :: rest) = fields rest := fields_append hc [] rest
      rw [hdrop, hfields, ih]
    | false =>
      have hkeep : trimStart (c :: rest) = c :: rest := List.dropWhile_cons_of_neg (by simp [hc])
      rw [hkeep]

/-- A character that is no blank opens the first field. -/
theorem fields_cons {c : Char} (hc : isBlank c = false) (rest : List Char) :
    ∃ more later, fields (c :: rest) = (c :: more) :: later := by
  rw [fields, fieldsFrom_solid hc]
  exact ⟨_, _, rfl⟩

/-- Fields that are joined by blanks have no blank at the front. -/
theorem dropBlanks_join {all : List (List Char)} (h : ∀ field ∈ all, IsField field) :
    (List.intercalate [' '] all).dropWhile isBlank = List.intercalate [' '] all := by
  cases all with
  | nil => rfl
  | cons field rest =>
    have hfield := h field List.mem_cons_self
    obtain ⟨c, more, rfl⟩ := List.exists_cons_of_ne_nil hfield.nonempty
    have hc := hfield.solid c List.mem_cons_self
    cases rest with
    | nil =>
      rw [List.intercalate_singleton]
      exact List.dropWhile_cons_of_neg (by simp [hc])
    | cons next later =>
      rw [List.intercalate_cons_cons, List.append_assoc]
      exact List.dropWhile_cons_of_neg (by simp [hc])

/-- Trimming leaves the first character, if that is no blank. -/
theorem trim_cons {c : Char} (hc : isBlank c = false) (rest : List Char) :
    ∃ later, trim (c :: rest) = c :: later := by
  have hstart : trimStart (c :: rest) = c :: rest :=
    List.dropWhile_cons_of_neg (by simp [hc])
  have hend : (c :: rest).reverse.dropWhile isBlank =
      rest.reverse.dropWhile isBlank ++ [c] := by
    rw [List.reverse_cons, List.dropWhile_append]
    split
    next hnil =>
      rw [List.isEmpty_iff.mp hnil, List.dropWhile_cons_of_neg (by simp [hc])]
      rfl
    next => rfl
  rw [trim, hstart, trimEnd, hend, List.reverse_append]
  exact ⟨_, rfl⟩

theorem ne_return_of_unbroken {c : Char} (hc : isBreak c = false) : c ≠ '\r' := by
  rintro rfl
  cases hc

/-- Only a carriage return looks at the character after it. -/
theorem lines_cons {c : Char} (hcr : c ≠ '\r') (rest : List Char) :
    lines (c :: rest) = if isBreak c then [] :: lines rest else consLine c (lines rest) := by
  rw [lines.eq_def]
  split
  next hnil => cases hnil
  next hreturn =>
    cases hreturn
    exact absurd rfl hcr
  next hcons =>
    cases hcons
    rfl

theorem lines_solid {c : Char} (hc : isBreak c = false) (rest : List Char) :
    lines (c :: rest) = consLine c (lines rest) := by
  rw [lines_cons (ne_return_of_unbroken hc), hc, if_neg Bool.false_ne_true]

/-- A text without a break is one line. -/
theorem lines_of_unbroken {s : List Char} (hne : s ≠ []) (h : ∀ c ∈ s, isBreak c = false) :
    lines s = [s] := by
  induction s with
  | nil => exact absurd rfl hne
  | cons c rest ih =>
    rw [lines_solid (h c List.mem_cons_self)]
    cases rest with
    | nil => rfl
    | cons d later =>
      rw [ih (List.cons_ne_nil d later) fun e he => h e (List.mem_cons_of_mem c he)]
      rfl

theorem unifyNewlines_of_unbroken {s : List Char} (h : ∀ c ∈ s, isBreak c = false) :
    unifyNewlines s = s := by
  induction s with
  | nil => rfl
  | cons c rest ih =>
    have hcr := ne_return_of_unbroken (h c List.mem_cons_self)
    rw [unifyNewlines]
    · rw [if_neg hcr, ih fun d hd => h d (List.mem_cons_of_mem c hd)]
    · rintro _ hreturn
      exact absurd hreturn hcr

end MailRules.Text
