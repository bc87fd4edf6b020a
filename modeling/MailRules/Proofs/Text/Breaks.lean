import Mathlib.Data.List.Basic
import MailRules.Proofs.Text.Numeral
import MailRules.Proofs.Text.Fields
import MailRules.Text.Template

/-! Texts that stay on one line.

A text is unbroken if no line ends in it, and solid if it has no blank; what is solid is unbroken,
since every break is a blank. Both are decided, and both hold of texts put together from such texts.
Texts that are unbroken but for the line feed that ends them are the lines of their concatenation
(`linesOf_join`). -/
namespace MailRules.Text

/-- No line ends in the text. -/
def isUnbroken (s : String) : Bool := s.toList.all fun c => !isBreak c

/-- The text has no blank. -/
def isSolid (s : String) : Bool := s.toList.all fun c => !isBlank c

theorem isUnbroken_iff {s : String} : isUnbroken s = true ↔ ∀ c ∈ s.toList, isBreak c = false := by
  simp [isUnbroken]

theorem isSolid_iff {s : String} : isSolid s = true ↔ ∀ c ∈ s.toList, isBlank c = false := by
  simp [isSolid]

theorem isBlank_of_isBreak {c : Char} (h : isBreak c = true) : isBlank c = true := by
  simp only [isBreak, Bool.or_eq_true, decide_eq_true_eq] at h
  rcases h with ((((((((rfl | rfl) | rfl) | rfl) | rfl) | rfl) | rfl) | rfl) | rfl) | rfl <;> decide

theorem isUnbroken_of_isSolid {s : String} (h : isSolid s = true) : isUnbroken s = true := by
  rw [isUnbroken_iff]
  intro c hc
  by_contra hbreak
  rw [Bool.not_eq_false] at hbreak
  have hsolid := isSolid_iff.mp h c hc
  rw [isBlank_of_isBreak hbreak] at hsolid
  cases hsolid

/-! ### Texts put together -/

@[simp] theorem isUnbroken_append (s t : String) :
    isUnbroken (s ++ t) = (isUnbroken s && isUnbroken t) := by
  rw [isUnbroken, String.toList_append, List.all_append]
  rfl

@[simp] theorem isSolid_append (s t : String) : isSolid (s ++ t) = (isSolid s && isSolid t) := by
  rw [isSolid, String.toList_append, List.all_append]
  rfl

theorem isUnbroken_intercalate {separator : String} (hseparator : isUnbroken separator = true)
    {texts : List String} (h : ∀ t ∈ texts, isUnbroken t = true) :
    isUnbroken (separator.intercalate texts) = true := by
  induction texts with
  | nil => rfl
  | cons t rest ih =>
    have hrest := ih fun u hu => h u (List.mem_cons_of_mem t hu)
    cases rest with
    | nil =>
      rw [String.intercalate_singleton]
      exact h t List.mem_cons_self
    | cons u later =>
      rw [String.intercalate_cons_cons, isUnbroken_append, isUnbroken_append, hseparator, hrest,
        h t List.mem_cons_self]
      rfl

theorem toList_pushn (s : String) (c : Char) (n : Nat) :
    (s.pushn c n).toList = s.toList ++ List.replicate n c := by
  induction n with
  | zero => simp [String.pushn, Nat.repeat]
  | succ n ih =>
    show ((s.pushn c n).push c).toList = _
    rw [String.toList_push, ih, List.append_assoc, ← List.replicate_succ']

theorem isUnbroken_pushn {c : Char} (hc : isBreak c = false) (n : Nat) :
    isUnbroken ("".pushn c n) = true := by
  rw [isUnbroken_iff, toList_pushn, String.toList_empty, List.nil_append]
  intro d hd
  rw [List.eq_of_mem_replicate hd]
  exact hc

/-! ### Numbers -/

theorem isSolid_of_digits {s : String} (h : ∀ c ∈ s.toList, c.isDigit = true) : isSolid s = true :=
  isSolid_iff.mpr fun c hc => forall_basic (P := fun c => isBlank c = false) (by decide) (h c hc)

theorem isSolid_natText (n : Nat) : isSolid (toString n) = true := by
  refine isSolid_of_digits fun c hc => isDigit_toDigits (n := n) ?_
  rwa [Nat.toString_eq_repr, Nat.toList_repr] at hc

theorem isSolid_intText (n : Int) : isSolid (toString n) = true := by
  cases n with
  | ofNat n => exact isSolid_natText n
  | negSucc n =>
    show isSolid ("-" ++ toString (n + 1)) = true
    rw [isSolid_append, isSolid_natText]
    rfl

/-! ### Templates -/

/-- A filled template has the characters of the template and of the values, and no others. -/
theorem mem_fillFrom {value : String → Option String} {P : Char → Prop}
    (hvalue : ∀ name v, value name = some v → ∀ c ∈ v.toList, P c) {place : TemplatePlace}
    {template out : List Char} (hfill : fillFrom value place template = .ok out)
    (htemplate : ∀ c ∈ template, P c) : ∀ c ∈ out, P c := by
  have hput {front out : List Char} {rest : Except TemplateError (List Char)}
      (hfront : ∀ c ∈ front, P c) (hrest : ∀ tail, rest = .ok tail → ∀ c ∈ tail, P c)
      (h : (front ++ ·) <$> rest = .ok out) : ∀ c ∈ out, P c := by
    cases rest with
    | error e => cases h
    | ok tail =>
      cases h
      exact List.forall_mem_append.mpr ⟨hfront, hrest tail rfl⟩
  have hchar {c : Char} {rest : List Char} (h : ∀ d ∈ c :: rest, P d) :
      (∀ d ∈ [c], P d) ∧ ∀ d ∈ rest, P d := by
    rwa [List.forall_mem_singleton, ← List.forall_mem_cons]
  fun_induction fillFrom value place template generalizing out with
  | case1 =>
    cases hfill
    exact List.forall_mem_nil P
  -- A template that cannot be filled.
  | case2 | case7 | case10 | case11 | case12 | case13 => cases hfill
  -- A brace, or a character of a name.
  | case3 _ ih | case4 _ ih | case8 _ _ _ _ ih | case15 _ _ _ _ _ ih =>
    exact ih hfill (hchar htemplate).2
  -- A character that stands for itself.
  | case5 _ _ _ _ ih | case6 _ ih | case9 _ ih =>
    exact hput (hchar htemplate).1 (fun _ h => ih h (hchar htemplate).2) hfill
  -- A name that is replaced by its value.
  | case14 =>
    rename_i filled hfilled ih
    exact hput (hvalue _ filled hfilled) (fun _ h => ih h (hchar htemplate).2) hfill

theorem isUnbroken_fill {value : String → Option String} {template out : String}
    (hvalue : ∀ name v, value name = some v → isUnbroken v = true)
    (htemplate : isUnbroken template = true) (h : fill value template = .ok out) :
    isUnbroken out = true := by
  cases hfill : fillFrom value .text template.toList with
  | error e =>
    rw [fill, hfill] at h
    cases h
  | ok filled =>
    rw [fill, hfill] at h
    cases h
    rw [isUnbroken_iff, String.toList_ofList]
    exact mem_fillFrom (fun name v hv => isUnbroken_iff.mp (hvalue name v hv)) hfill
      (isUnbroken_iff.mp htemplate)

/-! ### Lines of a concatenation -/

/-- A line feed after an unbroken text ends a line. -/
theorem lines_append {s : List Char} (h : ∀ c ∈ s, isBreak c = false) (rest : List Char) :
    lines (s ++ '\n' :: rest) = s :: lines rest := by
  induction s with
  | nil =>
    rw [List.nil_append, lines_cons (by decide)]
    rfl
  | cons c s ih =>
    rw [List.cons_append, lines_solid (h c List.mem_cons_self),
      ih fun d hd => h d (List.mem_cons_of_mem c hd)]
    rfl

/-- Unbroken texts, each ended by a line feed, are the lines of what they make together. -/
theorem linesOf_join {texts : List String} (h : ∀ t ∈ texts, isUnbroken t = true) :
    linesOf (String.join (texts.map (· ++ "\n"))) = texts := by
  rw [linesOf, String.toList_join, List.flatMap_map]
  induction texts with
  | nil => rfl
  | cons t rest ih =>
    have htext : (t ++ "\n").toList = t.toList ++ ['\n'] := String.toList_append
    rw [List.flatMap_cons, htext, List.append_assoc, List.singleton_append,
      lines_append (isUnbroken_iff.mp (h t List.mem_cons_self)), List.map_cons,
      ih fun u hu => h u (List.mem_cons_of_mem t hu), String.ofList_toList]

end MailRules.Text
