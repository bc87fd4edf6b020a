import Mathlib.Data.List.Nodup
import MailRules.Declaration.Line
import MailRules.Proofs.Score
import MailRules.Proofs.Text.Case
import MailRules.Proofs.Text.Fields

/-! What a line leaves of a declaration.

The word of a declaration that was read is in lower case and begins with no digit, its groups are
in upper case, each of them once, its score was typed and its comment is made of fields with single
blanks between them (`canonical_of_read`). Such parts, taken one after the other, give the same
declaration again. What one field does to a draft is said once (`Draft.Takes`), as is what a draft
declares (`Draft.finish_eq_declared_iff`). -/
namespace MailRules.Declaration

open Text

/-! ### Parts -/

/-- A word as a line leaves it. -/
structure IsCanonicalWord (w : String) : Prop where
  field : IsField w.toList
  low : lowerChars w.toList = w.toList
  head : ∀ c, w.toList.head? = some c → isDigit c = false ∧ c ≠ '#'

/-- A group as a line leaves it. -/
structure IsCanonicalGroup (g : String) : Prop where
  name : isGroupName g.toList = true
  high : g.toList.map Char.toUpper = g.toList

/-- A score as a line leaves it. -/
def IsTyped (x : Score) : Prop :=
  ∃ s, Score.isNumeral s = true ∧ Score.ofNumeral? s = some x

def isNameChar (c : Char) : Bool := c.isAlphanum || c = '_'

/-- What holds of the letters and digits of names, one by one. -/
theorem forall_nameChar {P : Char → Prop}
    (h : ∀ n : Fin 128, isNameChar (Char.ofNat n) = true → P (Char.ofNat n)) {c : Char}
    (hc : isNameChar c = true) : P c := by
  have hcode : c.toNat < 128 := by
    have hkinds : (((c.isUpper || c.isLower) || c.isDigit) || decide (c = '_')) = true := hc
    simp only [Bool.or_eq_true, decide_eq_true_eq] at hkinds
    rcases hkinds with ((hupper | hlower) | hdigit) | hbar
    · have hlast : c.val ≤ 'Z'.val := (of_decide_eq_true hupper).2
      exact Nat.lt_of_le_of_lt (UInt32.le_iff_toNat_le.mp hlast) (by decide)
    · have hlast : c.val ≤ 'z'.val := of_decide_eq_true (Bool.and_eq_true_iff.mp hlower).2
      exact Nat.lt_of_le_of_lt (UInt32.le_iff_toNat_le.mp hlast) (by decide)
    · exact Nat.lt_of_le_of_lt (basic_bounds hdigit).2 (by decide)
    · rw [hbar]
      decide
  have hname := h ⟨c.toNat, hcode⟩
  rw [Char.ofNat_toNat] at hname
  exact hname hc

theorem isGroupName_cons {c : Char} {rest : List Char} :
    isGroupName (c :: rest) = true ↔
      (c.isAlpha = true ∨ c = '_') ∧ ∀ d ∈ rest, isNameChar d = true := by
  rw [isGroupName, Bool.and_eq_true, Bool.or_eq_true, decide_eq_true_eq, List.all_eq_true]
  rfl

theorem isNameChar_of_alpha {c : Char} (h : c.isAlpha = true ∨ c = '_') : isNameChar c = true := by
  rw [isNameChar, Bool.or_eq_true, decide_eq_true_eq, Char.isAlphanum, Bool.or_eq_true]
  exact h.imp_left .inl

theorem mem_isGroupName {s : List Char} (h : isGroupName s = true) : ∀ c ∈ s, isNameChar c = true := by
  cases s with
  | nil => exact fun _ hc => absurd hc List.not_mem_nil
  | cons d rest =>
    obtain ⟨hfirst, hrest⟩ := isGroupName_cons.mp h
    intro c hc
    rcases List.mem_cons.mp hc with rfl | hc
    · exact isNameChar_of_alpha hfirst
    · exact hrest c hc

/-- A name in upper case is a canonical group. -/
theorem canonicalGroup {s : List Char} (h : isGroupName s = true) :
    IsCanonicalGroup (String.ofList (s.map Char.toUpper)) := by
  have hchar {c : Char} (hc : isNameChar c = true) : isNameChar c.toUpper = true ∧
      c.toUpper.toUpper = c.toUpper ∧
        (c.isAlpha = true ∨ c = '_' → c.toUpper.isAlpha = true ∨ c.toUpper = '_') :=
    forall_nameChar (P := fun c => isNameChar c.toUpper = true ∧ c.toUpper.toUpper = c.toUpper ∧
      (c.isAlpha = true ∨ c = '_' → c.toUpper.isAlpha = true ∨ c.toUpper = '_'))
      (by decide +kernel) hc
  have hall := mem_isGroupName h
  constructor
  · rw [String.toList_ofList]
    cases s with
    | nil => cases h
    | cons c rest =>
      obtain ⟨hfirst, hrest⟩ := isGroupName_cons.mp h
      rw [List.map_cons, isGroupName_cons]
      refine ⟨(hchar (hall c List.mem_cons_self)).2.2 hfirst, fun d hd => ?_⟩
      obtain ⟨d', hd', rfl⟩ := List.mem_map.mp hd
      exact (hchar (hrest d' hd')).1
  · rw [String.toList_ofList, List.map_map]
    exact List.map_congr_left fun c hc => (hchar (hall c hc)).2.1

theorem IsCanonicalGroup.field {g : String} (h : IsCanonicalGroup g) : IsField g.toList where
  nonempty hnil := by
    have hname := h.name
    rw [hnil] at hname
    cases hname
  solid c hc := forall_nameChar (P := fun c => isBlank c = false) (by decide +kernel)
    (mem_isGroupName h.name c hc)

/-- What begins with no digit is no numeral. -/
theorem not_isNumeral_head {s : List Char} (h : ∀ c, s.head? = some c → isDigit c = false) :
    Score.isNumeral s = false := by
  have htake : s.takeWhile isDigit = [] := by
    cases s with
    | nil => rfl
    | cons c rest => exact List.takeWhile_cons_of_neg (by simp [h c rfl])
  rw [Score.isNumeral, htake]
  rfl

theorem IsCanonicalGroup.head {g : String} (h : IsCanonicalGroup g) :
    ∀ c, g.toList.head? = some c → isDigit c = false ∧ c ≠ '#' := by
  intro c hc
  have hname := h.name
  obtain ⟨rest, hsplit⟩ := List.head?_eq_some_iff.mp hc
  rw [hsplit, isGroupName_cons] at hname
  exact forall_nameChar (P := fun c => c.isAlpha = true ∨ c = '_' → isDigit c = false ∧ c ≠ '#')
    (by decide +kernel) (isNameChar_of_alpha hname.1) hname.1

/-- A declaration as a line leaves it. -/
structure IsCanonical (d : Declaration) : Prop where
  word : IsCanonicalWord d.word
  score : d.score = .whole 0 ∨ IsTyped d.score
  groups : ∀ g ∈ d.groups, IsCanonicalGroup g
  groups_ne : d.groups ≠ []
  nodup : d.groups.Nodup
  comment : ∃ fields, (∀ f ∈ fields, IsField f) ∧
    d.comment = String.ofList (List.intercalate [' '] fields)

/-! ### One field -/

/-- A field that has no place after what the draft holds. -/
inductive Draft.Refuses (d : Draft) (field : List Char) : Prop
  | number : Score.isNumeral field = true → d.word = none ∨ d.score.isSome = true → Refuses d field
  | noWord : Score.isNumeral field = false → d.word = none → isWord field = false → Refuses d field
  | noGroup : Score.isNumeral field = false → d.word.isSome = true → isGroupName field = false →
      Refuses d field

/-- What becomes of a draft with one more field. -/
inductive Draft.Takes (d : Draft) (field : List Char) : Except Oversized Draft → Prop
  | word : Score.isNumeral field = false → d.word = none → isWord field = true →
      Takes d field (.ok { d with word := some (String.ofList (lowerChars field)) })
  | score {x : Score} : Score.isNumeral field = true → d.word.isSome = true → d.score = none →
      Score.ofNumeral? field = some x → Takes d field (.ok { d with score := some x })
  | oversized : Score.isNumeral field = true → d.word.isSome = true → d.score = none →
      Score.ofNumeral? field = none → Takes d field (.error ⟨field.length⟩)
  | group : Score.isNumeral field = false → d.word.isSome = true → isGroupName field = true →
      String.ofList (field.map Char.toUpper) ∉ d.groups →
      Takes d field (.ok { d with groups := d.groups ++ [String.ofList (field.map Char.toUpper)] })
  | again : Score.isNumeral field = false → d.word.isSome = true → isGroupName field = true →
      String.ofList (field.map Char.toUpper) ∈ d.groups → Takes d field (.ok d)
  | refused : d.Refuses field →
      Takes d field (.ok { d with invalid := d.invalid ++ [String.ofList field] })

theorem takes_of_take {d : Draft} {field : List Char} {r : Except Oversized Draft}
    (h : d.take field = r) : d.Takes field r := by
  subst h
  unfold Draft.take
  dsimp only
  split
  next hnumeral =>
    split
    next hlate =>
      exact .refused (.number hnumeral (by simpa using hlate))
    next hfree =>
      obtain ⟨hword, hscore⟩ : d.word.isSome = true ∧ d.score = none := by
        simpa [Option.isSome_iff_ne_none] using hfree
      split
      next x hx => exact .score hnumeral hword hscore hx
      next hnone => exact .oversized hnumeral hword hscore hnone
  next hnumeral =>
    rw [Bool.not_eq_true] at hnumeral
    split
    next hnone =>
      rw [Option.isNone_iff_eq_none] at hnone
      split
      next hword => exact .word hnumeral hnone hword
      next hword => exact .refused (.noWord hnumeral hnone (by simpa using hword))
    next hsome =>
      have hword : d.word.isSome = true := by simpa [Option.isSome_iff_ne_none] using hsome
      split
      next hname =>
        split
        next hold => exact .again hnumeral hword hname hold
        next hnew => exact .group hnumeral hword hname hnew
      next hname => exact .refused (.noGroup hnumeral hword (by simpa using hname))

/-- A draft declares something if nothing in it was out of place and it has a word. -/
theorem Draft.finish_eq_declared_iff {d : Draft} {comment : String} {e : Declaration} :
    d.finish comment = .declared e ↔
      d.invalid = [] ∧ ∃ word, d.word = some word ∧
        e = { word, comment
              score := d.score.getD (.whole 0)
              groups := if d.groups.isEmpty then [localGroup] else d.groups } := by
  constructor
  · intro h
    rw [Draft.finish] at h
    split at h
    next => cases h
    next hvalid =>
      split at h
      next => cases h
      next word hword =>
        exact ⟨by simpa using hvalid, word, hword, (Reading.declared.inj h).symm⟩
  · rintro ⟨hvalid, word, hword, rfl⟩
    rw [Draft.finish, hvalid, hword]
    rfl

/-! ### Reading -/

/-- What a draft holds is canonical. -/
structure Draft.Sound (d : Draft) : Prop where
  word : ∀ w, d.word = some w → IsCanonicalWord w
  score : ∀ x, d.score = some x → IsTyped x
  groups : ∀ g ∈ d.groups, IsCanonicalGroup g
  nodup : d.groups.Nodup

theorem sound_empty : ({} : Draft).Sound where
  word _ h := by cases h
  score _ h := by cases h
  groups _ h := by cases h
  nodup := List.nodup_nil

theorem canonicalWord {field : List Char} (hfield : IsField field) (hword : isWord field = true) :
    IsCanonicalWord (String.ofList (lowerChars field)) := by
  cases field with
  | nil => cases hword
  | cons c rest =>
    rw [isWord, Bool.and_eq_true, Bool.not_eq_true', decide_eq_true_eq] at hword
    obtain ⟨d, later, hlower, hhead⟩ := lowerChars_head rest hword.1 hword.2
    refine ⟨⟨?_, ?_⟩, ?_, fun e he => ?_⟩
    · rw [String.toList_ofList, hlower]
      exact List.cons_ne_nil d later
    · rw [String.toList_ofList]
      exact lowerChars_not_blank hfield.solid
    · rw [String.toList_ofList]
      exact lowerChars_lowerChars _
    · rw [String.toList_ofList, hlower] at he
      exact Option.some.inj he ▸ hhead

theorem take_sound {d d' : Draft} {field : List Char} (hfield : IsField field) (h : d.Sound)
    (htake : d.take field = .ok d') : d'.Sound := by
  cases takes_of_take htake with
  | word _ _ hword =>
    exact ⟨fun w hw => Option.some.inj hw ▸ canonicalWord hfield hword, h.score, h.groups, h.nodup⟩
  | score hnumeral _ _ hx =>
    exact ⟨h.word, fun y hy => Option.some.inj hy ▸ ⟨field, hnumeral, hx⟩, h.groups, h.nodup⟩
  | group _ _ hname hnew =>
    refine ⟨h.word, h.score, fun g hg => ?_, ?_⟩
    · rcases List.mem_append.mp hg with hg | hg
      · exact h.groups g hg
      · rw [List.mem_singleton.mp hg]
        exact canonicalGroup hname
    · exact List.nodup_append.mpr ⟨h.nodup, List.nodup_singleton _, fun a ha b hb => by
        rw [List.mem_singleton.mp hb]
        exact fun heq => hnew (heq ▸ ha)⟩
  | again => exact h
  | refused => exact ⟨h.word, h.score, h.groups, h.nodup⟩

theorem foldl_sound {fields : List (List Char)} (hfields : ∀ f ∈ fields, IsField f) {d d' : Draft}
    (h : d.Sound) (hfold : fields.foldlM Draft.take d = .ok d') : d'.Sound := by
  induction fields generalizing d with
  | nil =>
    cases hfold
    exact h
  | cons field rest ih =>
    rw [List.foldlM_cons] at hfold
    obtain ⟨next, htake, hrest⟩ := Outcome.bind_eq_ok.mp hfold
    exact ih (fun f hf => hfields f (List.mem_cons_of_mem field hf))
      (take_sound (hfields field List.mem_cons_self) h htake) hrest

/-- The fields of a comment without the sign that opens it. -/
theorem commentOf_fields {fields : List (List Char)} (hfields : ∀ f ∈ fields, IsField f) :
    ∃ kept, (∀ f ∈ kept, IsField f) ∧
      commentOf fields = String.ofList (List.intercalate [' '] kept) := by
  cases fields with
  | nil => exact ⟨[], fun _ hf => absurd hf List.not_mem_nil, rfl⟩
  | cons first rest =>
    refine ⟨if (first.drop 1).isEmpty then rest else first.drop 1 :: rest, fun f hf => ?_, rfl⟩
    split at hf
    next => exact hfields f (List.mem_cons_of_mem first hf)
    next hne =>
      rcases List.mem_cons.mp hf with rfl | hf
      · exact ⟨by simpa using hne, fun c hc => (hfields first List.mem_cons_self).solid c
          (List.mem_of_mem_drop hc)⟩
      · exact hfields f (List.mem_cons_of_mem first hf)

/-- A declaration that was read is canonical. -/
theorem canonical_of_read {line : String} {d : Declaration}
    (h : read line = .ok (.declared d)) : d.IsCanonical := by
  unfold read at h
  split at h
  next => cases h
  next =>
    have hfields : ∀ f ∈ Text.fields line.toList, IsField f := fun _ hf => isField_of_mem hf
    obtain ⟨draft, hdraft, hfinish⟩ := Outcome.bind_eq_ok.mp h
    replace hfinish := Outcome.pure_eq_ok.mp hfinish
    have hsound := foldl_sound
      (fun f hf => hfields f ((List.takeWhile_prefix _).subset hf)) sound_empty hdraft
    obtain ⟨-, w, hw, rfl⟩ := Draft.finish_eq_declared_iff.mp hfinish
    have hlocal : IsCanonicalGroup localGroup := ⟨by decide, by decide⟩
    refine ⟨hsound.word w hw, ?_, ?_, ?_, ?_, ?_⟩
    · cases hscore : draft.score with
      | none => exact .inl rfl
      | some x => exact .inr (hsound.score x hscore)
    · intro g hg
      dsimp only at hg
      split at hg
      next => exact List.mem_singleton.mp hg ▸ hlocal
      next => exact hsound.groups g hg
    · dsimp only
      split
      next => exact List.cons_ne_nil _ _
      next hne => exact fun hnil => hne (List.isEmpty_iff.mpr hnil)
    · dsimp only
      split
      next => exact List.nodup_singleton _
      next => exact hsound.nodup
    · exact commentOf_fields fun f hf => hfields f ((List.dropWhile_suffix _).subset hf)

end MailRules.Declaration
