import MailRules.Proofs.Binary64.Written
import MailRules.Proofs.Declaration.Draft

/-! Declarations that are written and read back.

The line of a declaration that was read has the fields of its parts, in order (`fields_toLine`).
All of them are read back, unless the text of the score is no numeral; then no score is read. So
the declaration comes back exactly if its score is plain, neither too small nor too large to be
written without an exponent (`read_toLine_iff`). -/
namespace MailRules

open Text

namespace Score

/-- Zero, a whole number, or a number that is written without an exponent. -/
def IsPlain : Score → Prop
  | .whole _ => True
  | .real (.finite _ m e) => m = 0 ∨ Binary64.IsPositional m e
  | .real _ => False

theorem sameNumber_zero (x : Score) : x.sameNumber (.whole 0) = x.isZero := by
  cases x with
  | whole n => rfl
  | real y =>
    cases y with
    | finite s m e =>
      have hunits : Binary64.units m e = 0 ↔ m = 0 := by
        rw [Binary64.units, Nat.mul_eq_zero]
        exact or_iff_left (Nat.ne_of_gt (Binary64.two_pow_pos e))
      show decide (Binary64.signedUnits (.finite s m e) = 0 * Binary64.one) = decide (m = 0)
      rw [Binary64.signedUnits, Int.zero_mul, decide_eq_decide, ← hunits]
      split <;> omega
    | infinite s => rfl
    | nan => rfl

theorem sameNumber_self {x : Score} (h : x ≠ .real .nan) : x.sameNumber x = true := by
  cases x with
  | whole n => exact decide_eq_true rfl
  | real y =>
    cases y with
    | finite s m e => exact decide_eq_true rfl
    | infinite s => exact decide_eq_true rfl
    | nan => exact absurd rfl h

end Score

namespace Declaration

/-! ### Typed scores -/

/-- A score that was typed is a whole number that can be read, a normal number, or infinite. -/
inductive TypedCase : Score → Prop
  | whole (n : Nat) : (Nat.toDigits 10 n).length ≤ digitLimit → TypedCase (.whole n)
  | finite {m e : Nat} : Binary64.Normal m e → TypedCase (.real (.finite false m e))
  | infinite : TypedCase (.real (.infinite false))

theorem nearest_cases (d : Binary64.Decimal) : TypedCase (.real (d.nearest false)) := by
  unfold Binary64.Decimal.nearest
  dsimp only
  split
  next => exact .finite ⟨by decide, .inl rfl, by decide⟩
  next =>
    split
    next => exact .infinite
    next =>
      rcases Binary64.ofUnits_normal false (d.ratio.1 * Binary64.one) d.ratio.2 with h | ⟨m, e, h, hs⟩
      · rw [Binary64.ofRatio, h]
        exact .infinite
      · rw [Binary64.ofRatio, hs]
        exact .finite h

theorem IsTyped.cases {x : Score} (h : IsTyped x) : TypedCase x := by
  obtain ⟨s, hnumeral, hx⟩ := h
  cases Score.isNumeral_iff.mp hnumeral with
  | whole hw hne =>
    obtain ⟨n, hn⟩ := digitsValue?_isSome hw
    rw [Score.ofNumeral?_whole hw hne hn] at hx
    split at hx
    next => cases hx
    next hshort =>
      cases hx
      refine .whole n ((Nat.length_toDigits_le_iff (by decide) (by decide)).mpr ?_)
      exact Nat.lt_of_lt_of_le (digitsValue?_lt hn)
        (Nat.pow_le_pow_right (by decide) (Nat.le_of_not_lt hshort))
  | point hw hne hf =>
    obtain ⟨n, hn⟩ := digitsValue?_isSome (hw.append hf)
    rw [Score.ofNumeral?_point hw hne hf hn] at hx
    cases hx
    exact nearest_cases _

theorem toText_whole (n : Nat) : (Score.whole n).toText.toList = Nat.toDigits 10 n := Nat.toList_repr

theorem toText_finite (m e : Nat) :
    (Score.real (.finite false m e)).toText.toList = Binary64.magnitudeText m e := by
  show (String.ofList ([] ++ Binary64.magnitudeText m e)).toList = _
  rw [String.toList_ofList]
  rfl

/-- The digits of a natural number are a numeral that reads back as it, if they are not too many. -/
theorem ofNumeral?_toDigits {n : Nat} (h : (Nat.toDigits 10 n).length ≤ digitLimit) :
    Score.isNumeral (Nat.toDigits 10 n) = true ∧
      Score.ofNumeral? (Nat.toDigits 10 n) = some (.whole n) := by
  have hdigits : AllDigits (Nat.toDigits 10 n) := fun c hc => isDigit_basic (isDigit_toDigits hc)
  have hne : Nat.toDigits 10 n ≠ [] := Nat.toDigits_ne_nil
  refine ⟨Score.isNumeral_iff.mpr (.whole hdigits hne), ?_⟩
  rw [Score.ofNumeral?_whole hdigits hne (digitsValue?_toDigits n), if_neg (Nat.not_lt.mpr h)]

/-- A score that is not zero is written as a numeral that reads back as it, if it is plain, and as
no numeral otherwise. -/
theorem TypedCase.text {x : Score} (h : TypedCase x) (hzero : x.isZero = false) :
    (x.IsPlain → Score.isNumeral x.toText.toList = true ∧
        Score.ofNumeral? x.toText.toList = some x) ∧
      (¬ x.IsPlain → Score.isNumeral x.toText.toList = false) := by
  cases h with
  | whole n hlength =>
    rw [toText_whole]
    exact ⟨fun _ => ofNumeral?_toDigits hlength, fun hno => absurd trivial hno⟩
  | @finite m e hnormal =>
    have hm : m ≠ 0 := by simpa [Score.isZero, Binary64.isZero] using hzero
    rw [toText_finite]
    obtain ⟨hplain, hno⟩ := Binary64.ofNumeral?_written hnormal (Nat.pos_of_ne_zero hm)
    exact ⟨fun h => hplain (h.resolve_left hm), fun h => hno fun hp => h (.inr hp)⟩
  | infinite => exact ⟨False.elim, fun _ => by decide⟩

/-- A field that opens no comment. -/
structure IsClause (s : List Char) : Prop where
  field : IsField s
  head : opensComment s = false

theorem isClause_of_head {s : List Char} (hs : IsField s) (h : ∀ c, s.head? = some c → c ≠ '#') :
    IsClause s where
  field := hs
  head := decide_eq_false fun he => h '#' he rfl

theorem isClause_written {s : List Char} (h : Binary64.IsWritten s) : IsClause s := by
  have hchar : ∀ c ∈ s, isBlank c = false ∧ c ≠ '#' := fun c hc =>
    Binary64.not_blank_of_written (h.2 c hc)
  exact isClause_of_head ⟨h.1, fun c hc => (hchar c hc).1⟩
    fun c hc => (hchar c (List.mem_of_head? hc)).2

theorem TypedCase.clause {x : Score} (h : TypedCase x) (hzero : x.isZero = false) :
    IsClause x.toText.toList := by
  cases h with
  | whole n =>
    rw [toText_whole]
    exact isClause_written ⟨Nat.toDigits_ne_nil, fun c hc => .inl (isDigit_toDigits hc)⟩
  | @finite m e hnormal =>
    have hm : m ≠ 0 := by simpa [Score.isZero, Binary64.isZero] using hzero
    rw [toText_finite]
    exact isClause_written (Binary64.magnitudeText_written hnormal (Nat.pos_of_ne_zero hm))
  | infinite =>
    have htext : (Score.real (.infinite false)).toText.toList = ['i', 'n', 'f'] := by decide
    rw [htext]
    refine ⟨⟨by decide, fun c hc => ?_⟩, by decide⟩
    have hletter : c = 'i' ∨ c = 'n' ∨ c = 'f' := by simpa using hc
    rcases hletter with rfl | rfl | rfl <;> decide

/-! ### The fields of a line -/

/-- The fields before the comment. -/
def clauses (d : Declaration) : List (List Char) :=
  d.word.toList :: (if d.isScored then [d.score.toText.toList] else []) ++
    d.groups.map String.toList

theorem IsCanonical.typed {d : Declaration} (h : d.IsCanonical) (hscored : d.isScored = true) :
    TypedCase d.score := by
  rcases h.score with hzero | htyped
  · rw [isScored, hzero] at hscored
    cases hscored
  · exact htyped.cases

theorem IsCanonical.clauses {d : Declaration} (h : d.IsCanonical) :
    ∀ s ∈ d.clauses, IsClause s := by
  intro s hs
  rcases List.mem_cons.mp hs with rfl | hs
  · exact isClause_of_head h.word.field fun c hc => (h.word.head c hc).2
  · rcases List.mem_append.mp hs with hs | hs
    · split at hs
      next hscored =>
        rw [List.mem_singleton.mp hs]
        exact (h.typed hscored).clause (by simpa [isScored] using hscored)
      next => cases hs
    · obtain ⟨g, hg, rfl⟩ := List.mem_map.mp hs
      exact isClause_of_head (h.groups g hg).field fun c hc => ((h.groups g hg).head c hc).2

/-- The line of a declaration has its clauses as fields, and then its comment. -/
theorem fields_toLine {d : Declaration} (h : d.IsCanonical) :
    ∃ rest, Text.fields d.toLine.toList = d.clauses ++ rest ∧
      (∀ s, rest.head? = some s → opensComment s = true) ∧ commentOf rest = d.comment := by
  obtain ⟨kept, hkept, hcomment⟩ := h.comment
  have hline : d.toLine.toList = List.intercalate [' '] (d.clauses ++
      (if d.comment.isEmpty then [] else ['#' :: ' ' :: d.comment.toList])) := by
    rw [toLine, String.toList_intercalate]
    congr 1
    rw [clauses]
    simp only [List.map_append, List.map_cons, List.cons_append, List.nil_append]
    split <;> split <;> simp
  have hfields : d.clauses.flatMap Text.fields = d.clauses := by
    have hall := h.clauses
    generalize d.clauses = all at hall
    induction all with
    | nil => rfl
    | cons s rest ih =>
      rw [List.flatMap_cons, fields_of_isField (hall s List.mem_cons_self).field,
        ih fun t ht => hall t (List.mem_cons_of_mem s ht)]
      rfl
  rw [hline, fields_join, List.flatMap_append, hfields]
  refine ⟨_, rfl, ?_⟩
  split
  next hempty =>
    refine ⟨fun s hs => ?_, (String.isEmpty_iff.mp hempty).symm⟩
    rw [List.flatMap_nil] at hs
    cases hs
  next =>
    have hsign : Text.fields ('#' :: ' ' :: d.comment.toList) = ['#'] :: kept := by
      show Text.fields (['#'] ++ ' ' :: d.comment.toList) = _
      rw [fields_append isBlank_space, hcomment, String.toList_ofList, fields_join_fields hkept]
      rfl
    rw [List.flatMap_singleton, hsign]
    exact ⟨fun s hs => Option.some.inj hs ▸ rfl, hcomment.symm⟩

theorem isSkippable_toLine {d : Declaration} (h : d.IsCanonical) : isSkippable d.toLine = false := by
  obtain ⟨c, rest, hword⟩ := List.exists_cons_of_ne_nil h.word.field.nonempty
  obtain ⟨more, hline⟩ : ∃ more, d.toLine.toList = d.word.toList ++ more := by
    rw [toLine, String.toList_intercalate, List.map_append, List.map_append, List.map_append,
      List.map_cons, List.append_assoc, List.append_assoc, List.cons_append]
    generalize ([] : List String).map String.toList ++ _ = later
    cases later with
    | nil => exact ⟨[], by simp⟩
    | cons next later => exact ⟨_, by rw [List.intercalate_cons_cons, List.append_assoc]⟩
  have hblank := h.word.field.solid c (hword ▸ List.mem_cons_self)
  have hsign := (h.word.head c (by rw [hword]; rfl)).2
  obtain ⟨later, htrim⟩ := trim_cons hblank (rest ++ more)
  rw [isSkippable, hline, hword, List.cons_append, htrim]
  simp [opensComment, hsign]

/-- The line of a declaration is read by taking its clauses one after the other. -/
theorem read_toLine {d : Declaration} (h : d.IsCanonical) :
    read d.toLine = d.clauses.foldlM Draft.take {} >>= fun draft => .ok (draft.finish d.comment) := by
  obtain ⟨rest, hfields, hopens, hcomment⟩ := fields_toLine h
  obtain ⟨htake, hdrop⟩ := span_front (p := fun s => !opensComment s) rest
    (fun (s : List Char) (hs : s ∈ d.clauses) => by rw [(h.clauses s hs).head]; rfl)
    fun s hs => by rw [hopens s hs]; rfl
  rw [read, isSkippable_toLine h, if_neg Bool.false_ne_true, hfields, readFields, htake, hdrop,
    hcomment]
  rfl

/-! ### Taking the fields -/

theorem take_word {w : String} (h : IsCanonicalWord w) :
    Draft.take {} w.toList = .ok { word := some w } := by
  have hnumeral := not_isNumeral_head fun c hc => (h.head c hc).1
  have hword : isWord w.toList = true := by
    obtain ⟨c, rest, hsplit⟩ := List.exists_cons_of_ne_nil h.field.nonempty
    obtain ⟨hdigit, hsign⟩ := h.head c (by rw [hsplit]; rfl)
    rw [hsplit, isWord, hdigit]
    simp [hsign]
  unfold Draft.take
  dsimp only
  rw [hnumeral, if_neg Bool.false_ne_true, if_pos Option.isNone_none, if_pos hword, h.low,
    String.ofList_toList]

theorem take_score {w : String} {s : List Char} {x : Score} (hnumeral : Score.isNumeral s = true)
    (hx : Score.ofNumeral? s = some x) :
    Draft.take { word := some w } s = .ok { word := some w, score := some x } := by
  unfold Draft.take
  dsimp only
  rw [if_pos hnumeral, if_neg (by simp), hx]

theorem take_group {d : Draft} {g : String} (hword : d.word.isSome = true)
    (h : IsCanonicalGroup g) (hnew : g ∉ d.groups) :
    d.take g.toList = .ok { d with groups := d.groups ++ [g] } := by
  have hnumeral := not_isNumeral_head fun c hc => (h.head c hc).1
  have hnone : d.word.isNone = false := by
    rw [← Option.not_isSome, hword]
    rfl
  unfold Draft.take
  dsimp only
  rw [hnumeral, if_neg Bool.false_ne_true, hnone, if_neg Bool.false_ne_true, if_pos h.name, h.high,
    String.ofList_toList, if_neg hnew]

theorem foldl_groups {groups : List String} (h : ∀ g ∈ groups, IsCanonicalGroup g) {d : Draft}
    (hword : d.word.isSome = true) (hnodup : (d.groups ++ groups).Nodup) :
    (groups.map String.toList).foldlM Draft.take d =
      .ok { d with groups := d.groups ++ groups } := by
  induction groups generalizing d with
  | nil =>
    rw [List.append_nil]
    rfl
  | cons g rest ih =>
    have hnew : g ∉ d.groups := fun hg =>
      (List.nodup_append.mp hnodup).2.2 g hg g List.mem_cons_self rfl
    rw [List.append_cons] at hnodup
    rw [List.map_cons, List.foldlM_cons, take_group hword (h g List.mem_cons_self) hnew]
    refine (ih (d := { d with groups := d.groups ++ [g] })
      (fun g' hg' => h g' (List.mem_cons_of_mem g hg')) hword hnodup).trans ?_
    rw [List.append_assoc]
    rfl

/-- Fields that are no numerals leave the score as it is. -/
theorem foldl_score {fields : List (List Char)} (h : ∀ s ∈ fields, Score.isNumeral s = false)
    {d d' : Draft} (hfold : fields.foldlM Draft.take d = .ok d') : d'.score = d.score := by
  induction fields generalizing d with
  | nil =>
    cases hfold
    rfl
  | cons s rest ih =>
    rw [List.foldlM_cons] at hfold
    obtain ⟨next, htake, hrest⟩ := Outcome.bind_eq_ok.mp hfold
    refine (ih (fun t ht => h t (List.mem_cons_of_mem s ht)) hrest).trans ?_
    cases takes_of_take htake with
    | score hnumeral =>
      rw [h s List.mem_cons_self] at hnumeral
      cases hnumeral
    | word | group | again | refused => rfl

/-! ### The round trip -/

theorem isPlain_of_zero {x : Score} (h : x.isZero = true) : x.IsPlain := by
  cases x with
  | whole n => exact trivial
  | real y =>
    cases y with
    | finite s m e => exact .inl (of_decide_eq_true h)
    | infinite s => cases h
    | nan => cases h

/-- The draft of a line whose score reads back. -/
theorem foldl_clauses {d : Declaration} (h : d.IsCanonical) (hplain : d.score.IsPlain) :
    d.clauses.foldlM Draft.take {} = .ok
      { word := some d.word, score := if d.isScored then some d.score else none
        groups := d.groups } := by
  have hgroups (x : Option Score) : (d.groups.map String.toList).foldlM Draft.take
      { word := some d.word, score := x } =
        .ok { word := some d.word, score := x, groups := d.groups } :=
    foldl_groups h.groups (d := { word := some d.word, score := x }) rfl h.nodup
  rw [clauses, List.cons_append, List.foldlM_cons, take_word h.word, Outcome.ok_bind]
  split
  next hscored =>
    obtain ⟨hnumeral, hx⟩ :=
      ((h.typed hscored).text (by simpa [isScored] using hscored)).1 hplain
    rw [List.singleton_append, List.foldlM_cons, take_score hnumeral hx, Outcome.ok_bind]
    exact hgroups _
  next => exact hgroups none

/-- If the score is not plain, nothing in the line is a number. -/
theorem IsCanonical.not_isNumeral_clauses {d : Declaration} (h : d.IsCanonical)
    (hscored : d.isScored = true) (hplain : ¬ d.score.IsPlain) :
    ∀ s ∈ d.clauses, Score.isNumeral s = false := by
  have hzero : d.score.isZero = false := by simpa [isScored] using hscored
  intro s hs
  rcases List.mem_cons.mp hs with rfl | hs
  · exact not_isNumeral_head fun c hc => (h.word.head c hc).1
  · rcases List.mem_append.mp hs with hs | hs
    · rw [if_pos hscored] at hs
      rw [List.mem_singleton.mp hs]
      exact ((h.typed hscored).text hzero).2 hplain
    · obtain ⟨g, hg, rfl⟩ := List.mem_map.mp hs
      exact not_isNumeral_head fun c hc => ((h.groups g hg).head c hc).1

/-- **A declaration comes back from its line exactly if its score is plain.** -/
theorem read_toLine_iff {line : String} {d : Declaration} (h : read line = .ok (.declared d)) :
    (∃ e, read d.toLine = .ok (.declared e) ∧ d.same e = true) ↔ d.score.IsPlain := by
  have hcanonical := canonical_of_read h
  constructor
  · rintro ⟨e, hread, hsame⟩
    by_contra hplain
    have hzero : d.score.isZero = false := by
      rw [Bool.eq_false_iff]
      exact fun hz => hplain (isPlain_of_zero hz)
    have hscored : d.isScored = true := by rw [isScored, hzero]; rfl
    rw [read_toLine hcanonical] at hread
    obtain ⟨draft, hfold, hfinish⟩ := Outcome.bind_eq_ok.mp hread
    obtain ⟨-, _, -, rfl⟩ := Draft.finish_eq_declared_iff.mp (Except.ok.inj hfinish)
    have hunset : draft.score = none :=
      foldl_score (hcanonical.not_isNumeral_clauses hscored hplain) hfold
    have hscore : draft.score.getD (.whole 0) = .whole 0 := by rw [hunset]; rfl
    rw [same, hscore, Score.sameNumber_zero, hzero, Bool.and_false, Bool.false_and,
      Bool.false_and] at hsame
    cases hsame
  · intro hplain
    rw [read_toLine hcanonical, foldl_clauses hcanonical hplain]
    refine ⟨{ d with score := if d.isScored then d.score else .whole 0 }, ?_, ?_⟩
    · rw [Outcome.ok_bind, Draft.finish, if_neg (by simp)]
      dsimp only
      rw [List.isEmpty_eq_false_iff.mpr hcanonical.groups_ne, if_neg Bool.false_ne_true]
      split <;> rfl
    · have hscore : d.score.sameNumber (if d.isScored then d.score else .whole 0) = true := by
        split
        next =>
          refine Score.sameNumber_self ?_
          intro hnan
          rw [hnan] at hplain
          exact hplain
        next hzero =>
          rw [Score.sameNumber_zero]
          simpa [isScored] using hzero
      simp [same, hscore]

theorem read_toLine_sample :
    ∃ d e, read "Word 1.5 spam # good" = .ok (.declared d) ∧ read d.toLine = .ok (.declared e) ∧
      d.same e = true := by
  have hread : read "Word 1.5 spam # good" = .ok (.declared
      { word := "word", score := .real (.finite false 6755399441055744 1022), comment := "good"
        groups := ["SPAM"] }) := by
    decide +kernel
  have hplain : (Score.real (.finite false 6755399441055744 1022)).IsPlain :=
    .inr ⟨by decide +kernel, by decide +kernel⟩
  obtain ⟨e, hback, hsame⟩ := (read_toLine_iff hread).mpr hplain
  exact ⟨_, e, hread, hback, hsame⟩

/-- A small score is written with an exponent, which is not read. -/
theorem read_toLine_small :
    ∃ d, read "word 0.00001" = .ok (.declared d) ∧ d.toLine = "word 1e-05 LOCAL" ∧
      ∀ e, read d.toLine ≠ .ok (.declared e) := by
  refine ⟨{ word := "word", score := .real (.finite false 5902958103587057 1005) }, ?_, ?_, ?_⟩
  · decide +kernel
  · decide +kernel
  · have hline : ({ word := "word", score := .real (.finite false 5902958103587057 1005) } :
        Declaration).toLine = "word 1e-05 LOCAL" := by
      decide +kernel
    have hread : read "word 1e-05 LOCAL" = .ok (.malformed (.invalidClauses ["1e-05"])) := by
      decide +kernel
    rw [hline, hread]
    intro e he
    cases he

end Declaration

end MailRules
