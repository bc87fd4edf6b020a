import MailRules.Proofs.Declaration.Draft
import MailRules.Proofs.Text.Order

/-! The grammar of a line.

The clauses of a line are its fields before the comment. They declare something exactly if the first
of them is a word and each later one is a group or a number, with one number at most
(`Grammatical`); then the word, the number, the groups and the comment are what the declaration has
(`Conveys`). The draft that reading keeps says the same of the clauses it has taken so far
(`Draft.Holds`), whatever their order. -/
namespace MailRules

open Text

namespace Score

/-- The number that a numeral writes: a whole one, or, if there is a point, the floating point
number that is nearest. -/
inductive Denotes : List Char → Score → Prop
  | whole {digits : List Char} {n : Nat} : AllDigits digits → digits ≠ [] →
      digitsValue? digits = some n → Denotes digits (.whole n)
  | point {whole fraction : List Char} {n : Nat} : AllDigits whole → whole ≠ [] →
      AllDigits fraction → fraction ≠ [] → digitsValue? (whole ++ fraction) = some n →
      Denotes (whole ++ '.' :: fraction)
        (.real (Binary64.Decimal.nearest false ⟨n, -fraction.length⟩))

/-- A numeral without too many digits has a number. -/
theorem exists_denoted {s : List Char} (hs : isNumeral s = true)
    (hshort : AllDigits s → s.length ≤ digitLimit) : ∃ x, ofNumeral? s = some x ∧ Denotes s x := by
  cases isNumeral_iff.mp hs with
  | whole hw hne =>
    obtain ⟨n, hn⟩ := digitsValue?_isSome hw
    refine ⟨.whole n, ?_, .whole hw hne hn⟩
    rw [ofNumeral?_whole hw hne hn, if_neg (Nat.not_lt.mpr (hshort hw))]
  | point hw hne hf hfne =>
    obtain ⟨n, hn⟩ := digitsValue?_isSome (hw.append hf)
    exact ⟨_, ofNumeral?_point hw hne hf hn, .point hw hne hf hfne hn⟩

end Score

namespace Declaration

/-! ### Clauses -/

/-- The fields before the comment. -/
def clausesOf (line : String) : List (List Char) :=
  (Text.fields line.toList).takeWhile (!opensComment ·)

/-- The fields of the comment, with the sign that opens it. -/
def remarkOf (line : String) : List (List Char) :=
  (Text.fields line.toList).dropWhile (!opensComment ·)

/-- The numbers among the clauses. -/
def numbers (clauses : List (List Char)) : List (List Char) :=
  clauses.filter Score.isNumeral

/-- The groups among the clauses, in upper case. -/
def groupNames (clauses : List (List Char)) : List String :=
  (clauses.filter isGroupName).map fun name => Text.upper (String.ofList name)

/-- What can follow the word: groups, and one number at most. -/
structure Follows (later : List (List Char)) : Prop where
  known : ∀ clause ∈ later, Score.Numeral clause ∨ isGroupName clause = true
  single : (numbers later).length ≤ 1

/-- A word that begins with no digit, and what can follow it. -/
inductive Grammatical : List (List Char) → Prop
  | intro {word : List Char} {later : List (List Char)} :
      (∀ c, word.head? = some c → isDigit c = false) → Follows later → Grammatical (word :: later)

/-- The declaration has what the word, the clauses after it and the comment say. -/
structure Conveys (word : List Char) (later remark : List (List Char)) (d : Declaration) : Prop where
  word : d.word = Text.lower (String.ofList word)
  score : numbers later = [] ∧ d.score = .whole 0 ∨
    ∃ numeral, numbers later = [numeral] ∧ Score.Denotes numeral d.score
  groups : d.groups = if groupNames later = [] then [localGroup] else (groupNames later).eraseDups
  comment : d.comment =
    String.ofList (((List.intercalate [' '] remark).drop 1).dropWhile isBlank)

theorem upper_name {name : List Char} (h : isGroupName name = true) :
    Text.upper (String.ofList name) = String.ofList (name.map Char.toUpper) := by
  have hchar (c : Char) (hc : c ∈ name) : upperChar c = [c.toUpper] :=
    forall_nameChar (P := fun c => upperChar c = [c.toUpper]) (by decide +kernel)
      (mem_isGroupName h c hc)
  rw [Text.upper, String.toList_ofList, upperChars, List.flatMap_congr hchar,
    ← List.map_eq_flatMap]

/-- A numeral begins with a digit, and so names no group. -/
theorem not_isGroupName_of_isNumeral {clause : List Char} (h : Score.isNumeral clause = true) :
    isGroupName clause = false := by
  by_contra hname
  rw [Bool.not_eq_false] at hname
  have hhead (c : Char) (hc : clause.head? = some c) : isDigit c = false := by
    obtain ⟨rest, rfl⟩ := List.head?_eq_some_iff.mp hc
    exact forall_nameChar (P := fun c => c.isAlpha = true ∨ c = '_' → isDigit c = false)
      (by decide +kernel) (isNameChar_of_alpha (isGroupName_cons.mp hname).1)
      (isGroupName_cons.mp hname).1
  rw [not_isNumeral_head hhead] at h
  cases h

/-! ### One more clause -/

section More

variable {later : List (List Char)} {clause : List Char}

theorem numbers_concat (later : List (List Char)) (clause : List Char) :
    numbers (later ++ [clause]) =
      if Score.isNumeral clause then numbers later ++ [clause] else numbers later := by
  cases hclause : Score.isNumeral clause <;> simp [numbers, hclause]

theorem groupNames_concat (later : List (List Char)) (clause : List Char) :
    groupNames (later ++ [clause]) =
      if isGroupName clause then groupNames later ++ [Text.upper (String.ofList clause)]
      else groupNames later := by
  cases hclause : isGroupName clause <;> simp [groupNames, hclause]

theorem Follows.front (h : Follows (later ++ [clause])) : Follows later := by
  refine ⟨fun c hc => h.known c (List.mem_append_left _ hc), Nat.le_trans ?_ h.single⟩
  exact ((List.sublist_append_left later [clause]).filter _).length_le

theorem follows_number (hclause : Score.isNumeral clause = true) :
    Follows (later ++ [clause]) ↔ Follows later ∧ numbers later = [] := by
  constructor
  · intro h
    have hsingle := h.single
    rw [numbers_concat, if_pos hclause, List.length_append, List.length_singleton] at hsingle
    exact ⟨h.front, List.eq_nil_of_length_eq_zero (by omega)⟩
  · rintro ⟨h, hnone⟩
    refine ⟨List.forall_mem_append.mpr ⟨h.known, ?_⟩, ?_⟩
    · exact List.forall_mem_singleton.mpr (.inl (Score.isNumeral_iff.mp hclause))
    · rw [numbers_concat, if_pos hclause, hnone]
      exact Nat.le_refl 1

theorem follows_other (hclause : Score.isNumeral clause = false) :
    Follows (later ++ [clause]) ↔ Follows later ∧ isGroupName clause = true := by
  have hnumbers : numbers (later ++ [clause]) = numbers later := by
    rw [numbers_concat, hclause, if_neg Bool.false_ne_true]
  constructor
  · intro h
    refine ⟨h.front, (h.known clause (by simp)).resolve_left fun hnumeral => ?_⟩
    rw [Score.isNumeral_iff.mpr hnumeral] at hclause
    cases hclause
  · rintro ⟨h, hname⟩
    exact ⟨List.forall_mem_append.mpr ⟨h.known, List.forall_mem_singleton.mpr (.inr hname)⟩,
      hnumbers ▸ h.single⟩

end More

/-! ### The draft -/

/-- The draft has what the word and the clauses after it say, and nothing was out of place in it
exactly if they can follow the word. -/
structure Draft.Holds (d : Draft) (word : List Char) (later : List (List Char)) : Prop where
  word : d.word = some (Text.lower (String.ofList word))
  score : d.score = (numbers later).head?.bind Score.ofNumeral?
  scored : d.score = none → numbers later = []
  groups : d.groups = (groupNames later).eraseDups
  valid : d.invalid = [] ↔ Follows later

theorem holds_word (word : List Char) :
    ({ word := some (Text.lower (String.ofList word)) } : Draft).Holds word [] where
  word := rfl
  score := rfl
  scored _ := rfl
  groups := rfl
  valid := iff_of_true rfl ⟨fun _ hc => absurd hc List.not_mem_nil, Nat.zero_le 1⟩

variable {d : Draft} {word clause : List Char} {later : List (List Char)}

/-- A clause that has no place leaves all else as it is. -/
theorem Draft.Holds.refuse (h : d.Holds word later) (hnumbers : (numbers later).head? =
      (numbers (later ++ [clause])).head?) (hgroups : groupNames (later ++ [clause]) = groupNames later)
    (hno : ¬ Follows (later ++ [clause])) (text : String) :
    ({ d with invalid := d.invalid ++ [text] } : Draft).Holds word (later ++ [clause]) where
  word := h.word
  score := hnumbers ▸ h.score
  scored hnone := by
    rw [← List.head?_eq_none_iff, ← hnumbers, List.head?_eq_none_iff]
    exact h.scored hnone
  groups := hgroups ▸ h.groups
  valid := iff_of_false (List.append_ne_nil_of_right_ne_nil _ (List.cons_ne_nil _ _)) hno

/-- A clause that is not too long a number is taken. -/
theorem exists_take (d : Draft) (hshort : AllDigits clause → clause.length ≤ digitLimit) :
    ∃ d', d.take clause = .ok d' := by
  cases htake : d.take clause with
  | ok d' => exact ⟨d', rfl⟩
  | error =>
    cases takes_of_take htake with
    | oversized hnumeral _ _ hnone =>
      obtain ⟨x, hx, -⟩ := Score.exists_denoted hnumeral hshort
      cases hnone.symm.trans hx

/-- One more clause is taken as the grammar says. -/
theorem Draft.Holds.take (h : d.Holds word later)
    (hshort : AllDigits clause → clause.length ≤ digitLimit) :
    ∃ d', d.take clause = .ok d' ∧ d'.Holds word (later ++ [clause]) := by
  obtain ⟨d', htake⟩ := exists_take d hshort
  have hsome : d.word ≠ none := by rw [h.word]; exact Option.some_ne_none _
  have hnumber (hnumeral : Score.isNumeral clause = true) :
      numbers (later ++ [clause]) = numbers later ++ [clause] ∧
        groupNames (later ++ [clause]) = groupNames later := by
    rw [numbers_concat, if_pos hnumeral, groupNames_concat, not_isGroupName_of_isNumeral hnumeral,
      if_neg Bool.false_ne_true]
    exact ⟨rfl, rfl⟩
  have hother (hnumeral : Score.isNumeral clause = false) :
      numbers (later ++ [clause]) = numbers later := by
    rw [numbers_concat, hnumeral, if_neg Bool.false_ne_true]
  have hgrouped (hnumeral : Score.isNumeral clause = false) (hname : isGroupName clause = true) :
      (d.invalid = [] ↔ Follows (later ++ [clause])) ∧
        groupNames (later ++ [clause]) =
          groupNames later ++ [String.ofList (clause.map Char.toUpper)] := by
    rw [follows_other hnumeral, ← h.valid, groupNames_concat, if_pos hname, upper_name hname]
    exact ⟨(and_iff_left hname).symm, rfl⟩
  refine ⟨d', htake, ?_⟩
  cases takes_of_take htake with
  | word _ hnone => exact absurd hnone hsome
  | score hnumeral _ hfree hx =>
    obtain ⟨hnumbers, hgroups⟩ := hnumber hnumeral
    have hnil := h.scored hfree
    refine ⟨h.word, ?_, fun hnone => ?_, hgroups ▸ h.groups, ?_⟩
    · rw [hnumbers, hnil]
      exact hx.symm
    · cases hnone
    · rw [follows_number hnumeral, ← h.valid]
      exact (and_iff_left hnil).symm
  | group hnumeral _ hname hnew =>
    obtain ⟨hvalid, hgroups⟩ := hgrouped hnumeral hname
    refine ⟨h.word, hother hnumeral ▸ h.score, hother hnumeral ▸ h.scored, ?_, hvalid⟩
    rw [hgroups, eraseDups_concat, ← h.groups, if_neg hnew]
  | again hnumeral _ hname hold =>
    obtain ⟨hvalid, hgroups⟩ := hgrouped hnumeral hname
    refine ⟨h.word, hother hnumeral ▸ h.score, hother hnumeral ▸ h.scored, ?_, hvalid⟩
    rw [hgroups, eraseDups_concat, ← h.groups, if_pos hold]
  | refused hrefuses =>
    cases hrefuses with
    | number hnumeral hlate =>
      obtain ⟨hnumbers, hgroups⟩ := hnumber hnumeral
      have hne : numbers later ≠ [] := by
        intro hnil
        have hscore := hlate.resolve_left hsome
        rw [h.score, hnil] at hscore
        cases hscore
      refine h.refuse ?_ hgroups ?_ _
      · rw [hnumbers, List.head?_append_of_ne_nil _ hne]
      · rw [follows_number hnumeral]
        exact fun hboth => hne hboth.2
    | noWord _ hnone => exact absurd hnone hsome
    | noGroup hnumeral _ hname =>
      refine h.refuse (by rw [hother hnumeral]) ?_ ?_ _
      · rw [groupNames_concat, hname, if_neg Bool.false_ne_true]
      · rw [follows_other hnumeral, hname]
        exact fun hboth => Bool.false_ne_true hboth.2

/-- No clause is too long a number. -/
def Short (clauses : List (List Char)) : Prop :=
  ∀ clause ∈ clauses, AllDigits clause → clause.length ≤ digitLimit

theorem Draft.Holds.foldl (h : d.Holds word later) {more : List (List Char)} (hshort : Short more) :
    ∃ d', more.foldlM Draft.take d = .ok d' ∧ d'.Holds word (later ++ more) := by
  induction more generalizing d later with
  | nil => exact ⟨d, rfl, by rwa [List.append_nil]⟩
  | cons clause rest ih =>
    obtain ⟨next, htake, hnext⟩ := h.take (hshort clause List.mem_cons_self)
    obtain ⟨d', hfold, hd'⟩ := ih hnext fun c hc => hshort c (List.mem_cons_of_mem clause hc)
    rw [List.append_assoc] at hd'
    exact ⟨d', by rw [List.foldlM_cons, htake, Outcome.ok_bind, hfold], hd'⟩

/-! ### Clauses that make no sense -/

/-- What was out of place before stays. -/
theorem invalid_of_take {d' : Draft} (htake : d.take clause = .ok d') : d.invalid <+: d'.invalid := by
  cases takes_of_take htake with
  | word | score | group | again => exact List.prefix_refl _
  | refused => exact List.prefix_append _ _

theorem foldl_invalid {clauses : List (List Char)} (hshort : Short clauses)
    (hd : d.invalid ≠ []) : ∃ d', clauses.foldlM Draft.take d = .ok d' ∧ d'.invalid ≠ [] := by
  induction clauses generalizing d with
  | nil => exact ⟨d, rfl, hd⟩
  | cons clause rest ih =>
    obtain ⟨next, htake⟩ := exists_take d (hshort clause List.mem_cons_self)
    have hnext : next.invalid ≠ [] := fun hnil =>
      hd (List.prefix_nil.mp (hnil ▸ invalid_of_take htake))
    obtain ⟨d', hfold, hd'⟩ := ih (fun c hc => hshort c (List.mem_cons_of_mem clause hc)) hnext
    exact ⟨d', by rw [List.foldlM_cons, htake, Outcome.ok_bind, hfold], hd'⟩

/-! ### The first clause -/

/-- A first clause that begins with no digit is the word. -/
theorem take_first (hfield : IsField word) (hopens : opensComment word = false)
    (hdigit : ∀ c, word.head? = some c → isDigit c = false) :
    Draft.take {} word = .ok { word := some (Text.lower (String.ofList word)) } := by
  obtain ⟨c, rest, rfl⟩ := List.exists_cons_of_ne_nil hfield.nonempty
  have hword : isWord (c :: rest) = true := by
    have hsign : c ≠ '#' := by simpa [opensComment] using hopens
    rw [isWord, hdigit c rfl]
    simp [hsign]
  unfold Draft.take
  dsimp only
  rw [not_isNumeral_head hdigit, if_neg Bool.false_ne_true, if_pos Option.isNone_none, if_pos hword,
    Text.lower, String.toList_ofList]

/-- A first clause that begins with a digit is out of place. -/
theorem take_digit {c : Char} {rest : List Char} (hdigit : isDigit c = true) :
    Draft.take {} (c :: rest) = .ok { invalid := [String.ofList (c :: rest)] } := by
  have hword : isWord (c :: rest) = false := by rw [isWord, hdigit]; rfl
  unfold Draft.take
  dsimp only
  rw [hword]
  split <;> rfl

/-! ### Lines -/

theorem isSkippable_iff {line : String} : isSkippable line = true ↔ clausesOf line = [] := by
  have htrim : Text.trim line.toList = Text.trimEnd (Text.trimStart line.toList) := rfl
  rw [isSkippable, htrim, clausesOf, ← fields_trimStart]
  cases hstart : Text.trimStart line.toList with
  | nil => exact iff_of_true rfl rfl
  | cons c rest =>
    have hc : isBlank c = false := by
      have hhead := List.head?_dropWhile_not isBlank line.toList
      rw [trimStart] at hstart
      rwa [hstart] at hhead
    have hkept : Text.trimStart (c :: rest) = c :: rest := List.dropWhile_cons_of_neg (by simp [hc])
    obtain ⟨shown, hshown⟩ := trim_cons hc rest
    obtain ⟨more, later, hfields⟩ := fields_cons hc rest
    rw [Text.trim, hkept] at hshown
    rw [hshown, hfields]
    by_cases hsign : c = '#' <;> simp [opensComment, hsign]

theorem commentOf_eq {remark : List (List Char)} (h : ∀ field ∈ remark, IsField field) :
    commentOf remark =
      String.ofList (((List.intercalate [' '] remark).drop 1).dropWhile isBlank) := by
  cases remark with
  | nil => rfl
  | cons first rest =>
    obtain ⟨hfirst, hrest⟩ := List.forall_mem_cons.mp h
    obtain ⟨sign, opened, rfl⟩ := List.exists_cons_of_ne_nil hfirst.nonempty
    rw [commentOf]
    congr 1
    cases opened with
    | nil =>
      show List.intercalate [' '] rest = _
      cases rest with
      | nil => rfl
      | cons next later =>
        rw [List.intercalate_cons_cons]
        show _ = (' ' :: List.intercalate [' '] (next :: later)).dropWhile isBlank
        rw [List.dropWhile_cons_of_pos isBlank_space, dropBlanks_join hrest]
    | cons c opened =>
      have hsolid : IsField (c :: opened) :=
        ⟨List.cons_ne_nil _ _, fun d hd => hfirst.solid d (List.mem_cons_of_mem sign hd)⟩
      have hdrop : (List.intercalate [' '] ((sign :: c :: opened) :: rest)).drop 1 =
          List.intercalate [' '] ((c :: opened) :: rest) := by
        cases rest with
        | nil => simp
        | cons next later => simp [List.intercalate_cons_cons]
      show List.intercalate [' '] ((c :: opened) :: rest) = _
      rw [hdrop, dropBlanks_join (List.forall_mem_cons.mpr ⟨hsolid, hrest⟩)]

/-- A draft that holds what can follow a word makes a declaration that conveys it. -/
theorem Draft.Holds.finish (h : d.Holds word later) (hfollows : Follows later)
    (hshort : Short later) {remark : List (List Char)} (hremark : ∀ field ∈ remark, IsField field) :
    ∃ e, d.finish (commentOf remark) = .declared e ∧ Conveys word later remark e := by
  have hinvalid := h.valid.mpr hfollows
  rw [Draft.finish, hinvalid, h.word]
  refine ⟨_, rfl, rfl, ?_, ?_, commentOf_eq hremark⟩
  · have hscore := h.score
    have hsingle := hfollows.single
    cases hnumbers : numbers later with
    | nil =>
      rw [hnumbers] at hscore
      exact .inl ⟨rfl, congrArg (Option.getD · (.whole 0)) hscore⟩
    | cons numeral more =>
      rw [hnumbers, List.length_cons] at hsingle
      obtain rfl : more = [] := List.eq_nil_of_length_eq_zero (by omega)
      have hmem : numeral ∈ numbers later := hnumbers ▸ List.mem_cons_self
      obtain ⟨hlater, hnumeral⟩ := List.mem_filter.mp hmem
      obtain ⟨x, hx, hdenotes⟩ := Score.exists_denoted hnumeral (hshort numeral hlater)
      rw [hnumbers] at hscore
      have hgot : d.score.getD (.whole 0) = x := congrArg (Option.getD · (.whole 0)) (hscore.trans hx)
      exact .inr ⟨numeral, rfl, hgot.symm ▸ hdenotes⟩
  · dsimp only
    rw [h.groups]
    by_cases hnone : groupNames later = []
    · rw [hnone, if_pos rfl]
      rfl
    · obtain ⟨name, more, hcons⟩ := List.exists_cons_of_ne_nil hnone
      rw [if_neg hnone, hcons, List.eraseDups_cons]
      rfl

/-- Clauses that are grammatical make a draft that conveys them, and all others one in which
something is out of place. -/
theorem finish_cases {clauses remark : List (List Char)} (hne : clauses ≠ [])
    (hclauses : ∀ clause ∈ clauses, IsField clause ∧ opensComment clause = false)
    (hshort : Short clauses) (hremark : ∀ field ∈ remark, IsField field) :
    ∃ draft, clauses.foldlM Draft.take {} = .ok draft ∧
      ((¬ Grammatical clauses ∧ ∃ wrong,
          draft.finish (commentOf remark) = .malformed (.invalidClauses wrong)) ∨
        ∃ word later e, clauses = word :: later ∧ Grammatical clauses ∧
          draft.finish (commentOf remark) = .declared e ∧ Conveys word later remark e) := by
  obtain ⟨word, later, rfl⟩ := List.exists_cons_of_ne_nil hne
  obtain ⟨hfield, hopens⟩ := hclauses word List.mem_cons_self
  have hrest : Short later := fun c hc => hshort c (List.mem_cons_of_mem word hc)
  have hrefused {draft : Draft} (hinvalid : draft.invalid ≠ []) : ∃ wrong,
      draft.finish (commentOf remark) = .malformed (.invalidClauses wrong) := by
    rw [Draft.finish, List.isEmpty_eq_false_iff.mpr hinvalid]
    exact ⟨_, rfl⟩
  rw [List.foldlM_cons]
  by_cases hdigit : ∀ c, word.head? = some c → isDigit c = false
  · obtain ⟨draft, hfold, hholds⟩ := (holds_word word).foldl hrest
    refine ⟨draft, by rw [take_first hfield hopens hdigit, Outcome.ok_bind, hfold], ?_⟩
    rw [List.nil_append] at hholds
    by_cases hfollows : Follows later
    · obtain ⟨e, hfinish, hconveys⟩ := hholds.finish hfollows hrest hremark
      exact .inr ⟨word, later, e, rfl, .intro hdigit hfollows, hfinish, hconveys⟩
    · refine .inl ⟨?_, hrefused (mt hholds.valid.mp hfollows)⟩
      rintro ⟨-, h⟩
      exact hfollows h
  · obtain ⟨c, rest, rfl⟩ := List.exists_cons_of_ne_nil hfield.nonempty
    have hc : isDigit c = true := by simpa using hdigit
    obtain ⟨draft, hfold, hinvalid⟩ := foldl_invalid (d := { invalid := [String.ofList (c :: rest)] })
      hrest (List.cons_ne_nil _ _)
    refine ⟨draft, by rw [take_digit hc, Outcome.ok_bind, hfold], .inl ⟨?_, hrefused hinvalid⟩⟩
    rintro ⟨h, -⟩
    exact hdigit h

/-- A line is skipped if it has no clauses; otherwise either some of them have no place, or they are
grammatical and it declares what they convey. -/
theorem read_cases {line : String} (hshort : Short (clausesOf line)) :
    (clausesOf line = [] ∧ read line = .ok .skipped) ∨
      (¬ Grammatical (clausesOf line) ∧ clausesOf line ≠ [] ∧
        ∃ wrong, read line = .ok (.malformed (.invalidClauses wrong))) ∨
      ∃ word later d, clausesOf line = word :: later ∧ Grammatical (clausesOf line) ∧
        read line = .ok (.declared d) ∧ Conveys word later (remarkOf line) d := by
  by_cases hskip : isSkippable line = true
  · exact .inl ⟨isSkippable_iff.mp hskip, if_pos hskip⟩
  have hfields : ∀ field ∈ Text.fields line.toList, IsField field := fun _ hf => isField_of_mem hf
  have hclauses : ∀ clause ∈ clausesOf line, IsField clause ∧ opensComment clause = false :=
    fun clause hc => ⟨hfields clause ((List.takeWhile_prefix _).subset hc),
      by simpa using List.all_eq_true.mp List.all_takeWhile clause hc⟩
  have hremark : ∀ field ∈ remarkOf line, IsField field :=
    fun field hf => hfields field ((List.dropWhile_suffix _).subset hf)
  have hne : clausesOf line ≠ [] := mt isSkippable_iff.mpr hskip
  obtain ⟨draft, hfold, hcases⟩ := finish_cases hne hclauses hshort hremark
  have hread : read line = .ok (draft.finish (commentOf (remarkOf line))) := by
    rw [read, if_neg hskip, readFields]
    show (clausesOf line).foldlM Draft.take {} >>= _ = _
    rw [hfold]
    rfl
  rcases hcases with ⟨hno, wrong, hfinish⟩ | ⟨word, later, d, hsplit, hyes, hfinish, hconveys⟩
  · exact .inr (.inl ⟨hno, hne, wrong, hfinish ▸ hread⟩)
  · exact .inr (.inr ⟨word, later, d, hsplit, hyes, hfinish ▸ hread, hconveys⟩)

/-- Blanks only tell the fields of a line apart. -/
theorem read_of_fields {line other : String}
    (h : Text.fields other.toList = Text.fields line.toList) :
    isSkippable other = isSkippable line ∧ read other = read line := by
  have hskip : isSkippable other = isSkippable line := by
    rw [Bool.eq_iff_iff, isSkippable_iff, isSkippable_iff, clausesOf, h, clausesOf]
  exact ⟨hskip, by rw [read, read, hskip, h]⟩

/-- **A line is read as the grammar says.** It declares something exactly if its clauses are a word,
which begins with no digit, and after it groups and one number at most; the declaration has the word
in lower case, the number wherever it stands, each group once, and the comment. A line without
clauses is skipped, and any other that declares nothing has clauses without a place: a word is never
missing. Lines with the same fields are read alike. -/
theorem read_grammar (line : String) (hshort : Short (clausesOf line)) :
    ((∃ d, read line = .ok (.declared d)) ↔ Grammatical (clausesOf line)) ∧
    (∀ d, read line = .ok (.declared d) →
      ∃ word later, clausesOf line = word :: later ∧ Conveys word later (remarkOf line) d) ∧
    (isSkippable line = true ↔ clausesOf line = []) ∧
    (isSkippable line = true ↔ read line = .ok .skipped) ∧
    (∃ reading, read line = .ok reading ∧ reading ≠ .malformed .noWord) ∧
    ∀ other : String, Text.fields other.toList = Text.fields line.toList →
      isSkippable other = isSkippable line ∧ read other = read line := by
  have hsame (other : String) (h : Text.fields other.toList = Text.fields line.toList) :
      isSkippable other = isSkippable line ∧ read other = read line := read_of_fields h
  rcases read_cases hshort with ⟨hnone, hread⟩ | ⟨hno, hne, wrong, hread⟩ |
    ⟨word, later, d, hsplit, hyes, hread, hconveys⟩
  · have hno : ¬ Grammatical (clausesOf line) := by
      rw [hnone]
      rintro ⟨⟩
    refine ⟨iff_of_false ?_ hno, ?_, isSkippable_iff, iff_of_true (isSkippable_iff.mpr hnone) hread,
      ⟨_, hread, by simp⟩, hsame⟩ <;> simp [hread]
  · refine ⟨iff_of_false ?_ hno, ?_, isSkippable_iff, iff_of_false (mt isSkippable_iff.mp hne) ?_,
      ⟨_, hread, by simp⟩, hsame⟩ <;> simp [hread]
  · have hne : clausesOf line ≠ [] := by simp [hsplit]
    refine ⟨iff_of_true ⟨d, hread⟩ hyes, fun e he => ?_, isSkippable_iff,
      iff_of_false (mt isSkippable_iff.mp hne) (by simp [hread]), ⟨_, hread, by simp⟩, hsame⟩
    cases hread.symm.trans he
    exact ⟨word, later, hsplit, hconveys⟩

/-- The number stands between the groups, one of which comes twice, and the comment begins with its
sign. -/
theorem read_grammar_sample :
    let line := "Word spam 1.5 Ham SPAM # #1 tip"
    Short (clausesOf line) ∧ Grammatical (clausesOf line) ∧
      ∃ d, read line = .ok (.declared d) ∧ d.word = "word" ∧ d.groups = ["SPAM", "HAM"] ∧
        d.comment = "#1 tip" ∧ Score.Denotes "1.5".toList d.score := by
  intro line
  have hclauses : clausesOf line = ["Word", "spam", "1.5", "Ham", "SPAM"].map String.toList := by
    decide +kernel
  have hshort : Short (clausesOf line) := by
    have hall : ∀ clause ∈ ["Word", "spam", "1.5", "Ham", "SPAM"].map String.toList,
        clause.length ≤ 5 := by
      decide
    rw [hclauses]
    exact fun clause hclause _ => Nat.le_trans (hall clause hclause) (by decide)
  have hread : ∃ d, read line = .ok (.declared d) :=
    ⟨{ word := "word", score := .real (.finite false 6755399441055744 1022), comment := "#1 tip"
       groups := ["SPAM", "HAM"] }, by decide +kernel⟩
  obtain ⟨hgrammar, hconveys, -⟩ := read_grammar line hshort
  obtain ⟨d, hd⟩ := hread
  obtain ⟨word, later, hsplit, hword, hscore, hgroups, hcomment⟩ := hconveys d hd
  rw [hclauses] at hsplit
  cases hsplit
  refine ⟨hshort, hgrammar.mp ⟨d, hd⟩, d, hd, hword.trans (by decide +kernel),
    hgroups.trans (by decide +kernel), hcomment.trans (by decide +kernel), ?_⟩
  have hnumbers : numbers (["spam", "1.5", "Ham", "SPAM"].map String.toList) = ["1.5".toList] := by
    decide +kernel
  rcases hscore with ⟨hnone, -⟩ | ⟨numeral, hone, hdenotes⟩
  · cases hnumbers.symm.trans hnone
  · cases hnumbers.symm.trans hone
    exact hdenotes

end Declaration

end MailRules
