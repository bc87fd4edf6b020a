import Mathlib.Data.List.Basic
import MailRules.Path

/-! Paths as text.

The parts of a path that was read are proper: none is empty or a single dot, and none holds a
slash. A proper path reads back from its text (`ofString_text`), and a name put after that text
and a slash is a child of the path (`isChild_below`). -/
namespace MailRules.Text

/-- A joined text holds the characters of its parts and of what joins them. -/
theorem mem_intercalate {sep : List Char} {parts : List (List Char)} {c : Char}
    (h : c ∈ List.intercalate sep parts) : c ∈ sep ∨ ∃ part ∈ parts, c ∈ part := by
  induction parts with
  | nil => simp at h
  | cons part rest ih =>
    cases rest with
    | nil => exact .inr ⟨part, List.mem_cons_self, by simpa using h⟩
    | cons next later =>
      rw [List.intercalate_cons_cons, List.mem_append, List.mem_append] at h
      rcases h with (hpart | hsep) | hrest
      · exact .inr ⟨part, List.mem_cons_self, hpart⟩
      · exact .inl hsep
      · exact (ih hrest).imp_right fun ⟨q, hq, hc⟩ => ⟨q, List.mem_cons_of_mem part hq, hc⟩

end MailRules.Text

namespace MailRules.Path

/-- A part as reading a text leaves it. -/
structure IsPart (part : String) : Prop where
  nonempty : part.toList ≠ []
  notDot : part.toList ≠ ['.']
  noSlash : '/' ∉ part.toList

def Proper (p : Path) : Prop := ∀ part ∈ p.parts, IsPart part

/-! ### Pieces -/

theorem pieces_cons (c d : Char) (rest : List Char) :
    ∃ piece later, pieces c rest = piece :: later ∧
      pieces c (d :: rest) = if d = c then [] :: piece :: later else (d :: piece) :: later := by
  have hsome : ∃ piece later, pieces c rest = piece :: later := by
    cases rest with
    | nil => exact ⟨[], [], rfl⟩
    | cons e rest =>
      rw [pieces]
      split
      · exact ⟨[], _, rfl⟩
      · split <;> exact ⟨_, _, rfl⟩
  obtain ⟨piece, later, h⟩ := hsome
  refine ⟨piece, later, h, ?_⟩
  rw [pieces, h]

theorem pieces_append (c : Char) (s t : List Char) :
    pieces c (s ++ c :: t) = pieces c s ++ pieces c t := by
  induction s with
  | nil => simp [pieces]
  | cons d rest ih =>
    obtain ⟨piece, later, hrest, hcons⟩ := pieces_cons c d rest
    obtain ⟨piece', later', hall, hcons'⟩ := pieces_cons c d (rest ++ c :: t)
    rw [ih, hrest, List.cons_append] at hall
    obtain ⟨rfl, rfl⟩ := List.cons.inj hall
    rw [List.cons_append, hcons', hcons]
    split <;> rfl

theorem pieces_of_not_mem {c : Char} {s : List Char} (h : c ∉ s) : pieces c s = [s] := by
  induction s with
  | nil => rfl
  | cons d rest ih =>
    rw [List.mem_cons, not_or] at h
    rw [pieces, if_neg (Ne.symm h.1), ih h.2]

theorem not_mem_of_mem_pieces {c : Char} {s piece : List Char} (h : piece ∈ pieces c s) :
    c ∉ piece := by
  induction s generalizing piece with
  | nil => simp_all [pieces]
  | cons d rest ih =>
    obtain ⟨first, later, hrest, hcons⟩ := pieces_cons c d rest
    rw [hcons] at h
    rw [hrest] at ih
    split at h
    next =>
      rcases List.mem_cons.mp h with rfl | h
      · exact List.not_mem_nil
      · exact ih h
    next hd =>
      rcases List.mem_cons.mp h with rfl | h
      · rw [List.mem_cons, not_or]
        exact ⟨Ne.symm hd, ih List.mem_cons_self⟩
      · exact ih (List.mem_cons_of_mem _ h)

/-! ### Reading a path -/

theorem proper_ofString (s : String) : (ofString s).Proper := by
  intro part hpart
  obtain ⟨piece, hpiece, rfl⟩ := List.mem_map.mp hpart
  obtain ⟨hmem, hkept⟩ := List.mem_filter.mp hpiece
  obtain ⟨hne, hdot⟩ := of_decide_eq_true hkept
  refine ⟨?_, ?_, ?_⟩ <;> rw [String.toList_ofList]
  · exact hne
  · exact hdot
  · exact not_mem_of_mem_pieces hmem

theorem Proper.join {p q : Path} (hp : p.Proper) (hq : q.Proper) : (p.join q).Proper := by
  rw [Path.join]
  split
  · exact hq
  · intro part hpart
    exact (List.mem_append.mp hpart).elim (hp part) (hq part)

theorem parts_append (s t : List Char) :
    (ofChars (s ++ '/' :: t)).parts = (ofChars s).parts ++ (ofChars t).parts := by
  show ((pieces '/' (s ++ '/' :: t)).filter _).map String.ofList = _
  rw [pieces_append, List.filter_append, List.map_append]
  rfl

theorem parts_of_isPart {part : String} (h : IsPart part) :
    (ofChars part.toList).parts = [part] := by
  have hkept : decide (part.toList ≠ [] ∧ part.toList ≠ ['.']) = true :=
    decide_eq_true ⟨h.nonempty, h.notDot⟩
  show ((pieces '/' part.toList).filter _).map String.ofList = _
  rw [pieces_of_not_mem h.noSlash, List.filter_cons, if_pos hkept]
  simp

theorem parts_intercalate {parts : List String} (h : ∀ part ∈ parts, IsPart part) :
    (ofChars (List.intercalate ['/'] (parts.map String.toList))).parts = parts := by
  induction parts with
  | nil => rfl
  | cons part rest ih =>
    have hpart := parts_of_isPart (h part List.mem_cons_self)
    cases rest with
    | nil => simpa using hpart
    | cons next later =>
      have hrest := ih fun q hq => h q (List.mem_cons_of_mem part hq)
      rw [List.map_cons] at hrest
      rw [List.map_cons, List.map_cons, List.intercalate_cons_cons, List.append_assoc,
        List.singleton_append, parts_append, hpart, hrest, List.singleton_append]

/-- The parts do not start with a slash. -/
theorem head?_intercalate {parts : List String} (h : ∀ part ∈ parts, IsPart part) :
    (List.intercalate ['/'] (parts.map String.toList)).head? ≠ some '/' := by
  cases parts with
  | nil => simp
  | cons part rest =>
    have hpart := h part List.mem_cons_self
    cases hchars : part.toList with
    | nil => exact absurd hchars hpart.nonempty
    | cons c later =>
      have hc : c ≠ '/' := fun he => hpart.noSlash (by simp [hchars, he])
      cases rest with
      | nil => simpa [hchars] using hc
      | cons => simpa [hchars, List.intercalate_cons_cons] using hc

theorem anchorOf_text (anchor : Anchor) {t : List Char} (ht : t.head? ≠ some '/') :
    anchorOf ((Anchor.text anchor).toList ++ t) = anchor := by
  cases t with
  | nil => cases anchor <;> rfl
  | cons c rest =>
    have hc : c ≠ '/' := fun he => ht (by rw [he]; rfl)
    cases anchor <;> simp [Anchor.text, anchorOf, hc]

theorem parts_anchor (anchor : Anchor) (t : List Char) :
    (ofChars ((Anchor.text anchor).toList ++ t)).parts = (ofChars t).parts := by
  have hslash (t : List Char) : (ofChars ('/' :: t)).parts = (ofChars t).parts :=
    parts_append [] t
  cases anchor with
  | relative => rfl
  | root => exact hslash t
  | doubleRoot => exact (hslash ('/' :: t)).trans (hslash t)

theorem ofString_text {p : Path} (hp : p.Proper) : ofString p.text = p := by
  rw [text]
  split
  next hempty =>
    obtain ⟨anchor, parts⟩ := p
    obtain ⟨rfl, rfl⟩ : anchor = .relative ∧ parts = [] := hempty
    decide
  next =>
    have hchars : (Anchor.text p.anchor ++ "/".intercalate p.parts).toList =
        (Anchor.text p.anchor).toList ++ List.intercalate ['/'] (p.parts.map String.toList) := by
      rw [String.toList_append, String.toList_intercalate]
      rfl
    rw [ofString, hchars, ofChars, mk.injEq]
    exact ⟨anchorOf_text _ (head?_intercalate hp), (parts_anchor _ _).trans (parts_intercalate hp)⟩

/-! ### Names below a path -/

theorem parts_below {p : Path} (hp : p.Proper) {name : String} (hname : IsPart name) :
    (ofString (p.text ++ "/" ++ name)).parts = p.parts ++ [name] := by
  have hchars : (p.text ++ "/" ++ name).toList = p.text.toList ++ '/' :: name.toList := by
    simp
  rw [ofString, hchars, parts_append, parts_of_isPart hname]
  exact congrArg (·.parts ++ [name]) (ofString_text hp)

theorem isAbsolute_ofChars (s : List Char) :
    (ofChars s).isAbsolute = decide (s.head? = some '/') := by
  cases s with
  | nil => rfl
  | cons c rest =>
    by_cases hc : c = '/'
    · subst hc
      have habsolute : anchorOf ('/' :: rest) ≠ .relative := by
        unfold anchorOf
        split <;> simp_all
      simpa [isAbsolute, ofChars] using habsolute
    · have hrelative : anchorOf (c :: rest) = .relative := by
        simp [anchorOf, hc]
      simp [isAbsolute, ofChars, hrelative, hc]

theorem isAbsolute_below {p : Path} (hp : p.Proper) (name : String) :
    (ofString (p.text ++ "/" ++ name)).isAbsolute = p.isAbsolute := by
  have hself : (ofChars p.text.toList).isAbsolute = p.isAbsolute :=
    congrArg isAbsolute (ofString_text hp)
  have hne : p.text.toList ≠ [] := by
    intro hnil
    have hempty := ofString_text hp
    rw [ofString, hnil] at hempty
    rw [← hempty] at hnil
    revert hnil
    decide
  rw [← hself, ofString, isAbsolute_ofChars, isAbsolute_ofChars, String.toList_append,
    String.toList_append, List.append_assoc, List.head?_append_of_ne_nil _ hne]

/-! ### Children -/

/-- The path `p` is `q` with one more name; how many slashes they start with does not count. -/
structure IsChild (p q : Path) (name : String) : Prop where
  isAbsolute : p.isAbsolute = q.isAbsolute
  parts : p.parts = q.parts ++ [name]
  isPart : IsPart name

theorem isChild_below {p : Path} (hp : p.Proper) {name : String} (hname : IsPart name) :
    IsChild (ofString (p.text ++ "/" ++ name)) p name :=
  ⟨isAbsolute_below hp name, parts_below hp hname, hname⟩

theorem isChild_parent {p : Path} (hp : p.Proper) {name : String}
    (hlast : p.parts.getLast? = some name) : IsChild p p.parent name := by
  have hne : p.parts ≠ [] := by
    rintro hnil
    rw [hnil] at hlast
    cases hlast
  have hname : p.parts.getLast hne = name := by
    rwa [List.getLast?_eq_some_getLast hne, Option.some.injEq] at hlast
  refine ⟨rfl, ?_, hp name (List.mem_of_getLast? hlast)⟩
  rw [← hname]
  exact (List.dropLast_append_getLast hne).symm

theorem exists_parts_parent (p : Path) : ∃ last, p.parts = p.parent.parts ++ last :=
  (List.dropLast_prefix p.parts).imp fun _ => Eq.symm

theorem Proper.parent {p : Path} (hp : p.Proper) : p.parent.Proper :=
  fun part hpart => hp part (List.dropLast_subset _ hpart)

theorem size_intercalate (parts : List String) (name : String) :
    ("/".intercalate parts).utf8ByteSize + name.utf8ByteSize ≤
      ("/".intercalate (parts ++ [name])).utf8ByteSize := by
  induction parts with
  | nil => simp
  | cons part rest ih =>
    have hall : rest ++ [name] ≠ [] := by simp
    rw [List.cons_append, String.intercalate_cons_of_ne_nil hall]
    cases rest with
    | nil => simp
    | cons next later =>
      rw [String.intercalate_cons_of_ne_nil (List.cons_ne_nil next later)]
      simp only [String.utf8ByteSize_append] at ih ⊢
      omega

/-- A child's text is at least as long as that of the path above it. -/
theorem IsChild.size_le {p q : Path} {name : String} (h : IsChild p q name) :
    q.text.utf8ByteSize ≤ p.text.utf8ByteSize := by
  have hname : name.utf8ByteSize ≠ 0 := by
    rw [Ne, String.utf8ByteSize_eq_zero_iff]
    rintro rfl
    exact h.isPart.nonempty rfl
  have hgrow := size_intercalate q.parts name
  have hanchor : (Anchor.text q.anchor).utf8ByteSize ≤ (Anchor.text p.anchor).utf8ByteSize + 1 := by
    have habsolute : decide (p.anchor ≠ .relative) = decide (q.anchor ≠ .relative) := h.isAbsolute
    revert habsolute
    cases q.anchor <;> cases p.anchor <;> decide
  have hp : p.text = Anchor.text p.anchor ++ "/".intercalate (q.parts ++ [name]) := by
    rw [text, h.parts, if_neg (by simp)]
  rw [hp, text, String.utf8ByteSize_append]
  split
  next =>
    have hdot : ".".utf8ByteSize = 1 := by decide
    omega
  next =>
    rw [String.utf8ByteSize_append]
    omega

end MailRules.Path
