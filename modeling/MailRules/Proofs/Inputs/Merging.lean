import MailRules.Proofs.Declaration.Grammar
import MailRules.Proofs.Inputs.Reading
import MailRules.Proofs.Store.Origins

/-! A file read is its declarations added one after the other.

The claims of a file to global words do not get in each other's way, so which of its declarations
are refused shows in the store that the file comes to (`refusals_eq`). A file without declarations,
or without a text, leaves that store as it is, and any other is merged whole, refusals or not
(`read_merges`). -/
namespace MailRules

open MailRules.Action Declaration

/-- There is no file at the path that can be read, or it does not encode a text. -/
def Host.Undecodable (h : Host) (path : String) : Prop :=
  (∃ refusal, h.readBytes (Path.ofString path) = .error refusal) ∨
    ∃ content, h.readBytes (Path.ofString path) = .ok content ∧ String.fromUTF8? content = none

theorem Host.textAt?_eq_none_iff {h : Host} {path : String} :
    h.textAt? path = none ↔ h.Undecodable path := by
  unfold textAt? Undecodable
  cases h.readBytes (Path.ofString path) with
  | error refusal => exact iff_of_true rfl (.inl ⟨refusal, rfl⟩)
  | ok content =>
    show decode? content = none ↔ _
    rw [decode?, Option.map_eq_none_iff]
    simp

namespace Store

variable {h : Host} {s : Store} {path key text : String} {d e : Declaration}

/-- The lines of the text write no whole number that is too long. -/
def ShortNumbers (text : String) : Prop :=
  ∀ line ∈ Text.linesOf text, Short (clausesOf line)

theorem legible_of_shortNumbers (hshort : ShortNumbers text) : Legible text := by
  intro line hline
  rcases read_cases (hshort line hline) with ⟨-, hread⟩ | ⟨-, -, wrong, hread⟩ |
    ⟨word, later, d, -, -, hread, -⟩
  · exact ⟨_, hread⟩
  · exact ⟨_, hread⟩
  · exact ⟨_, hread⟩

/-! ### Refusals -/

/-- How a declaration of the file is refused: where the first claim counts, a global word of another
file stays with that file. -/
def rejection? (s : Store) (key : String) (d : Declaration) : Option Conflict :=
  if s.policy = .error ∧ globalGroup ∈ d.groups then
    ((s.origins.get? d.word).filter (· ≠ key)).map fun holder => ⟨d.word, key, holder⟩
  else none

theorem conflict?_add (s : Store) (key : String) (d : Declaration) :
    conflict? key d.word (s.add key d).2 = s.rejection? key d := by
  apply Option.ext
  intro conflict
  rw [conflict_iff, rejection?]
  by_cases hclaims : s.policy = .error ∧ globalGroup ∈ d.groups
  · rw [if_pos hclaims]
    simp only [hclaims, true_and, Option.map_eq_some_iff, Option.filter_eq_some_iff,
      decide_eq_true_eq, and_assoc, @eq_comm _ conflict]
  · rw [if_neg hclaims]
    refine iff_of_false (fun hc => hclaims ⟨hc.1, hc.2.1⟩) fun hc => ?_
    cases hc

/-- A claim of the file itself does not change whether another of its claims is refused: it takes a
word that nobody holds, or it changes nothing. -/
theorem rejection?_add (s : Store) (key : String) (d e : Declaration) :
    (s.add key d).1.rejection? key e = s.rejection? key e := by
  rw [rejection?, rejection?, add_policy]
  by_cases hclaims : s.policy = .error ∧ globalGroup ∈ e.groups
  · rw [if_pos hclaims, if_pos hclaims, add_origins, hclaims.1]
    split
    next =>
      cases s.origins.get? e.word with
      | none => simp [award]
      | some holder => rfl
    next => rfl
  · rw [if_neg hclaims, if_neg hclaims]

theorem refusals_eq (s : Store) (key : String) (ds : List Declaration) :
    s.refusals key ds = ds.filterMap (s.rejection? key) := by
  induction ds generalizing s with
  | nil => rfl
  | cons d rest ih =>
    have hrest : (s.add key d).1.rejection? key = s.rejection? key :=
      funext (rejection?_add s key d)
    rw [refusals, conflict?_add, ih, hrest, List.filterMap_cons]
    cases s.rejection? key d <;> rfl

/-! ### Merges -/

theorem takeFile_eq_foldl (s : Store) (key : String) (ds : List Declaration) :
    s.takeFile key ds = ds.foldl (fun t d => (t.add key d).1) s := by
  induction ds generalizing s with
  | nil => rfl
  | cons d rest ih => exact ih (s.add key d).1

theorem run_read_legible (hl : LegibleAt h path) (s : Store) :
    ((read h path).run s).1 = answer h s path ∧ ((read h path).run s).2.1 = ingest h s path := by
  obtain ⟨notices, hread⟩ := read_legible hl ⟨s, []⟩
  rw [run_eq_exec, hread]
  exact ⟨rfl, rfl⟩

/-- Without a text there is nothing to merge. -/
theorem answer_undecodable (s : Store) (htext : h.textAt? path = none) :
    answer h s path = .error (.ingest (.unreadable (s.fileKey path))) ∧ ingest h s path = s := by
  have hdeclared : declaredAt h path = [] := by
    rw [declaredAt, htext]
    rfl
  constructor
  · unfold answer refusal?
    rw [htext, if_pos Option.isNone_none]
  · rw [ingest, hdeclared]
    rfl

theorem declaredAt_text (htext : h.textAt? path = some text) :
    declaredAt h path = declared (Text.linesOf text) := by
  rw [declaredAt, htext]
  rfl

theorem ingest_text (s : Store) (htext : h.textAt? path = some text) :
    ingest h s path = s.takeFile (s.fileKey path) (declared (Text.linesOf text)) := by
  rw [ingest, declaredAt_text htext]

theorem answer_text (s : Store) (htext : h.textAt? path = some text) :
    answer h s path =
      if declared (Text.linesOf text) = [] then .error (.ingest (.noRules (s.fileKey path)))
      else if s.refusals (s.fileKey path) (declared (Text.linesOf text)) ≠ [] then
        .error (.ingest (.conflicts (s.refusals (s.fileKey path) (declared (Text.linesOf text)))))
      else .ok (declared (Text.linesOf text)).length := by
  unfold answer refusal?
  rw [htext, declaredAt_text htext, if_neg (by simp)]
  generalize declared (Text.linesOf text) = ds
  by_cases hnone : ds = []
  · rw [if_pos hnone, if_pos hnone]
  · rw [if_neg hnone, if_neg hnone]
    generalize s.refusals (s.fileKey path) ds = refused
    by_cases hclash : refused ≠ []
    · rw [if_pos hclash, if_pos hclash]
    · rw [if_neg hclash, if_neg hclash]

/-- **Reading a file adds its declarations one after the other.** If the file cannot be read, is no
text or declares nothing, that is the answer, and the store is as it was. Otherwise the store takes
each declaration in the order of the lines; the answer is their number if no claim to a global word
is refused, and else the refusals, in the order of the lines. Refused are, if the first claim counts,
the words that another file held before. -/
theorem read_merges (h : Host) (path : String) (s : Store)
    (hshort : ∀ text, h.textAt? path = some text → ShortNumbers text) :
    let key := s.fileKey path
    let result := (read h path).run s
    (h.Undecodable path → result.1 = .error (.ingest (.unreadable key)) ∧ result.2.1 = s) ∧
    ∀ text, h.textAt? path = some text →
      let ds := declared (Text.linesOf text)
      let refused := s.refusals key ds
      (ds = [] → result.1 = .error (.ingest (.noRules key)) ∧ result.2.1 = s) ∧
      (ds ≠ [] → result.2.1 = ds.foldl (fun t d => (t.add key d).1) s) ∧
      (ds ≠ [] → refused = [] → result.1 = .ok ds.length) ∧
      (ds ≠ [] → refused ≠ [] → result.1 = .error (.ingest (.conflicts refused)) ∧
        (IngestError.conflicts refused).message =
          "; ".intercalate (refused.map Conflict.message)) ∧
      refused = ds.filterMap (s.rejection? key) := by
  have hl : LegibleAt h path := fun text htext => legible_of_shortNumbers (hshort text htext)
  obtain ⟨hanswer, hleft⟩ := run_read_legible hl s
  refine ⟨fun hnone => ?_, fun text htext => ?_⟩
  · obtain ⟨hrefused, hsame⟩ := answer_undecodable s (Host.textAt?_eq_none_iff.mpr hnone)
    exact ⟨hanswer.trans hrefused, hleft.trans hsame⟩
  · have hrefused := refusals_eq s (s.fileKey path) (declared (Text.linesOf text))
    have hmerged := (hleft.trans (ingest_text s htext)).trans (takeFile_eq_foldl _ _ _)
    have htold := hanswer.trans (answer_text s htext)
    refine ⟨fun hnone => ?_, fun _ => hmerged, fun hne hclear => ?_, fun hne hclash => ?_, hrefused⟩
    · refine ⟨htold.trans (if_pos hnone), hmerged.trans ?_⟩
      rw [hnone, List.foldl_nil]
    · rw [htold, if_neg hne, if_neg (not_not.mpr hclear)]
    · rw [htold, if_neg hne, if_pos hclash]
      exact ⟨rfl, rfl⟩

/-- A store where the first claim counts, and a file holds the pear. -/
def sampleHeld : Store :=
  ({ root := ⟨.root, []⟩, policy := .error } : Store).add "b.txt" ⟨"pear", .whole 1, "", ["GLOBAL"]⟩
    |>.1

def samplePears : String := "# fruit\npear 2 GLOBAL\nfig 1\nplum 3 GLOBAL\n"

/-- The pear is refused, and merged all the same. -/
theorem read_merges_pears :
    let result := (read (oneFile samplePears) "/a.txt").run sampleHeld
    result.1 = .error (.ingest (.conflicts [⟨"pear", "a.txt", "b.txt"⟩])) ∧
      result.2.1.files.keys = ["b.txt", "a.txt"] ∧
      result.2.1.origins.entries = [("pear", "b.txt"), ("plum", "a.txt")] := by
  have htext : (oneFile samplePears).textAt? "/a.txt" = some samplePears :=
    (textAt?_oneFile samplePears).trans (congrArg some (by decide +kernel))
  have hclauses : ∀ line ∈ Text.linesOf samplePears, ∀ clause ∈ clausesOf line,
      clause.length ≤ 6 := by
    decide +kernel
  have hshort : ∀ text, (oneFile samplePears).textAt? "/a.txt" = some text →
      ShortNumbers text := by
    intro text ht line hline clause hclause _
    cases htext.symm.trans ht
    exact Nat.le_trans (hclauses line hline clause hclause) (by decide)
  obtain ⟨-, hmerges⟩ := read_merges (oneFile samplePears) "/a.txt" sampleHeld hshort
  obtain ⟨-, hstore, -, hrefused, -⟩ := hmerges samplePears htext
  have hdeclares : declared (Text.linesOf samplePears) ≠ [] := by decide +kernel
  have hrefusals : sampleHeld.refusals (sampleHeld.fileKey "/a.txt")
      (declared (Text.linesOf samplePears)) = [⟨"pear", "a.txt", "b.txt"⟩] := by
    decide +kernel
  rw [hrefusals] at hrefused
  refine ⟨(hrefused hdeclares (List.cons_ne_nil _ _)).1, ?_, ?_⟩ <;>
  · rw [hstore hdeclares]
    decide +kernel

end Store

end MailRules
