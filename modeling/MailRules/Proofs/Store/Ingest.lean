import MailRules.Proofs.Declaration.Draft
import MailRules.Proofs.Score
import MailRules.Proofs.Store.Interleaving
import MailRules.Store.Ingest

/-! What a text adds to a store.

A text is legible if each of its lines can be read, as it is when no field is longer than the
longest whole number that is read (`legible_of_short`). From a legible text the store takes all the
declarations, in order, and every claim that is refused on the way is reported (`readText_legible`);
any other text is broken off (`readText_illegible`). -/
namespace MailRules

namespace Declaration

theorem take_error {d : Draft} {field : List Char} {e : Oversized}
    (h : d.take field = .error e) : Text.digitLimit < field.length := by
  cases takes_of_take h with
  | oversized hnumeral _ _ hnone => exact Score.length_of_ofNumeral?_none hnumeral hnone

/-- A line that cannot be read has a field that is too long. -/
theorem read_error {line : String} {e : Oversized} (h : read line = .error e) :
    ∃ field ∈ Text.fields line.toList, Text.digitLimit < field.length := by
  have hfold : ∀ (fields : List (List Char)) (d : Draft),
      fields.foldlM Draft.take d = .error e →
        ∃ field ∈ fields, Text.digitLimit < field.length := by
    intro fields
    induction fields with
    | nil =>
      intro d hd
      cases hd
    | cons field rest ih =>
      intro d hd
      rw [List.foldlM_cons] at hd
      cases htake : d.take field with
      | error f => exact ⟨field, List.mem_cons_self, take_error htake⟩
      | ok d' =>
        rw [htake] at hd
        obtain ⟨long, hlong, hlength⟩ := ih d' hd
        exact ⟨long, List.mem_cons_of_mem field hlong, hlength⟩
  unfold read at h
  split at h
  next => cases h
  next =>
    unfold readFields at h
    dsimp only at h
    cases hd : ((Text.fields line.toList).takeWhile (!opensComment ·)).foldlM Draft.take {} with
    | error f =>
      rw [hd] at h
      cases h
      obtain ⟨field, hfield, hlength⟩ := hfold _ _ hd
      exact ⟨field, (List.takeWhile_prefix _).subset hfield, hlength⟩
    | ok d =>
      rw [hd] at h
      cases h

end Declaration

namespace Store

/-- Every line of the text can be read. -/
def Legible (text : String) : Prop :=
  ∀ line ∈ Text.linesOf text, ∃ reading, Declaration.read line = .ok reading

theorem legible_of_short {text : String} (h : ∀ line ∈ Text.linesOf text,
    ∀ field ∈ Text.fields line.toList, field.length ≤ Text.digitLimit) : Legible text := by
  intro line hline
  cases hread : Declaration.read line with
  | ok reading => exact ⟨reading, rfl⟩
  | error e =>
    obtain ⟨field, hfield, hlong⟩ := Declaration.read_error hread
    exact absurd (h line hline field hfield) (Nat.not_le_of_lt hlong)

/-- The declarations in the lines. -/
def declared (lines : List String) : List Declaration :=
  lines.filterMap fun line => (Declaration.read line).toOption.bind (·.declaration?)

/-- The store with more declarations of the file `key`. -/
def takeFile (s : Store) (key : String) (ds : List Declaration) : Store :=
  s.takeAll (ds.map (key, ·))

/-- The claims that are refused while the store takes declarations of the file `key`. -/
def refusals (s : Store) (key : String) : List Declaration → List Conflict
  | [] => []
  | d :: rest =>
    (conflict? key d.word (s.add key d).2).toList ++ (s.add key d).1.refusals key rest

theorem declared_cons {line : String} {rest : List String} {reading : Declaration.Reading}
    (h : Declaration.read line = .ok reading) :
    declared (line :: rest) = reading.declaration?.toList ++ declared rest := by
  have hline : (Declaration.read line).toOption.bind (·.declaration?) = reading.declaration? := by
    rw [h]
    rfl
  rw [declared, List.filterMap_cons, hline]
  cases reading.declaration? <;> rfl

theorem takeFile_append (s : Store) (key : String) (ds es : List Declaration) :
    s.takeFile key (ds ++ es) = (s.takeFile key ds).takeFile key es := by
  rw [takeFile, List.map_append, takeAll, List.map_append, run, List.foldl_append]
  rfl

theorem takeFile_root (s : Store) (key : String) (ds : List Declaration) :
    (s.takeFile key ds).root = s.root := by
  induction ds generalizing s with
  | nil => rfl
  | cons d rest ih => exact (ih _).trans (add_root s key d)

/-- Only a file that declares something gets a rule set. -/
theorem mem_keys_takeFile {s : Store} {key file : String} {ds : List Declaration} :
    file ∈ (s.takeFile key ds).files.keys ↔ file ∈ s.files.keys ∨ file = key ∧ ds ≠ [] := by
  induction ds generalizing s with
  | nil => exact (or_iff_left fun h => h.2 rfl).symm
  | cons d rest ih =>
    show file ∈ ((s.add key d).1.takeFile key rest).files.keys ↔ _
    rw [ih, add_files, Assoc.update, Assoc.mem_keys_insert]
    grind

theorem refusals_append (s : Store) (key : String) (ds es : List Declaration) :
    s.refusals key (ds ++ es) = s.refusals key ds ++ (s.takeFile key ds).refusals key es := by
  induction ds generalizing s with
  | nil => rfl
  | cons d rest ih =>
    rw [List.cons_append, refusals, refusals, ih, List.append_assoc]
    rfl

/-- What reading legible lines comes to. -/
structure Progress.Took (p q : Progress) (key : String) (ds : List Declaration) : Prop where
  store : q.store = p.store.takeFile key ds
  count : q.count = p.count + ds.length
  conflicts : q.conflicts = p.conflicts ++ p.store.refusals key ds

theorem Progress.Took.trans {p q r : Progress} {key : String} {ds es : List Declaration}
    (hq : p.Took q key ds) (hr : q.Took r key es) : p.Took r key (ds ++ es) where
  store := by rw [hr.store, hq.store, takeFile_append]
  count := by rw [hr.count, hq.count, List.length_append, Nat.add_assoc]
  conflicts := by
    rw [hr.conflicts, hq.conflicts, hq.store, refusals_append, List.append_assoc]

/-- A line without a declaration adds nothing. -/
theorem Progress.took_nil (p : Progress) (key : String) (notices : List Notice) :
    p.Took { p with notices } key [] where
  store := rfl
  count := rfl
  conflicts := (List.append_nil _).symm

/-- One line adds what it declares. -/
theorem Progress.take_took (p : Progress) (key : String) (number : Nat) (line : String)
    (reading : Declaration.Reading) :
    p.Took (p.take key number line reading) key reading.declaration?.toList := by
  cases reading with
  | skipped => exact p.took_nil key _
  | malformed fault => exact p.took_nil key _
  | declared d =>
    refine ⟨rfl, rfl, ?_⟩
    show _ = p.conflicts ++ p.store.refusals key [d]
    rw [refusals, refusals, List.append_nil]
    rfl

theorem Progress.read_legible (p : Progress) (key : String) (number : Nat) {lines : List String}
    (h : ∀ line ∈ lines, ∃ reading, Declaration.read line = .ok reading) :
    ∃ q, p.read key number lines = (q, none) ∧ p.Took q key (declared lines) := by
  induction lines generalizing p number with
  | nil => exact ⟨p, rfl, p.took_nil key _⟩
  | cons line rest ih =>
    obtain ⟨reading, hread⟩ := h line List.mem_cons_self
    obtain ⟨q, hq, htook⟩ := ih (p.take key number line reading) (number + 1)
      fun later hlater => h later (List.mem_cons_of_mem line hlater)
    refine ⟨q, ?_, ?_⟩
    · rw [Progress.read, hread]
      exact hq
    · rw [declared_cons hread]
      exact (p.take_took key number line reading).trans htook

theorem Progress.read_illegible (p : Progress) (key : String) (number : Nat) {lines : List String}
    (h : ¬ ∀ line ∈ lines, ∃ reading, Declaration.read line = .ok reading) :
    ∃ q e, p.read key number lines = (q, some e) := by
  induction lines generalizing p number with
  | nil => exact absurd (fun _ hline => absurd hline List.not_mem_nil) h
  | cons line rest ih =>
    rw [Progress.read]
    cases hread : Declaration.read line with
    | error e => exact ⟨p, e, rfl⟩
    | ok reading =>
      refine ih _ _ fun hrest => h fun l hl => ?_
      rcases List.mem_cons.mp hl with rfl | hl
      · exact ⟨reading, hread⟩
      · exact hrest l hl

/-- The store takes all that a legible text declares. -/
theorem readText_legible (s : Store) (key : String) {text : String} (h : Legible text) :
    ∃ q, s.readText key text = (q, none) ∧
      ({ store := s } : Progress).Took q key (declared (Text.linesOf text)) :=
  Progress.read_legible _ key 1 h

theorem readText_illegible (s : Store) (key : String) {text : String} (h : ¬ Legible text) :
    ∃ q e, s.readText key text = (q, some e) :=
  Progress.read_illegible _ key 1 h

end Store

end MailRules
