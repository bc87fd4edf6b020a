import MailRules.Inputs.Reading
import MailRules.Proofs.Action
import MailRules.Proofs.Inputs.Step
import MailRules.Proofs.Store.Ingest
import MailRules.Proofs.Text.Fields

/-! A batch of files read into a store.

Reading a file adds what it declares to the store (`ingest`), or tells why it contributes nothing
or not all of it (`refusal?`), and neither depends on whether files before it were refused. Only a
whole number that is too long ends a batch: it goes to its end, file by file, exactly if every
file of the expansion is legible (`readAll_outcome`). -/
namespace MailRules

open MailRules.Action

/-- The text of the file at a path, if it can be read. -/
def Host.textAt? (h : Host) (path : String) : Option String :=
  (h.readBytes (Path.ofString path)).toOption.bind Host.decode?

namespace Store

/-- The file at a path, if its text can be had, is legible. -/
def LegibleAt (h : Host) (path : String) : Prop :=
  ∀ text, h.textAt? path = some text → Legible text

/-- The declarations of the file at a path. -/
def declaredAt (h : Host) (path : String) : List Declaration :=
  ((h.textAt? path).map fun text => declared (Text.linesOf text)).getD []

/-- The store with the declarations of one more file. -/
def ingest (h : Host) (s : Store) (path : String) : Store :=
  s.takeFile (s.fileKey path) (declaredAt h path)

/-- Why the file at a path contributes nothing, or not all it declares. -/
def refusal? (h : Host) (s : Store) (path : String) : Option IngestError :=
  if (h.textAt? path).isNone then some (.unreadable (s.fileKey path))
  else if declaredAt h path = [] then some (.noRules (s.fileKey path))
  else if s.refusals (s.fileKey path) (declaredAt h path) ≠ [] then
    some (.conflicts (s.refusals (s.fileKey path) (declaredAt h path)))
  else none

/-- What is said about the files, one after the other. -/
def messages (h : Host) (s : Store) : List String → List String
  | [] => []
  | path :: rest =>
    ((refusal? h s path).map IngestError.message).toList ++ messages h (ingest h s path) rest

/-- The answer to reading a file. -/
def answer (h : Host) (s : Store) (path : String) : Except Fault Nat :=
  match refusal? h s path with
  | some e => .error (.ingest e)
  | none => .ok (declaredAt h path).length

/-! ### One file -/

theorem exec_read (h : Host) (path : String) (stage : Stage Store) :
    exec (read h path) stage = match h.textAt? path with
      | none => (.error (.ingest (.unreadable (stage.state.fileKey path))), stage)
      | some text =>
        let (p, oversized) := stage.state.readText (stage.state.fileKey path) text
        (if oversized.isSome then .error .oversized
          else (p.outcome (stage.state.fileKey path)).mapError .ingest,
          ⟨p.store, stage.notices ++ p.notices⟩) := by
  rw [read, exec_bind, exec_get]
  dsimp only [Host.textAt?]
  cases (h.readBytes (Path.ofString path)).toOption.bind Host.decode? with
  | none => rfl
  | some text =>
    dsimp only
    rw [exec_bind, exec_set]
    dsimp only
    rw [exec_bind, exec_say]
    dsimp only
    cases (stage.state.readText (stage.state.fileKey path) text).2 with
    | some e => rfl
    | none =>
      cases (stage.state.readText (stage.state.fileKey path) text).1.outcome
        (stage.state.fileKey path) <;> rfl

theorem answer_cases (h : Host) (s : Store) (path : String) :
    (refusal? h s path = none ∧ ∃ n, answer h s path = .ok n) ∨
      ∃ e, refusal? h s path = some e ∧ answer h s path = .error (.ingest e) := by
  unfold answer
  cases refusal? h s path with
  | some e => exact .inr ⟨e, rfl, rfl⟩
  | none => exact .inl ⟨rfl, _, rfl⟩

/-- What the lines of a file came to is the answer. -/
theorem outcome_eq_answer {h : Host} {s : Store} {path text : String} {q : Progress}
    (htext : h.textAt? path = some text)
    (hq : ({ store := s } : Progress).Took q (s.fileKey path) (declared (Text.linesOf text))) :
    (q.outcome (s.fileKey path)).mapError .ingest = answer h s path := by
  have hdeclared : declaredAt h path = declared (Text.linesOf text) := by
    rw [declaredAt, htext]
    rfl
  have hcount : q.count = (declared (Text.linesOf text)).length := hq.count.trans (Nat.zero_add _)
  have hrefused : q.conflicts = s.refusals (s.fileKey path) (declared (Text.linesOf text)) :=
    hq.conflicts
  unfold answer refusal?
  rw [Progress.outcome, htext, hdeclared, hcount, hrefused]
  simp only [List.length_eq_zero_iff, Option.isNone_some, Bool.false_eq_true, if_false]
  by_cases hnone : declared (Text.linesOf text) = []
  · rw [if_pos hnone, if_pos hnone]
    rfl
  · rw [if_neg hnone, if_neg hnone]
    by_cases hclash : s.refusals (s.fileKey path) (declared (Text.linesOf text)) ≠ []
    · rw [if_pos hclash, if_pos hclash]
      rfl
    · rw [if_neg hclash, if_neg hclash]
      rfl

/-- A legible file is ingested, and the answer is the number of its declarations or a refusal. -/
theorem read_legible {h : Host} {path : String} (hl : LegibleAt h path) (stage : Stage Store) :
    ∃ notices, exec (read h path) stage =
      (answer h stage.state path, ⟨ingest h stage.state path, notices⟩) := by
  rw [exec_read]
  cases htext : h.textAt? path with
  | none =>
    refine ⟨stage.notices, ?_⟩
    unfold answer refusal? ingest declaredAt
    rw [htext]
    rfl
  | some text =>
    obtain ⟨q, hq, htook⟩ :=
      readText_legible stage.state (stage.state.fileKey path) (hl text htext)
    refine ⟨stage.notices ++ q.notices, ?_⟩
    dsimp only
    rw [hq, ← outcome_eq_answer htext htook]
    dsimp only
    rw [htook.store, ingest, declaredAt, htext]
    rfl

/-- A file that is not legible breaks reading off. -/
theorem read_illegible {h : Host} {path : String} (hl : ¬ LegibleAt h path) (stage : Stage Store) :
    (exec (read h path) stage).1 = .error .oversized := by
  simp only [LegibleAt, not_forall] at hl
  obtain ⟨text, htext, hillegible⟩ := hl
  obtain ⟨q, e, hq⟩ := readText_illegible stage.state (stage.state.fileKey path) hillegible
  rw [exec_read, htext]
  dsimp only
  rw [hq]
  rfl

/-! ### A batch -/

/-- A refusal is noted and the rest is read; any other failure ends the batch. -/
theorem exec_readEach (h : Host) (path : Path) (rest : List Path) (stage : Stage Store) :
    exec (readEach h (path :: rest)) stage = match exec (read h path.text) stage with
      | (.ok _, t) => exec (readEach h rest) t
      | (.error (.ingest e), t) =>
        ((exec (readEach h rest) { t with notices := t.notices ++ [.debug e.message] }).1.map
            (e.message :: ·),
          (exec (readEach h rest) { t with notices := t.notices ++ [.debug e.message] }).2)
      | (.error f, t) => (.error f, t) := by
  rw [readEach, exec_bind, exec_tryCatch, exec_bind, exec_discard]
  cases exec (read h path.text) stage with
  | mk answer t =>
    cases answer with
    | ok n =>
      dsimp only [Except.map]
      rw [exec_pure]
      dsimp only
      rw [exec_bind]
      cases exec (readEach h rest) t with
      | mk later u => cases later <;> rfl
    | error f =>
      cases f with
      | ingest e =>
        dsimp only [Except.map]
        rw [exec_bind, exec_debug]
        dsimp only
        rw [exec_pure]
        dsimp only
        rw [exec_bind]
        cases exec (readEach h rest) { t with notices := t.notices ++ [.debug e.message] } with
        | mk later u => cases later <;> rfl
      | _ => rfl

theorem readEach_legible {h : Host} {paths : List Path}
    (hl : ∀ path ∈ paths, LegibleAt h path.text) (stage : Stage Store) :
    ∃ notices, exec (readEach h paths) stage =
      (.ok (messages h stage.state (paths.map Path.text)),
        ⟨(paths.map Path.text).foldl (ingest h) stage.state, notices⟩) := by
  induction paths generalizing stage with
  | nil => exact ⟨stage.notices, rfl⟩
  | cons path rest ih =>
    obtain ⟨noted, hread⟩ := read_legible (hl path List.mem_cons_self) stage
    have hlater (notices : List Notice) :=
      ih (fun later hlater => hl later (List.mem_cons_of_mem path hlater))
        ⟨ingest h stage.state path.text, notices⟩
    rw [exec_readEach, hread, List.map_cons, List.foldl_cons, messages]
    rcases answer_cases h stage.state path.text with ⟨hnone, n, hanswer⟩ | ⟨e, hsome, hanswer⟩
    · obtain ⟨notices, hrest⟩ := hlater noted
      rw [hanswer, hnone]
      exact ⟨notices, hrest⟩
    · obtain ⟨notices, hrest⟩ := hlater (noted ++ [.debug e.message])
      refine ⟨notices, ?_⟩
      rw [hanswer, hsome]
      dsimp only
      rw [hrest]
      rfl

theorem readEach_illegible {h : Host} {paths : List Path}
    (hl : ¬ ∀ path ∈ paths, LegibleAt h path.text) (stage : Stage Store) :
    (exec (readEach h paths) stage).1 = .error .oversized := by
  induction paths generalizing stage with
  | nil => exact absurd (fun _ hpath => absurd hpath List.not_mem_nil) hl
  | cons path rest ih =>
    rw [exec_readEach]
    by_cases hpath : LegibleAt h path.text
    · have hrest : ¬ ∀ later ∈ rest, LegibleAt h later.text := fun hall =>
        hl fun p hp => (List.mem_cons.mp hp).elim (fun he => he ▸ hpath) (hall p)
      obtain ⟨noted, hread⟩ := read_legible hpath stage
      rw [hread]
      rcases answer_cases h stage.state path.text with ⟨-, n, hanswer⟩ | ⟨e, -, hanswer⟩
      · rw [hanswer]
        exact ih hrest _
      · rw [hanswer]
        dsimp only
        rw [ih hrest]
        rfl
    · have hread := read_illegible hpath stage
      cases hanswer : exec (read h path.text) stage with
      | mk answer t =>
        rw [hanswer] at hread
        replace hread : answer = .error .oversized := hread
        rw [hread]

theorem ingest_fileKey (h : Host) (s : Store) (path other : String) :
    (ingest h s path).fileKey other = s.fileKey other := by
  rw [fileKey, fileKey, ingest, takeFile_root]

/-- A file that nothing is said about declares something. -/
theorem declaredAt_ne_nil {h : Host} {s : Store} {path : String} (hnone : refusal? h s path = none) :
    declaredAt h path ≠ [] := by
  intro hnil
  unfold refusal? at hnone
  rw [hnil, if_pos rfl] at hnone
  split at hnone <;> cases hnone

/-- Where nothing is said, every file has a rule set. -/
theorem mem_keys_of_messages {h : Host} {s : Store} {paths : List String} {file : String}
    (hnone : messages h s paths = [])
    (hfile : file ∈ s.files.keys ∨ file ∈ paths.map s.fileKey) :
    file ∈ (paths.foldl (ingest h) s).files.keys := by
  induction paths generalizing s with
  | nil => exact hfile.resolve_right List.not_mem_nil
  | cons path rest ih =>
    rw [messages] at hnone
    obtain ⟨hfirst, hrest⟩ := List.append_eq_nil_iff.mp hnone
    have hdeclared : declaredAt h path ≠ [] := declaredAt_ne_nil (s := s) (by simpa using hfirst)
    have hkeys : rest.map (ingest h s path).fileKey = rest.map s.fileKey :=
      List.map_congr_left fun other _ => ingest_fileKey h s path other
    refine ih hrest ?_
    rw [hkeys, ingest, mem_keys_takeFile]
    rcases hfile with hfile | hfile
    · exact .inl (.inl hfile)
    · exact (List.mem_cons.mp hfile).imp_left fun he => .inr ⟨he, hdeclared⟩

/-- A batch is its expansion and then the files of that, one after the other. -/
theorem exec_readAll {h : Host} {s : Store} {inputs : List String} {e : Expansion}
    (hexpand : Expansion.ofInputs h s.root (inputs.map Path.ofString) = (e, none)) :
    exec (readAll h inputs) ⟨s, []⟩ =
      ((exec (readEach h e.files) ⟨s, e.notices⟩).1.map (e.failures ++ ·),
        (exec (readEach h e.files) ⟨s, e.notices⟩).2) := by
  rw [readAll, exec_get_bind, hexpand]
  dsimp only
  rw [exec_bind, exec_say]
  dsimp only
  rw [List.nil_append, exec_bind]
  cases exec (readEach h e.files) ⟨s, e.notices⟩ with
  | mk later t => cases later <;> rfl

/-! ### Small batches -/

theorem length_lt_bound (h : Host) (inputs : List Path) :
    inputs.length < Expansion.bound h inputs := by
  have hpos : 0 < 1 + Expansion.matchBound h := Nat.add_pos_left Nat.one_pos _
  rw [Expansion.bound]
  exact Nat.lt_succ_of_le (Nat.le_add_right_of_le
    (Nat.le_trans (Nat.le_add_right _ _) (Nat.le_mul_of_pos_right _ hpos)))

/-- An expansion that has nothing left to take does not change with more steps. -/
theorem run_enough {h : Host} {root : Path} {n m : Nat} {e e' : Expansion}
    (hrun : e.run h root n = (e', none)) (hdone : e'.pending = []) (hle : n ≤ m) :
    e.run h root m = (e', none) := by
  have hstop {m : Nat} : e'.run h root m = (e', none) := by
    cases m with
    | zero => rfl
    | succ m => rw [Expansion.run, hdone]
  induction n generalizing e m with
  | zero =>
    obtain ⟨rfl, -⟩ := Prod.mk.inj hrun
    exact hstop
  | succ n ih =>
    obtain ⟨m, rfl⟩ := Nat.exists_eq_add_of_le' (Nat.le_trans (Nat.succ_pos n) hle)
    rw [Expansion.run] at hrun ⊢
    split at hrun
    next => exact hrun
    next =>
      split at hrun
      next => exact ih hrun (Nat.le_of_succ_le_succ hle)
      next => cases hrun

/-- An expansion that takes a step for each input, or one more, is done with them. -/
theorem ofInputs_enough {h : Host} {root : Path} {inputs : List Path} {n : Nat} {e : Expansion}
    (hn : n ≤ inputs.length + 1)
    (hrun : Expansion.run h root n { pending := inputs } = (e, none))
    (hdone : e.pending = []) : Expansion.ofInputs h root inputs = (e, none) := by
  unfold Expansion.ofInputs
  exact run_enough hrun hdone (Nat.le_trans hn (length_lt_bound h inputs))

/-- A machine with a file of comments and a file of one word. -/
def sampleHost : Host where
  tree := ⟨Assoc.ofList [
    (["a.txt"], .file "# none\n".toUTF8), (["b.txt"], .file "pear 2\n".toUTF8)]⟩

def sampleInputs : List String := ["/a.txt", "/b.txt"]

/-- A store without files that is seen from the root. -/
def sampleEmpty : Store := { root := ⟨.root, []⟩ }

/-- The expansion of the inputs, which takes a step for each. -/
def sampleExpansion : Expansion :=
  (Expansion.run sampleHost sampleEmpty.root 2 { pending := sampleInputs.map Path.ofString }).1

theorem sample_expands :
    Expansion.ofInputs sampleHost sampleEmpty.root (sampleInputs.map Path.ofString) =
      (sampleExpansion, none) := by
  have hnone : (Expansion.run sampleHost sampleEmpty.root 2
      { pending := sampleInputs.map Path.ofString }).2.isNone = true := by
    decide +kernel
  have hrun : Expansion.run sampleHost sampleEmpty.root 2
      { pending := sampleInputs.map Path.ofString } = (sampleExpansion, none) :=
    Expansion.outcome_eq hnone
  exact ofInputs_enough (by decide) hrun (by decide +kernel)

/-- **A batch goes to its end exactly if all its files are legible.** Reading a file answers with
a number or with a refusal if the file is legible, and breaks off if it is not; with no field
longer than the longest whole number that is read, every file is legible. A batch of legible files
gives the store the declarations of all of them, file by file, whatever was refused before, and a
message for each refusal. -/
theorem readAll_outcome (h : Host) (s : Store) (inputs : List String) {e : Expansion}
    (hexpand : Expansion.ofInputs h s.root (inputs.map Path.ofString) = (e, none)) :
    let files := e.files.map Path.text
    ((∃ failures, ((readAll h inputs).run s).1 = .ok failures) ↔
      ∀ path ∈ files, LegibleAt h path) ∧
    ((∀ path ∈ files, LegibleAt h path) →
      ((readAll h inputs).run s).1 = .ok (e.failures ++ messages h s files) ∧
        ((readAll h inputs).run s).2.1 = files.foldl (ingest h) s) ∧
    (∀ path, LegibleAt h path ↔ ∀ t : Store, (∃ n, ((read h path).run t).1 = .ok n) ∨
      ∃ r, ((read h path).run t).1 = .error (.ingest r)) ∧
    ∀ text, (∀ line ∈ Text.linesOf text, ∀ field ∈ Text.fields line.toList,
      field.length ≤ Text.digitLimit) → Legible text := by
  intro files
  have hfiles : (∀ path ∈ files, LegibleAt h path) ↔ ∀ path ∈ e.files, LegibleAt h path.text := by
    simp only [files, List.forall_mem_map]
  have hall : (∀ path ∈ files, LegibleAt h path) →
      ((readAll h inputs).run s).1 = .ok (e.failures ++ messages h s files) ∧
        ((readAll h inputs).run s).2.1 = files.foldl (ingest h) s := by
    intro hl
    obtain ⟨notices, hread⟩ := readEach_legible (hfiles.mp hl) ⟨s, e.notices⟩
    rw [run_eq_exec, exec_readAll hexpand, hread]
    exact ⟨rfl, rfl⟩
  refine ⟨⟨?_, fun hl => ⟨_, (hall hl).1⟩⟩, hall, fun path => ⟨?_, ?_⟩, fun _ => legible_of_short⟩
  · rintro ⟨failures, hok⟩
    by_contra hl
    rw [run_eq_exec, exec_readAll hexpand,
      readEach_illegible (fun hall => hl (hfiles.mpr hall))] at hok
    cases hok
  · intro hl t
    obtain ⟨notices, hread⟩ := read_legible hl ⟨t, []⟩
    rw [run_eq_exec, hread]
    rcases answer_cases h t path with ⟨-, n, hanswer⟩ | ⟨r, -, hanswer⟩
    · exact .inl ⟨n, hanswer⟩
    · exact .inr ⟨r, hanswer⟩
  · intro hread
    by_contra hl
    have hbroken := read_illegible hl ⟨s, []⟩
    rcases hread s with ⟨n, hok⟩ | ⟨r, herror⟩
    · rw [run_eq_exec, hbroken] at hok
      cases hok
    · rw [run_eq_exec, hbroken] at herror
      cases herror

theorem readAll_sample :
    ((readAll sampleHost sampleInputs).run sampleEmpty).1 =
        .ok ["No rules found in a.txt"] ∧
      ((readAll sampleHost sampleInputs).run sampleEmpty).2.1.files.keys =
        ["b.txt"] := by
  obtain ⟨-, hread, -⟩ := readAll_outcome sampleHost sampleEmpty sampleInputs sample_expands
  have hlegible : ∀ path ∈ sampleExpansion.files.map Path.text, LegibleAt sampleHost path := by
    have hshort : ∀ path ∈ sampleExpansion.files.map Path.text,
        ((sampleHost.textAt? path).map fun text => (Text.linesOf text).all fun line =>
          (Declaration.read line).isOk).getD true = true := by
      decide +kernel
    intro path hpath text htext line hline
    have hall := hshort path hpath
    rw [htext] at hall
    exact Outcome.exists_of_isOk (List.all_eq_true.mp hall line hline)
  obtain ⟨hok, hstore⟩ := hread hlegible
  rw [hok, hstore]
  exact ⟨congrArg Except.ok (by decide +kernel), by decide +kernel⟩

/-! ### A number that is too long -/

/-- A machine with one file. -/
def oneFile (text : String) : Host where
  tree := ⟨Assoc.ofList [(["a.txt"], .file text.toUTF8)]⟩

/-- A word and a number of one digit more than are read. -/
def longLine : List Char := 'a' :: ' ' :: List.replicate (Text.digitLimit + 1) '1'

theorem oneFile_expands (text : String) :
    ∃ e, Expansion.ofInputs (oneFile text) sampleEmpty.root (["/a.txt"].map Path.ofString) =
        (e, none) ∧ e.files.map Path.text = ["/a.txt"] := by
  have hrun : Expansion.run (oneFile text) sampleEmpty.root 1
      { pending := ["/a.txt"].map Path.ofString } =
        ((Expansion.run (oneFile text) sampleEmpty.root 1
          { pending := ["/a.txt"].map Path.ofString }).1, none) := rfl
  refine ⟨_, ofInputs_enough (Nat.le_succ _) hrun rfl, ?_⟩
  show [(Path.ofString "/a.txt").text] = ["/a.txt"]
  decide +kernel

theorem textAt?_oneFile (text : String) :
    (oneFile text).textAt? "/a.txt" = some (String.ofList (Text.unifyNewlines text.toList)) := by
  have hread : (oneFile text).readBytes (Path.ofString "/a.txt") = .ok text.toUTF8 := rfl
  have hdecode : String.fromUTF8? text.toUTF8 = some text := by
    rw [String.fromUTF8?, String.toUTF8_eq_toByteArray, dif_pos text.isValidUTF8]
    rfl
  rw [Host.textAt?, hread]
  show Host.decode? text.toUTF8 = _
  rw [Host.decode?, hdecode]
  rfl

theorem read_longLine : (Declaration.read (String.ofList longLine)).isOk = false := by
  let numeral := List.replicate (Text.digitLimit + 1) '1'
  have hdigits : Text.AllDigits numeral := by
    intro c hc
    rw [List.eq_of_mem_replicate hc]
    decide
  have hne : numeral ≠ [] := List.cons_ne_nil _ _
  have hsolid : Text.IsField numeral := by
    refine ⟨hne, fun c hc => ?_⟩
    rw [List.eq_of_mem_replicate hc]
    decide
  have hfields : Text.fields longLine = [['a'], numeral] := by
    show Text.fields (['a'] ++ ' ' :: numeral) = _
    rw [Text.fields_append Text.isBlank_space, Text.fields_of_isField hsolid]
    rfl
  have hnumeral : Score.isNumeral numeral = true := Score.isNumeral_iff.mpr (.whole hdigits hne)
  have hnone : Score.ofNumeral? numeral = none := by
    obtain ⟨n, hn⟩ := Text.digitsValue?_isSome hdigits
    rw [Score.ofNumeral?_whole hdigits hne hn, List.length_replicate, if_pos (Nat.lt_succ_self _)]
  have hshown : Declaration.isSkippable (String.ofList longLine) = false := by
    obtain ⟨later, htrim⟩ := Text.trim_cons (c := 'a') (by decide) (' ' :: numeral)
    rw [Declaration.isSkippable, String.toList_ofList]
    show ((Text.trim ('a' :: ' ' :: numeral)).isEmpty ||
      Declaration.opensComment (Text.trim ('a' :: ' ' :: numeral))) = false
    rw [htrim]
    rfl
  have hword : Declaration.Draft.take {} ['a'] = .ok { word := some "a" } := rfl
  have htake : ({ word := some "a" } : Declaration.Draft).take numeral =
      .error ⟨numeral.length⟩ := by
    unfold Declaration.Draft.take
    dsimp only
    rw [if_pos hnumeral, hnone]
    rfl
  have hclauses : [['a'], numeral].takeWhile (!Declaration.opensComment ·) = [['a'], numeral] :=
    rfl
  rw [Declaration.read, hshown, if_neg Bool.false_ne_true, String.toList_ofList, hfields,
    Declaration.readFields, hclauses, List.foldlM_cons, hword, Outcome.ok_bind, List.foldlM_cons,
    htake]
  rfl

/-- A number that is too long ends the batch. -/
theorem readAll_breaks_off :
    ∃ e, Expansion.ofInputs (oneFile (String.ofList longLine)) sampleEmpty.root
        (["/a.txt"].map Path.ofString) = (e, none) ∧
      ∀ failures, ((readAll (oneFile (String.ofList longLine)) ["/a.txt"]).run sampleEmpty).1 ≠
        .ok failures := by
  obtain ⟨e, hexpand, hfiles⟩ := oneFile_expands (String.ofList longLine)
  have hunbroken : ∀ c ∈ longLine, Text.isBreak c = false := by
    intro c hc
    rcases List.mem_cons.mp hc with rfl | hc
    · decide
    · rcases List.mem_cons.mp hc with rfl | hc
      · decide
      · rw [List.eq_of_mem_replicate hc]
        decide
  have hillegible : ¬ LegibleAt (oneFile (String.ofList longLine)) "/a.txt" := by
    intro hl
    have hline := hl _ (textAt?_oneFile (String.ofList longLine)) (String.ofList longLine) (by
      rw [String.toList_ofList, Text.unifyNewlines_of_unbroken hunbroken, Text.linesOf,
        String.toList_ofList, Text.lines_of_unbroken (s := longLine) (List.cons_ne_nil _ _) hunbroken]
      exact List.mem_singleton_self _)
    obtain ⟨reading, hread⟩ := hline
    have hbroken := read_longLine
    rw [hread] at hbroken
    cases hbroken
  refine ⟨e, hexpand, fun failures hok => ?_⟩
  rw [run_eq_exec, exec_readAll hexpand, readEach_illegible fun hall => ?_] at hok
  · cases hok
  · refine hillegible ?_
    obtain ⟨path, hpath, htext⟩ := List.mem_map.mp (hfiles ▸ List.mem_singleton_self "/a.txt")
    exact htext ▸ hall path hpath

end Store

end MailRules
