import MailRules.Proofs.Build.Unrefused
import MailRules.Proofs.Generation.Artifacts

/-! What a report says of the artifacts.

It lists their paths by the texts of their keys, and two artifacts can have one text: the rules of a
source that is named like the scores of another one, or like the artifacts over all files. Then it
lists the greater path only. So the report has an entry for each artifact exactly if no source has
such a name (`report_lists_artifacts`), and where one has, a path that is written can be missing
(`report_loses_artifacts`). -/
namespace MailRules

namespace Build

open Generation

/-! ### The list of the artifacts -/

/-- The path is the greatest of those of the artifacts with the text. -/
structure Named (m : Assoc ArtifactKey String) (text path : String) : Prop where
  mem : ∃ k, k.text = text ∧ m.get? k = some path
  greatest : ∀ k p, k.text = text → m.get? k = some p → p ≤ path

theorem Named.unique {m : Assoc ArtifactKey String} {text p q : String} (hp : Named m text p)
    (hq : Named m text q) : p = q := by
  obtain ⟨k, hk, hkp⟩ := hp.mem
  obtain ⟨j, hj, hjq⟩ := hq.mem
  exact String.le_antisymm (hq.greatest k p hk hkp) (hp.greatest j q hj hjq)

/-- A pair is listed before another: its text is smaller or, if the texts are the same, its path is
not greater. -/
def listedBefore (a b : String × String) : Bool :=
  decide (a.1 < b.1) || (a.1 = b.1 && decide (a.2 ≤ b.2))

theorem listedBefore_iff {a b : String × String} :
    listedBefore a b = true ↔ a.1 < b.1 ∨ a.1 = b.1 ∧ a.2 ≤ b.2 := by
  simp [listedBefore]

theorem listedBefore_trans (a b c : String × String) (hab : listedBefore a b = true)
    (hbc : listedBefore b c = true) : listedBefore a c = true := by
  rw [listedBefore_iff] at *
  rcases hab with hab | ⟨hab, hle⟩
  · rcases hbc with hbc | ⟨hbc, -⟩
    · exact .inl (String.lt_trans hab hbc)
    · exact .inl (hbc ▸ hab)
  · rcases hbc with hbc | ⟨hbc, hle'⟩
    · exact .inl (hab ▸ hbc)
    · exact .inr ⟨hab.trans hbc, String.le_trans hle hle'⟩

theorem listedBefore_total (a b : String × String) :
    (listedBefore a b || listedBefore b a) = true := by
  rw [Bool.or_eq_true, listedBefore_iff, listedBefore_iff]
  by_cases hab : a.1 < b.1
  · exact .inl (.inl hab)
  by_cases hba : b.1 < a.1
  · exact .inr (.inl hba)
  have hsame : a.1 = b.1 := String.le_antisymm hba hab
  exact (String.le_total a.2 b.2).imp (fun h => .inr ⟨hsame, h⟩) fun h => .inr ⟨hsame.symm, h⟩

theorem mem_allNames {m : Assoc ArtifactKey String} {text path : String} :
    (text, path) ∈ allNames m ↔ ∃ k, k.text = text ∧ m.get? k = some path := by
  simp only [allNames, List.mem_map, Prod.exists, Prod.mk.injEq, Assoc.get?_eq_some_iff]
  constructor
  · rintro ⟨k, p, hmem, htext, rfl⟩
    exact ⟨k, htext, hmem⟩
  · rintro ⟨k, htext, hmem⟩
    exact ⟨k, path, hmem, htext, rfl⟩

/-- The same in the order in which they are listed. -/
def inOrder (m : Assoc ArtifactKey String) : List (String × String) :=
  (allNames m).mergeSort listedBefore

theorem mem_inOrder {m : Assoc ArtifactKey String} {text path : String} :
    (text, path) ∈ inOrder m ↔ ∃ k, k.text = text ∧ m.get? k = some path :=
  List.mem_mergeSort.trans mem_allNames

theorem inOrder_pairwise (m : Assoc ArtifactKey String) :
    (inOrder m).Pairwise fun a b => listedBefore a b = true :=
  List.pairwise_mergeSort listedBefore_trans listedBefore_total _

/-- The report has the last path that is listed for a text. -/
theorem namedArtifacts_last {m : Assoc ArtifactKey String} {text : String} :
    (namedArtifacts m).get? text = (inOrder m).reverse.lookup text := by
  rw [namedArtifacts, Assoc.ofList, Assoc.get?_foldl_insert_last]
  exact Option.or_none

theorem named_of_get? {m : Assoc ArtifactKey String} {text path : String}
    (h : (namedArtifacts m).get? text = some path) : Named m text path := by
  rw [namedArtifacts_last, List.lookup_eq_some_iff] at h
  obtain ⟨later, before, hsplit, hlater⟩ := h
  have horder := List.pairwise_reverse.mpr (inOrder_pairwise m)
  rw [hsplit, List.pairwise_append] at horder
  obtain ⟨-, hbefore, -⟩ := horder
  refine ⟨mem_inOrder.mp (List.mem_reverse.mp (hsplit ▸ by simp)), fun k p hk hp => ?_⟩
  have hmem := List.mem_reverse.mpr (mem_inOrder.mpr ⟨k, hk, hp⟩)
  rw [hsplit, List.mem_append, List.mem_cons] at hmem
  obtain hmem | hmem | hmem := hmem
  · exact absurd rfl (bne_iff_ne.mp (hlater _ hmem))
  · exact (Prod.mk.inj hmem).2 ▸ String.le_refl _
  · obtain hlt | ⟨-, hle⟩ := listedBefore_iff.mp ((List.pairwise_cons.mp hbefore).1 _ hmem)
    · exact absurd hlt (String.lt_irrefl text)
    · exact hle

theorem get?_namedArtifacts {m : Assoc ArtifactKey String} {text path : String} :
    (namedArtifacts m).get? text = some path ↔ Named m text path := by
  refine ⟨named_of_get?, fun h => ?_⟩
  obtain ⟨k, hk, hp⟩ := h.mem
  have hmem : text ∈ (namedArtifacts m).keys :=
    mem_keys_namedArtifacts.mpr (List.mem_map.mpr ⟨k, Assoc.mem_keys_iff.mpr ⟨path, hp⟩, hk⟩)
  obtain ⟨q, hq⟩ := Assoc.mem_keys_iff.mp hmem
  rw [hq, h.unique (named_of_get? hq)]

/-- If all texts are different, the path of an artifact is the only one of its text. -/
theorem named_of_distinct {m : Assoc ArtifactKey String}
    (hdistinct : ∀ k ∈ m.keys, ∀ j ∈ m.keys, k.text = j.text → k = j) {k : ArtifactKey}
    {path : String} (hk : m.get? k = some path) : Named m k.text path := by
  refine ⟨⟨k, rfl, hk⟩, fun j q hj hq => ?_⟩
  obtain rfl : j = k := hdistinct j (Assoc.mem_keys_iff.mpr ⟨q, hq⟩) k
    (Assoc.mem_keys_iff.mpr ⟨path, hk⟩) hj
  exact Option.some.inj (hq.symm.trans hk) ▸ String.le_refl _

/-- There is an entry for each artifact exactly if they have different texts. -/
theorem namedArtifacts_perm_iff {m : Assoc ArtifactKey String} :
    (namedArtifacts m).entries.Perm (allNames m) ↔
      ∀ k ∈ m.keys, ∀ j ∈ m.keys, k.text = j.text → k = j := by
  have hnodup : ((allNames m).map Prod.fst).Nodup ↔
      ∀ k ∈ m.keys, ∀ j ∈ m.keys, k.text = j.text → k = j := by
    rw [allNames_texts]
    exact List.nodup_map_iff_inj_on m.nodup
  rw [← hnodup]
  constructor
  · exact fun h => (h.map Prod.fst).nodup_iff.mp (namedArtifacts m).nodup
  · intro htexts
    refine Assoc.perm_of_get? (n := ⟨allNames m, htexts⟩) fun text => Option.ext fun path => ?_
    rw [get?_namedArtifacts, Assoc.get?_eq_some_iff, mem_allNames]
    refine ⟨Named.mem, ?_⟩
    rintro ⟨k, rfl, hp⟩
    exact named_of_distinct (hnodup.mp htexts) hp

/-! ### Texts of keys -/

/-- The artifacts of a build have a text each: no source is named like the scores of another one or,
if there are artifacts over all files, like one of these. -/
structure ToldApart (config : Config) (store : Store) : Prop where
  sources : ∀ source ∈ store.files.keys, source ++ "_SCORES" ∉ store.files.keys
  global : HasArtifacts config store none →
    "GLOBAL" ∉ store.files.keys ∧ "GLOBAL_SCORES" ∉ store.files.keys

/-- The text of scores is longer than that of the rules over all files. -/
theorem scores_text_ne (source : Option String) : ArtifactKey.text ⟨source, true⟩ ≠ "GLOBAL" := by
  intro hsame
  have hlength : (source.getD "GLOBAL").length + "_SCORES".length = "GLOBAL".length := by
    rw [← String.length_append]
    exact congrArg _ hsame
  rw [show "_SCORES".length = 7 from rfl, show "GLOBAL".length = 6 from rfl] at hlength
  omega

namespace ToldApart

variable {config : Config} {store : Store} {source other : Option String}

theorem source_eq (h : ToldApart config store) (hs : HasArtifacts config store source)
    (ho : HasArtifacts config store other) (hsame : source.getD "GLOBAL" = other.getD "GLOBAL") :
    source = other := by
  cases source <;> cases other
  case none.none => rfl
  case some.some => exact congrArg some hsame
  case none.some name =>
    obtain rfl : "GLOBAL" = name := hsame
    exact absurd ho (h.global hs).1
  case some.none name =>
    obtain rfl : name = "GLOBAL" := hsame
    exact absurd hs (h.global ho).1

theorem rules_ne_scores (h : ToldApart config store) (hs : HasArtifacts config store source)
    (ho : HasArtifacts config store other) :
    ArtifactKey.text ⟨source, false⟩ ≠ ArtifactKey.text ⟨other, true⟩ := by
  intro hsame
  cases source
  case none => exact scores_text_ne other hsame.symm
  case some source =>
    obtain rfl : source = other.getD "GLOBAL" ++ "_SCORES" := String.append_empty.symm.trans hsame
    cases other with
    | none => exact (h.global ho).2 hs
    | some name => exact h.sources name ho hs

end ToldApart

theorem toldApart_iff {config : Config} {store : Store} :
    ToldApart config store ↔ ∀ k j : ArtifactKey, HasArtifacts config store k.source →
      HasArtifacts config store j.source → k.text = j.text → k = j := by
  constructor
  · rintro h ⟨source, scores⟩ ⟨other, scores'⟩ hk hj htext
    cases scores <;> cases scores'
    · obtain rfl := h.source_eq hk hj (by simpa [ArtifactKey.text] using htext)
      rfl
    · exact absurd htext (h.rules_ne_scores hk hj)
    · exact absurd htext.symm (h.rules_ne_scores hj hk)
    · obtain rfl := h.source_eq hk hj (by simpa [ArtifactKey.text] using htext)
      rfl
  · intro h
    refine ⟨fun source hs hscores => ?_, fun hglobal => ⟨fun hs => ?_, fun hs => ?_⟩⟩
    · have hsame := h ⟨some (source ++ "_SCORES"), false⟩ ⟨some source, true⟩ hscores hs
        String.append_empty
      exact Bool.false_ne_true (congrArg ArtifactKey.scores hsame)
    · cases h ⟨some "GLOBAL", false⟩ .global hs hglobal rfl
    · cases h ⟨some "GLOBAL_SCORES", false⟩ .globalScores hs hglobal rfl

/-! ### The report of a build -/

variable {config : Config} {h : Host} {inputs : List String} {clean verify : Bool} {r : Report}

/-- Where one file is for all, the texts of the artifacts over all files name every path. -/
theorem named_of_single {m : Layout} {store : Store} {b : Buffers Rule.Line}
    (hsingle : config.isSingle = true) (hgenerated : Generated { config } m store b)
    {k : ArtifactKey} {path : String} (hk : m.path? k = some path) :
    ∃ text, Named m.artifacts text path := by
  obtain ⟨_, hresolved⟩ := hgenerated.resolved
  have hpath {j : ArtifactKey} {q : String} (hj : m.path? j = some q) :
      q = if j.scores && !m.config.isJoined then FileName.scoresPath m.sharedPath
        else m.sharedPath :=
    (Layout.resolved_aliased hresolved).single (hgenerated.config ▸ hsingle) j q hj
  have hglobal : HasArtifacts config store none := by rw [HasArtifacts, hsingle, Bool.or_true]
  have hsame := hpath hk
  split at hsame
  next hscores =>
    obtain ⟨q, hq⟩ := hgenerated.placed hglobal true
    have hshared := hpath hq
    rw [if_pos (by simpa using (Bool.and_eq_true_iff.mp hscores).2), ← hsame] at hshared
    refine ⟨_, ⟨.globalScores, rfl, hshared ▸ hq⟩, fun j p _ hp => ?_⟩
    have hclass := hpath hp
    split at hclass
    · exact hclass.trans hsame.symm ▸ String.le_refl _
    · rw [hclass, hsame]
      exact Text.le_of_lt (FileName.lt_scoresPath _)
  next =>
    obtain ⟨q, hq⟩ := hgenerated.placed hglobal false
    have hshared := hpath hq
    rw [if_neg (by simp), ← hsame] at hshared
    refine ⟨_, ⟨.global, rfl, hshared ▸ hq⟩, fun j p htext hp => ?_⟩
    have hrules : j.scores = false :=
      Bool.eq_false_iff.mpr fun hscores => scores_text_ne j.source (hscores ▸ htext)
    have hclass := hpath hp
    rw [if_neg (by simp [hrules]), ← hsame] at hclass
    exact hclass ▸ String.le_refl _

/-- **What the report says of the artifacts.** A build has artifacts of every source that it has
read, and over all files if there are global words or one file is for all. The report lists each
text of a key with the greatest path of its artifacts. So it has one entry for each artifact exactly
if the names of the sources tell these apart. Every path that is written is that of an artifact, and
listed for its text if no greater one is; all of them are listed if the artifacts are told apart, or
if one file is for all. -/
theorem report_lists_artifacts (hc : config.WellFormed)
    (hr : ((run config inputs clean verify).run h).1 = .ok r) :
    let store := (filled config h inputs).store
    ∃ m b, Generated { config } m store b ∧
      (∀ k, k ∈ m.artifacts.keys ↔ HasArtifacts config store k.source) ∧
      (∀ text path, r.artifacts.get? text = some path ↔ Named m.artifacts text path) ∧
      (r.artifacts.entries.Perm (allNames m.artifacts) ↔ ToldApart config store) ∧
      (∀ path ∈ r.written, ∃ k p, m.path? k = some path ∧
        r.artifacts.get? k.text = some p ∧ path ≤ p) ∧
      (config.isSingle = true ∨ ToldApart config store →
        ∀ path ∈ r.written, path ∈ r.artifacts.values) := by
  intro store
  obtain ⟨failures, b, c, u, writing, verification, -, hfresh, -, hstored, rfl⟩ :=
    ends_run_fresh inputs hc.outputDir hr
  have hgenerated := generated_filled hfresh
  have hkeys (k : ArtifactKey) := hgenerated.mem_keys_iff (k := k)
  have happart : (∀ k ∈ (filled config h inputs).fresh.2.1.layout.artifacts.keys,
      ∀ j ∈ (filled config h inputs).fresh.2.1.layout.artifacts.keys, k.text = j.text → k = j) ↔
      ToldApart config store := by
    rw [toldApart_iff]
    exact ⟨fun h k j hk hj => h k ((hkeys k).mpr hk) j ((hkeys j).mpr hj),
      fun h k hk j hj => h k j ((hkeys k).mp hk) ((hkeys j).mp hj)⟩
  have hknown : ∀ path ∈ writing.written,
      ∃ k, (filled config h inputs).fresh.2.1.layout.path? k = some path := fun path hp =>
    hgenerated.known (Buffers.mem_nonEmpty.mp (hstored.sublist.subset hp))
  refine ⟨_, b, hgenerated, hkeys, fun text path => get?_namedArtifacts,
    namedArtifacts_perm_iff.trans happart, fun path hp => ?_, fun hnames path hp => ?_⟩
  · obtain ⟨k, hk⟩ := hknown path hp
    obtain ⟨p, hentry⟩ := Assoc.mem_keys_iff.mp (mem_keys_namedArtifacts.mpr
      (List.mem_map.mpr ⟨k, Assoc.mem_keys_iff.mpr ⟨path, hk⟩, rfl⟩))
    exact ⟨k, p, hk, hentry, (get?_namedArtifacts.mp hentry).greatest k path rfl hk⟩
  · obtain ⟨k, hk⟩ := hknown path hp
    obtain ⟨text, hnamed⟩ : ∃ text, Named _ text path := by
      rcases hnames with hsingle | hnames
      · exact named_of_single hsingle hgenerated hk
      · exact ⟨k.text, named_of_distinct (happart.mpr hnames) hk⟩
    exact Assoc.mem_values_iff.mpr ⟨text, get?_namedArtifacts.mpr hnamed⟩

theorem report_lists_artifacts_word :
    plainConfig.WellFormed ∧ ToldApart plainConfig (filled plainConfig wordHost ["/A"]).store ∧
      ∃ r, ((run plainConfig ["/A"] true false).run wordHost).1 = .ok r ∧
        ∃ m b, Generated { config := plainConfig } m (filled plainConfig wordHost ["/A"]).store b ∧
          r.artifacts.entries.Perm (allNames m.artifacts) ∧
          ∀ path ∈ r.written, path ∈ r.artifacts.values := by
  obtain ⟨r, hr⟩ := word_answers
  have hread : (readingOf plainConfig wordHost ["/A"]).1 = .ok [] :=
    Outcome.toOption_eq_some_iff.mp (by decide +kernel)
  have hstore := (filled_of_reading (by decide +kernel) (by decide +kernel) hread).2
  have hkeys : (filled plainConfig wordHost ["/A"]).store.files.keys = ["A"] := by
    rw [hstore]
    decide +kernel
  have happart : ToldApart plainConfig (filled plainConfig wordHost ["/A"]).store := by
    constructor
    · rw [hkeys]
      decide
    · rw [hkeys]
      exact fun _ => by decide
  obtain ⟨m, b, hgenerated, -, -, hperm, -, hall⟩ := report_lists_artifacts plain_wellFormed hr
  exact ⟨plain_wellFormed, happart, r, hr, m, b, hgenerated, hperm.mpr happart,
    hall (.inr happart)⟩

/-! ### A source that is named like the artifacts over all files -/

/-- A machine with a file `GLOBAL` that has a global word. -/
def globalHost : Host where
  tree := ⟨Assoc.ofList [(["GLOBAL"], .file "apple GLOBAL\n".toUTF8)]⟩

/-- The paths of its artifacts. -/
abbrev globalNames : Assoc ArtifactKey String := (choiceOf sampleConfig ["GLOBAL"]).2.1.artifacts

theorem globalHost_built :
    ∃ r m b, ((run sampleConfig ["/GLOBAL"] true false).run globalHost).1 = .ok r ∧
      Generated { config := sampleConfig } m (filled sampleConfig globalHost ["/GLOBAL"]).store b ∧
      m.artifacts = globalNames ∧ r.artifacts = namedArtifacts globalNames ∧
      r.written = b.nonEmpty ∧
      (filled sampleConfig globalHost ["/GLOBAL"]).store =
        (readingOf sampleConfig globalHost ["/GLOBAL"]).2.state := by
  have hc := Session.sampleConfig_wellFormed
  have hlinks : globalHost.Unlinked sampleConfig.outputDir := fun _ _ _ _ =>
    Tree.no_link_of_values (by decide +kernel) _ _
  have hglobal : (!(readingOf sampleConfig globalHost ["/GLOBAL"]).2.state.origins.isEmpty ||
      sampleConfig.isSingle) = true := by
    decide +kernel
  have hsources : Text.sorted (readingOf sampleConfig globalHost ["/GLOBAL"]).2.state.files.keys =
      ["GLOBAL"] := by
    decide +kernel
  have hchosen : (choiceOf sampleConfig ["GLOBAL"]).1.isOk = true := by decide +kernel
  have hfits : ∀ x ∈ globalNames.entries, ∀ y ∈ globalNames.entries,
      (choiceOf sampleConfig ["GLOBAL"]).2.1.Compatible x y := by
    decide +kernel
  obtain ⟨hstore, r, hr⟩ := chosen_answers hglobal hc hlinks (by decide +kernel)
    (by decide +kernel) (by decide +kernel) hsources (by decide +kernel) hchosen hfits
    (by decide +kernel) (by decide +kernel)
  obtain ⟨_, b, _, _, _, _, -, hfresh, -⟩ := ends_run_fresh ["/GLOBAL"] hc.outputDir hr
  have hgenerated := generated_filled hfresh
  have hlayout := chosen_layout (hstore ▸ hglobal) hgenerated (hstore ▸ hsources) hchosen hfits
  -- Nothing stands in the way of these paths.
  have hmade : (globalHost.made sampleConfig.outputDir).UnlinkedAt sampleConfig.outputDir
      (artifactPaths sampleConfig globalHost ["/GLOBAL"]) := fun _ _ _ _ _ =>
    Tree.no_link_of_values (by decide +kernel) _ _
  have hwritable : ∀ path ∈ globalNames.values,
      ((globalHost.made sampleConfig.outputDir).isDirectory (Path.ofString path)).toOption =
        some false := by
    decide +kernel
  have hunrefused := run_unrefused hc hmade rfl (fun _ _ => List.not_mem_nil) (fun path hp => by
    rw [artifactPaths, Layout.uniquePaths, hlayout, Text.mem_sortedUnique] at hp
    exact Outcome.toOption_eq_some_iff.mp (hwritable path hp)) hr
  obtain ⟨_, b', _, _, hb⟩ := built_of_run hc hmade hr hunrefused
  obtain rfl : b' = b := Except.ok.inj (hb.fresh.symm.trans hfresh)
  obtain ⟨_, _, _, -, hreport⟩ := hb.report
  refine ⟨r, _, b', hr, hgenerated, hlayout, ?_, hb.written_eq, hstore⟩
  rw [hreport]
  exact congrArg namedArtifacts hlayout

/-- The report has two entries for four artifacts, and a path that is written is in neither. -/
theorem report_loses_artifacts :
    sampleConfig.WellFormed ∧
      ∃ r m b, ((run sampleConfig ["/GLOBAL"] true false).run globalHost).1 = .ok r ∧
        Generated { config := sampleConfig } m
          (filled sampleConfig globalHost ["/GLOBAL"]).store b ∧
        m.artifacts.keys.length = 4 ∧ r.artifacts.keys.Perm ["GLOBAL", "GLOBAL_SCORES"] ∧
        "/K/50_K_GLOBAL.cf" ∈ r.written ∧ "/K/50_K_GLOBAL.cf" ∉ r.artifacts.values := by
  obtain ⟨r, m, b, hr, hgenerated, hlayout, hartifacts, hwritten, hstore⟩ := globalHost_built
  refine ⟨Session.sampleConfig_wellFormed, r, m, b, hr, hgenerated, hlayout ▸ by decide +kernel,
    ?_, ?_, ?_⟩
  · have htexts : globalNames.keys.map ArtifactKey.text =
        ["GLOBAL", "GLOBAL_SCORES", "GLOBAL", "GLOBAL_SCORES"] := by
      decide +kernel
    refine (List.perm_ext_iff_of_nodup r.artifacts.nodup (by decide)).mpr fun text => ?_
    show text ∈ r.artifacts.keys ↔ _
    rw [hartifacts, mem_keys_namedArtifacts, htexts]
    simp only [List.mem_cons, List.not_mem_nil, or_false]
    rw [← or_assoc, or_self]
  · have hpath : m.path? (Layout.rulesKey "GLOBAL") = some "/K/50_K_GLOBAL.cf" := by
      rw [Layout.path?, hlayout]
      decide +kernel
    rw [hwritten, Buffers.mem_nonEmpty, hgenerated.linesAt_artifact hpath, hstore]
    refine List.isEmpty_eq_false_iff.mp ?_
    decide +kernel
  · -- Each artifact there has the text of one whose path is greater.
    have hgreater : ∀ e ∈ globalNames.entries, e.2 = "/K/50_K_GLOBAL.cf" →
        ∃ o ∈ globalNames.entries, o.1.text = e.1.text ∧ ¬ o.2 ≤ "/K/50_K_GLOBAL.cf" := by
      decide +kernel
    intro hmem
    obtain ⟨text, hentry⟩ := Assoc.mem_values_iff.mp hmem
    rw [hartifacts, get?_namedArtifacts] at hentry
    obtain ⟨k, rfl, hk⟩ := hentry.mem
    obtain ⟨⟨j, p⟩, hj, htext, hle⟩ := hgreater _ (Assoc.get?_eq_some_iff.mp hk) rfl
    exact hle (hentry.greatest j p htext (Assoc.get?_eq_some_iff.mpr hj))

end Build

end MailRules
