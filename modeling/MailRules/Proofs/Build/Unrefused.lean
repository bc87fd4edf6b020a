import MailRules.Proofs.Build
import MailRules.Proofs.Inputs.SameFiles

/-! A build that nothing refuses.

What it leaves is the machine with the output directory made, but for the lines in their files
(`Built`). A build of the same inputs that follows finds what the first has found, as long as
reading the inputs does not lead to an artifact. So it reports the same, and leaves everything where
it is (`run_repeats`). Where the inputs include the output directory, the second build reads what
the first has written. -/
namespace MailRules.Build

open MailRules.Action Host

variable {config : Config} {h t : Host} {inputs : List String} {clean verify : Bool} {r : Report}

/-- What a build that nothing refuses has read, generated and written. The lines are written to `v`,
in which the files to be swept are gone, or the directory is new. -/
structure Built (config : Config) (inputs : List String) (clean : Bool) (h : Host) (r : Report)
    (t : Host) (failures : List String) (b : Buffers Rule.Line) (directory : Location) (v : Host) :
    Prop where
  read : (readInputs config inputs h).1 = .ok failures
  fresh : (filled config h inputs).fresh.1 = .ok b
  inside : ∀ path ∈ artifactPaths config h inputs, Layout.IsInside config.outputDir.text path
  known : ∀ path ∈ b.nonEmpty, path ∈ artifactPaths config h inputs
  standing : Standing config.outputDir directory (artifactPaths config h inputs) b h t
  touched : Touched config.outputDir directory b.nonEmpty v t
  before : Beside config.outputDir directory (artifactPaths config h inputs) h v
  prepared : Free config.outputDir directory (swept clean (artifactPaths config h inputs)) v ∨
    v = h.made config.outputDir ∧ ∀ directory, ¬ h.tree.LeadsTo h.home config.outputDir directory
  report : ∃ cleaning writing verification, writing.written = b.nonEmpty ∧
    r = reportOf { filled config h inputs with
      layout := (filled config h inputs).fresh.2.1.layout, buffers := some b }
      failures cleaning writing verification

theorem built_of_run (hc : config.WellFormed)
    (hlinks : (h.made config.outputDir).UnlinkedAt config.outputDir (artifactPaths config h inputs))
    (hr : ((run config inputs clean verify).run h).1 = .ok r) (hunrefused : r.writeErrors = []) :
    ∃ failures b directory v, Built config inputs clean h r
      ((run config inputs clean verify).run h).2.1 failures b directory v := by
  obtain ⟨failures, b, c, u, writing, verification, hread, hfresh, hremoval, hstored, hreport⟩ :=
    ends_run_fresh inputs hc.outputDir hr
  obtain ⟨hcleaned, hwritten⟩ : c.errors = [] ∧ writing.errors = [] := by
    rw [hreport] at hunrefused
    exact List.append_eq_nil_iff.mp hunrefused
  have hgenerated := generated_filled hfresh
  have hinside : ∀ path ∈ artifactPaths config h inputs,
      Layout.IsInside config.outputDir.text path := inside_of_generated hc hgenerated
  have hknown : ∀ path ∈ b.nonEmpty, path ∈ artifactPaths config h inputs :=
    fun _ hp => known_of_generated hgenerated (Buffers.mem_nonEmpty.mp hp)
  obtain ⟨_, -, hunmade⟩ | ⟨directory, v, hv, hwrites, hprepared⟩ :=
    stored_beside hc.outputDir hlinks hinside (fun _ => mem_of_swept) hremoval hstored
  · rw [hwritten] at hunmade
    cases hunmade
  obtain ⟨hstanding, htouched⟩ :=
    standing_of_writes hc.outputDir hlinks hinside hknown hv hwrites hwritten
  exact ⟨failures, b, directory, v, hread, hfresh, hinside, hknown, hstanding, htouched, hv,
    hprepared.imp (·.free hcleaned) (·.2), c, writing, verification, hwrites.all_written hwritten,
    hreport⟩

/-- Where the output directory can be made, and none of the paths is locked or refuses a file,
nothing is refused. -/
theorem run_unrefused (hc : config.WellFormed)
    (hlinks : (h.made config.outputDir).UnlinkedAt config.outputDir (artifactPaths config h inputs))
    (hmakes : (h.makePath config.outputDir).2 = .ok ())
    (hfree : ∀ path ∈ artifactPaths config h inputs, (Path.ofString path).text ∉ h.locked)
    (hwritable : ∀ path ∈ artifactPaths config h inputs,
      (h.made config.outputDir).isDirectory (Path.ofString path) = .ok false)
    (hr : ((run config inputs clean verify).run h).1 = .ok r) : r.writeErrors = [] := by
  obtain ⟨failures, b, c, u, writing, verification, -, hfresh, hremoval, hstored, rfl⟩ :=
    ends_run_fresh inputs hc.outputDir hr
  have hgenerated := generated_filled hfresh
  obtain ⟨hcleaned, hwritten⟩ := stored_unrefused hc.outputDir hlinks
    (inside_of_generated hc hgenerated) (fun _ => mem_of_swept)
    (fun _ hp => known_of_generated hgenerated (Buffers.mem_nonEmpty.mp hp)) hmakes
    (fun path hp => hfree path (mem_of_swept hp)) hwritable hremoval hstored
  show c.errors ++ writing.errors = []
  rw [hcleaned, hwritten]
  rfl

namespace Built

variable {failures : List String} {b : Buffers Rule.Line} {directory : Location} {v : Host}

/-- Before the lines are written there is no file to be swept. -/
theorem free (hdir : config.outputDir.Proper)
    (hlinks : (h.made config.outputDir).UnlinkedAt config.outputDir (artifactPaths config h inputs))
    (hvacant : h.Vacant config.outputDir (swept clean (artifactPaths config h inputs)))
    (hb : Built config inputs clean h r t failures b directory v) :
    Free config.outputDir directory (swept clean (artifactPaths config h inputs)) v := by
  obtain hfree | ⟨hmade, hnew⟩ := hb.prepared
  · exact hfree
  · refine free_of_isFile hdir (fun _ hp => hb.inside _ (mem_of_swept hp))
      ((hb.before.stands hlinks).mono fun _ => mem_of_swept) ?_
    rw [hmade]
    exact hvacant hnew

/-- No name is too long, unless the directory is new. -/
theorem short (hb : Built config inputs true h r t failures b directory v)
    (hshort : (∀ directory, ¬ h.tree.LeadsTo h.home config.outputDir directory) →
      ∀ name, below config.outputDir name ∈ artifactPaths config h inputs →
        ¬ TooLong config.outputDir name) :
    ∀ name, below config.outputDir name ∈ artifactPaths config h inputs →
      ¬ TooLong config.outputDir name := by
  obtain hfree | ⟨-, hnew⟩ := hb.prepared
  · exact fun name hmem => (hfree name hmem).1
  · exact hshort hnew

/-- What is written is what there are lines for. -/
theorem written_eq (hb : Built config inputs clean h r t failures b directory v) :
    r.written = b.nonEmpty := by
  obtain ⟨cleaning, writing, verification, hwritten, rfl⟩ := hb.report
  exact hwritten

/-- What is read and generated next is the same. -/
theorem filled_eq (hb : Built config inputs clean h r t failures b directory v)
    (hinputs : h.Ignores config.outputDir (artifactPaths config h inputs)
      (readInputs config inputs)) : filled config t inputs = filled config h inputs :=
  filled_congr hb.standing.beside.home (hinputs _ _ hb.standing.beside)

/-- The next build answers: nothing fails that has not failed before, and every path that is swept
can be looked up. -/
theorem answers_again (hdir : config.outputDir.Proper)
    (hb : Built config inputs clean h r t failures b directory v)
    (hfree : Free config.outputDir directory (swept clean (artifactPaths config h inputs)) v)
    (hinputs : h.Ignores config.outputDir (artifactPaths config h inputs)
      (readInputs config inputs)) :
    ∃ r', ((run config inputs clean verify).run t).1 = .ok r' := by
  have hfilled := hb.filled_eq hinputs
  cases hanswer : ((run config inputs clean verify).run t).1 with
  | ok r' => exact ⟨r', rfl⟩
  | error f =>
    obtain ⟨-, hread | hgenerate⟩ | ⟨b', front, path, back, c, -, hpaths, hremoval, hrefused⟩ :=
      fails_run inputs hdir hanswer
    · rw [hinputs _ _ hb.standing.beside, hb.read] at hread
      cases hread
    · rw [hfilled, (Session.answers_generate hb.fresh).run.1] at hgenerate
      cases hgenerate
    · rw [artifactPaths, hfilled] at hpaths
      replace hpaths : swept clean (artifactPaths config h inputs) = front ++ path :: back := hpaths
      have hmem {p : String} (hp : p ∈ front ++ path :: back) :
          p ∈ swept clean (artifactPaths config h inputs) := hpaths ▸ hp
      have hpath := hmem (by simp : path ∈ front ++ path :: back)
      have hfront {p : String} (hp : p ∈ front) := hmem (List.mem_append_left (path :: back) hp)
      obtain ⟨name, hname, (rfl : path = below config.outputDir name)⟩ :=
        hb.inside path (mem_of_swept hpath)
      have hcleaned := removal_cleaned hdir
        (fun p hp => hb.inside p (mem_of_swept (hfront hp)))
        (hb.standing.stands.mono fun p hp => mem_of_swept (hfront hp)) hremoval
      rw [isFile_below_error hdir hname (hcleaned.touched.stands hb.standing.stands)
        (mem_of_swept hpath)] at hrefused
      exact absurd hrefused.1 (hfree name hpath).1

end Built

/-- Where the inputs are files and none of them is an artifact, reading them does not depend on the
artifacts. -/
theorem readInputs_ignores {dir : Path} {paths : List String} (config : Config)
    (hhome : Tree.normalize h.home = h.home)
    (hfiles : ∀ input ∈ inputs, h.FileBeside dir paths (Path.ofString input)) :
    h.Ignores dir paths (readInputs config inputs) := by
  intro directory u hu
  have hpath : u.homePath = h.homePath := by rw [Host.homePath, Host.homePath, hu.home]
  rw [readInputs, readInputs, opened, opened, hpath]
  exact Store.readAll_ignores hhome hfiles _ directory u hu

/-- Where everything goes to one file, that is the only path. -/
theorem artifactPaths_single (hsingle : config.isSingle = true) (hjoined : config.isJoined = true)
    (hdir : config.outputDir.Proper) (hr : ((run config inputs clean verify).run h).1 = .ok r) :
    ∀ path, path ∈ artifactPaths config h inputs ↔ path = ({ config } : Layout).sharedPath := by
  obtain ⟨_, b, _, _, _, _, -, hfresh, -⟩ := ends_run_fresh inputs hdir hr
  have hgenerated := generated_filled hfresh
  exact fun path => mem_single_iff hsingle hjoined hgenerated

/-- Then nothing is refused if nothing stands in the way of that file. -/
theorem single_unrefused (hsingle : config.isSingle = true) (hjoined : config.isJoined = true)
    (hc : config.WellFormed)
    (hlinks : (h.made config.outputDir).UnlinkedAt config.outputDir (artifactPaths config h inputs))
    (hmakes : (h.makePath config.outputDir).2 = .ok ()) (hfree : h.locked = [])
    (hwritable : (h.made config.outputDir).isDirectory
      (Path.ofString ({ config } : Layout).sharedPath) = .ok false)
    (hr : ((run config inputs clean verify).run h).1 = .ok r) : r.writeErrors = [] := by
  refine run_unrefused hc hlinks hmakes (fun _ _ => hfree ▸ List.not_mem_nil) (fun path hp => ?_) hr
  rw [(artifactPaths_single hsingle hjoined hc.outputDir hr path).mp hp]
  exact hwritable

/-- What is in the root is not in a directory below it. -/
theorem ne_below {dir : Path} {top name : String}
    (hleads : (h.made dir).tree.LeadsTo (h.made dir).home dir [top]) {directory : Location}
    (hother : (h.made dir).tree.LeadsTo (h.made dir).home dir directory) (file : String) :
    [name] ≠ directory ++ [file] := by
  rw [hleads.unique hother]
  exact fun hsame => absurd (congrArg List.length hsame) (by simp)

/-! ### A build of one word -/

/-- Everything goes to one file. -/
def plainConfig : Config :=
  { Generation.sampleConfig with
    singleOutfile := .bool true, groupScore := Config.defaultGroupScore }

theorem plain_wellFormed : plainConfig.WellFormed :=
  ⟨Session.sampleConfig_wellFormed.idStart, Session.sampleConfig_wellFormed.idLetters,
    Session.sampleConfig_wellFormed.root, fun _ hd => by cases hd⟩

theorem word_links : (wordHost.made plainConfig.outputDir).UnlinkedAt plainConfig.outputDir
    (artifactPaths plainConfig wordHost ["/A"]) :=
  fun _ _ _ _ _ => Tree.no_link_of_values (by decide +kernel) _ _

theorem word_answers : ∃ r, ((run plainConfig ["/A"] true false).run wordHost).1 = .ok r := by
  have hunlinked : wordHost.Unlinked plainConfig.outputDir := fun _ _ _ _ =>
    Tree.no_link_of_values (by decide +kernel) _ _
  have hsources : Text.sorted (readingOf plainConfig wordHost ["/A"]).2.state.files.keys =
      ["A"] := by
    decide +kernel
  exact (single_answers rfl rfl plain_wellFormed hunlinked (by decide +kernel) (by decide +kernel)
    (by decide +kernel) hsources (by decide +kernel) (by decide +kernel) (by decide +kernel)
    (by decide +kernel)).2

theorem word_paths {path : String} :
    path ∈ artifactPaths plainConfig wordHost ["/A"] ↔ path = "/K/50_K.cf" := by
  obtain ⟨r, hr⟩ := word_answers
  exact artifactPaths_single rfl rfl plain_wellFormed.outputDir hr path

theorem word_unrefused : ∃ r,
    ((run plainConfig ["/A"] true false).run wordHost).1 = .ok r ∧ r.writeErrors = [] := by
  obtain ⟨r, hr⟩ := word_answers
  exact ⟨r, hr, single_unrefused rfl rfl plain_wellFormed word_links rfl rfl rfl hr⟩

theorem word_ignores (config : Config) :
    wordHost.Ignores plainConfig.outputDir (artifactPaths plainConfig wordHost ["/A"])
      (readInputs config ["/A"]) := by
  refine readInputs_ignores config rfl fun input hinput => ?_
  rw [List.mem_singleton.mp hinput]
  have hleads : (wordHost.made plainConfig.outputDir).tree.LeadsTo
      (wordHost.made plainConfig.outputDir).home plainConfig.outputDir ["K"] := rfl
  exact ⟨["A"], _, ⟨rfl, rfl⟩, fun directory name hother _ => ne_below hleads hother name⟩

/-! ### The same build once more -/

/-- **A build that is made again changes nothing.** Where nothing is refused, the artifacts do not
decide what is read, and none of them is a symbolic link, a second build with the same inputs
answers. It reports what the first has reported, but for the locked files it cannot remove, and
leaves everything where it is. If files are swept and the output directory is new, none may stand in
it once it is made: the second build would remove what the first could not have seen. -/
theorem run_repeats (hc : config.WellFormed)
    (hr : ((run config inputs clean verify).run h).1 = .ok r) (hunrefused : r.writeErrors = [])
    (hinputs : h.Ignores config.outputDir (artifactPaths config h inputs)
      (readInputs config inputs))
    (hlinks : (h.made config.outputDir).UnlinkedAt config.outputDir (artifactPaths config h inputs))
    (hvacant : h.Vacant config.outputDir (swept clean (artifactPaths config h inputs))) :
    let t := ((run config inputs clean verify).run h).2.1
    let again := (run config inputs clean verify).run t
    ∃ r', again.1 = .ok r' ∧ r'.written = r.written ∧ r'.artifacts = r.artifacts ∧
      r'.words = r.words ∧ r'.filesRead = r.filesRead ∧ r'.failures = r.failures ∧
      (∀ message ∈ r'.writeErrors, ∃ path ∈ artifactPaths config h inputs,
        message = unremoved path ∧ (Path.ofString path).text ∈ h.locked) ∧
      again.2.1 = { t with tree := again.2.1.tree } ∧
      ∀ place, again.2.1.tree.at? place = t.tree.at? place := by
  intro t again
  obtain ⟨failures, b, directory, v, hb⟩ := built_of_run hc hlinks hr hunrefused
  have hfree := hb.free hc.outputDir hlinks hvacant
  obtain ⟨r', hagain⟩ : ∃ r', again.1 = .ok r' := hb.answers_again hc.outputDir hfree hinputs
  have hfilled := hb.filled_eq hinputs
  have hpaths : artifactPaths config t inputs = artifactPaths config h inputs := by
    rw [artifactPaths, hfilled]
    rfl
  obtain ⟨failures', b', c, u, writing, verification, hread, hfresh, hremoval, hstored, hreport⟩ :=
    ends_run_fresh inputs hc.outputDir hagain
  obtain rfl : failures' = failures := by
    rw [hinputs _ _ hb.standing.beside, hb.read] at hread
    exact (Except.ok.inj hread).symm
  obtain rfl : b' = b := by
    rw [hfilled, hb.fresh] at hfresh
    exact (Except.ok.inj hfresh).symm
  rw [hpaths] at hremoval
  rw [hfilled] at hreport
  have honly := only_of_touched (fun name content hmem => (hfree name hmem).2 content) hb.touched
  obtain ⟨hnone, hwritten, hrest, hsame, hlocked⟩ := stored_again hc.outputDir hb.inside
    (fun _ => mem_of_swept) hb.known hb.standing honly hremoval hstored
  obtain ⟨cleaning, writing₁, verification₁, hfirst, rfl⟩ := hb.report
  refine ⟨r', hagain, ?_, ?_, ?_, ?_, ?_, fun message hm => ?_, hrest, hsame⟩
  · rw [hreport]
    exact hwritten.trans hfirst.symm
  · rw [hreport]
    rfl
  · rw [hreport]
    rfl
  · rw [hreport]
    rfl
  · rw [hreport]
    rfl
  · rw [hreport] at hm
    replace hm : message ∈ c.errors ++ writing.errors := hm
    rw [hnone, List.append_nil] at hm
    obtain ⟨path, hp, hmessage, hpath⟩ := hlocked message hm
    have hhost : t.locked = h.locked := congrArg (·.locked) hb.standing.beside.rest
    exact ⟨path, mem_of_swept hp, hmessage, hhost ▸ hpath⟩

theorem run_repeats_word :
    plainConfig.WellFormed ∧
      wordHost.Ignores plainConfig.outputDir (artifactPaths plainConfig wordHost ["/A"])
        (readInputs plainConfig ["/A"]) ∧
      (wordHost.made plainConfig.outputDir).UnlinkedAt plainConfig.outputDir
        (artifactPaths plainConfig wordHost ["/A"]) ∧
      wordHost.Vacant plainConfig.outputDir
        (swept true (artifactPaths plainConfig wordHost ["/A"])) ∧
      ∃ r, ((run plainConfig ["/A"] true false).run wordHost).1 = .ok r ∧ r.writeErrors = [] ∧
        ∃ r', ((run plainConfig ["/A"] true false).run
            ((run plainConfig ["/A"] true false).run wordHost).2.1).1 = .ok r' ∧
          r'.written = r.written ∧ r'.words = r.words := by
  obtain ⟨r, hr, hunrefused⟩ := word_unrefused
  have hvacant : wordHost.Vacant plainConfig.outputDir
      (swept true (artifactPaths plainConfig wordHost ["/A"])) := by
    refine vacant_of_climbable (Tree.wellFormed_of_keys (by decide +kernel)) plain_wellFormed.outputDir
      (climbable_of_no_up (by decide +kernel)) rfl (fun path hp => ?_) fun name hp => ?_
    · rw [word_paths.mp hp]
      exact Layout.isInside_shared (l := { config := plainConfig }) plain_wellFormed
    · obtain rfl : name = "50_K.cf" := below_inj (word_paths.mp hp)
      decide +kernel
  obtain ⟨r', hagain, hwritten, -, hwords, -⟩ :=
    run_repeats plain_wellFormed hr hunrefused (word_ignores plainConfig) word_links hvacant
  exact ⟨plain_wellFormed, word_ignores plainConfig, word_links, hvacant, r, hr, hunrefused, r',
    hagain, hwritten, hwords⟩

/-! ### A build that reads what it has written -/

/-- Where nothing fails, every file that the inputs denote has artifacts. -/
theorem artifact_of_file {e : Expansion} (hdir : config.outputDir.Proper)
    (hexpand : Expansion.ofInputs h (opened config h).session.store.root
      (inputs.map Path.ofString) = (e, none))
    (hr : ((run config inputs clean verify).run h).1 = .ok r) (hnone : r.failures = [])
    {path : Path} (hpath : path ∈ e.files) :
    (opened config h).session.store.fileKey path.text ∈ r.artifacts.keys := by
  obtain ⟨failures, b, c, u, writing, verification, hread, hfresh, -, -, rfl⟩ :=
    ends_run_fresh inputs hdir hr
  obtain rfl : failures = [] := hnone
  obtain ⟨hlegible, hall, -⟩ :=
    Store.readAll_outcome h (opened config h).session.store inputs hexpand
  obtain ⟨hsaid, hstore⟩ := hall (hlegible.mp ⟨_, hread⟩)
  obtain ⟨-, hmessages⟩ := List.append_eq_nil_iff.mp (Except.ok.inj (hsaid.symm.trans hread))
  have hsource : (opened config h).session.store.fileKey path.text ∈
      (filled config h inputs).store.files.keys := by
    show _ ∈ ((Store.readAll h inputs).run (opened config h).session.store).2.1.files.keys
    rw [hstore]
    exact Store.mem_keys_of_messages hmessages
      (.inr (List.mem_map_of_mem (List.mem_map_of_mem hpath)))
  obtain ⟨_, hresolved⟩ := (Session.generated_fresh hfresh).resolved
  obtain ⟨⟨p, hp⟩, -⟩ :=
    (Generation.resolved_extends hresolved).2.1 _ (Text.mem_sorted.mpr hsource)
  refine mem_keys_namedArtifacts.mpr (List.mem_map.mpr
    ⟨_, Assoc.mem_keys_iff.mpr ⟨p, hp⟩, String.append_empty⟩)

/-- A machine with a file of one word and an empty directory. -/
def fedHost : Host where
  tree := ⟨Assoc.ofList [(["A"], .file "pear 2\n".toUTF8), (["K"], .directory)]⟩

/-- The same with an artifact in the directory. -/
def fedBack (content : ByteArray) : Host :=
  { fedHost with tree := fedHost.tree.put ["K", "50_K.cf"] (.file content) }

/-- The first build writes one file. -/
theorem fedHost_built :
    ∃ r content, ((run plainConfig ["/A", "/K"] true false).run fedHost).1 = .ok r ∧
      r.failures = [] ∧ r.writeErrors = [] ∧
      r.artifacts = namedArtifacts (choiceOf plainConfig ["A"]).2.1.artifacts ∧
      ((run plainConfig ["/A", "/K"] true false).run fedHost).2.1 = fedBack content := by
  have hc := plain_wellFormed
  have hlinks : fedHost.Unlinked plainConfig.outputDir := fun _ _ _ _ =>
    Tree.no_link_of_values (by decide +kernel) _ _
  have hexpand : (expansionOf plainConfig fedHost ["/A", "/K"]).2.isNone = true := by
    decide +kernel
  have hdone : (expansionOf plainConfig fedHost ["/A", "/K"]).1.pending = [] := by
    decide +kernel
  have hexpanded : (expansionOf plainConfig fedHost ["/A", "/K"]).1.failures = [] := by
    decide +kernel
  have hread : (readingOf plainConfig fedHost ["/A", "/K"]).1 = .ok [] :=
    Outcome.toOption_eq_some_iff.mp (by decide +kernel)
  have hsources : Text.sorted
      (readingOf plainConfig fedHost ["/A", "/K"]).2.state.files.keys = ["A"] := by
    decide +kernel
  have hchosen : (choiceOf plainConfig ["A"]).1.isOk = true := by decide +kernel
  obtain ⟨hstore, r, hr⟩ := single_answers rfl rfl hc hlinks hexpand hdone
    (by rw [hread]; rfl) hsources (by decide +kernel) hchosen (by decide +kernel)
    (by decide +kernel)
  have hpaths := artifactPaths_single rfl rfl hc.outputDir hr
  obtain ⟨failures, b, c, u, writing, verification, hanswer, hfresh, hremoval, hstored, rfl⟩ :=
    ends_run_fresh ["/A", "/K"] hc.outputDir hr
  obtain rfl : failures = [] := by
    rw [readInputs, (filled_of_reading hexpand hdone hread).1, hexpanded] at hanswer
    exact (Except.ok.inj hanswer).symm
  have hgenerated := generated_filled hfresh
  have hplan : (Generation.plan plainConfig
      (readingOf plainConfig fedHost ["/A", "/K"]).2.state).isEmpty = false := by
    decide +kernel
  have hlines := single_nonEmpty rfl rfl hgenerated (hstore ▸ List.isEmpty_eq_false_iff.mp hplan)
  have hlayout := chosen_layout (Bool.or_true _) hgenerated (hstore ▸ hsources)
    hchosen (by decide +kernel)
  -- Nothing is removed, and the lines make the one file.
  have hnofile : fedHost.isFile (Path.ofString
      ({ config := plainConfig } : Layout).sharedPath) = .ok false := rfl
  obtain ⟨rfl, rfl⟩ := removal_nothing (fun path hp => by
    rw [(hpaths path).mp hp, hnofile]
    exact fun he => nomatch he) hremoval
  have hwrites := hstored.writes (show fedHost.makePath plainConfig.outputDir =
    (fedHost, .ok ()) from rfl)
  have hput (text : String) : fedHost.writeInto (Path.ofString
      ({ config := plainConfig } : Layout).sharedPath) text =
        (fedBack text.toUTF8, .ok ()) := rfl
  rw [hlines] at hwrites
  cases hwrites with
  | refused hwrite =>
    rw [hput] at hwrite
    cases hwrite
  | written hwrite hnothing =>
    rw [hput] at hwrite
    obtain ⟨rfl, hleft⟩ := hnothing.nothing
    exact ⟨_, _, hr, rfl, rfl, congrArg namedArtifacts hlayout,
      hleft.trans (Prod.mk.inj hwrite).1.symm⟩

/-- The second build reads that file. -/
theorem fedBack_expands (content : ByteArray) :
    ∃ e, Expansion.ofInputs (fedBack content)
        (opened plainConfig (fedBack content)).session.store.root
        (["/A", "/K"].map Path.ofString) = (e, none) ∧
      e.files = [Path.ofString "/A", Path.ofString "/K/50_K.cf"] := by
  refine ⟨_, Store.ofInputs_enough (n := 3) (by decide) (Prod.ext rfl ?_) ?_, ?_⟩
  · with_unfolding_all rfl
  · with_unfolding_all rfl
  · with_unfolding_all rfl

/-- A build whose inputs include the output directory has other artifacts when it is made again, if
it does not fail. -/
theorem run_feeds_itself :
    plainConfig.WellFormed ∧
      ∃ r, ((run plainConfig ["/A", "/K"] true false).run fedHost).1 = .ok r ∧
        r.failures = [] ∧ r.writeErrors = [] ∧
        ∀ r', ((run plainConfig ["/A", "/K"] true false).run
            ((run plainConfig ["/A", "/K"] true false).run fedHost).2.1).1 = .ok r' →
          r'.failures ≠ r.failures ∨ r'.artifacts ≠ r.artifacts := by
  have hc := plain_wellFormed
  obtain ⟨r, content, hr, hfailures, hunrefused, hartifacts, hleft⟩ := fedHost_built
  refine ⟨hc, r, hr, hfailures, hunrefused, fun r' hr' => ?_⟩
  rw [hleft] at hr'
  by_contra hsame
  obtain ⟨hsame, hartifacts'⟩ : r'.failures = r.failures ∧ r'.artifacts = r.artifacts := by
    simpa [not_or] using hsame
  obtain ⟨e, hexpand, hfiles⟩ := fedBack_expands content
  have hmem := artifact_of_file hc.outputDir hexpand hr' (hsame.trans hfailures)
    (hfiles ▸ List.mem_cons_of_mem _ List.mem_cons_self)
  have hkey : (opened plainConfig (fedBack content)).session.store.fileKey
      (Path.ofString "/K/50_K.cf").text = "K/50_K.cf" := by
    with_unfolding_all rfl
  rw [hkey, hartifacts', hartifacts, mem_keys_namedArtifacts] at hmem
  exact absurd hmem (by decide +kernel)

end MailRules.Build
