import MailRules.Proofs.Build.Unrefused
import MailRules.Proofs.Command.Leaves
import MailRules.Proofs.Generation.Meaning

/-! A cleaning that follows a generation.

The two commands make the same configuration of their options, but for the policy, which a cleaning
is not told. With the same policy it generates from the same inputs what has been generated before,
so it removes what has been written (`clean_undoes_generate`). With another policy the names can
clash, and then nothing is removed. -/
namespace MailRules

open MailRules.Action Build Host

/-! ### The same inputs under another policy -/

namespace Build

variable {c : Config} {h : Host} {inputs failures : List String} {p : ConflictPolicy} {d : Value}

/-- What can be read under one policy can be read under another, and gives the same files. -/
theorem readInputs_alike (hread : (readInputs c inputs h).1 = .ok failures) :
    (∃ failures, (readInputs (c.retold p d) inputs h).1 = .ok failures) ∧
      (filled c h inputs).store.Alike (filled (c.retold p d) h inputs).store := by
  have halike : (opened c h).session.store.Alike
      (opened (c.retold p d) h).session.store := ⟨rfl, rfl, fun _ => rfl⟩
  exact Store.readAll_alike halike hread

/-- If rules can be generated under both, the artifacts have the same paths. -/
theorem artifactPaths_retold {b b' : Buffers Rule.Line}
    (hread : (readInputs c inputs h).1 = .ok failures)
    (hb : (filled c h inputs).fresh.1 = .ok b)
    (hb' : (filled (c.retold p d) h inputs).fresh.1 = .ok b') :
    artifactPaths (c.retold p d) h inputs = artifactPaths c h inputs :=
  Session.uniquePaths_policy (readInputs_alike hread).2 rfl hb hb'

/-- Under the same policy, rules can be generated or not, whether more is said or not. -/
theorem fresh_said (c : Config) (h : Host) (inputs : List String) (d : Value) :
    (filled (c.retold c.policy d) h inputs).fresh.1 = (filled c h inputs).fresh.1 :=
  Session.fresh_retold (p := c.policy) (d := d) rfl rfl

end Build

/-! ### A command line -/

namespace Terminal

variable {t next : Terminal} {h : Host} {arguments : List String} {w : Command.Words}
  {debug : Bool} {s : Command.Settings} {c : Config} {r : Report}

/-- What a cleaning is not told, it does not share with a generation. -/
theorem configured_forClean (hconfig : configured h s = .ok c) :
    ∃ p d, configured h s.forClean = .ok (c.retold p d) := by
  obtain ⟨c₀, hload, hover⟩ := Outcome.bind_eq_ok.mp hconfig
  exact ⟨c₀.policy, c₀.debug,
    Outcome.bind_eq_ok.mpr ⟨c₀, hload, Config.withOverrides_untold hover⟩⟩

/-- Where there is no configuration file, none of the files at the paths is one. -/
theorem loaded_ignores {dir : Path} {paths : List String} {directory : Location} {name : String}
    (hvacant : h.tree.goal h.home true (h.homePath.child Config.fileName) =
      .ok (.vacant directory name))
    (hnone : (h.made dir).tree.at? (directory ++ [name]) = none)
    (hother : ∀ place file, (h.made dir).tree.LeadsTo (h.made dir).home dir place →
      below dir file ∈ paths → directory ++ [name] ≠ place ++ [file]) :
    h.Ignores dir paths (loaded · none) := by
  have hmissing {u : Host} (hgoal : u.tree.goal u.home true (u.homePath.child Config.fileName) =
      .ok (.vacant directory name)) :
      u.isFile (u.homePath.child Config.fileName) = .ok false := by
    rw [isFile, entry?, Tree.find, hgoal]
    rfl
  intro place u hu
  have hpath : u.homePath = h.homePath := by rw [homePath, homePath, hu.home]
  have hkept := hu.goal_kept hvacant
    (hnone.trans ((Tree.goal_eq_ok_iff.mp hvacant).2.vacant_at).symm)
    fun file => hother place file hu.leads
  rw [← hpath] at hkept
  show loaded u none = loaded h none
  rw [loaded_missing (hmissing hkept), loaded_missing (hmissing hvacant), hpath]

theorem configured_wellFormed (hhome : h.homePath.Proper) (hs : s.Proper)
    (hconfig : configured h s = .ok c) : c.WellFormed := by
  obtain ⟨c₀, hload, hover⟩ := Outcome.bind_eq_ok.mp hconfig
  exact (Config.ends_load hhome (Action.ends_run hload)).withOverrides hs hover

/-- A generation that goes well: the arguments call for it, its settings make the configuration,
the build reports no error of writing, and the status is that of success. -/
structure Generates (t : Terminal) (arguments : List String) (w : Command.Words) (debug : Bool)
    (s : Command.Settings) (c : Config) (r : Report) : Prop where
  calls : Command.Calls arguments .generate w debug
  asked : w.urgent? = none
  settings : Command.Settings.ofWords t.host w = .ok s
  configured : configured t.host (s.told debug) = .ok c
  built : ((Build.run c w.others true s.verify).run t.host).1 = .ok r
  unrefused : r.writeErrors = []
  status : ((run arguments).run t).1 = .ok 0

namespace Generates

theorem others_ne_nil (hg : Generates t arguments w debug s c r) : w.others ≠ [] := by
  intro hnone
  have hstatus := hg.status
  rw [run_called hg.calls rfl hg.asked hg.settings, if_pos hnone,
    (leaves_refuse _ t).run.1] at hstatus
  cases hstatus

/-- Fewer options do not ask for anything else. -/
theorem asked_only (hg : Generates t arguments w debug s c r) (allowed : List Switch) :
    (w.only allowed).urgent? = none := by
  have hasked := hg.asked
  rw [Command.Words.urgent?, List.find?_eq_none] at hasked ⊢
  intro switch hswitch
  obtain ⟨g, hg, rfl⟩ := List.mem_map.mp hswitch
  exact hasked _ (List.mem_map_of_mem (List.mem_of_mem_filter hg))

/-- A generation leaves what its build leaves. -/
theorem left (hg : Generates t arguments w debug s c r) :
    ((run arguments).run t).2.1.host =
      ((Build.run c w.others true s.verify).run t.host).2.1 := by
  have hbuilt := hg.built
  rw [← s.told_verify debug] at hbuilt ⊢
  rw [run_called hg.calls rfl hg.asked hg.settings, if_neg hg.others_ne_nil]
  exact (leaves_generate hg.configured hbuilt).run.2

theorem wellFormed (hhome : t.host.homePath.Proper) (hg : Generates t arguments w debug s c r) :
    c.WellFormed :=
  configured_wellFormed hhome ((Command.Settings.ofWords_proper hg.settings).told debug)
    hg.configured

end Generates

/-- Where the files of a build stand, a cleaning that finds their paths removes them. -/
theorem cleans_built {c' : Config} {inputs failures failures' : List String}
    {b b' : Buffers Rule.Line} {directory : Location} {v : Host} (hdir : c.outputDir.Proper)
    (hb : Built c inputs true h r next.host failures b directory v)
    (hconfig : configured next.host s = .ok c')
    (hread : (readInputs c' inputs next.host).1 = .ok failures')
    (hfresh : (filled c' next.host inputs).fresh.1 = .ok b')
    (hpaths : artifactPaths c' next.host inputs = artifactPaths c h inputs)
    (hshort : ∀ name, below c.outputDir name ∈ artifactPaths c h inputs →
      ¬ TooLong c.outputDir name)
    (hfree : ∀ path ∈ artifactPaths c h inputs, (Path.ofString path).text ∉ h.locked) :
    ((clean inputs s).run next).1 = .ok 0 ∧ ∀ path ∈ b.nonEmpty,
      ((clean inputs s).run next).2.1.host.exists? (Path.ofString path) = .ok false := by
  obtain ⟨removed, hremove, hgone⟩ :=
    clean_standing hdir hb.inside hb.known hshort hfree hb.standing
  rw [← hpaths] at hremove hgone
  have hcleaned : Leaves (clean inputs s) next 0
      ((Host.removeFiles (artifactPaths c' next.host inputs)).run next.host).2.1 :=
    leaves_clean hconfig hread fun t' ht => leaves_sweep ht rfl hfresh hremove
  obtain ⟨hstatus, hleft⟩ := hcleaned.run
  rw [hleft]
  exact ⟨hstatus, hgone⟩

/-- A cleaning that comes after a generation. It is told all that it knows of the same options, and
nothing that it reads depends on the artifacts. -/
structure CleansAfter (t : Terminal) (arguments : List String) (w : Command.Words)
    (s : Command.Settings) (c : Config) (next : Terminal) (arguments' : List String) : Prop where
  after : next.host = ((run arguments).run t).2.1.host
  calls : ∃ debug, Command.Calls arguments' .clean (w.only Command.clean.switches) debug
  links : (t.host.made c.outputDir).UnlinkedAt c.outputDir (artifactPaths c t.host w.others)
  options : t.host.Ignores c.outputDir (artifactPaths c t.host w.others)
    fun h => Command.Settings.ofWords h (w.only Command.clean.switches)
  file : t.host.Ignores c.outputDir (artifactPaths c t.host w.others) (loaded · s.config)
  inputs : ∀ p, t.host.Ignores c.outputDir (artifactPaths c t.host w.others)
    (readInputs (c.retold p c.debug) w.others)

namespace CleansAfter

variable {arguments' : List String} {failures : List String} {b : Buffers Rule.Line}
  {directory : Location} {v : Host} {p : ConflictPolicy} {d : Value}

/-- What the build leaves is the machine that is cleaned. -/
theorem built (hafter : CleansAfter t arguments w s c next arguments')
    (hg : Generates t arguments w debug s c r) (hc : c.WellFormed) :
    ∃ failures b directory v,
      Built c w.others true t.host r next.host failures b directory v := by
  obtain ⟨failures, b, directory, v, hb⟩ := built_of_run hc hafter.links hg.built hg.unrefused
  rw [← hg.left, ← hafter.after] at hb
  exact ⟨failures, b, directory, v, hb⟩

/-- The arguments make it clean the same inputs, under the settings that it knows. -/
theorem run_eq (hafter : CleansAfter t arguments w s c next arguments')
    (hg : Generates t arguments w debug s c r)
    (hb : Built c w.others true t.host r next.host failures b directory v) :
    (run arguments').run next = (clean w.others s.forClean).run next := by
  obtain ⟨_, hcalls⟩ := hafter.calls
  have hsame := (hafter.options _ _ hb.standing.beside).trans
    (Command.Settings.ofWords_only hg.settings)
  exact (run_called hcalls rfl (hg.asked_only _) hsame).trans (if_neg hg.others_ne_nil)

/-- It makes the configuration that it would have made before the generation. -/
theorem configured_eq (hafter : CleansAfter t arguments w s c next arguments')
    (hb : Built c w.others true t.host r next.host failures b directory v) :
    configured next.host s.forClean = configured t.host s.forClean := by
  rw [configured, configured, show loaded next.host s.forClean.config =
    loaded t.host s.forClean.config from hafter.file _ _ hb.standing.beside]

/-- It reads what it would have read before the generation. -/
theorem reads (hafter : CleansAfter t arguments w s c next arguments')
    (hb : Built c w.others true t.host r next.host failures b directory v)
    (p : ConflictPolicy) (d : Value) :
    (∃ failures, (readInputs (c.retold p d) w.others next.host).1 = .ok failures) ∧
      filled (c.retold p d) next.host w.others = filled (c.retold p d) t.host w.others := by
  have hbeside := hb.standing.beside
  have hsame : readInputs (c.retold p d) w.others next.host =
      readInputs (c.retold p d) w.others t.host := hafter.inputs p _ _ hbeside
  exact ⟨hsame ▸ (readInputs_alike hb.read).1, filled_congr hbeside.home hsame⟩

/-- It ends well only if the rules can be generated as it is told. -/
theorem fresh (hafter : CleansAfter t arguments w s c next arguments')
    (hg : Generates t arguments w debug s c r)
    (hb : Built c w.others true t.host r next.host failures b directory v)
    (hconfig : configured t.host s.forClean = .ok (c.retold p d))
    (hstatus : ((run arguments').run next).1 = .ok 0) :
    ∃ b, (filled (c.retold p d) t.host w.others).fresh.1 = .ok b := by
  obtain ⟨⟨_, hread⟩, hfilled⟩ := hafter.reads hb p d
  rw [hafter.run_eq hg hb] at hstatus
  exact hfilled ▸ fresh_of_clean ((hafter.configured_eq hb).trans hconfig) hread hstatus

/-- If they can, it removes the files. -/
theorem removes {b' : Buffers Rule.Line} (hafter : CleansAfter t arguments w s c next arguments')
    (hg : Generates t arguments w debug s c r)
    (hb : Built c w.others true t.host r next.host failures b directory v)
    (hconfig : configured t.host s.forClean = .ok (c.retold p d))
    (hfresh : (filled (c.retold p d) t.host w.others).fresh.1 = .ok b')
    (hdir : c.outputDir.Proper)
    (hshort : ∀ name, below c.outputDir name ∈ artifactPaths c t.host w.others →
      ¬ TooLong c.outputDir name)
    (hfree : ∀ path ∈ artifactPaths c t.host w.others,
      (Path.ofString path).text ∉ t.host.locked) :
    ((run arguments').run next).1 = .ok 0 ∧ ∀ path ∈ r.written,
      ((run arguments').run next).2.1.host.exists? (Path.ofString path) = .ok false := by
  obtain ⟨⟨_, hread⟩, hfilled⟩ := hafter.reads hb p d
  have hpaths := artifactPaths_retold hb.read hb.fresh hfresh
  rw [artifactPaths, ← hfilled] at hpaths
  rw [hafter.run_eq hg hb, hb.written_eq]
  exact cleans_built hdir hb ((hafter.configured_eq hb).trans hconfig) hread (hfilled ▸ hfresh)
    hpaths hshort hfree

end CleansAfter

/-! ### Commands for one file -/

/-- Without more being asked, a generation goes well if its build does. -/
theorem generates_of_built (hcalls : Command.Calls arguments .generate w debug)
    (hasked : w.urgent? = none) (hsettings : Command.Settings.ofWords t.host w = .ok s)
    (hconfig : configured t.host (s.told debug) = .ok c) (hsome : w.others ≠ [])
    (hverify : s.verify = false) (hstrict : (s.told debug).strict = false)
    (hr : ((Build.run c w.others true false).run t.host).1 = .ok r)
    (hunrefused : r.writeErrors = []) : Generates t arguments w debug s c r := by
  have hzero : statusOf (s.told debug) r = 0 := by
    rw [statusOf, not_verified hr, hstrict]
    rfl
  rw [← hverify] at hr
  refine ⟨hcalls, hasked, hsettings, hconfig, hr, hunrefused, ?_⟩
  rw [← s.told_verify debug] at hr
  rw [run_called hcalls rfl hasked hsettings, if_neg hsome]
  exact hzero ▸ (leaves_generate hconfig hr).run.1

/-- Without a configuration file, the settings are all there is. -/
theorem configured_missing (hfile : s.config = none)
    (hnone : h.isFile (h.homePath.child Config.fileName) = .ok false) :
    configured h s = Config.withOverrides
      { root := h.homePath, groupScore := Config.defaultGroupScore } s.fields := by
  rw [configured, hfile, loaded_missing hnone, Config.ofFields_nothing]
  rfl

def plainWords (inputs : List String) : Command.Words :=
  { given := [(.id, .value "K"), (.outfile, .flag true)], others := inputs }

def plainSettings : Command.Settings :=
  { fields := Assoc.ofList [("id", .text "K"), ("single_outfile", .bool true)] }

theorem plain_settings (h : Host) (inputs : List String) :
    Command.Settings.ofWords h (plainWords inputs) = .ok plainSettings := rfl

theorem plain_forClean : plainSettings.forClean = plainSettings := rfl

theorem plain_configured (hhome : h.homePath = ⟨.root, []⟩)
    (hnone : h.isFile (h.homePath.child Config.fileName) = .ok false) :
    configured h plainSettings = .ok plainConfig := by
  rw [configured_missing rfl hnone, hhome]
  exact Config.ofFields_eq_ok_iff.mpr {
    known := fun _ => Config.known_of_keys (by decide +kernel)
    id := by with_unfolding_all rfl
    priority := rfl
    policy := rfl
    dir := rfl
    root := rfl
    groupScore := Config.checkScore_real _
    debug := rfl
    singleOutfile := rfl
    joinScores := rfl }

def wordTerminal : Terminal := { host := wordHost }

theorem word_generates : ∃ r, Generates wordTerminal
    ["generate", "--id", "K", "--single-outfile", "/A"] (plainWords ["/A"]) false plainSettings
    plainConfig r := by
  obtain ⟨r, hr, hunrefused⟩ := word_unrefused
  exact ⟨r, generates_of_built ⟨_, _, rfl, rfl, rfl, rfl, rfl⟩ rfl (plain_settings _ _)
    (plain_configured rfl rfl) (List.cons_ne_nil _ _) rfl rfl hr hunrefused⟩

/-! ### A cleaning undoes a generation -/

/-- **A cleaning undoes a generation.** The generation ends well and nothing refuses what it writes.
A cleaning of the same inputs, with the options that it knows of the same, makes the same
configuration, but for the policy and for diagnostics, of which it is not told. It ends well exactly
if the rules can be generated under its policy, so always if the generation was not told of another
one, and then no path that was written is there any more. None of the artifacts may be locked, nor
have a name that is refused if the output directory is new. -/
theorem clean_undoes_generate {arguments' : List String} (hhome : t.host.homePath.Proper)
    (hg : Generates t arguments w debug s c r)
    (hafter : CleansAfter t arguments w s c next arguments')
    (hshort : (∀ directory, ¬ t.host.tree.LeadsTo t.host.home c.outputDir directory) →
      ∀ name, below c.outputDir name ∈ artifactPaths c t.host w.others →
        ¬ TooLong c.outputDir name)
    (hfree : ∀ path ∈ artifactPaths c t.host w.others,
      (Path.ofString path).text ∉ t.host.locked) :
    ∃ p d, configured t.host s.forClean = .ok (c.retold p d) ∧
      let cleaned := (run arguments').run next
      (cleaned.1 = .ok 0 ↔ ∃ b, (filled (c.retold p d) t.host w.others).fresh.1 = .ok b) ∧
      (p = c.policy → cleaned.1 = .ok 0) ∧
      (cleaned.1 = .ok 0 → ∀ path ∈ r.written,
        cleaned.2.1.host.exists? (Path.ofString path) = .ok false) := by
  have hc := hg.wellFormed hhome
  obtain ⟨failures, b, directory, v, hb⟩ := hafter.built hg hc
  obtain ⟨p, d, hconfig⟩ := configured_forClean hg.configured
  rw [s.forClean_told] at hconfig
  have hremoves {b' : Buffers Rule.Line}
      (hfresh : (filled (c.retold p d) t.host w.others).fresh.1 = .ok b') :=
    hafter.removes hg hb hconfig hfresh hc.outputDir (hb.short hshort) hfree
  refine ⟨p, d, hconfig, ⟨hafter.fresh hg hb hconfig, fun ⟨_, hfresh⟩ => (hremoves hfresh).1⟩, ?_,
    fun hstatus => ?_⟩
  · rintro rfl
    exact (hremoves ((fresh_said c t.host w.others d).trans hb.fresh)).1
  · obtain ⟨_, hfresh⟩ := hafter.fresh hg hb hconfig hstatus
    exact (hremoves hfresh).2

theorem clean_undoes_generate_word :
    ∃ r next, Generates wordTerminal ["generate", "--id", "K", "--single-outfile", "/A"]
        (plainWords ["/A"]) false plainSettings plainConfig r ∧
      CleansAfter wordTerminal ["generate", "--id", "K", "--single-outfile", "/A"]
        (plainWords ["/A"]) plainSettings plainConfig next
        ["clean", "--id", "K", "--single-outfile", "/A"] ∧
      ((run ["clean", "--id", "K", "--single-outfile", "/A"]).run next).1 = .ok 0 ∧
      ∀ path ∈ r.written, ((run ["clean", "--id", "K", "--single-outfile", "/A"]).run
        next).2.1.host.exists? (Path.ofString path) = .ok false := by
  obtain ⟨r, hg⟩ := word_generates
  have hleads : (wordHost.made plainConfig.outputDir).tree.LeadsTo
      (wordHost.made plainConfig.outputDir).home plainConfig.outputDir ["K"] := rfl
  have hafter : CleansAfter wordTerminal ["generate", "--id", "K", "--single-outfile", "/A"]
      (plainWords ["/A"]) plainSettings plainConfig
      ((run ["generate", "--id", "K", "--single-outfile", "/A"]).run wordTerminal).2.1
      ["clean", "--id", "K", "--single-outfile", "/A"] := {
    after := rfl
    calls := ⟨false, _, _, rfl, rfl, rfl, rfl, rfl⟩
    links := word_links
    options := fun _ u _ => (plain_settings u ["/A"]).trans (plain_settings wordHost ["/A"]).symm
    file := loaded_ignores rfl rfl fun _ file hother _ => ne_below hleads hother file
    inputs := fun _ => word_ignores _ }
  have hshort (name : String) (hp : below plainConfig.outputDir name ∈
      artifactPaths plainConfig wordHost ["/A"]) : ¬ TooLong plainConfig.outputDir name := by
    obtain rfl : name = "50_K.cf" := below_inj (word_paths.mp hp)
    decide +kernel
  obtain ⟨p, d, hconfig, -, hclean, hgone⟩ := clean_undoes_generate (t := wordTerminal)
    Session.sampleConfig_wellFormed.root hg hafter (fun _ => hshort) (fun _ _ hm => nomatch hm)
  have hsame : plainConfig = plainConfig.retold p d := by
    rw [plain_forClean] at hconfig
    exact Except.ok.inj ((plain_configured (h := wordHost) rfl rfl).symm.trans hconfig)
  have hstatus := hclean (congrArg Config.policy hsame).symm
  exact ⟨r, _, hg, hafter, hstatus, hgone hstatus⟩

/-! ### A policy that a cleaning is not told -/

/-- Two files claim a word for all of them. The second has a word of its own whose rule would have
the same name in that file. -/
def claimHost : Host where
  tree := ⟨Assoc.ofList [(["A"], .file "a_b GLOBAL\n".toUTF8),
    (["B"], .file "a-b 2\na_b GLOBAL\n".toUTF8)]⟩

def claimTerminal : Terminal := { host := claimHost }

/-- The second claim is an error, so the word stays with the first file. -/
def strictConfig : Config :=
  { plainConfig with policy := .error, groupScore := Config.defaultGroupScore }

def strictWords : Command.Words where
  given := [(.id, .value "K"), (.outfile, .flag true), (.globalConflict, .value "error")]
  others := ["/A", "/B"]

def strictSettings : Command.Settings where
  fields := Assoc.ofList
    [("id", .text "K"), ("single_outfile", .bool true), ("global_conflict", .policy .error)]

theorem strict_settings (h : Host) :
    Command.Settings.ofWords h strictWords = .ok strictSettings := rfl

theorem strict_forClean : strictSettings.forClean = plainSettings := rfl

theorem strict_configured : configured claimHost strictSettings = .ok strictConfig := by
  rw [configured_missing rfl rfl]
  exact Config.ofFields_eq_ok_iff.mpr {
    known := fun _ => Config.known_of_keys (by decide +kernel)
    id := by with_unfolding_all rfl
    priority := rfl
    policy := rfl
    dir := rfl
    root := rfl
    groupScore := Config.checkScore_real _
    debug := rfl
    singleOutfile := rfl
    joinScores := rfl }

theorem claim_links : (claimHost.made strictConfig.outputDir).UnlinkedAt strictConfig.outputDir
    (artifactPaths strictConfig claimHost ["/A", "/B"]) :=
  fun _ _ _ _ _ => Tree.no_link_of_values (by decide +kernel) _ _

/-- The first file keeps the word, so the rules can be generated. -/
theorem claim_generates : ∃ r, Generates claimTerminal
    ["generate", "--id", "K", "--single-outfile", "--global-conflict", "error", "/A", "/B"]
    strictWords false strictSettings strictConfig r := by
  have hc : strictConfig.WellFormed := { plain_wellFormed with }
  have hunlinked : claimHost.Unlinked strictConfig.outputDir := fun _ _ _ _ =>
    Tree.no_link_of_values (by decide +kernel) _ _
  have hkeys : (readingOf strictConfig claimHost ["/A", "/B"]).2.state.files.keys = ["A", "B"] := by
    decide +kernel
  have hsources : Text.sorted
      (readingOf strictConfig claimHost ["/A", "/B"]).2.state.files.keys = ["A", "B"] := by
    rw [hkeys]
    exact List.mergeSort_of_pairwise (by decide +kernel)
  have hemit : (exec (Generation.emitAll (readingOf strictConfig claimHost ["/A", "/B"]).2.state)
      ⟨{ layout := (choiceOf strictConfig ["A", "B"]).2.1 },
        (choiceOf strictConfig ["A", "B"]).2.2⟩).1.isOk = true := by
    rw [Generation.emitAll, hsources]
    decide +kernel
  obtain ⟨-, r, hr⟩ := single_answers rfl rfl hc hunlinked (by decide +kernel) (by decide +kernel)
    (by decide +kernel) hsources (by decide +kernel) (by decide +kernel) hemit (by decide +kernel)
  have hunrefused := single_unrefused rfl rfl hc claim_links rfl rfl rfl hr
  exact ⟨r, generates_of_built ⟨_, _, rfl, rfl, rfl, rfl, rfl⟩ rfl (strict_settings _)
    strict_configured (List.cons_ne_nil _ _) rfl rfl hr hunrefused⟩

/-- Without the policy, the word goes to the second file, where it has the name of the other. -/
theorem claim_clashes {b : Buffers Rule.Line} :
    (filled plainConfig claimHost ["/A", "/B"]).fresh.1 ≠ .ok b := by
  intro hfresh
  have hg := generated_filled hfresh
  have hread : (readingOf plainConfig claimHost ["/A", "/B"]).1 = .ok [] :=
    Outcome.toOption_eq_some_iff.mp (by decide +kernel)
  rw [(filled_of_reading (by decide +kernel) (by decide +kernel) hread).2] at hg
  have hsource : "B" ∈ (readingOf plainConfig claimHost ["/A", "/B"]).2.state.files.keys := by
    decide +kernel
  have hclaimed : "a_b" ∈
      (readingOf plainConfig claimHost ["/A", "/B"]).2.state.componentWords "B" :=
    Store.mem_componentWords.mpr (.inr (by decide +kernel))
  have hown : "a-b" ∈ (readingOf plainConfig claimHost ["/A", "/B"]).2.state.componentWords "B" :=
    Text.mem_sortedUnique.mpr (List.mem_append_left _ (by decide +kernel))
  exact absurd (hg.apart hsource hsource hclaimed hown (by decide +kernel)).2 (by decide)

/-- A generation may be told a policy, a cleaning not: after a generation that has gone well, it
refuses. -/
theorem clean_forgets_policy :
    ∃ r next, Generates claimTerminal
        ["generate", "--id", "K", "--single-outfile", "--global-conflict", "error", "/A", "/B"]
        strictWords false strictSettings strictConfig r ∧
      CleansAfter claimTerminal
        ["generate", "--id", "K", "--single-outfile", "--global-conflict", "error", "/A", "/B"]
        strictWords strictSettings strictConfig next
        ["clean", "--id", "K", "--single-outfile", "/A", "/B"] ∧
      ((run ["clean", "--id", "K", "--single-outfile", "/A", "/B"]).run next).1 ≠ .ok 0 := by
  obtain ⟨r, hg⟩ := claim_generates
  have hhome : Tree.normalize claimHost.home = claimHost.home := rfl
  have hleads : (claimHost.made strictConfig.outputDir).tree.LeadsTo
      (claimHost.made strictConfig.outputDir).home strictConfig.outputDir ["K"] := rfl
  have hfiles : ∀ input ∈ ["/A", "/B"], claimHost.FileBeside strictConfig.outputDir
      (artifactPaths strictConfig claimHost ["/A", "/B"]) (Path.ofString input) := by
    intro input hinput
    obtain rfl | rfl : input = "/A" ∨ input = "/B" := by simpa using hinput
    · exact ⟨["A"], _, ⟨rfl, rfl⟩, fun _ file hother _ => ne_below hleads hother file⟩
    · exact ⟨["B"], _, ⟨rfl, rfl⟩, fun _ file hother _ => ne_below hleads hother file⟩
  have hknown (h : Host) := Command.Settings.ofWords_only (strict_settings h)
  have hafter : CleansAfter claimTerminal
      ["generate", "--id", "K", "--single-outfile", "--global-conflict", "error", "/A", "/B"]
      strictWords strictSettings strictConfig
      ((run ["generate", "--id", "K", "--single-outfile", "--global-conflict", "error", "/A",
        "/B"]).run claimTerminal).2.1
      ["clean", "--id", "K", "--single-outfile", "/A", "/B"] := {
    after := rfl
    calls := ⟨false, _, _, rfl, rfl, rfl, rfl, rfl⟩
    links := claim_links
    options := fun _ u _ => (hknown u).trans (hknown claimHost).symm
    file := loaded_ignores rfl rfl fun _ file hother _ => ne_below hleads hother file
    inputs := fun _ => readInputs_ignores _ hhome hfiles }
  refine ⟨r, _, hg, hafter, fun hstatus => ?_⟩
  obtain ⟨_, _, _, _, hb⟩ := hafter.built hg
    (hg.wellFormed (t := claimTerminal) Session.sampleConfig_wellFormed.root)
  have hplain : strictConfig.retold .last strictConfig.debug = plainConfig := by
    simp only [Config.retold, strictConfig, plainConfig, Generation.sampleConfig]
  have hconfig : configured claimHost strictSettings.forClean =
      .ok (strictConfig.retold .last strictConfig.debug) := by
    rw [strict_forClean, hplain]
    exact plain_configured rfl rfl
  obtain ⟨_, hfresh⟩ := hafter.fresh hg hb hconfig hstatus
  rw [hplain] at hfresh
  exact claim_clashes hfresh

end Terminal

end MailRules
