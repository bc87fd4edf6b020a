import MailRules.Proofs.Config
import MailRules.Proofs.Generation.Lines
import MailRules.Proofs.Generation.Names
import MailRules.Proofs.Rule.Text
import MailRules.Proofs.Store.FromText

/-! Lines of text and lines of a buffer.

Whatever texts a store is filled from, no word, comment, file name or identifier breaks a line that
is generated: each line of a buffer is one line of text (`lines_are_physical`), so a text read back
line by line has the lines of its buffer. -/
namespace MailRules.Generation

open Rule Text Layout

variable {config : Config} {store : Store} {source : String}

/-! ### Names and texts -/

theorem groupName_capital (id source : String) {group : String}
    (h : Declaration.IsCanonicalGroup group) :
    isCapitalText (groupName (familyAt id source) group) = true := by
  rw [groupName]
  split
  next => exact familyAt_capital id source
  next =>
    simp only [isCapitalText_append, familyAt_capital, group_capital h]
    decide

theorem isField_thresholdName {name : String} (h : isSolid name = true) (count : Nat) :
    Text.IsField (thresholdName name count).toList := by
  refine isField_iff.mpr ⟨by simp [thresholdName], ?_⟩
  simp only [thresholdName, isSolid_append, h, isSolid_natText]
  decide

/-- What describes a threshold stands on one line if its template does. -/
theorem isUnbroken_thresholdDescription {describe : String} (h : isUnbroken describe = true)
    (count : Nat) : isUnbroken (thresholdDescription describe count) = true := by
  rw [thresholdDescription]
  cases hfill : fill (thresholdValue count) describe with
  | error e => rfl
  | ok text =>
    refine isUnbroken_fill (fun name v hv => ?_) h hfill
    unfold thresholdValue at hv
    split at hv
    next => exact Option.some.inj hv ▸ isUnbroken_of_isSolid (isSolid_natText count)
    next =>
      split at hv
      next =>
        rw [← Option.some.inj hv]
        split <;> decide
      next => cases hv

theorem isUnbroken_thresholdText {group family : String} (hgroup : isSolid group = true)
    (hfamily : isSolid family = true) : isUnbroken (thresholdText group family) = true := by
  unfold thresholdText
  simp only [isUnbroken_append, isUnbroken_of_isSolid hgroup, isUnbroken_of_isSolid hfamily]
  decide

/-! ### The kinds of lines -/

theorem FromThresholds.sound {name describe : String} {refs : List String} {score : Score}
    {e : Emission} (h : FromThresholds name refs describe score e) (hname : isSolid name = true)
    (hrefs : ∀ r ∈ refs, isSolid r = true) (hdescribe : isUnbroken describe = true) :
    e.line.Sound := by
  cases h with
  | rule => exact ⟨isField_thresholdName hname _, isUnbroken_condition hrefs⟩
  | text => exact ⟨isField_thresholdName hname _, isUnbroken_thresholdDescription hdescribe _⟩
  | score => exact isField_thresholdName hname _
  | blank => trivial

theorem banner_sound {title : String} (htitle : isUnbroken title = true) {line : Line}
    (h : line ∈ banner title) : line.Sound := by
  simp only [banner, List.mem_cons, List.not_mem_nil, or_false] at h
  rcases h with rfl | rfl | rfl | rfl
  · trivial
  · exact htitle
  · trivial
  · trivial

theorem isUnbroken_titles {family title : String} (hfamily : isSolid family = true)
    (h : title ∈ titles family) : isUnbroken title = true := by
  have hunbroken := isUnbroken_of_isSolid hfamily
  simp only [titles, List.mem_cons, List.not_mem_nil, or_false] at h
  rcases h with rfl | rfl | rfl <;> rw [isUnbroken_append, hunbroken] <;> decide

/-- The rule set of a source in a clean store is clean. -/
theorem rulesAt_clean (h : store.Clean) (source : String) : (rulesAt store source).Clean := by
  rw [rulesAt]
  cases hrules : store.files.get? source with
  | none => exact RuleSet.clean_empty
  | some rules => exact h.files source rules hrules

theorem scoredText_unbroken {rules : RuleSet} (h : rules.Clean) {word : String}
    (hword : isSolid word = true) : isUnbroken (scoredText rules word) = true := by
  rw [scoredText]
  cases hcomment : (rules.comments.get? word).filter (· ≠ "") with
  | some text => exact h.comments word text (Option.filter_eq_some_iff.mp hcomment).1
  | none =>
    simp only [Option.getD_none, isUnbroken_append, isUnbroken_of_isSolid hword]
    decide

theorem FromSource.sound (hstore : store.Clean) {e : Emission}
    (h : FromSource config store source e) : e.line.Sound := by
  have hfamily := isSolid_of_isCapitalText (familyAt_capital config.id source)
  have hrules := rulesAt_clean hstore source
  have hword {word : String} (hw : word ∈ store.componentWords source) : isSolid word = true :=
    isSolid_iff.mpr (hstore.componentWord hw).field.solid
  have hscored {word : String} {score : Score}
      (hentry : (word, score) ∈ (rulesAt store source).scored.entries) : isSolid word = true :=
    isSolid_iff.mpr (hrules.scored word (List.mem_map.mpr ⟨_, hentry, rfl⟩)).field.solid
  have hgroup {group : String} {words : List String}
      (hentry : (group, words) ∈ (rulesAt store source).groups.entries) :
      Declaration.IsCanonicalGroup group :=
    (hrules.groups group words (Assoc.get?_eq_some_iff.mpr hentry)).1
  have hcondition {name : String} {condition : Condition}
      (hline : e.line = .composite name condition) : isUnbroken condition.text = true :=
    isUnbroken_condition fun r hr => isSolid_of_isRuleName ((h.readable hline).names r hr)
  cases h with
  | heading htitle hline => exact banner_sound (isUnbroken_titles hfamily htitle) hline
  | remark _ hcomment => exact hrules.comments _ _ hcomment
  | body hw =>
    exact ⟨isField_of_isRuleName (isRuleName_bodyName _ _ _), isUnbroken_wordPattern (hword hw)⟩
  | subject hw =>
    exact ⟨isField_of_isRuleName (isRuleName_subjectName _ _ _), isUnbroken_wordPattern (hword hw)⟩
  | component => exact ⟨isField_of_isRuleName (isRuleName_componentName _ _ _), hcondition rfl⟩
  | scored => exact ⟨isField_of_isRuleName (isRuleName_scoredName _ _ _), hcondition rfl⟩
  | scoredText hentry =>
    exact ⟨isField_of_isRuleName (isRuleName_scoredName _ _ _),
      scoredText_unbroken hrules (hscored hentry)⟩
  | scoredScore => exact isField_of_isRuleName (isRuleName_scoredName _ _ _)
  | group hentry =>
    exact isUnbroken_of_isSolid (isSolid_of_isCapitalText (group_capital (hgroup hentry)))
  | threshold hentry h =>
    have hcanonical := hgroup hentry
    refine h.sound (isSolid_of_isCapitalText (groupName_capital _ _ hcanonical)) ?_ ?_
    · intro r hr
      obtain ⟨word, -, rfl⟩ := List.mem_map.mp hr
      exact isSolid_of_isRuleName (isRuleName_componentName _ _ _)
    · exact isUnbroken_thresholdText (isSolid_of_isCapitalText (group_capital hcanonical)) hfamily
  | blank => trivial

theorem FromGlobals.sound (hid : isSolid config.id = true) {e : Emission}
    (h : FromGlobals config store e) : e.line.Sound := by
  cases h with
  | heading hline => exact banner_sound (by decide) hline
  | threshold h =>
    refine h.sound hid (fun r hr => ?_) (isUnbroken_thresholdText (by decide) hid)
    obtain ⟨e, -, rfl⟩ := List.mem_map.mp hr
    exact isSolid_of_isRuleName (isRuleName_componentName _ _ _)

/-! ### The main result -/

/-- The text of a buffer has the lines of the buffer. -/
theorem linesOf_text {b : Buffers Line} {path : String}
    (h : ∀ line ∈ b.linesAt path, IsLine line.text) :
    (linesOf (b.text Line.text path)).map (· ++ "\n") = (b.linesAt path).map Line.text := by
  have hbodies : ∃ bodies : List String, (∀ t ∈ bodies, isUnbroken t = true) ∧
      (b.linesAt path).map Line.text = bodies.map (· ++ "\n") := by
    revert h
    induction b.linesAt path with
    | nil => exact fun _ => ⟨[], List.forall_mem_nil _, rfl⟩
    | cons line rest ih =>
      intro h
      rw [List.forall_mem_cons] at h
      obtain ⟨body, htext, hbody⟩ := h.1.unbroken
      obtain ⟨bodies, hbodies, hrest⟩ := ih h.2
      refine ⟨body :: bodies, List.forall_mem_cons.mpr ⟨hbody, hbodies⟩, ?_⟩
      rw [List.map_cons, List.map_cons, htext, hrest]
  obtain ⟨bodies, hunbroken, htexts⟩ := hbodies
  have htext : b.text Line.text path = String.join ((b.linesAt path).map Line.text) := rfl
  rw [htext, htexts, linesOf_join hunbroken]

/-- **No text injects a line.** Each line of a buffer is one line of text, blank, a comment or a
directive, and the text of a file read back line by line has just these lines, wherever the rules
of the files are pinned. -/
theorem lines_are_physical {root : Path} {fields : Assoc String Value} {config : Config}
    (hconfig : Config.ofFields root fields = .ok config) {store : Store} (hstore : store.FromText)
    (pins : Assoc ArtifactKey String) {b : Buffers Line}
    (h : ((generate store).run { layout := { config, artifacts := pins } }).1 = .ok b)
    (path : String) :
    (∀ line ∈ b.linesAt path, IsLine line.text) ∧
      (linesOf (b.text Line.text path)).map (· ++ "\n") = (b.linesAt path).map Line.text := by
  obtain ⟨_, hid⟩ := Config.checkId_of_ofFields hconfig
  obtain ⟨m, hgenerated⟩ := generate_eq_ok h
  have hall : ∀ line ∈ b.linesAt path, IsLine line.text := by
    intro line hline
    obtain ⟨e, he, rfl⟩ := hgenerated.mem_linesAt hline
    rcases he with ⟨source, -, he⟩ | he
    · exact ((fromSource_of_mem he).sound hstore.clean).isLine
    · exact ((fromGlobals_of_mem he).1.sound (Config.checkId_solid hid)).isLine
  exact ⟨hall, linesOf_text hall⟩

/-! ### The small generation, from a text -/

/-- The fields of the small configuration. -/
def sampleFields : Assoc String Value :=
  Assoc.ofList [("id", .text "k"), ("group_score", .real (.finite false 1 0))]

theorem sampleConfig_valid : Config.ofFields ⟨.root, []⟩ sampleFields = .ok sampleConfig := rfl

theorem sampleStore_fromText : sampleStore.FromText := by
  have hread : Declaration.read "x 1 GLOBAL LOCAL" =
      .ok (.declared { word := "x", score := .whole 1, groups := [globalGroup, localGroup] }) := by
    decide +kernel
  exact .line (.empty _ _) hread

theorem lines_are_physical_sample :
    Config.ofFields ⟨.root, []⟩ sampleFields = .ok sampleConfig ∧ sampleStore.FromText ∧
      ∃ b, ((generate sampleStore).run { layout := { config := sampleConfig } }).1 = .ok b ∧
        ∀ path, (∀ line ∈ b.linesAt path, IsLine line.text) ∧
          (linesOf (b.text Line.text path)).map (· ++ "\n") = (b.linesAt path).map Line.text := by
  obtain ⟨b, hb⟩ := sample_generates
  exact ⟨sampleConfig_valid, sampleStore_fromText, b, hb,
    lines_are_physical sampleConfig_valid sampleStore_fromText ∅ hb⟩

end MailRules.Generation
