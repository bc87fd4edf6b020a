import MailRules.Proofs.Generation.Grounding
import MailRules.Proofs.Generation.Names
import MailRules.Proofs.Layout.Order

/-! Definition before use.

Files are loaded in the order of their paths. In the order of the plan everything that a line needs
comes earlier, at a path that is not greater, so it is loaded earlier as well
(`defined_before_use`), as long as no path is pinned. -/
namespace MailRules.Generation

open Rule Layout

theorem related_unpinned {config : Config} {m : Layout} {store : Store} {b : Buffers Line}
    (h : Generated { config } m store b) : Related (· ≤ ·) m store := by
  obtain ⟨_, hresolved⟩ := h.resolved
  have horder := resolved_inOrder hresolved
  have hglobal (hne : ¬ store.origins.isEmpty = true) :
      (!store.origins.isEmpty || config.isSingle) = true := by
    simp [hne]
  exact
    { refl := String.le_refl
      scores := fun source hs => horder.scores source (Text.mem_sorted.mpr hs)
      global := fun source hs hne => horder.global (hglobal hne) source (Text.mem_sorted.mpr hs)
      globalScores := fun hne => horder.globalScores (hglobal hne) }

/-- **Rules are defined before they are used.** Where the lines of a generation are read in the
order in which its files are loaded, every rule that a line refers to is defined before it, and
every description and score comes after the composite rule that it is about. -/
theorem defined_before_use {store : Store} (hstore : store.Reachable) (config : Config)
    {b : Buffers Line} (h : ((generate store).run { layout := { config } }).1 = .ok b)
    {before after : List Line} {line : Line} (hload : b.inLoadOrder = before ++ line :: after) :
    (∀ r ∈ line.references, r ∈ definitions before) ∧
      ∀ n, line.about? = some n → ∃ c, .composite n c ∈ before := by
  obtain ⟨m, hg⟩ := generate_eq_ok h
  have hgrounded := entries_grounded (related_unpinned hg) (Store.reachable_origin hstore)
  obtain ⟨path, es₁, es₂, hes, hearlier⟩ := hg.holds.loaded_before hload
  have hmet : Met (· ≤ ·) es₁ (path, line) := hgrounded es₁ (path, line) es₂ hes
  constructor
  · intro r hr
    obtain ⟨d, hd, hle, hname⟩ := hmet.references r hr
    exact List.mem_filterMap.mpr ⟨d.2, hearlier d hd hle, hname⟩
  · intro n hn
    obtain ⟨d, hd, hle, c, hrule⟩ := hmet.about n hn
    exact ⟨c, hrule ▸ hearlier d hd hle⟩

/-- The public rule of a word comes after its component. -/
theorem defined_before_use_sample :
    sampleStore.Reachable ∧ ∃ b before after,
      ((generate sampleStore).run { layout := { config := sampleConfig } }).1 = .ok b ∧
        b.inLoadOrder = before ++ .composite "K_A_X" (.only "__K_A_X") :: after ∧
          "__K_A_X" ∈ definitions before := by
  have hstore : sampleStore.Reachable := ⟨_, _, _, rfl⟩
  obtain ⟨b, hb⟩ := sample_generates
  obtain ⟨m, hg⟩ := generate_eq_ok hb
  have hplan : ∃ e ∈ plan sampleConfig sampleStore,
      e.line = .composite "K_A_X" (.only "__K_A_X") := by
    decide +kernel
  obtain ⟨before, after, hload⟩ := List.append_of_mem (hg.mem_iff.mpr hplan)
  have hbefore := (defined_before_use hstore sampleConfig hb hload).1 "__K_A_X" List.mem_cons_self
  exact ⟨hstore, b, before, after, hb, hload, hbefore⟩

end MailRules.Generation
