import MailRules.Generation.Basic
import MailRules.Proofs.Store.Interleaving

/-! Generation from the same content.

The check of the names, the choice of the paths and every emitter read a store through look-ups and
sorted lists alone, so two stores with the same content give the same generation
(`generate_congr`): the same lines at the same paths, or the same fault. -/
namespace MailRules.Generation

open Store

variable {s t : Store}

theorem checkNames_congr (h : SameContent s t) (id : String) (sources : List String) :
    checkNames id s sources = checkNames id t sources := by
  have henter (names : Names) (source : String) :
      names.enterSource id s source = names.enterSource id t source := by
    simp only [Names.enterSource, h.componentWords source, h.files source]
  have hsize : s.origins.size = t.origins.size := h.originsPerm.length_eq
  simp only [checkNames, henter, hsize]

theorem generateComponents_congr (h : SameContent s t) (source : String) :
    generateComponents s source = generateComponents t source := by
  simp only [generateComponents, h.componentWords source, h.files source]

theorem generateScored_congr (h : SameContent s t) (source : String) :
    generateScored s source = generateScored t source := by
  simp only [generateScored, h.files source]

theorem generateGroups_congr (h : SameContent s t) (source : String) :
    generateGroups s source = generateGroups t source := by
  simp only [generateGroups, h.files source]

theorem origins_isEmpty_congr (h : SameContent s t) : s.origins.isEmpty = t.origins.isEmpty :=
  h.originsPerm.isEmpty_eq

theorem globalRefs_congr (h : SameContent s t) (id : String) : globalRefs id s = globalRefs id t := by
  rw [globalRefs, globalRefs, Text.sortedByKey_congr s.origins.nodup h.originsPerm]

theorem generateGlobals_congr (h : SameContent s t) : generateGlobals s = generateGlobals t := by
  simp only [generateGlobals, globalRefs_congr h, origins_isEmpty_congr h]

/-- Stores with the same content generate the same. -/
theorem generate_congr (h : SameContent s t) : generate s = generate t := by
  simp only [generate, checkNames_congr h, h.fileKeys, origins_isEmpty_congr h,
    generateComponents_congr h, generateScored_congr h, generateGroups_congr h,
    generateGlobals_congr h]

/-- **The order in which files are taken in does not show in what is generated.** The two stores
give the same answer, be it the buffers or a fault, with the same layout, lines and notices. -/
theorem generate_interleaved {xs ys : List (String × Declaration)} (h : Interleaved xs ys)
    (hg : GlobalsApart xs) (root : Path) (policy : ConflictPolicy) (config : Config)
    (pins : Assoc ArtifactKey String) :
    (generate (filled root policy xs)).run { layout := { config, artifacts := pins } } =
      (generate (filled root policy ys)).run { layout := { config, artifacts := pins } } := by
  rw [generate_congr (filled_sameContent h hg)]

/-- Two files with a global word each, one after the other and in turns. -/
theorem generate_in_turns :
    let apple : Declaration := { word := "apple", groups := [globalGroup, "FRUIT"] }
    let pear : Declaration := { word := "pear", score := .whole 2 }
    let plum : Declaration := { word := "plum", groups := [globalGroup] }
    let after := [("a.txt", apple), ("a.txt", pear), ("b.txt", plum), ("b.txt", pear)]
    let turns := [("b.txt", plum), ("a.txt", apple), ("b.txt", pear), ("a.txt", pear)]
    let config : Config := { root := ⟨.root, []⟩, groupScore := .finite false 1 0 }
    let layout : Layout := { config, artifacts := .ofList [(⟨some "a.txt", false⟩, "/KW/a.cf")] }
    Interleaved after turns ∧ GlobalsApart after ∧
      (generate (filled ⟨.root, []⟩ .error after)).run { layout } =
        (generate (filled ⟨.root, []⟩ .error turns)).run { layout } := by
  intro apple pear plum after turns config layout
  have hturns : Interleaved after turns := by
    intro key
    by_cases ha : "a.txt" = key
    · subst ha
      decide
    · by_cases hb : "b.txt" = key
      · subst hb
        decide
      · simp [after, turns, ha, hb]
  have hapart : GlobalsApart after := by
    unfold GlobalsApart
    decide
  exact ⟨hturns, hapart, generate_interleaved hturns hapart _ _ _ _⟩

end MailRules.Generation
