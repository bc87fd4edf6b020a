import MailRules.Proofs.Store.History

/-! Stores filled from the same files in different orders.

What a store holds of a file depends on the declarations of that file alone (`filled_files`), and
who holds a global word on the declarations that claim it (`filled_origins`). If no word is global
in two files, taking the files in another order, or in turns, gives the same content
(`filled_sameContent`), though the two stores keep it in different orders. -/
namespace MailRules.Store

/-- A store that takes in declarations, each with its file, one after the other. -/
def takeAll (s : Store) (xs : List (String × Declaration)) : Store :=
  s.run (xs.map fun e => .add e.1 e.2)

/-- The store that the declarations make. -/
def filled (root : Path) (policy : ConflictPolicy) (xs : List (String × Declaration)) : Store :=
  ({ root, policy } : Store).takeAll xs

/-- The two sequences hold the same declarations of each file in the same order. -/
def Interleaved (xs ys : List (String × Declaration)) : Prop :=
  ∀ key, xs.filter (·.1 = key) = ys.filter (·.1 = key)

/-- No word is declared global in two files. -/
def GlobalsApart (xs : List (String × Declaration)) : Prop :=
  ∀ e ∈ xs, ∀ f ∈ xs, globalGroup ∈ e.2.groups → globalGroup ∈ f.2.groups →
    e.2.word = f.2.word → e.1 = f.1

theorem takeAll_cons (s : Store) (e : String × Declaration) (rest : List (String × Declaration)) :
    s.takeAll (e :: rest) = (s.add e.1 e.2).1.takeAll rest := rfl

/-! ### Content by look-ups -/

/-- The rule set of a file after one more of its declarations. -/
def extend (r : Option RuleSet) (e : String × Declaration) : Option RuleSet :=
  some ((r.getD {}).add e.2)

theorem takeAll_files (s : Store) (xs : List (String × Declaration)) (key : String) :
    (s.takeAll xs).files.get? key =
      (xs.filter (·.1 = key)).foldl extend (s.files.get? key) := by
  induction xs generalizing s with
  | nil => rfl
  | cons e rest ih =>
    rw [takeAll_cons, ih, add_files, Assoc.get?_update]
    by_cases h : e.1 = key
    · rw [List.filter_cons_of_pos (by simpa using h), if_pos h.symm, List.foldl_cons, h]
      rfl
    · rw [List.filter_cons_of_neg (by simpa using h), if_neg (Ne.symm h)]

/-- The declarations that claim a word for all files. -/
def claimsOf (word : String) (xs : List (String × Declaration)) : List (String × Declaration) :=
  xs.filter fun e => globalGroup ∈ e.2.groups ∧ word = e.2.word

theorem takeAll_origins (s : Store) (xs : List (String × Declaration)) (word : String) :
    (s.takeAll xs).origins.get? word =
      (claimsOf word xs).foldl (fun o e => some (award s.policy o e.1)) (s.origins.get? word) := by
  induction xs generalizing s with
  | nil => rfl
  | cons e rest ih =>
    rw [takeAll_cons, ih, add_policy, add_origins, claimsOf, claimsOf]
    by_cases h : globalGroup ∈ e.2.groups ∧ word = e.2.word
    · rw [List.filter_cons_of_pos (by simpa using h), if_pos h, List.foldl_cons]
    · rw [List.filter_cons_of_neg (by simpa using h), if_neg h]

theorem award_held (policy : ConflictPolicy) (key : String) : award policy (some key) key = key := by
  cases policy <;> rfl

/-- Claims of one file alone give the word to that file, whatever the policy. -/
theorem foldl_award {policy : ConflictPolicy} {key : String} {l : List (String × Declaration)}
    (h : ∀ e ∈ l, e.1 = key) {o : Option String} (ho : o = none ∨ o = some key) (hne : l ≠ []) :
    l.foldl (fun o e => some (award policy o e.1)) o = some key := by
  induction l generalizing o with
  | nil => exact absurd rfl hne
  | cons e rest ih =>
    have hkey := h e List.mem_cons_self
    have hfirst : award policy o e.1 = key := by
      rw [hkey]
      rcases ho with rfl | rfl
      · cases policy <;> rfl
      · exact award_held policy key
    rw [List.foldl_cons, hfirst]
    by_cases hrest : rest = []
    · rw [hrest]
      rfl
    · exact ih (fun f hf => h f (List.mem_cons_of_mem e hf)) (.inr rfl) hrest

/-! ### The same content -/

/-- The two stores hold the same, in whatever order it came. -/
structure SameContent (s t : Store) : Prop where
  files : ∀ key, s.files.get? key = t.files.get? key
  origins : ∀ word, s.origins.get? word = t.origins.get? word

theorem Interleaved.mem_iff {xs ys : List (String × Declaration)} (h : Interleaved xs ys)
    (e : String × Declaration) : e ∈ xs ↔ e ∈ ys := by
  have hfilter (l : List (String × Declaration)) : e ∈ l ↔ e ∈ l.filter (·.1 = e.1) := by
    simp [List.mem_filter]
  rw [hfilter xs, hfilter ys, h e.1]

theorem mem_claimsOf {word : String} {xs : List (String × Declaration)}
    {e : String × Declaration} :
    e ∈ claimsOf word xs ↔ e ∈ xs ∧ globalGroup ∈ e.2.groups ∧ word = e.2.word := by
  simp [claimsOf, List.mem_filter]

/-- A word that one file at most claims has the same origin in either order. -/
theorem filled_origins {root : Path} {policy : ConflictPolicy}
    {xs ys : List (String × Declaration)} (h : Interleaved xs ys) (hg : GlobalsApart xs)
    (word : String) :
    (filled root policy xs).origins.get? word = (filled root policy ys).origins.get? word := by
  rw [filled, filled, takeAll_origins, takeAll_origins]
  have hmem (e : String × Declaration) : e ∈ claimsOf word xs ↔ e ∈ claimsOf word ys := by
    rw [mem_claimsOf, mem_claimsOf, h.mem_iff]
  cases hx : claimsOf word xs with
  | nil =>
    have hy : claimsOf word ys = [] := by
      refine List.eq_nil_iff_forall_not_mem.mpr fun e he => ?_
      have := (hmem e).mpr he
      rw [hx] at this
      cases this
    rw [hy]
  | cons e rest =>
    rw [← hx, Assoc.get?_empty]
    have he : e ∈ claimsOf word xs := hx ▸ List.mem_cons_self
    have hone : ∀ f ∈ claimsOf word xs, f.1 = e.1 := by
      intro f hf
      obtain ⟨hfx, hfg, hfw⟩ := mem_claimsOf.mp hf
      obtain ⟨hex, heg, hew⟩ := mem_claimsOf.mp he
      exact hg f hfx e hex hfg heg (hfw.symm.trans hew)
    rw [foldl_award hone (.inl rfl) (List.ne_nil_of_mem he),
      foldl_award (fun f hf => hone f ((hmem f).mpr hf)) (.inl rfl)
        (List.ne_nil_of_mem ((hmem e).mp he))]

/-- **The order of the files does not show in what the store holds**, if no word is global in
two of them. -/
theorem filled_sameContent {root : Path} {policy : ConflictPolicy}
    {xs ys : List (String × Declaration)} (h : Interleaved xs ys) (hg : GlobalsApart xs) :
    SameContent (filled root policy xs) (filled root policy ys) where
  files key := by rw [filled, filled, takeAll_files, takeAll_files, h key]
  origins := filled_origins h hg

/-! ### What the same content shows -/

theorem SameContent.componentWords {s t : Store} (h : SameContent s t) (key : String) :
    s.componentWords key = t.componentWords key := by
  refine Text.sortedUnique_congr fun word => ?_
  rw [List.mem_append, List.mem_append, mem_originated, mem_originated, h.files, h.origins]

theorem SameContent.fileKeys {s t : Store} (h : SameContent s t) :
    Text.sorted s.files.keys = Text.sorted t.files.keys :=
  Text.sorted_congr (Assoc.keys_perm_of_get? h.files)

theorem SameContent.originsPerm {s t : Store} (h : SameContent s t) :
    s.origins.entries.Perm t.origins.entries :=
  Assoc.perm_of_get? h.origins

end MailRules.Store
