import MailRules.Buffers
import MailRules.Proofs.Assoc
import MailRules.Proofs.Text.Order

/-! Buffers as the record of what was written.

`Holds` says that buffers hold a list of entries, each at its path and in the order of the entries.
Loading goes path by path, so it reads the lines in another order than they were written;
`Holds.perm` says that none is lost or doubled, and `Holds.loaded_before` which of the lines
written earlier are loaded earlier: those whose paths are not greater. -/
namespace MailRules.Buffers

variable {α : Type}

/-- The lines at a path; none at a path that is not known. -/
def linesAt (b : Buffers α) (path : String) : List α := (b.get? path).getD []

/-- All lines, in the order in which the paths are loaded. -/
def inLoadOrder (b : Buffers α) : List α := b.nonEmpty.flatMap b.linesAt

theorem linesAt_append (b : Buffers α) (path : String) (more : List α) (q : String) :
    (b.append path more).linesAt q = b.linesAt q ++ if q = path then more else [] := by
  rw [linesAt, get?, append, Assoc.get?_update]
  by_cases h : q = path
  · rw [if_pos h, if_pos h, h]
    rfl
  · rw [if_neg h, if_neg h, List.append_nil]
    rfl

theorem mem_nonEmpty {b : Buffers α} {path : String} :
    path ∈ b.nonEmpty ↔ b.linesAt path ≠ [] := by
  rw [nonEmpty, List.mem_filter, Bool.not_eq_true', List.isEmpty_eq_false_iff, paths,
    Text.mem_sorted]
  refine ⟨And.right, fun h => ⟨?_, h⟩⟩
  refine Assoc.mem_keys_iff.mpr (Option.isSome_iff_exists.mp ?_)
  by_contra hnone
  rw [Option.not_isSome_iff_eq_none] at hnone
  exact h (by rw [linesAt, get?, hnone, Option.getD_none])

theorem mem_inLoadOrder {b : Buffers α} {path : String} {a : α} (h : a ∈ b.linesAt path) :
    a ∈ b.inLoadOrder :=
  List.mem_flatMap.mpr ⟨path, mem_nonEmpty.mpr (List.ne_nil_of_mem h), h⟩

/-- The paths are loaded in strict order. -/
theorem nonEmpty_strict (b : Buffers α) : b.nonEmpty.Pairwise (· < ·) :=
  (Text.sorted_strict b.lines.nodup).filter _

/-! ### Entries -/

/-- The lines of the entries with the given path. -/
def linesOf (path : String) (es : List (String × α)) : List α :=
  (es.filter (·.1 = path)).map Prod.snd

theorem linesOf_append (path : String) (es fs : List (String × α)) :
    linesOf path (es ++ fs) = linesOf path es ++ linesOf path fs := by
  rw [linesOf, List.filter_append, List.map_append]
  rfl

theorem mem_linesOf {path : String} {es : List (String × α)} {a : α} :
    a ∈ linesOf path es ↔ (path, a) ∈ es := by
  simp [linesOf, List.mem_map, List.mem_filter]

/-- The buffers hold the entries and nothing else. -/
def Holds (b : Buffers α) (es : List (String × α)) : Prop :=
  ∀ path, b.linesAt path = linesOf path es

theorem holds_empty : Holds ({} : Buffers α) [] := fun _ => rfl

theorem linesOf_at (path : String) (more : List α) (q : String) :
    linesOf q (more.map (path, ·)) = if q = path then more else [] := by
  induction more with
  | nil => simp [linesOf]
  | cons a rest ih =>
    have hcons : linesOf q ((a :: rest).map (path, ·)) =
        linesOf q [(path, a)] ++ linesOf q (rest.map (path, ·)) := linesOf_append q [(path, a)] _
    rw [hcons, ih]
    by_cases h : q = path
    · simp [linesOf, h]
    · simp [linesOf, h, Ne.symm h]

theorem Holds.append {b : Buffers α} {es : List (String × α)} (h : b.Holds es) (path : String)
    (more : List α) : (b.append path more).Holds (es ++ more.map (path, ·)) := by
  intro q
  rw [linesAt_append, h q, linesOf_append, linesOf_at]

/-- Making a path known writes nothing. -/
theorem Holds.open {b : Buffers α} {es : List (String × α)} (h : b.Holds es) (path : String) :
    (b.append path []).Holds es := by
  simpa using h.append path []

/-- Path after path, every entry is there once. -/
theorem linesOf_perm {paths : List String} (hnodup : paths.Nodup) {es : List (String × α)}
    (hall : ∀ e ∈ es, e.1 ∈ paths) :
    (paths.flatMap fun path => linesOf path es).Perm (es.map Prod.snd) := by
  induction paths generalizing es with
  | nil =>
    have hnil : es = [] := List.eq_nil_iff_forall_not_mem.mpr fun e he => nomatch hall e he
    rw [hnil]
    exact .refl _
  | cons p rest ih =>
    rw [List.nodup_cons] at hnodup
    let others := es.filter fun e => ¬ e.1 = p
    have hothers : ∀ e ∈ others, e.1 ∈ rest := by
      intro e he
      obtain ⟨hes, hne⟩ := List.mem_filter.mp he
      exact (List.mem_cons.mp (hall e hes)).resolve_left (of_decide_eq_true hne)
    have hrest : (rest.flatMap fun path => linesOf path es) =
        rest.flatMap fun path => linesOf path others := by
      refine List.flatMap_congr fun path hpath => ?_
      have hne : path ≠ p := fun he => hnodup.1 (he ▸ hpath)
      simp only [linesOf, others, List.filter_filter]
      congr 2
      funext e
      by_cases he : e.1 = path <;> simp [he, hne]
    rw [List.flatMap_cons, hrest]
    refine ((ih hnodup.2 hothers).append_left _).trans ?_
    show ((es.filter fun e => decide (e.1 = p)).map Prod.snd ++ others.map Prod.snd).Perm _
    rw [← List.map_append]
    refine List.Perm.map Prod.snd ?_
    simpa [others] using List.filter_append_perm (fun e : String × α => decide (e.1 = p)) es

/-- Loading reads every entry once. -/
theorem Holds.perm {b : Buffers α} {es : List (String × α)} (h : b.Holds es) :
    b.inLoadOrder.Perm (es.map Prod.snd) := by
  have hlines : b.inLoadOrder = b.nonEmpty.flatMap fun path => linesOf path es :=
    List.flatMap_congr fun path _ => h path
  rw [hlines]
  refine linesOf_perm ?_ fun e he => ?_
  · exact (nonEmpty_strict b).imp String.ne_of_lt
  · rw [mem_nonEmpty, h e.1]
    exact List.ne_nil_of_mem (mem_linesOf.mpr he)

/-! ### The order of loading -/

/-- A place in a sequence of parts lies in one of them. -/
theorem flatMap_eq_append_cons {β : Type} {l : List β} {f : β → List α} {before after : List α}
    {a : α} (h : l.flatMap f = before ++ a :: after) :
    ∃ l₁ x l₂ front back, l = l₁ ++ x :: l₂ ∧ f x = front ++ a :: back ∧
      before = l₁.flatMap f ++ front := by
  induction l generalizing before with
  | nil => simp at h
  | cons y rest ih =>
    rw [List.flatMap_cons, List.append_eq_append_iff] at h
    rcases h with ⟨mid, rfl, hrest⟩ | ⟨mid, hy, hmid⟩
    · obtain ⟨l₁, x, l₂, front, back, rfl, hx, rfl⟩ := ih hrest
      exact ⟨y :: l₁, x, l₂, front, back, rfl, hx, by simp⟩
    · cases mid with
      | nil =>
        have hrest : rest.flatMap f = [] ++ a :: after := hmid.symm
        obtain ⟨l₁, x, l₂, front, back, rfl, hx, hfront⟩ := ih hrest
        refine ⟨y :: l₁, x, l₂, front, back, rfl, hx, ?_⟩
        rw [List.flatMap_cons, List.append_assoc, ← hfront, hy]
        simp
      | cons c mid =>
        obtain ⟨rfl, -⟩ := List.cons.inj hmid
        exact ⟨[], y, rest, before, mid, rfl, hy, rfl⟩

/-- A place among the lines of a path is a place among the entries. -/
theorem linesOf_eq_append_cons {path : String} {es : List (String × α)} {front back : List α}
    {a : α} (h : linesOf path es = front ++ a :: back) :
    ∃ es₁ es₂, es = es₁ ++ (path, a) :: es₂ ∧ front = linesOf path es₁ := by
  induction es generalizing front with
  | nil => simp [linesOf] at h
  | cons e rest ih =>
    by_cases he : e.1 = path
    · have hcons : linesOf path (e :: rest) = e.2 :: linesOf path rest := by simp [linesOf, he]
      rw [hcons] at h
      cases front with
      | nil =>
        obtain ⟨rfl, -⟩ := List.cons.inj h
        exact ⟨[], rest, by rw [← he]; rfl, rfl⟩
      | cons c front =>
        obtain ⟨rfl, hrest⟩ := List.cons.inj h
        obtain ⟨es₁, es₂, rfl, rfl⟩ := ih hrest
        exact ⟨e :: es₁, es₂, rfl, by simp [linesOf, he]⟩
    · have hskip : linesOf path (e :: rest) = linesOf path rest := by simp [linesOf, he]
      rw [hskip] at h
      obtain ⟨es₁, es₂, rfl, rfl⟩ := ih h
      exact ⟨e :: es₁, es₂, rfl, by simp [linesOf, he]⟩

/-- A line that was written earlier, at a path that is not greater, is loaded earlier. -/
theorem Holds.loaded_before {b : Buffers α} {es : List (String × α)} (h : b.Holds es)
    {before after : List α} {a : α} (hload : b.inLoadOrder = before ++ a :: after) :
    ∃ path es₁ es₂, es = es₁ ++ (path, a) :: es₂ ∧ ∀ e ∈ es₁, e.1 ≤ path → e.2 ∈ before := by
  obtain ⟨ps, path, qs, front, back, hpaths, hpath, rfl⟩ := flatMap_eq_append_cons hload
  rw [h path] at hpath
  obtain ⟨es₁, es₂, rfl, rfl⟩ := linesOf_eq_append_cons hpath
  refine ⟨path, es₁, es₂, rfl, fun e he hle => ?_⟩
  have hline : e.2 ∈ linesOf e.1 es₁ := mem_linesOf.mpr he
  -- At the same path the line stands further up; a smaller path is among those loaded before.
  by_cases hsame : e.1 = path
  · exact List.mem_append_right _ (hsame ▸ hline)
  · have hat : e.2 ∈ b.linesAt e.1 := by
      rw [h e.1, linesOf_append]
      exact List.mem_append_left _ hline
    have hknown : e.1 ∈ ps ++ path :: qs := by
      rw [← hpaths, mem_nonEmpty]
      exact List.ne_nil_of_mem hat
    have hstrict := nonEmpty_strict b
    rw [hpaths, List.pairwise_append] at hstrict
    rcases List.mem_append.mp hknown with hp | hq
    · exact List.mem_append_left _ (List.mem_flatMap.mpr ⟨e.1, hp, hat⟩)
    · rcases List.mem_cons.mp hq with he' | hq
      · exact absurd he' hsame
      · exact absurd ((List.pairwise_cons.mp hstrict.2.1).1 e.1 hq) hle

end MailRules.Buffers
