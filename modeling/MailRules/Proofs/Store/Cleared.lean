import Mathlib.Data.List.Induction
import MailRules.Proofs.Store.Interleaving

/-! A file dropped from a store, and the same declarations without that file.

Dropping a file takes out its rule set and the global words that it holds (`without`). A declaration
of the file itself leaves nothing behind (`without_add_self`), and one of another file does not see
that the file is gone (`without_add_other`), as long as the file shares no global word with another.
So the two stores go side by side through all the declarations (`without_filled`), entry by entry and
in the same order. -/
namespace MailRules.Store

variable {root : Path} {policy : ConflictPolicy} {xs : List (String × Declaration)}
  {s : Store} {key file word holder : String} {d : Declaration}

/-- The store without a file and without the global words that come from it. -/
def without (s : Store) (key : String) : Store :=
  { s with
    files := s.files.erase key
    origins := s.origins.filter fun _ origin => origin ≠ key }

theorem clear?_of_mem (h : key ∈ s.files.keys) : s.clear? key = some (s.without key) :=
  if_pos (Assoc.contains_iff.mpr h)

theorem clear?_of_not_mem (h : key ∉ s.files.keys) : s.clear? key = none :=
  if_neg fun hk => h (Assoc.contains_iff.mp hk)

/-! ### The entries after a declaration -/

/-- A claim that is refused leaves the entry of the holder as it is. -/
theorem claim_origins_eq (s : Store) (word key : String) :
    (s.claim word key).1.origins =
      s.origins.insert word (award s.policy (s.origins.get? word) key) := by
  unfold claim
  split
  next hnone =>
    rw [hnone]
    cases s.policy <;> rfl
  next holder hsome =>
    rw [hsome]
    split
    next he =>
      subst he
      rw [award_held]
    next =>
      cases s.policy with
      | last => rfl
      | error => exact (Assoc.insert_of_get? hsome).symm

theorem claims_origins_eq (s : Store) (word key : String) (groups : List String) :
    (s.claims word key groups).1.origins =
      if globalGroup ∈ groups then s.origins.insert word (award s.policy (s.origins.get? word) key)
      else s.origins := by
  induction groups generalizing s with
  | nil => rfl
  | cons group rest ih =>
    unfold claims
    by_cases hg : group = globalGroup
    · rw [if_pos hg, if_pos (hg ▸ List.mem_cons_self)]
      show ((s.claim word key).1.claims word key rest).1.origins = _
      -- A later claim awards the word to whom it is awarded already.
      have hagain : (s.claim word key).1.origins.insert word (award (s.claim word key).1.policy
          ((s.claim word key).1.origins.get? word) key) = (s.claim word key).1.origins := by
        rw [claim_origins, if_pos rfl, (claim_store s word key).2.1, claim_award]
        exact Assoc.insert_of_get? ((claim_origins s word key word).trans (if_pos rfl))
      rw [ih, hagain, ite_self, claim_origins_eq]
    · rw [if_neg hg, ih]
      simp [Ne.symm hg]

theorem add_origins_eq (s : Store) (key : String) (d : Declaration) :
    (s.add key d).1.origins =
      if globalGroup ∈ d.groups then
        s.origins.insert d.word (award s.policy (s.origins.get? d.word) key)
      else s.origins :=
  claims_origins_eq _ _ _ _

theorem eq_of_parts {s t : Store} (hroot : s.root = t.root) (hpolicy : s.policy = t.policy)
    (hfiles : s.files = t.files) (horigins : s.origins = t.origins) : s = t := by
  cases s
  cases t
  simp_all

/-! ### One declaration, with the file gone -/

/-- A declaration of the file itself leaves nothing, unless its word is held elsewhere. -/
theorem without_add_self
    (h : globalGroup ∈ d.groups → ∀ holder, s.origins.get? d.word = some holder → holder = key) :
    (s.add key d).1.without key = s.without key := by
  refine eq_of_parts (add_root s key d) (add_policy s key d) ?_ ?_
  · show (s.add key d).1.files.erase key = s.files.erase key
    rw [add_files, Assoc.update, Assoc.erase, Assoc.filterKeys_insert, if_neg (by simp)]
    rfl
  · show (s.add key d).1.origins.filter (fun _ origin => origin ≠ key) =
      s.origins.filter fun _ origin => origin ≠ key
    rw [add_origins_eq]
    split
    next hglobal =>
      have haward : award s.policy (s.origins.get? d.word) key = key := by
        rcases award_cases s.policy (s.origins.get? d.word) key with hkey | hheld
        · exact hkey
        · exact h hglobal _ hheld
      rw [haward, Assoc.filter_insert _ _ _ _ fun w hw => by rw [h hglobal w hw],
        if_neg (by simp)]
    next => rfl

/-- A declaration of another file takes effect alike, unless the file gone holds its word. -/
theorem without_add_other (hne : file ≠ key)
    (h : globalGroup ∈ d.groups → s.origins.get? d.word ≠ some key) :
    (s.add file d).1.without key = ((s.without key).add file d).1 := by
  refine eq_of_parts ?_ ?_ ?_ ?_
  · exact (add_root s file d).trans (add_root (s.without key) file d).symm
  · exact (add_policy s file d).trans (add_policy (s.without key) file d).symm
  · show (s.add file d).1.files.erase key = _
    rw [add_files, add_files, Assoc.update, Assoc.erase, Assoc.filterKeys_insert,
      if_pos (by simpa using hne), ← Assoc.erase, Assoc.update]
    show _ = (s.files.erase key).insert file
      ((((s.files.erase key).get? file).getD {}).add d)
    rw [Assoc.get?_erase, if_neg hne]
  · show (s.add file d).1.origins.filter (fun _ origin => origin ≠ key) = _
    rw [add_origins_eq, add_origins_eq]
    show _ = if _ then (s.without key).origins.insert d.word
      (award s.policy ((s.origins.filter fun _ origin => origin ≠ key).get? d.word) file) else _
    split
    next hglobal =>
      have hheld : ∀ w, s.origins.get? d.word = some w → w ≠ key := by
        rintro w hw rfl
        exact h hglobal hw
      have hsame : (s.origins.filter fun _ origin => origin ≠ key).get? d.word =
          s.origins.get? d.word := by
        rw [Assoc.get?_filter]
        cases hget : s.origins.get? d.word with
        | none => rfl
        | some w => simp [hheld w hget]
      have haward : award s.policy (s.origins.get? d.word) file ≠ key := by
        rcases award_cases s.policy (s.origins.get? d.word) file with hfile | hold
        · rwa [hfile]
        · exact hheld _ hold
      rw [hsame, Assoc.filter_insert _ _ _ _ fun w hw => by simp [hheld w hw, haward],
        if_pos (by simpa using haward)]
      rfl
    next => rfl

/-! ### All declarations -/

/-- No word that the file declares global is declared global in another. -/
def Unshared (key : String) (xs : List (String × Declaration)) : Prop :=
  ∀ e ∈ xs, ∀ f ∈ xs, globalGroup ∈ e.2.groups → globalGroup ∈ f.2.groups →
    e.2.word = f.2.word → e.1 = key → f.1 = key

instance : Decidable (Unshared key xs) :=
  inferInstanceAs (Decidable (∀ e ∈ xs, ∀ f ∈ xs, globalGroup ∈ e.2.groups →
    globalGroup ∈ f.2.groups → e.2.word = f.2.word → e.1 = key → f.1 = key))

theorem filled_concat (root : Path) (policy : ConflictPolicy) (xs : List (String × Declaration))
    (e : String × Declaration) :
    filled root policy (xs ++ [e]) = ((filled root policy xs).add e.1 e.2).1 := by
  rw [filled, takeAll, List.map_append, run, List.foldl_append]
  rfl

/-- Who holds a word has claimed it. -/
theorem filled_claimant (h : (filled root policy xs).origins.get? word = some holder) :
    ∃ e ∈ xs, e.1 = holder ∧ globalGroup ∈ e.2.groups ∧ e.2.word = word := by
  induction xs using List.reverseRecOn with
  | nil => cases h
  | append_singleton rest e ih =>
    rw [filled_concat, add_origins] at h
    have hearlier (hheld : (filled root policy rest).origins.get? word = some holder) :
        ∃ f ∈ rest ++ [e], f.1 = holder ∧ globalGroup ∈ f.2.groups ∧ f.2.word = word := by
      obtain ⟨f, hf, hclaims⟩ := ih hheld
      exact ⟨f, List.mem_append_left _ hf, hclaims⟩
    split at h
    next hclaims =>
      obtain ⟨hglobal, rfl⟩ := hclaims
      rcases award_cases (filled root policy rest).policy
        ((filled root policy rest).origins.get? e.2.word) e.1 with hnew | hheld
      · exact ⟨e, List.mem_append_right _ List.mem_cons_self, hnew.symm.trans (Option.some.inj h),
          hglobal, rfl⟩
      · exact hearlier (hheld.trans h)
    next => exact hearlier h

/-- The store without the file is the store that never took it in. -/
theorem without_filled (h : Unshared key xs) :
    (filled root policy xs).without key = filled root policy (xs.filter (·.1 ≠ key)) := by
  induction xs using List.reverseRecOn with
  | nil => rfl
  | append_singleton rest e ih =>
    have hlast : e ∈ rest ++ [e] := List.mem_append_right _ List.mem_cons_self
    have hrest := ih fun f hf g hg =>
      h f (List.mem_append_left _ hf) g (List.mem_append_left _ hg)
    rw [filled_concat, List.filter_append, List.filter_singleton]
    by_cases hkey : e.1 = key
    · have hheld (hglobal : globalGroup ∈ e.2.groups) (holder : String)
          (hholder : (filled root policy rest).origins.get? e.2.word = some holder) :
          holder = key := by
        obtain ⟨f, hf, rfl, hf', hword⟩ := filled_claimant hholder
        exact h e hlast f (List.mem_append_left _ hf) hglobal hf' hword.symm hkey
      rw [hkey, without_add_self hheld, hrest]
      simp
    · have hheld (hglobal : globalGroup ∈ e.2.groups) :
          (filled root policy rest).origins.get? e.2.word ≠ some key := by
        intro hholder
        obtain ⟨f, hf, hfkey, hf', hword⟩ := filled_claimant hholder
        exact hkey (h f (List.mem_append_left _ hf) e hlast hf' hglobal hword hfkey)
      rw [without_add_other hkey hheld, hrest]
      simp [hkey, filled_concat]

/-- **Dropping a file is as if it had never been read.** Whatever was declared, under either policy:
if no word that a file of the store declares global is declared global in another, the store without
the file is the one that the other declarations make, with all entries in the same order. A file
that is not in the store cannot be dropped, and the attempt changes nothing. -/
theorem cleared_as_unread (root : Path) (policy : ConflictPolicy)
    (xs : List (String × Declaration)) :
    (∀ key ∈ (filled root policy xs).files.keys, Unshared key xs →
      (filled root policy xs).clear? key =
        some (filled root policy (xs.filter (·.1 ≠ key)))) ∧
    ∀ (s : Store) (key : String), key ∉ s.files.keys →
      s.clear? key = none ∧ s.step (.clear key) = s := by
  refine ⟨fun key hkey hshare => ?_, fun s key hkey => ?_⟩
  · rw [clear?_of_mem hkey, without_filled hshare]
  · have hnone := clear?_of_not_mem hkey
    refine ⟨hnone, ?_⟩
    rw [step, hnone]
    rfl

/-- Declarations of three files, read in turns; two of them claim the pear. -/
def orchard : List (String × Declaration) :=
  [("a.txt", ⟨"apple", .whole 2, "crisp", ["GLOBAL", "FRUIT"]⟩),
    ("b.txt", ⟨"pear", .whole 1, "", ["GLOBAL"]⟩),
    ("a.txt", ⟨"plum", .whole 3, "", ["FRUIT"]⟩),
    ("c.txt", ⟨"pear", .whole 4, "", ["GLOBAL", "FRUIT"]⟩)]

theorem cleared_orchard :
    (filled ⟨.root, []⟩ .error orchard).clear? "a.txt" =
        some (filled ⟨.root, []⟩ .error (orchard.filter (·.1 ≠ "a.txt"))) ∧
      (filled ⟨.root, []⟩ .error orchard).clear? "d.txt" = none := by
  have horchard := cleared_as_unread ⟨.root, []⟩ .error orchard
  exact ⟨horchard.1 "a.txt" (by decide +kernel) (by decide +kernel),
    (horchard.2 _ "d.txt" (by decide +kernel)).1⟩

end MailRules.Store
