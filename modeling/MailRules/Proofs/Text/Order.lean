import Mathlib.Data.List.Nodup
import MailRules.Text.Basic

/-! Sorted texts.

Sorting forgets the order in which texts came: `sorted_congr` for all of them, `sortedUnique_congr`
for each once, and `sortedByKey_congr` for the entries of a map. The greatest text bounds every
other (`le_greatest?`). -/
namespace MailRules.Text

theorem decide_le_trans (a b c : String) :
    decide (a ≤ b) = true → decide (b ≤ c) = true → decide (a ≤ c) = true := by
  simp only [decide_eq_true_eq]
  exact String.le_trans

theorem decide_le_total (a b : String) : (decide (a ≤ b) || decide (b ≤ a)) = true := by
  rw [Bool.or_eq_true, decide_eq_true_eq, decide_eq_true_eq]
  exact String.le_total a b

/-! ### Texts -/

theorem sorted_perm (l : List String) : (sorted l).Perm l := List.mergeSort_perm l _

@[simp] theorem mem_sorted {l : List String} {a : String} : a ∈ sorted l ↔ a ∈ l :=
  (sorted_perm l).mem_iff

theorem sorted_pairwise (l : List String) : (sorted l).Pairwise (· ≤ ·) :=
  (List.pairwise_mergeSort decide_le_trans decide_le_total l).imp of_decide_eq_true

theorem sorted_congr {l m : List String} (h : l.Perm m) : sorted l = sorted m :=
  List.Perm.eq_of_pairwise (fun _ _ _ _ => String.le_antisymm) (sorted_pairwise l)
    (sorted_pairwise m) ((sorted_perm l).trans (h.trans (sorted_perm m).symm))

/-- Sorted texts without repetition are strictly sorted. -/
theorem sorted_strict {l : List String} (h : l.Nodup) : (sorted l).Pairwise (· < ·) := by
  have hne : (sorted l).Pairwise (· ≠ ·) := (sorted_perm l).nodup_iff.mpr h
  refine ((sorted_pairwise l).and hne).imp ?_
  rintro a b ⟨hle, hab⟩
  exact String.not_le.mp fun hba => hab (String.le_antisymm hle hba)

theorem eraseDups_nodup (l : List String) : l.eraseDups.Nodup := by
  induction h : l.length using Nat.strongRecOn generalizing l with
  | ind n ih =>
    cases l with
    | nil => exact List.nodup_nil
    | cons a rest =>
      have hlt : (rest.filter fun b => !b == a).length < n :=
        h ▸ Nat.lt_succ_of_le (List.length_filter_le _ rest)
      rw [List.eraseDups_cons, List.nodup_cons]
      exact ⟨by simp, ih _ hlt _ rfl⟩

theorem eraseDups_filter {α : Type} [DecidableEq α] (p : α → Bool) (l : List α) :
    (l.filter p).eraseDups = l.eraseDups.filter p := by
  induction h : l.length using Nat.strongRecOn generalizing l with
  | ind n ih =>
    cases l with
    | nil => rfl
    | cons a rest =>
      have hlt : (rest.filter fun b => !b == a).length < n :=
        h ▸ Nat.lt_succ_of_le (List.length_filter_le _ rest)
      have hrest := ih _ hlt _ rfl
      rw [List.eraseDups_cons, List.filter_cons, List.filter_cons, ← hrest, List.filter_filter]
      split
      next =>
        rw [List.eraseDups_cons, List.filter_filter]
        simp only [Bool.and_comm]
      next ha =>
        -- What is equal to the first does not pass the test either.
        congr 1
        refine List.filter_congr fun b _ => ?_
        by_cases hb : b = a
        · simp [hb, ha]
        · simp [hb]

theorem eraseDups_concat (l : List String) (a : String) :
    (l ++ [a]).eraseDups = if a ∈ l.eraseDups then l.eraseDups else l.eraseDups ++ [a] := by
  rw [List.eraseDups_append]
  split
  next h => simp_all [List.removeAll]
  next h => simp_all [List.removeAll, List.eraseDups_cons]

@[simp] theorem mem_sortedUnique {l : List String} {a : String} : a ∈ sortedUnique l ↔ a ∈ l := by
  rw [sortedUnique, mem_sorted, List.mem_eraseDups]

/-- The same texts, however often each is there. -/
theorem sortedUnique_congr {l m : List String} (h : ∀ a, a ∈ l ↔ a ∈ m) :
    sortedUnique l = sortedUnique m := by
  apply sorted_congr
  rw [List.perm_ext_iff_of_nodup (eraseDups_nodup l) (eraseDups_nodup m)]
  intro a
  rw [List.mem_eraseDups, List.mem_eraseDups, h]

/-! ### Texts by their characters -/

theorem lt_iff_toList {a b : String} : a < b ↔ a.toList < b.toList := Iff.rfl

theorem le_of_lt {a b : String} (h : a < b) : a ≤ b := String.lt_asymm h

theorem lt_of_le_of_lt {a b c : String} (hab : a ≤ b) (hbc : b < c) : a < c :=
  String.not_le.mp fun hca => String.not_le.mpr hbc (String.le_trans hca hab)

/-- Between texts that start with as many characters, these decide. -/
theorem append_lt_append {x y s t : List Char} (hlen : x.length = y.length) (h : x < y) :
    x ++ s < y ++ t := by
  induction x generalizing y with
  | nil =>
    rw [List.eq_nil_of_length_eq_zero hlen.symm] at h
    exact absurd h (List.lt_irrefl [])
  | cons c x ih =>
    cases y with
    | nil => cases hlen
    | cons d y =>
      rw [List.cons_append, List.cons_append, List.cons_lt_cons_iff]
      rcases List.cons_lt_cons_iff.mp h with hcd | ⟨rfl, hxy⟩
      · exact .inl hcd
      · exact .inr ⟨rfl, ih (Nat.succ.inj hlen) hxy⟩

/-! ### Entries by their keys -/

theorem sortedByKey_congr {α : Type} {l m : List (String × α)} (hl : (l.map Prod.fst).Nodup)
    (h : l.Perm m) :
    (l.mergeSort fun a b => decide (a.1 ≤ b.1)) = m.mergeSort fun a b => decide (a.1 ≤ b.1) := by
  have hsorted (k : List (String × α)) :
      (k.mergeSort fun a b => decide (a.1 ≤ b.1)).Pairwise fun a b => a.1 ≤ b.1 := by
    have hbool : (k.mergeSort fun a b => decide (a.1 ≤ b.1)).Pairwise
        fun a b => decide (a.1 ≤ b.1) = true := by
      apply List.pairwise_mergeSort
      · exact fun a b c => decide_le_trans a.1 b.1 c.1
      · exact fun a b => decide_le_total a.1 b.1
    exact hbool.imp of_decide_eq_true
  refine List.Perm.eq_of_pairwise ?_ (hsorted l) (hsorted m)
    ((List.mergeSort_perm l _).trans (h.trans (List.mergeSort_perm m _).symm))
  intro a b ha hb hab hba
  rw [List.mem_mergeSort] at ha hb
  exact List.inj_on_of_nodup_map hl ha (h.mem_iff.mpr hb) (String.le_antisymm hab hba)

/-! ### The greatest text -/

theorem le_foldl_max (rest : List String) (a : String) :
    a ≤ rest.foldl (fun m b => if m < b then b else m) a ∧
      ∀ b ∈ rest, b ≤ rest.foldl (fun m b => if m < b then b else m) a := by
  induction rest generalizing a with
  | nil => exact ⟨String.le_refl a, fun b hb => by cases hb⟩
  | cons c rest ih =>
    rw [List.foldl_cons]
    have hac : a ≤ (if a < c then c else a) ∧ c ≤ (if a < c then c else a) := by
      by_cases h : a < c
      · rw [if_pos h]
        exact ⟨fun hca => String.lt_asymm h hca, String.le_refl c⟩
      · rw [if_neg h]
        exact ⟨String.le_refl a, h⟩
    obtain ⟨hfirst, hlater⟩ := ih (if a < c then c else a)
    refine ⟨String.le_trans hac.1 hfirst, fun b hb => ?_⟩
    rcases List.mem_cons.mp hb with rfl | hb
    · exact String.le_trans hac.2 hfirst
    · exact hlater b hb

theorem le_greatest? {l : List String} {m : String} (h : greatest? l = some m) :
    ∀ a ∈ l, a ≤ m := by
  intro a ha
  cases l with
  | nil => cases ha
  | cons b rest =>
    obtain ⟨hfirst, hlater⟩ := le_foldl_max rest b
    have hm := Option.some.inj h
    rw [← hm]
    rcases List.mem_cons.mp ha with rfl | ha
    · exact hfirst
    · exact hlater a ha

theorem greatest?_mem {l : List String} {m : String} (h : greatest? l = some m) : m ∈ l := by
  have hfold (rest : List String) (a : String) :
      rest.foldl (fun m b => if m < b then b else m) a ∈ a :: rest := by
    induction rest generalizing a with
    | nil => exact List.mem_cons_self
    | cons c rest ih =>
      rw [List.foldl_cons]
      refine (List.mem_cons.mp (ih _)).elim (fun hlast => ?_)
        fun hlater => List.mem_cons_of_mem a (List.mem_cons_of_mem c hlater)
      rw [hlast]
      split
      · exact List.mem_cons_of_mem a List.mem_cons_self
      · exact List.mem_cons_self
  cases l with
  | nil => cases h
  | cons a rest => exact Option.some.inj h ▸ hfold rest a

theorem greatest?_eq_none_iff {l : List String} : greatest? l = none ↔ l = [] := by
  cases l <;> simp [greatest?]

end MailRules.Text
