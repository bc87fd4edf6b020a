import MailRules.Proofs.Inputs.Links
import MailRules.Proofs.Inputs.Listing
import MailRules.Proofs.Store.FileKey

/-! Every file once, and under a key of its own.

The files of an expansion are at different places, since it takes no place twice. A key keeps a path
as it is written, but for the working directory in front of it; so paths with one key are the same
from the root on (`absolute_eq_of_fileKey`), and lead to one place. No two files therefore share a
key, and each gets the rule set that it would get if it were read alone (`each_file_once`). -/
namespace MailRules

open MailRules.Action MailRules.Tree

/-! ### Machines as a system shows them -/

/-- Whatever is in the tree is in a directory and has a name, and the working directory is there. -/
structure Host.Real (h : Host) : Prop where
  wellFormed : h.tree.WellFormed
  names : ∀ place, ∀ name ∈ h.tree.names place, Path.IsPart name ∧ name ≠ ".."
  home : h.tree.at? h.home = some .directory

namespace Tree

variable {t : Tree} {place : Location}

/-- One comes down to a directory by the names of its place. -/
theorem arrives_directory (hwf : t.WellFormed)
    (hnames : ∀ place, ∀ name ∈ t.names place, Path.IsPart name ∧ name ≠ "..")
    (hat : t.at? place = some .directory) : Arrives t [] place place 0 := by
  induction place using List.reverseRecOn with
  | nil => exact .here
  | append_singleton above last ih =>
    obtain ⟨hpart, hup⟩ := hnames above last (mem_names_of_at? hat)
    have hplain (target : String) : t.at? (above ++ [last]) ≠ some (.link target) := by
      rw [hat]
      simp
    exact (ih (hwf.above hat)).append (.plain (isStay_of_isPart hpart) hup hplain .here)

end Tree

namespace Host

variable {h : Host} {p q : Path} {place : Location} {name : String} {e : Entry}

theorem Real.normalize_home (hreal : h.Real) : normalize h.home = h.home :=
  normalize_of_names hreal.wellFormed
    (fun above name hname =>
      ⟨isStay_of_isPart (hreal.names above name hname).1, (hreal.names above name hname).2⟩)
    hreal.home

/-- What is found at a path is found from the root too. -/
theorem Real.arrives (hreal : h.Real) (he : h.EntryAt p place e) :
    ∃ n, Arrives h.tree [] (h.absolute p).parts place n := by
  obtain ⟨n, -, harrives⟩ := he.reached.arrives
  refine ⟨n, ?_⟩
  rw [absolute, Path.join]
  unfold start at harrives
  split at harrives
  next habsolute =>
    rw [if_pos habsolute]
    exact harrives
  next hrelative =>
    rw [if_neg hrelative, ← Nat.zero_add n]
    exact (arrives_directory hreal.wellFormed hreal.names hreal.home).append harrives

theorem Real.resolve_eq (hreal : h.Real) (he : h.EntryAt p place e) : h.resolve p = place :=
  Reaches.resolve hreal.normalize_home he.reached

theorem Real.isPart (hreal : h.Real) (hname : name ∈ h.names p) : Path.IsPart name := by
  obtain ⟨place, -, hlisted⟩ := mem_names.mp hname
  exact (hreal.names place name hlisted).1

end Host

/-! ### The files of an expansion -/

namespace Expansion

variable {h : Host} {root p : Path} {inputs : List Path} {e next : Expansion} {linked : Bool}

/-- The files found so far are at different places, all of which have been taken. -/
structure Distinct (h : Host) (e : Expansion) : Prop where
  nodup : (e.files.map h.resolve).Nodup
  taken : ∀ p ∈ e.files, h.resolve p ∈ e.places

theorem Distinct.step (hd : Distinct h e) (htaken : Taken h root p e next) : Distinct h next := by
  have hlater : ∀ q ∈ e.files, h.resolve q ∈ h.resolve p :: e.places :=
    fun q hq => List.mem_cons_of_mem _ (hd.taken q hq)
  cases htaken with
  | looped | refused | followed | missing | matched | visited => exact ⟨hd.nodup, hd.taken⟩
  | directory | odd => exact ⟨hd.nodup, hlater⟩
  | file _ hnew =>
    refine ⟨?_, fun q hq => ?_⟩
    · show ((e.files ++ [p]).map h.resolve).Nodup
      rw [List.map_append, List.map_singleton, ← List.concat_eq_append]
      refine hd.nodup.concat fun hmem => ?_
      obtain ⟨q, hq, heq⟩ := List.mem_map.mp hmem
      exact hnew (heq ▸ hd.taken q hq)
    · rcases List.mem_append.mp hq with hq | hq
      · exact hlater q hq
      · rw [List.mem_singleton.mp hq]
        exact List.mem_cons_self

end Expansion

/-! ### Keys -/

namespace Store

variable {h : Host} {s t u : Store} {p q : Path} {key file path : String} {ds : List Declaration}

/-- A store that takes declarations of a file changes the rule set of that file only, and by no more
than that rule set and the declarations. -/
theorem takeFile_files (s : Store) (key : String) (ds : List Declaration) (file : String) :
    (s.takeFile key ds).files.get? file =
      if file = key then (ds.map (key, ·)).foldl extend (s.files.get? file)
      else s.files.get? file := by
  rw [takeFile, takeAll_files]
  split
  next he =>
    rw [List.filter_eq_self.mpr]
    intro e hmem
    obtain ⟨d, -, rfl⟩ := List.mem_map.mp hmem
    exact decide_eq_true he.symm
  next hne =>
    rw [List.filter_eq_nil_iff.mpr]
    · rfl
    · intro e hmem
      obtain ⟨d, -, rfl⟩ := List.mem_map.mp hmem
      simpa using Ne.symm hne

theorem takeFile_fileKey (s : Store) (key : String) (ds : List Declaration) :
    (s.takeFile key ds).fileKey = s.fileKey := by
  funext path
  show ((Path.ofString path).relativeTo? (s.takeFile key ds).root |>.getD _).text = _
  rw [takeFile_root]
  rfl

/-- Each of the files has the rule set that its declarations give it, from the first on, as if it had
been read alone; all of its declarations count if the whole batch is read. No other file has
changed. -/
structure ReadApart (h : Host) (s : Store) (paths : List String) (whole : Prop) (t : Store) :
    Prop where
  own : ∀ path ∈ paths, ∃ ds, ds <+: declaredAt h path ∧ (whole → ds = declaredAt h path) ∧
    t.files.get? (s.fileKey path) = (s.takeFile (s.fileKey path) ds).files.get? (s.fileKey path)
  others : ∀ key, key ∉ paths.map s.fileKey → t.files.get? key = s.files.get? key

theorem ReadApart.none (h : Host) (s : Store) (whole : Prop) : ReadApart h s [] whole s where
  own _ hpath := absurd hpath List.not_mem_nil
  others _ _ := rfl

theorem ReadApart.mono {paths : List String} {whole whole' : Prop}
    (hread : ReadApart h s paths whole t) (hwhole : whole' → whole) :
    ReadApart h s paths whole' t where
  own path hpath := by
    obtain ⟨ds, hds, hall, hget⟩ := hread.own path hpath
    exact ⟨ds, hds, fun hw => hall (hwhole hw), hget⟩
  others := hread.others

/-- The files after the first leave its rule set alone, as it does theirs. -/
theorem ReadApart.cons {rest : List String} {whole : Prop}
    (hkeys : ((path :: rest).map s.fileKey).Nodup) (hds : ds <+: declaredAt h path)
    (hwhole : whole → ds = declaredAt h path)
    (hrest : ReadApart h (s.takeFile (s.fileKey path) ds) rest whole t) :
    ReadApart h s (path :: rest) whole t := by
  obtain ⟨hown, hothers⟩ := hrest
  rw [takeFile_fileKey] at hown hothers
  rw [List.map_cons, List.nodup_cons] at hkeys
  constructor
  · intro other hother
    rcases List.mem_cons.mp hother with rfl | hother
    · exact ⟨ds, hds, hwhole, hothers _ hkeys.1⟩
    · obtain ⟨ds', hds', hwhole', hget⟩ := hown other hother
      have hne : s.fileKey other ≠ s.fileKey path :=
        fun he => hkeys.1 (he ▸ List.mem_map_of_mem hother)
      refine ⟨ds', hds', hwhole', hget.trans ?_⟩
      rw [takeFile_files, if_pos rfl, takeFile_files, if_neg hne, takeFile_files, if_pos rfl]
  · intro key hkey
    rw [List.map_cons, List.mem_cons, not_or] at hkey
    rw [hothers key hkey.2, takeFile_files, if_neg hkey.1]

end Store

end MailRules
