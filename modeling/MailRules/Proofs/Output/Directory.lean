import MailRules.Output.Files
import MailRules.Proofs.Layout.Directory
import MailRules.Proofs.Tree.Host

/-! The names in the output directory.

Where the directory stands and the names in question are not links, each of them has a place of its
own: what a path below the directory leads to is what is at that place (`goal_below`), unless the
path or the name is too long. So an operation on one file leaves all other places as they are, and
the directory stands as before (`Touched.stands`). -/
namespace MailRules.Host

open MailRules.Tree FileName

variable {h t u : Host} {dir : Path} {directory : Location} {name : String} {paths : List String}

/-- The text of a path to a name in a directory. -/
def below (dir : Path) (name : String) : String := dir.text ++ "/" ++ name

theorem below_inj {name' : String} (h : below dir name = below dir name') : name = name' := by
  rwa [below, below, String.append_right_inj] at h

theorem isPlain_of_below (h : Layout.IsInside dir.text (below dir name)) :
    IsPlain name.toList := by
  obtain ⟨name', hname, hsame⟩ := h
  rwa [below_inj hsame]

/-- The system refuses the path, or its name, for its length. -/
def TooLong (dir : Path) (name : String) : Prop :=
  pathLimit ≤ (Path.ofString (below dir name)).text.utf8ByteSize ∨ nameLimit < name.utf8ByteSize

instance : Decidable (TooLong dir name) := inferInstanceAs (Decidable (_ ∨ _))

/-- The path leads to a directory, and there is no link at any of the paths below it. -/
structure Stands (h : Host) (dir : Path) (directory : Location) (paths : List String) : Prop where
  leads : h.tree.LeadsTo h.home dir directory
  noLink : ∀ name target, below dir name ∈ paths →
    h.tree.at? (directory ++ [name]) ≠ some (.link target)

theorem Stands.mono {less : List String} (hs : Stands h dir directory paths)
    (hless : ∀ path ∈ less, path ∈ paths) : Stands h dir directory less :=
  ⟨hs.leads, fun name target hmem => hs.noLink name target (hless _ hmem)⟩

theorem Stands.tail {path : String} (hs : Stands h dir directory (path :: paths)) :
    Stands h dir directory paths :=
  hs.mono fun _ hp => List.mem_cons_of_mem _ hp

/-- There is no link at any of the paths, where the path of the directory leads to one. -/
def UnlinkedAt (h : Host) (dir : Path) (paths : List String) : Prop :=
  ∀ directory name target, h.tree.LeadsTo h.home dir directory → below dir name ∈ paths →
    h.tree.at? (directory ++ [name]) ≠ some (.link target)

theorem UnlinkedAt.stands (hlinks : h.UnlinkedAt dir paths)
    (hleads : h.tree.LeadsTo h.home dir directory) : Stands h dir directory paths :=
  ⟨hleads, fun name target => hlinks directory name target hleads⟩

theorem isChild (hdir : dir.Proper) (hname : IsPlain name.toList) :
    (Path.ofString (below dir name)).IsChild dir name :=
  Path.isChild_below hdir hname.isPart

theorem goal_below (hdir : dir.Proper) (hname : IsPlain name.toList)
    (hs : Stands h dir directory paths) (hmem : below dir name ∈ paths) (follow : Bool) :
    h.tree.goal h.home follow (Path.ofString (below dir name)) =
      if TooLong dir name then .error .nameTooLong else .ok (h.tree.goalAt directory name) :=
  goal_child (isChild hdir hname) hname.ne_up hs.leads (fun target => hs.noLink name target hmem)
    follow

theorem entry?_below (hdir : dir.Proper) (hname : IsPlain name.toList)
    (hs : Stands h dir directory paths) (hmem : below dir name ∈ paths) (follow : Bool) :
    h.entry? follow (Path.ofString (below dir name)) =
      if TooLong dir name then .error (.system .nameTooLong (Path.ofString (below dir name)).text)
      else .ok (h.tree.at? (directory ++ [name])) := by
  rw [ entry?, find, goal_below hdir hname hs hmem]
  by_cases hlong : TooLong dir name
  · rw [if_pos hlong, if_pos hlong]
    rfl
  · rw [if_neg hlong, if_neg hlong, goalAt]
    cases h.tree.at? (directory ++ [name]) <;> rfl

theorem isFile_below (hdir : dir.Proper) (hname : IsPlain name.toList)
    (hs : Stands h dir directory paths) (hmem : below dir name ∈ paths) {isFile : Bool}
    (hfile : h.isFile (Path.ofString (below dir name)) = .ok isFile) :
    ¬ TooLong dir name ∧
      (isFile = true ↔ ∃ content, h.tree.at? (directory ++ [name]) = some (.file content)) := by
  rw [Host.isFile, entry?_below hdir hname hs hmem] at hfile
  by_cases hlong : TooLong dir name
  · rw [if_pos hlong] at hfile
    cases hfile
  · rw [if_neg hlong] at hfile
    refine ⟨hlong, ?_⟩
    cases hat : h.tree.at? (directory ++ [name]) with
    | none =>
      rw [hat] at hfile
      cases hfile
      simp
    | some e =>
      rw [hat] at hfile
      cases e <;> cases hfile <;> simp

/-- The answer is no if the path can be looked up and there is no file. -/
theorem isFile_below_false (hdir : dir.Proper) (hname : IsPlain name.toList)
    (hs : Stands h dir directory paths) (hmem : below dir name ∈ paths) :
    h.isFile (Path.ofString (below dir name)) = .ok false ↔ ¬ TooLong dir name ∧
      ∀ content, h.tree.at? (directory ++ [name]) ≠ some (.file content) := by
  constructor
  · intro hfile
    obtain ⟨hshort, hcontent⟩ := isFile_below hdir hname hs hmem hfile
    exact ⟨hshort, fun content hat => by cases hcontent.mpr ⟨content, hat⟩⟩
  · rintro ⟨hshort, hnone⟩
    rw [Host.isFile, entry?_below hdir hname hs hmem, if_neg hshort]
    cases hat : h.tree.at? (directory ++ [name]) with
    | none => rfl
    | some e =>
      cases e with
      | file content => exact absurd hat (hnone content)
      | _ => rfl

theorem isFile_below_error (hdir : dir.Proper) (hname : IsPlain name.toList)
    (hs : Stands h dir directory paths) (hmem : below dir name ∈ paths) {f : Fault} :
    h.isFile (Path.ofString (below dir name)) = .error f ↔
      TooLong dir name ∧ f = .system .nameTooLong (Path.ofString (below dir name)).text := by
  rw [isFile, entry?_below hdir hname hs hmem]
  by_cases hlong : TooLong dir name
  · rw [if_pos hlong]
    simp [bind, Except.bind, hlong, eq_comm]
  · rw [if_neg hlong]
    simp only [bind, Except.bind, hlong, false_and, iff_false]
    split <;> simp [pure, Except.pure]

/-- Where the directory does not stand, there is no file in it. -/
theorem not_isFile_below (hdir : dir.Proper) (hname : IsPlain name.toList)
    (hno : ∀ directory, ¬ h.tree.LeadsTo h.home dir directory) :
    h.isFile (Path.ofString (below dir name)) ≠ .ok true := by
  intro hfile
  rw [isFile, entry?] at hfile
  cases hfind : h.tree.find h.home true (Path.ofString (below dir name)) with
  | ok found =>
    obtain ⟨place, e⟩ := found
    obtain ⟨directory, hleads⟩ := leadsTo_of_child (isChild hdir hname) (find_eq_ok_iff.mp hfind)
    exact hno directory hleads
  | error trouble =>
    rw [hfind] at hfile
    cases trouble <;> cases hfile

theorem unlink_below (hdir : dir.Proper) (hname : IsPlain name.toList)
    (hs : Stands h dir directory paths) (hmem : below dir name ∈ paths)
    (hshort : ¬ TooLong dir name) {content : ByteArray}
    (hat : h.tree.at? (directory ++ [name]) = some (.file content)) :
    h.unlink (Path.ofString (below dir name)) =
      if (Path.ofString (below dir name)).text ∈ h.locked then .error ⟨.denied, none⟩
      else .ok { h with tree := h.tree.remove (directory ++ [name]) } := by
  have hfind : h.tree.find h.home false (Path.ofString (below dir name)) =
      .ok (directory ++ [name], .file content) := by
    rw [find_eq_ok_iff, goal_below hdir hname hs hmem, if_neg hshort, goalAt, hat]
  rw [unlink, hfind]

/-- What becomes of a text that is written to a name in the directory. -/
inductive Write (dir : Path) (directory : Location) (name text : String) (h : Host) :
    Host × Except Refusal Unit → Prop
  | tooLong {r : Refusal} : TooLong dir name → Write dir directory name text h (h, .error r)
  | isDirectory {r : Refusal} :
      ¬ TooLong dir name → h.tree.at? (directory ++ [name]) = some .directory →
      Write dir directory name text h (h, .error r)
  | done :
      ¬ TooLong dir name → h.tree.at? (directory ++ [name]) ≠ some .directory →
      Write dir directory name text h
        ({ h with tree := h.tree.put (directory ++ [name]) (.file text.toUTF8) }, .ok ())

theorem writeText_below (hdir : dir.Proper) (hname : IsPlain name.toList)
    (hs : Stands h dir directory paths) (hmem : below dir name ∈ paths) (text : String) :
    Write dir directory name text h
      (match h.writeText (Path.ofString (below dir name)) text with
        | .error r => (h, .error r)
        | .ok t => (t, .ok ())) := by
  rw [writeText, goal_below hdir hname hs hmem]
  by_cases hlong : TooLong dir name
  · rw [if_pos hlong]
    exact .tooLong hlong
  rw [if_neg hlong, goalAt]
  cases hat : h.tree.at? (directory ++ [name]) with
  | none => exact .done hlong (by simp [hat])
  | some e =>
    cases e with
    | directory => exact .isDirectory hlong hat
    | file => exact .done hlong (by simp [hat])
    | link => exact .done hlong (by simp [hat])
    | pipe => exact .done hlong (by simp [hat])

/-- The directory is there, so writing makes none. -/
theorem writeInto_below (hdir : dir.Proper) (hname : IsPlain name.toList)
    (hs : Stands h dir directory paths) (hmem : below dir name ∈ paths) (text : String) :
    Write dir directory name text h (h.writeInto (Path.ofString (below dir name)) text) := by
  have hchild := isChild hdir hname
  have hparts : (Path.ofString (below dir name)).parent.parts = dir.parts := by
    show (Path.ofString (below dir name)).parts.dropLast = dir.parts
    rw [hchild.parts, List.dropLast_concat]
  rw [writeInto]
  by_cases hlong : pathLimit ≤ (Path.ofString (below dir name)).parent.text.utf8ByteSize
  · obtain ⟨r, hr⟩ := makePath_of_tooLong (h := h) hlong
    have hlast : (Path.ofString (below dir name)).parts.getLast? = some name := by
      rw [hchild.parts, List.getLast?_concat]
    have hgrow := (Path.isChild_parent (Path.proper_ofString _) hlast).size_le
    rw [hr]
    exact .tooLong (.inl (Nat.le_trans hlong hgrow))
  · have hparent : h.tree.LeadsTo h.home (Path.ofString (below dir name)).parent directory := by
      refine leadsTo_iff.mpr ⟨Nat.lt_of_not_le hlong, ?_⟩
      have hstart : start h.home (Path.ofString (below dir name)).parent = start h.home dir := by
        show (if (Path.ofString (below dir name)).isAbsolute then [] else h.home) = _
        rw [hchild.isAbsolute, start]
      rw [hstart, hparts]
      exact (leadsTo_iff.mp hs.leads).2
    rw [makePath_of_leadsTo hparent]
    exact writeText_below hdir hname hs hmem text

/-! ### Changes in the directory -/

/-- The second machine is the first but for files at the paths. -/
structure Touched (dir : Path) (directory : Location) (paths : List String) (h t : Host) : Prop where
  rest : t = { h with tree := t.tree }
  frame : ∀ place, t.tree.at? place ≠ h.tree.at? place →
    ∃ name, IsPlain name.toList ∧ ¬ TooLong dir name ∧ below dir name ∈ paths ∧
      place = directory ++ [name]
  passage : ∀ place e, e.isPassage = true →
    (t.tree.at? place = some e ↔ h.tree.at? place = some e)

theorem Touched.refl (dir : Path) (directory : Location) (h : Host) :
    Touched dir directory [] h h :=
  ⟨rfl, fun _ hne => absurd rfl hne, fun _ _ _ => .rfl⟩

theorem Touched.mono {more : List String} (ht : Touched dir directory paths h t)
    (hmore : ∀ path ∈ paths, path ∈ more) : Touched dir directory more h t where
  rest := ht.rest
  frame place hne := by
    obtain ⟨name, hname, hshort, hmem, hplace⟩ := ht.frame place hne
    exact ⟨name, hname, hshort, hmore _ hmem, hplace⟩
  passage := ht.passage

/-- Names that are not among the paths are left alone. -/
theorem Touched.at?_same (ht : Touched dir directory paths h t) (hother : below dir name ∉ paths) :
    t.tree.at? (directory ++ [name]) = h.tree.at? (directory ++ [name]) := by
  by_contra hne
  obtain ⟨name', -, -, hmem, hplace⟩ := ht.frame _ hne
  obtain rfl : name = name' := by simpa using hplace
  exact hother hmem

theorem Touched.home (ht : Touched dir directory paths h t) : t.home = h.home := by
  rw [ht.rest]

theorem Touched.within (ht : Touched dir directory paths h t) : h.tree.Within t.tree :=
  fun place e he => (ht.passage place e he).mpr

theorem Touched.stands {named : List String} (hs : Stands h dir directory named)
    (ht : Touched dir directory paths h t) : Stands t dir directory named where
  leads := by
    rw [ht.home]
    exact hs.leads.mono ht.within
  noLink name target hmem hat := hs.noLink name target hmem ((ht.passage _ _ rfl).mp hat)

theorem Touched.trans {more : List String} (ht : Touched dir directory paths h t)
    (hu : Touched dir directory more t u) : Touched dir directory (paths ++ more) h u := by
  refine ⟨by rw [hu.rest, ht.rest], fun place hne => ?_, fun place e he => ?_⟩
  · by_cases hsame : u.tree.at? place = t.tree.at? place
    · obtain ⟨name, hname, hshort, hmem, hplace⟩ := ht.frame place (hsame ▸ hne)
      exact ⟨name, hname, hshort, List.mem_append_left _ hmem, hplace⟩
    · obtain ⟨name, hname, hshort, hmem, hplace⟩ := hu.frame place hsame
      exact ⟨name, hname, hshort, List.mem_append_right _ hmem, hplace⟩
  · exact (hu.passage place e he).trans (ht.passage place e he)

theorem touched_remove (hname : IsPlain name.toList) (hshort : ¬ TooLong dir name)
    {content : ByteArray} (hat : h.tree.at? (directory ++ [name]) = some (.file content)) :
    Touched dir directory [below dir name] h
      { h with tree := h.tree.remove (directory ++ [name]) } := by
  refine ⟨rfl, fun place hne => ?_, fun place e he => ?_⟩
  · rw [at?_remove] at hne
    split at hne
    next hplace => exact ⟨name, hname, hshort, List.mem_singleton_self _, hplace⟩
    next => exact absurd rfl hne
  · rw [at?_remove]
    split
    next hplace =>
      rw [hplace, hat]
      constructor
      · exact fun h => by cases h
      · rintro h
        cases h
        cases he
    next => exact .rfl

theorem touched_write (hname : IsPlain name.toList) (hshort : ¬ TooLong dir name)
    (hs : Stands h dir directory paths) (hmem : below dir name ∈ paths)
    (hat : h.tree.at? (directory ++ [name]) ≠ some .directory)
    (content : ByteArray) :
    Touched dir directory [below dir name] h
      { h with tree := h.tree.put (directory ++ [name]) (.file content) } := by
  refine ⟨rfl, fun place hne => ?_, fun place e he => ?_⟩
  · rw [at?_put] at hne
    split at hne
    next hplace => exact ⟨name, hname, hshort, List.mem_singleton_self _, hplace⟩
    next => exact absurd rfl hne
  · rw [at?_put]
    split
    next hplace =>
      rw [hplace]
      constructor
      · rintro h
        cases h
        cases he
      · intro h
        cases e with
        | directory => exact absurd h hat
        | link target => exact absurd h (hs.noLink name target hmem)
        | file => cases he
        | pipe => cases he
    next => exact .rfl

end MailRules.Host
