import SelfPlay.Fault
import SelfPlay.Files.FileSystem

/-!
# Files that were written

What is put at a location stands there, and directories elsewhere stay directories. So the way to a
file's directory is the same after the file was created, and whoever follows the path finds the
bytes.
-/

namespace SelfPlay

namespace FileTree

/-- A directory stands at a location. -/
def IsFolderAt (root : FileTree) (location : List String) : Prop :=
  ∃ entries, root.at? location = some (.folder entries)

variable {root : FileTree} {location target : List String}

theorem at?_folder_cons (entries : List (String × FileTree)) (name : String)
    (rest : List String) :
    (folder entries).at? (name :: rest) = (entries.lookup name).bind (at? rest) := rfl

theorem at?_folder_singleton (entries : List (String × FileTree)) (name : String) :
    (folder entries).at? [name] = entries.lookup name := by
  rw [at?_folder_cons]
  cases entries.lookup name <;> rfl

theorem at?_append (first rest : List String) (tree : FileTree) :
    tree.at? (first ++ rest) = (tree.at? first).bind (at? rest) := by
  induction first generalizing tree with
  | nil => rfl
  | cons name first ih =>
    cases tree with
    | file | null => rfl
    | folder entries =>
      rw [List.cons_append, at?_folder_cons, at?_folder_cons, Option.bind_assoc]
      congr 1
      funext child
      exact ih child

/-- Only a directory has anything in it. -/
theorem exists_folder_of_isFolderAt (h : root.IsFolderAt location) :
    ∃ entries, root = .folder entries := by
  obtain ⟨inner, hinner⟩ := h
  cases location with
  | nil => exact ⟨inner, Option.some.inj hinner⟩
  | cons name rest =>
    cases root with
    | file | null => cases hinner
    | folder entries => exact ⟨entries, rfl⟩

theorem isFolderAt_folder_cons {entries : List (String × FileTree)} {name : String}
    {rest : List String} :
    (folder entries).IsFolderAt (name :: rest) ↔
      ∃ child, entries.lookup name = some child ∧ child.IsFolderAt rest := by
  unfold IsFolderAt
  rw [at?_folder_cons]
  simp only [Option.bind_eq_some_iff]
  exact ⟨fun ⟨inner, child, hchild, hinner⟩ => ⟨child, hchild, inner, hinner⟩,
    fun ⟨child, hchild, inner, hinner⟩ => ⟨inner, child, hchild, hinner⟩⟩

theorem lookup_entry_cons (entry : String × FileTree) (rest : List (String × FileTree))
    (name : String) :
    (entry :: rest).lookup name = if name = entry.1 then some entry.2 else rest.lookup name := by
  by_cases h : name = entry.1
  · rw [if_pos h, h, List.lookup_cons_self]
  · rw [if_neg h, List.lookup_cons, beq_eq_false_iff_ne.mpr h]

theorem lookup_setEntry (name : String) (tree : FileTree)
    (entries : List (String × FileTree)) (other : String) :
    (setEntry name tree entries).lookup other =
      if other = name then some tree else entries.lookup other := by
  induction entries with
  | nil => exact lookup_entry_cons _ _ _
  | cons entry rest ih =>
    rw [setEntry]
    by_cases hfirst : entry.1 = name
    · rw [if_pos hfirst, lookup_entry_cons, lookup_entry_cons, hfirst]
      by_cases hother : other = name
      · rw [if_pos hother, if_pos hother]
      · simp only [if_neg hother]
    · rw [if_neg hfirst, lookup_entry_cons, lookup_entry_cons, ih]
      by_cases hother : other = entry.1
      · rw [if_pos hother, if_pos hother, if_neg (hother ▸ hfirst)]
      · simp only [if_neg hother]

/-- What is put into a directory stands there. -/
theorem at?_put_self (h : root.IsFolderAt location) (name : String) (item : FileTree) :
    (put item (location ++ [name]) root).at? (location ++ [name]) = some item := by
  induction location generalizing root with
  | nil =>
    obtain ⟨entries, rfl⟩ := exists_folder_of_isFolderAt h
    simp [put, at?_folder_cons, lookup_setEntry, at?]
  | cons first rest ih =>
    obtain ⟨entries, rfl⟩ := exists_folder_of_isFolderAt h
    obtain ⟨child, hchild, hrest⟩ := isFolderAt_folder_cons.mp h
    simp [put, at?_folder_cons, lookup_setEntry, hchild, ih hrest]

/-- Putting something where no directory stands leaves all directories. -/
theorem isFolderAt_put (h : root.IsFolderAt location) (htarget : ¬ root.IsFolderAt target)
    (item : FileTree) : (put item target root).IsFolderAt location := by
  induction target generalizing root location with
  | nil =>
    obtain ⟨entries, rfl⟩ := exists_folder_of_isFolderAt h
    exact absurd ⟨entries, rfl⟩ htarget
  | cons name rest ih =>
    obtain ⟨entries, rfl⟩ := exists_folder_of_isFolderAt h
    cases location with
    | nil => exact ⟨_, rfl⟩
    | cons first inner =>
      obtain ⟨child, hchild, hinner⟩ := isFolderAt_folder_cons.mp h
      refine isFolderAt_folder_cons.mpr ?_
      rw [lookup_setEntry]
      by_cases hsame : first = name
      · subst hsame
        have hnone : ¬ child.IsFolderAt rest := fun hrest =>
          htarget (isFolderAt_folder_cons.mpr ⟨child, hchild, hrest⟩)
        rw [if_pos rfl, hchild]
        exact ⟨_, rfl, ih hinner hnone⟩
      · rw [if_neg hsame]
        exact ⟨child, hchild, hinner⟩

end FileTree

namespace FileSystem

open FileTree (IsFolderAt at?_append at?_folder_singleton)

/-- The names on a trail, from the root down. -/
def Trail.location (trail : Trail) : List String := (trail.map (·.1)).reverse

/-- What was met on a trail stands there in the file system. -/
def IsTrail (system : FileSystem) (trail : Trail) : Prop :=
  ∀ part : Trail, part <:+ trail → system.root.at? part.location = some (system.endOf part)

/-- A name under which something can be put. -/
structure IsPlainName (name : String) : Prop where
  notPoints : Path.isPoints name = false
  short : name.utf8ByteSize ≤ Path.maxNameLength

variable {system other : FileSystem} {trail next : Trail} {name : String}

theorem location_cons (entry : String × FileTree) (trail : Trail) :
    Trail.location (entry :: trail) = trail.location ++ [entry.1] := by
  unfold Trail.location
  rw [List.map_cons, List.reverse_cons]

theorem location_drop_one (trail : Trail) :
    Trail.location (trail.drop 1) = trail.location.dropLast := by
  unfold Trail.location
  rw [List.map_drop, List.drop_one, List.dropLast_reverse]

theorem isTrail_nil (system : FileSystem) : system.IsTrail [] := by
  intro part hpart
  rw [List.suffix_nil.mp hpart]
  rfl

theorem IsTrail.at?_location (h : system.IsTrail trail) :
    system.root.at? trail.location = some (system.endOf trail) := h trail (List.suffix_refl _)

theorem IsTrail.drop_one (h : system.IsTrail trail) : system.IsTrail (trail.drop 1) :=
  fun part hpart => h part (hpart.trans (List.drop_suffix 1 trail))

/-- What is in the directory at the end of a trail. -/
theorem IsTrail.at?_append_name (h : system.IsTrail trail) {entries : List (String × FileTree)}
    (hend : system.endOf trail = .folder entries) (name : String) :
    system.root.at? (trail.location ++ [name]) = entries.lookup name := by
  rw [at?_append, h.at?_location, hend, Option.bind_some, at?_folder_singleton]

theorem IsTrail.cons (h : system.IsTrail trail) {entries : List (String × FileTree)}
    (hend : system.endOf trail = .folder entries) {tree : FileTree}
    (hlookup : entries.lookup name = some tree) : system.IsTrail ((name, tree) :: trail) := by
  intro part hpart
  rcases List.suffix_cons_iff.mp hpart with rfl | hrest
  · rw [location_cons, h.at?_append_name hend, hlookup]
    rfl
  · exact h part hrest

theorem entry?_eq_ok_iff {entries : List (String × FileTree)} {found : Option FileTree} :
    entry? entries name = .ok found ↔
      name.utf8ByteSize ≤ Path.maxNameLength ∧ found = entries.lookup name := by
  unfold entry?
  split
  · rename_i hlong
    exact ⟨nofun, fun h => absurd h.1 (Nat.not_le.mpr hlong)⟩
  · rename_i hshort
    rw [Except.ok.injEq, eq_comm, and_iff_right (Nat.le_of_not_lt hshort)]

theorem isPoints_eq_false_iff : Path.isPoints name = false ↔ name ≠ "." ∧ name ≠ ".." := by
  simp [Path.isPoints]

/-- What following a name comes to. -/
theorem follow_cases (h : system.follow trail name = .ok next) :
    ∃ entries, system.endOf trail = .folder entries ∧
      (name = "." ∧ next = trail ∨ name = ".." ∧ next = trail.drop 1 ∨
        IsPlainName name ∧
          ∃ tree, entries.lookup name = some tree ∧ next = (name, tree) :: trail) := by
  unfold follow at h
  split at h
  · rename_i entries hend
    refine ⟨entries, hend, ?_⟩
    split at h
    · rename_i hpoint
      cases h
      exact .inl ⟨hpoint, rfl⟩
    · rename_i hpoint
      split at h
      · rename_i hpoints
        cases h
        exact .inr (.inl ⟨hpoints, rfl⟩)
      · rename_i hpoints
        split at h
        · cases h
        · cases h
        · rename_i tree hentry
          cases h
          obtain ⟨hshort, hlookup⟩ := entry?_eq_ok_iff.mp hentry
          exact .inr (.inr ⟨⟨isPoints_eq_false_iff.mpr ⟨hpoint, hpoints⟩, hshort⟩, tree,
            hlookup.symm, rfl⟩)
  · cases h

theorem follow_of_isPlainName {entries : List (String × FileTree)}
    (hend : system.endOf trail = .folder entries) (hname : IsPlainName name) :
    system.follow trail name = match entries.lookup name with
      | none => .error .notFound
      | some tree => .ok ((name, tree) :: trail) := by
  obtain ⟨hpoint, hpoints⟩ := isPoints_eq_false_iff.mp hname.notPoints
  unfold follow
  rw [hend]
  simp only [if_neg hpoint, if_neg hpoints]
  rw [entry?_eq_ok_iff.mpr ⟨hname.short, rfl⟩]
  cases entries.lookup name <;> rfl

/-- The names that were followed lead on only from directories. -/
theorem exists_folder_of_foldlM {names : List String}
    (h : names.foldlM system.follow trail = .ok next)
    (hnext : ∃ entries, system.endOf next = .folder entries) :
    ∃ entries, system.endOf trail = .folder entries := by
  cases names with
  | nil =>
    cases h
    exact hnext
  | cons name rest =>
    rw [List.foldlM_cons] at h
    obtain ⟨middle, hfollow, -⟩ := exists_of_bind_eq_ok h
    obtain ⟨entries, hend, -⟩ := follow_cases hfollow
    exact ⟨entries, hend⟩

/-- A directory that was kept is where a trail of the same names ends. -/
theorem exists_folder_of_kept
    (hkept : ∀ location, system.root.IsFolderAt location → other.root.IsFolderAt location)
    {trail' : Trail} (htrail : system.IsTrail trail) (htrail' : other.IsTrail trail')
    (hsame : trail'.location = trail.location)
    (hend : ∃ entries, system.endOf trail = .folder entries) :
    ∃ entries, other.endOf trail' = .folder entries := by
  obtain ⟨entries, hend⟩ := hend
  obtain ⟨kept, hat⟩ := hkept trail.location ⟨entries, hend ▸ htrail.at?_location⟩
  rw [← hsame, htrail'.at?_location] at hat
  exact ⟨kept, Option.some.inj hat⟩

/-- A step through directories is open wherever these directories still are. -/
theorem exists_follow_of_kept
    (hkept : ∀ location, system.root.IsFolderAt location → other.root.IsFolderAt location)
    {trail' : Trail} (htrail : system.IsTrail trail) (htrail' : other.IsTrail trail')
    (hsame : trail'.location = trail.location) (h : system.follow trail name = .ok next)
    (hnext : ∃ entries, system.endOf next = .folder entries) :
    system.IsTrail next ∧ ∃ next', other.follow trail' name = .ok next' ∧ other.IsTrail next' ∧
      next'.location = next.location := by
  obtain ⟨entries, hend, hcases⟩ := follow_cases h
  obtain ⟨kept, hend'⟩ := exists_folder_of_kept hkept htrail htrail' hsame ⟨entries, hend⟩
  rcases hcases with ⟨rfl, rfl⟩ | ⟨rfl, rfl⟩ | ⟨hname, tree, hlookup, rfl⟩
  · refine ⟨htrail, trail', ?_, htrail', hsame⟩
    simp [follow, hend']
  · refine ⟨htrail.drop_one, trail'.drop 1, ?_, htrail'.drop_one, ?_⟩
    · simp [follow, hend']
    · rw [location_drop_one, location_drop_one, hsame]
  · have hnew := htrail.cons hend hlookup
    obtain ⟨inner, rfl⟩ : ∃ inner, tree = .folder inner := hnext
    obtain ⟨inner', hat⟩ := hkept _ ⟨inner, hnew.at?_location⟩
    have hlookup' : kept.lookup name = some (.folder inner') := by
      rwa [location_cons, ← hsame, htrail'.at?_append_name hend'] at hat
    refine ⟨hnew, (name, .folder inner') :: trail', ?_, htrail'.cons hend' hlookup', ?_⟩
    · rw [follow_of_isPlainName hend' hname, hlookup']
    · rw [location_cons, location_cons, hsame]

/-- A way through directories is open wherever these directories still are. -/
theorem exists_foldlM_of_kept
    (hkept : ∀ location, system.root.IsFolderAt location → other.root.IsFolderAt location)
    {names : List String} {trail' : Trail} (htrail : system.IsTrail trail)
    (htrail' : other.IsTrail trail') (hsame : trail'.location = trail.location)
    (h : names.foldlM system.follow trail = .ok next)
    (hnext : ∃ entries, system.endOf next = .folder entries) :
    system.IsTrail next ∧ ∃ next', names.foldlM other.follow trail' = .ok next' ∧
      other.IsTrail next' ∧ next'.location = next.location := by
  induction names generalizing trail trail' with
  | nil =>
    cases h
    exact ⟨htrail, trail', rfl, htrail', hsame⟩
  | cons name rest ih =>
    rw [List.foldlM_cons] at h
    obtain ⟨middle, hfollow, hrest⟩ := exists_of_bind_eq_ok h
    obtain ⟨htrailMiddle, middle', hfollow', htrailMiddle', hsameMiddle⟩ :=
      exists_follow_of_kept hkept htrail htrail' hsame hfollow (exists_folder_of_foldlM hrest hnext)
    rw [List.foldlM_cons, hfollow']
    exact ih htrailMiddle htrailMiddle' hsameMiddle hrest

/-- Where following a path begins. -/
def start (system : FileSystem) (path : String) : List String :=
  if Path.isAbsolute path then [] else system.workingDirectory

variable {path : String} {bytes : List UInt8} {made : FileSystem}

theorem trail_eq_ok_iff {names : List String} :
    system.trail path names = .ok trail ↔
      Path.fault? path = none ∧ (system.start path ++ names).foldlM system.follow [] = .ok trail := by
  unfold FileSystem.trail start
  cases Path.fault? path with
  | none => simp
  | some fault => simp

/-- A path leads along a trail to a directory, and its last name is one to be used there. -/
structure LeadsTo (system : FileSystem) (path : String) (trail : Trail)
    (entries : List (String × FileTree)) (name : String) : Prop where
  names_eq : Path.names path = (Path.names path).dropLast ++ [name]
  trail_eq : system.trail path (Path.names path).dropLast = .ok trail
  folder : system.endOf trail = .folder entries
  plain : IsPlainName name

variable {entries : List (String × FileTree)}

theorem LeadsTo.slot_eq (h : system.LeadsTo path trail entries name) :
    system.slot path = .ok ⟨trail.location, entries, name⟩ := by
  have hlast : (Path.names path).getLast?.getD "." = name := by
    rw [h.names_eq]
    simp
  unfold FileSystem.slot
  rw [h.trail_eq]
  simp only [h.folder, hlast]
  rfl

theorem leadsTo_of_slot {slot : Slot} (h : system.slot path = .ok slot)
    (hname : IsPlainName slot.name) :
    ∃ trail, slot.location = trail.location ∧ system.LeadsTo path trail slot.entries slot.name := by
  unfold FileSystem.slot at h
  split at h
  · cases h
  · rename_i trail htrail
    split at h
    · rename_i entries hend
      cases h
      refine ⟨trail, rfl, ?_, htrail, hend, hname⟩
      cases hlast : (Path.names path).getLast? with
      | none =>
        have hpoint := (isPoints_eq_false_iff.mp hname.notPoints).1
        simp only [hlast] at hpoint
        exact absurd rfl hpoint
      | some last =>
        obtain ⟨before, hnames⟩ := List.getLast?_eq_some_iff.mp hlast
        simp [hnames]
    · cases h

/-- What is under the name is where the path leads. -/
theorem LeadsTo.trail_cons (h : system.LeadsTo path trail entries name) {tree : FileTree}
    (htree : entries.lookup name = some tree) :
    system.trail path (Path.names path) = .ok ((name, tree) :: trail) := by
  obtain ⟨hfault, hfold⟩ := trail_eq_ok_iff.mp h.trail_eq
  refine trail_eq_ok_iff.mpr ⟨hfault, ?_⟩
  rw [h.names_eq, ← List.append_assoc, List.foldlM_append, hfold]
  change system.follow trail name >>= pure = _
  rw [follow_of_isPlainName h.folder h.plain, htree]
  rfl

/-- What creating a file comes to: devices stay, and anything else is replaced. -/
theorem create_cases (h : system.create path bytes = .ok made) :
    ∃ trail entries name, system.LeadsTo path trail entries name ∧
      Path.endsInSlash path = false ∧
      (entries.lookup name = some .null ∧ made = system ∨
        (∀ inner, entries.lookup name ≠ some (.folder inner)) ∧
          made = { system with
            root := FileTree.put (.file bytes) (trail.location ++ [name]) system.root }) := by
  unfold create at h
  split at h
  · cases h
  · rename_i slot hslot
    split at h
    · cases h
    · rename_i hplain
      simp only [not_or, Bool.not_eq_true] at hplain
      cases hentry : entry? slot.entries slot.name with
      | error error =>
        rw [hentry] at h
        cases h
      | ok found =>
        rw [hentry] at h
        obtain ⟨hshort, rfl⟩ := entry?_eq_ok_iff.mp hentry
        obtain ⟨trail, hlocation, hleads⟩ := leadsTo_of_slot hslot ⟨hplain.1, hshort⟩
        refine ⟨trail, slot.entries, slot.name, hleads, hplain.2, ?_⟩
        have hfilled : system.fill slot (.file bytes) = { system with
            root := FileTree.put (.file bytes) (trail.location ++ [slot.name]) system.root } := by
          unfold fill
          rw [hlocation]
        cases hfound : slot.entries.lookup slot.name with
        | none =>
          rw [hfound] at h
          cases h
          exact .inr ⟨nofun, hfilled⟩
        | some tree =>
          rw [hfound] at h
          cases tree with
          | folder inner => cases h
          | null =>
            cases h
            exact .inl ⟨rfl, rfl⟩
          | file old =>
            cases h
            exact .inr ⟨nofun, hfilled⟩

theorem LeadsTo.isTrail (h : system.LeadsTo path trail entries name) : system.IsTrail trail := by
  obtain ⟨-, hfold⟩ := trail_eq_ok_iff.mp h.trail_eq
  exact (exists_foldlM_of_kept (fun _ hfolder => hfolder) (isTrail_nil system) (isTrail_nil system)
    rfl hfold ⟨entries, h.folder⟩).1

/-- A path leads to the same place where all directories are kept. -/
theorem LeadsTo.kept (h : system.LeadsTo path trail entries name)
    (hdirectory : other.workingDirectory = system.workingDirectory)
    (hkept : ∀ location, system.root.IsFolderAt location → other.root.IsFolderAt location) :
    ∃ trail' entries', other.LeadsTo path trail' entries' name ∧
      trail'.location = trail.location := by
  obtain ⟨hfault, hfold⟩ := trail_eq_ok_iff.mp h.trail_eq
  obtain ⟨-, trail', hfold', htrail', hsame⟩ := exists_foldlM_of_kept hkept (isTrail_nil system)
    (isTrail_nil other) rfl hfold ⟨entries, h.folder⟩
  obtain ⟨entries', hend'⟩ :=
    exists_folder_of_kept hkept h.isTrail htrail' hsame ⟨entries, h.folder⟩
  refine ⟨trail', entries', ⟨h.names_eq, trail_eq_ok_iff.mpr ⟨hfault, ?_⟩, hend', h.plain⟩, hsame⟩
  unfold start at hfold ⊢
  rwa [hdirectory]

/-- The device that forgets everything stands under a path. -/
def HoldsNull (system : FileSystem) (path : String) : Prop :=
  ∃ trail, system.trail path (Path.names path) = .ok trail ∧ system.endOf trail = .null

theorem HoldsNull.all_isEmpty (h : system.HoldsNull path) :
    (system.read path).toOption.all (·.bytes.isEmpty) = true := by
  obtain ⟨trail, htrail, hend⟩ := h
  unfold read
  rw [htrail]
  simp only [hend]
  split <;> rfl

/-- **A file that was created holds its bytes**, unless its path leads to a device. -/
theorem read_of_create (h : system.create path bytes = .ok made) :
    made.HoldsNull path ∨ made.read path = .ok (.ofBytes bytes) := by
  obtain ⟨trail, entries, name, hleads, hslash, ⟨hnull, rfl⟩ | ⟨hfolder, rfl⟩⟩ := create_cases h
  · exact .inl ⟨_, hleads.trail_cons hnull, rfl⟩
  · right
    have htarget : ¬ system.root.IsFolderAt (trail.location ++ [name]) := by
      rintro ⟨inner, hinner⟩
      rw [hleads.isTrail.at?_append_name hleads.folder] at hinner
      exact hfolder inner hinner
    have hput := FileTree.at?_put_self ⟨entries, hleads.folder ▸ hleads.isTrail.at?_location⟩ name
      (.file bytes)
    generalize hmade : ({ system with
      root := FileTree.put (.file bytes) (trail.location ++ [name]) system.root } : FileSystem) =
        made at h ⊢
    have hroot : made.root = FileTree.put (.file bytes) (trail.location ++ [name]) system.root := by
      rw [← hmade]
    have hdirectory : made.workingDirectory = system.workingDirectory := by rw [← hmade]
    obtain ⟨trail', entries', hleads', hsame⟩ := hleads.kept hdirectory fun location hlocation => by
      rw [hroot]
      exact FileTree.isFolderAt_put hlocation htarget (.file bytes)
    rw [← hroot, ← hsame, hleads'.isTrail.at?_append_name hleads'.folder] at hput
    unfold read
    rw [hleads'.trail_cons hput]
    simp [endOf, hslash]

end FileSystem

end SelfPlay
