import SelfPlay.Proofs.Files.FileSystem
import SelfPlay.Proofs.Text.Pieces

/-!
# Directories that are made

Before a file is created, the directories on its path are made, the longest part of the path first
and shorter ones only if that is missing. Where nothing stands in the way this succeeds: each part of
the path leads to its directory or is reported to be missing, and what is added is nothing but
directories on the way.
-/

namespace SelfPlay

namespace Path

variable {path : String} {front : List String}

theorem toList_ofReversed (reversed : List String) :
    (ofReversed reversed).toList = ['/'].intercalate (reversed.reverse.map String.toList) := by
  rw [ofReversed, String.toList_intercalate]
  rfl

theorem map_toList_pieces (path : String) :
    (pieces path).map String.toList = Text.pieces (· = '/') path.toList := by
  have hsame : String.toList ∘ String.ofList = id := by
    funext text
    exact String.toList_ofList
  rw [pieces, List.map_map, hsame, List.map_id]

/-- Pieces joined by slashes are pieces again. -/
theorem pieces_ofReversed (hsome : front ≠ []) (h : front <+: pieces path) :
    pieces (ofReversed front.reverse) = front := by
  have hplain : ∀ text ∈ front.map String.toList, '/' ∉ text := by
    intro text htext hslash
    have hmem := (h.map String.toList).subset htext
    rw [map_toList_pieces] at hmem
    simpa using Text.not_separates_of_mem_pieces hmem '/' hslash
  rw [pieces, toList_ofReversed, List.reverse_reverse, Text.pieces_eq_splitOn,
    List.splitOn_intercalate '/' hplain (by simpa using hsome), List.map_map]
  simp

theorem intercalate_prefix {texts more : List (List Char)} (hsome : texts ≠ [])
    (h : texts <+: more) : ['/'].intercalate texts <+: ['/'].intercalate more := by
  induction texts generalizing more with
  | nil => exact absurd rfl hsome
  | cons text rest ih =>
    cases more with
    | nil => simp at h
    | cons first others =>
      obtain ⟨rfl, hrest⟩ := List.cons_prefix_cons.mp h
      cases rest with
      | nil =>
        cases others with
        | nil => exact List.prefix_refl _
        | cons next others =>
          rw [List.intercalate_singleton, List.intercalate_cons_cons, List.append_assoc]
          exact List.prefix_append _ _
      | cons next rest =>
        cases others with
        | nil => simp at hrest
        | cons other others =>
          rw [List.intercalate_cons_cons, List.intercalate_cons_cons]
          exact (List.prefix_append_right_inj _).mpr (ih (List.cons_ne_nil _ _) hrest)

theorem ofReversed_prefix (hsome : front ≠ []) (h : front <+: pieces path) :
    (ofReversed front.reverse).toList <+: path.toList := by
  rw [toList_ofReversed, List.reverse_reverse]
  have hjoined := intercalate_prefix (by simpa using hsome) (h.map String.toList)
  rwa [map_toList_pieces, Text.intercalate_pieces] at hjoined

theorem fault?_eq_none_iff :
    fault? path = none ↔
      '\x00' ∉ path.toList ∧ path ≠ "" ∧ path.utf8ByteSize < lengthBound := by
  unfold fault?
  split
  · simp_all
  · split
    · simp_all
    · split <;> simp_all

/-- A path that is part of a good one is good. -/
theorem fault?_ofReversed (h : fault? path = none) (hfront : front <+: pieces path)
    (hfilled : ofReversed front.reverse ≠ "") : fault? (ofReversed front.reverse) = none := by
  obtain ⟨hnul, -, hlength⟩ := fault?_eq_none_iff.mp h
  have hsome : front ≠ [] := by
    rintro rfl
    exact hfilled rfl
  obtain ⟨more, hmore⟩ := ofReversed_prefix hsome hfront
  have hpath : path = ofReversed front.reverse ++ String.ofList more := by
    apply String.toList_injective
    rw [String.toList_append, String.toList_ofList, hmore]
  refine fault?_eq_none_iff.mpr ⟨fun hmem => hnul ?_, hfilled, ?_⟩
  · rw [← hmore]
    exact List.mem_append_left _ hmem
  · rw [hpath, String.utf8ByteSize_append] at hlength
    omega

theorem isAbsolute_ofReversed (hfront : front <+: pieces path)
    (hfilled : ofReversed front.reverse ≠ "") :
    isAbsolute (ofReversed front.reverse) = isAbsolute path := by
  have hsome : front ≠ [] := by
    rintro rfl
    exact hfilled rfl
  obtain ⟨more, hmore⟩ := ofReversed_prefix hsome hfront
  obtain ⟨c, rest, hc⟩ : ∃ c rest, (ofReversed front.reverse).toList = c :: rest := by
    refine List.exists_cons_of_ne_nil fun hnil => hfilled ?_
    exact String.toList_eq_nil_iff.mp hnil
  unfold isAbsolute
  rw [← hmore, hc]
  rfl

theorem intercalate_concat {texts : List (List Char)} (hsome : texts ≠ []) (last : List Char) :
    ['/'].intercalate (texts ++ [last]) = ['/'].intercalate texts ++ '/' :: last := by
  induction texts with
  | nil => exact absurd rfl hsome
  | cons text rest ih =>
    cases rest with
    | nil => simp [List.intercalate]
    | cons next rest =>
      rw [List.cons_append, List.cons_append, List.intercalate_cons_cons, ← List.cons_append,
        ih (List.cons_ne_nil _ _), List.intercalate_cons_cons]
      simp only [List.append_assoc]

/-- A path that does not end in a slash ends in a name. -/
theorem exists_pieces_eq (h : path ≠ "") (hslash : endsInSlash path = false) :
    ∃ front name, pieces path = front ++ [name] ∧ name ≠ "" := by
  have hsome : pieces path ≠ [] := by simp [pieces, Text.pieces_ne_nil]
  obtain ⟨front, name, hpieces⟩ := (List.eq_nil_or_concat _).resolve_left hsome
  rw [List.concat_eq_append] at hpieces
  refine ⟨front, name, hpieces, ?_⟩
  rintro rfl
  have htext : path.toList = ['/'].intercalate (front.map String.toList ++ [[]]) := by
    have hwhole := Text.intercalate_pieces '/' path.toList
    rw [← map_toList_pieces, hpieces, List.map_append] at hwhole
    exact hwhole.symm
  cases front with
  | nil => exact h (String.toList_eq_nil_iff.mp htext)
  | cons first rest =>
    rw [intercalate_concat (by simp)] at htext
    unfold endsInSlash at hslash
    rw [htext] at hslash
    simp at hslash

end Path

namespace FileTree

variable {root tree : FileTree} {location target : List String}

/-- Putting an empty directory somewhere adds nothing but directories on the way to it. -/
theorem at?_of_put_folder (h : (put (.folder []) target root).at? location = some tree) :
    root.at? location = some tree ∨ (∃ entries, tree = .folder entries) ∧ location <+: target := by
  induction target generalizing root location with
  | nil =>
    cases location with
    | nil => exact .inr ⟨⟨[], (Option.some.inj h).symm⟩, List.prefix_refl _⟩
    | cons name rest => cases h
  | cons name rest ih =>
    cases root with
    | file | null => exact .inl h
    | folder entries =>
      cases location with
      | nil => exact .inr ⟨⟨_, (Option.some.inj h).symm⟩, List.nil_prefix⟩
      | cons first inner =>
        rw [put, at?_folder_cons, lookup_setEntry] at h
        rw [at?_folder_cons]
        by_cases hsame : first = name
        · subst hsame
          rw [if_pos rfl, Option.bind_some] at h
          rcases ih h with hold | ⟨hfolder, hbelow⟩
          · cases hchild : entries.lookup first with
            | some child =>
              rw [hchild] at hold
              exact .inl hold
            | none =>
              rw [hchild] at hold
              cases inner with
              | nil =>
                exact .inr ⟨⟨[], (Option.some.inj hold).symm⟩, List.prefix_append [first] rest⟩
              | cons next inner => cases hold
          · exact .inr ⟨hfolder, List.cons_prefix_cons.mpr ⟨rfl, hbelow⟩⟩
        · rw [if_neg hsame] at h
          exact .inl h

end FileTree

namespace FileSystem

open FileTree (IsFolderAt)

variable {system : FileSystem} {trail : Trail} {names : List String}

/-- There is nothing but directories on a way, as far as there is anything. -/
def IsClear (system : FileSystem) (location names : List String) : Prop :=
  ∀ front tree, front <+: names → system.root.at? (location ++ front) = some tree →
    ∃ entries, tree = .folder entries

theorem IsClear.tail {location : List String} {name : String}
    (h : system.IsClear location (name :: names)) :
    system.IsClear (location ++ [name]) names := by
  intro front tree hfront hat
  refine h (name :: front) tree (List.cons_prefix_cons.mpr ⟨rfl, hfront⟩) ?_
  rwa [List.append_assoc] at hat

/-- A clear way leads to its end, or is reported to be missing. -/
theorem foldlM_of_isClear (htrail : system.IsTrail trail)
    (hend : ∃ entries, system.endOf trail = .folder entries)
    (hplain : ∀ name ∈ names, IsPlainName name) (hclear : system.IsClear trail.location names) :
    (∃ last entries, names.foldlM system.follow trail = .ok last ∧
        system.endOf last = .folder entries ∧ last.location = trail.location ++ names) ∨
      names.foldlM system.follow trail = .error .notFound ∧
        ¬ system.root.IsFolderAt (trail.location ++ names) := by
  induction names generalizing trail with
  | nil =>
    obtain ⟨entries, hend⟩ := hend
    exact .inl ⟨trail, entries, rfl, hend, (List.append_nil _).symm⟩
  | cons name rest ih =>
    obtain ⟨entries, hend⟩ := hend
    obtain ⟨hname, hrest⟩ := List.forall_mem_cons.mp hplain
    rw [List.foldlM_cons, follow_of_isPlainName hend hname]
    cases hlookup : entries.lookup name with
    | none =>
      refine .inr ⟨rfl, ?_⟩
      rintro ⟨inner, hinner⟩
      rw [List.append_cons, FileTree.at?_append, htrail.at?_append_name hend, hlookup] at hinner
      cases hinner
    | some tree =>
      have hat := (htrail.at?_append_name hend name).trans hlookup
      obtain ⟨inner, rfl⟩ :=
        hclear [name] tree (List.prefix_append [name] rest) hat
      have hnext := ih (htrail.cons hend hlookup) ⟨inner, rfl⟩ hrest
        (by rw [location_cons]; exact hclear.tail)
      rw [location_cons, ← List.append_cons] at hnext
      exact hnext

theorem IsClear.shorten {location less : List String} (h : system.IsClear location names)
    (hless : less <+: names) : system.IsClear location less :=
  fun front tree hfront => h front tree (hfront.trans hless)

/-- Directories were made on the way to a location, which is one now; nothing else was changed. -/
structure Grown (system made : FileSystem) (location : List String) : Prop where
  workingDirectory_eq : made.workingDirectory = system.workingDirectory
  folder : made.root.IsFolderAt location
  kept : ∀ place, system.root.IsFolderAt place → made.root.IsFolderAt place
  added : ∀ place tree, made.root.at? place = some tree →
    system.root.at? place = some tree ∨ (∃ entries, tree = .folder entries) ∧ place <+: location

namespace Grown

variable {made last : FileSystem} {location further : List String}

theorem refl (h : system.root.IsFolderAt location) : system.Grown system location :=
  ⟨rfl, h, fun _ hfolder => hfolder, fun _ _ hat => .inl hat⟩

theorem trans (h : system.Grown made location) (hbelow : location <+: further)
    (hlast : made.Grown last further) : system.Grown last further := by
  refine ⟨hlast.workingDirectory_eq.trans h.workingDirectory_eq, hlast.folder,
    fun place hplace => hlast.kept place (h.kept place hplace), fun place tree hat => ?_⟩
  rcases hlast.added place tree hat with hmade | hnew
  · rcases h.added place tree hmade with hold | ⟨hfolder, hway⟩
    · exact .inl hold
    · exact .inr ⟨hfolder, hway.trans hbelow⟩
  · exact .inr hnew

theorem isClear (h : system.Grown made location) {start : List String}
    (hclear : system.IsClear start names) : made.IsClear start names := by
  intro front tree hfront hat
  rcases h.added _ tree hat with hold | ⟨hfolder, -⟩
  · exact hclear front tree hfront hold
  · exact hfolder

theorem start_eq (h : system.Grown made location) (path : String) :
    made.start path = system.start path := by
  unfold start
  rw [h.workingDirectory_eq]

end Grown

variable {path name : String} {entries : List (String × FileTree)}

theorem makeFolder_of_leadsTo (h : system.LeadsTo path trail entries name) :
    system.makeFolder path = match entries.lookup name with
      | none => .ok { system with
          root := FileTree.put (.folder []) (trail.location ++ [name]) system.root }
      | some _ => .error .alreadyExists := by
  unfold makeFolder
  rw [h.slot_eq]
  simp only [h.plain.notPoints]
  rw [entry?_eq_ok_iff.mpr ⟨h.plain.short, rfl⟩]
  cases entries.lookup name <;> rfl

/-- A directory is there or can be made where its path leads and nothing else stands. -/
theorem exists_ensureFolder (h : system.LeadsTo path trail entries name) {location : List String}
    (hlocation : trail.location = location) (hclear : system.IsClear [] (location ++ [name])) :
    ∃ made, system.ensureFolder path = (.ok (), made) ∧ system.Grown made (location ++ [name]) := by
  subst hlocation
  have hat := h.isTrail.at?_append_name h.folder name
  unfold ensureFolder
  rw [makeFolder_of_leadsTo h]
  cases hlookup : entries.lookup name with
  | none =>
    refine ⟨_, rfl, rfl, ?_, fun place hplace => ?_, fun place tree => FileTree.at?_of_put_folder⟩
    · exact ⟨[], FileTree.at?_put_self ⟨entries, h.folder ▸ h.isTrail.at?_location⟩ name _⟩
    · refine FileTree.isFolderAt_put hplace ?_ _
      rintro ⟨inner, hinner⟩
      rw [hat, hlookup] at hinner
      cases hinner
  | some tree =>
    obtain ⟨inner, rfl⟩ := hclear _ tree (List.prefix_refl _) (hat.trans hlookup)
    have hfolder : system.isFolder path = true := by
      unfold isFolder
      rw [h.trail_cons hlookup]
      rfl
    exact ⟨system, by simp [hfolder], .refl ⟨inner, hat.trans hlookup⟩⟩

/-- A path whose way is clear leads to the directory of its last name, or that is missing. -/
theorem leadsTo_or_missing {before : List String} (hfault : Path.fault? path = none)
    (hnames : Path.names path = before ++ [name])
    (hplain : ∀ name ∈ system.start path ++ before, IsPlainName name) (hname : IsPlainName name)
    (hroot : ∃ entries, system.root = .folder entries)
    (hclear : system.IsClear [] (system.start path ++ before)) :
    (∃ trail entries, system.LeadsTo path trail entries name ∧
        trail.location = system.start path ++ before) ∨
      system.makeFolder path = .error .notFound ∧
        ¬ system.root.IsFolderAt (system.start path ++ before) := by
  have hbefore : (Path.names path).dropLast = before := by rw [hnames, List.dropLast_concat]
  rcases foldlM_of_isClear (isTrail_nil system) hroot hplain hclear with
    ⟨last, entries, hfold, hend, hlocation⟩ | ⟨hfold, hmissing⟩
  · refine .inl ⟨last, entries, ⟨by rw [hbefore, hnames], ?_, hend, hname⟩, hlocation⟩
    rw [hbefore]
    exact trail_eq_ok_iff.mpr ⟨hfault, hfold⟩
  · refine .inr ⟨?_, hmissing⟩
    have htrail : system.trail path before = .error .notFound := by
      unfold FileSystem.trail
      rw [hfault]
      exact hfold
    unfold makeFolder slot
    rw [hbefore, htrail]

/-- The directory of a part of a path. -/
theorem path_of_prefix (system : FileSystem) {piece : String} {above : List String}
    (hpiece : piece ≠ "") (hfault : Path.fault? path = none)
    (hfront : (piece :: above).reverse <+: Path.pieces path) :
    Path.fault? (Path.ofReversed (piece :: above)) = none ∧
      system.start (Path.ofReversed (piece :: above)) = system.start path ∧
      Path.names (Path.ofReversed (piece :: above)) =
        above.reverse.filter (· ≠ "") ++ [piece] := by
  have hpieces := Path.pieces_ofReversed (by simp) hfront
  rw [List.reverse_reverse] at hpieces
  have hnames : Path.names (Path.ofReversed (piece :: above)) =
      above.reverse.filter (· ≠ "") ++ [piece] := by
    rw [Path.names, hpieces, List.reverse_cons, List.filter_append]
    simp [hpiece]
  have hfilled : Path.ofReversed (piece :: above).reverse.reverse ≠ "" := by
    rw [List.reverse_reverse]
    intro hempty
    rw [hempty] at hnames
    exact List.append_ne_nil_of_right_ne_nil _ (List.cons_ne_nil _ _) hnames.symm
  have hgood := Path.fault?_ofReversed hfault hfront hfilled
  have habsolute := Path.isAbsolute_ofReversed hfront hfilled
  rw [List.reverse_reverse] at hgood habsolute
  refine ⟨hgood, ?_, hnames⟩
  unfold start
  rw [habsolute]

/-- **Directories are made as far as they are missing**, on a way that is clear. -/
theorem exists_makeFolders {reversed : List String} (hfront : reversed.reverse <+: Path.pieces path)
    (hfault : Path.fault? path = none)
    (hplain : ∀ name ∈ system.start path ++ reversed.reverse.filter (· ≠ ""), IsPlainName name)
    (hstart : system.root.IsFolderAt (system.start path))
    (hclear : system.IsClear [] (system.start path ++ reversed.reverse.filter (· ≠ ""))) :
    ∃ made, system.makeFolders reversed = (.ok (), made) ∧
      system.Grown made (system.start path ++ reversed.reverse.filter (· ≠ "")) := by
  induction reversed with
  | nil =>
    refine ⟨system, rfl, .refl ?_⟩
    rwa [List.reverse_nil, List.filter_nil, List.append_nil]
  | cons piece above ih =>
    have habove : above.reverse <+: Path.pieces path := by
      rw [List.reverse_cons] at hfront
      exact (List.prefix_append _ _).trans hfront
    by_cases hpiece : piece = ""
    · subst hpiece
      have hsame : ("" :: above).reverse.filter (· ≠ "") = above.reverse.filter (· ≠ "") := by
        simp
      rw [hsame] at hplain hclear ⊢
      exact ih habove hplain hclear
    · have hmore : (piece :: above).reverse.filter (· ≠ "") =
          above.reverse.filter (· ≠ "") ++ [piece] := by
        simp [hpiece]
      rw [hmore, ← List.append_assoc] at hplain hclear ⊢
      obtain ⟨hbefore, hname⟩ := List.forall_mem_append.mp hplain
      have hname := hname piece List.mem_cons_self
      obtain ⟨hgood, hsame, hnames⟩ := path_of_prefix system hpiece hfault hfront
      have hidle : Path.isIdle piece = false := by
        simp [Path.isIdle, hpiece, (isPoints_eq_false_iff.mp hname.notPoints).1]
      rw [← hsame] at hbefore
      rcases leadsTo_or_missing hgood hnames hbefore hname
          (FileTree.exists_folder_of_isFolderAt hstart)
          (by rw [hsame]; exact hclear.shorten (List.prefix_append _ _)) with
        ⟨trail, entries, hleads, hlocation⟩ | ⟨hmissing, -⟩
      · rw [hsame] at hlocation
        obtain ⟨made, hensure, hgrown⟩ := exists_ensureFolder hleads hlocation hclear
        refine ⟨made, ?_, hgrown⟩
        simp only [makeFolders, hidle, makeFolder_of_leadsTo hleads]
        cases entries.lookup piece <;> exact hensure
      · rw [hsame] at hbefore
        obtain ⟨middle, hmiddle, hgrown⟩ :=
          ih habove hbefore (hclear.shorten (List.prefix_append _ _))
        have hclear' := hgrown.isClear hclear
        have hsame' := (hgrown.start_eq _).trans hsame
        rw [← hsame'] at hbefore
        rcases leadsTo_or_missing hgood hnames hbefore hname
            (FileTree.exists_folder_of_isFolderAt (hgrown.kept _ hstart))
            (by rw [hsame']; exact hclear'.shorten (List.prefix_append _ _)) with
          ⟨trail, entries, hleads, hlocation⟩ | ⟨-, hnone⟩
        · rw [hsame'] at hlocation
          obtain ⟨made, hensure, hlast⟩ := exists_ensureFolder hleads hlocation hclear'
          refine ⟨made, ?_, hgrown.trans (List.prefix_append _ _) hlast⟩
          simp only [makeFolders, hidle, hmissing, hmiddle]
          exact hensure
        · rw [hsame'] at hnone
          exact absurd hgrown.folder hnone

/-! ## Files in directories that are made -/

theorem exists_create (h : system.LeadsTo path trail entries name)
    (hslash : Path.endsInSlash path = false)
    (hfree : ∀ inner, entries.lookup name ≠ some (.folder inner)) (bytes : List UInt8) :
    ∃ made, system.create path bytes = .ok made := by
  unfold create
  rw [h.slot_eq]
  simp only [h.plain.notPoints, hslash, Bool.false_eq_true, or_self, if_false]
  rw [entry?_eq_ok_iff.mpr ⟨h.plain.short, rfl⟩]
  cases hlookup : entries.lookup name with
  | none => exact ⟨_, rfl⟩
  | some tree =>
    cases tree with
    | folder inner => exact absurd hlookup (hfree inner)
    | file | null => exact ⟨_, rfl⟩

/-- Nothing keeps a file from being written under a path: it is made of names that can be used, on
its way there is nothing but directories, as far as there is anything, and at its end there is
none. -/
structure Admits (system : FileSystem) (path : String) : Prop where
  good : Path.fault? path = none
  named : Path.endsInSlash path = false
  plain : ∀ name ∈ system.start path ++ Path.names path, IsPlainName name
  here : system.root.IsFolderAt (system.start path)
  clear : system.IsClear [] (system.start path ++ (Path.names path).dropLast)
  free : ¬ system.root.IsFolderAt (system.start path ++ Path.names path)

/-- **A file can be written under every path that admits one.** -/
theorem Admits.exists_write (h : system.Admits path) (bytes : List UInt8) :
    ∃ made, system.write path bytes = (.ok (), made) := by
  have hpath : path ≠ "" := (Path.fault?_eq_none_iff.mp h.good).2.1
  obtain ⟨front, name, hpieces, hfilled⟩ := Path.exists_pieces_eq hpath h.named
  have hnames : Path.names path = front.filter (· ≠ "") ++ [name] := by
    rw [Path.names, hpieces, List.filter_append]
    simp [hfilled]
  have hclear := h.clear
  rw [hnames, List.dropLast_concat] at hclear
  have hplain := h.plain
  rw [hnames, ← List.append_assoc] at hplain
  obtain ⟨hbefore, hname⟩ := List.forall_mem_append.mp hplain
  have hname := hname name List.mem_cons_self
  have habove : Path.above path = front.reverse := by
    have hidle : Path.isIdle name = false := by
      simp [Path.isIdle, hfilled, (isPoints_eq_false_iff.mp hname.notPoints).1]
    rw [Path.above, hpieces, List.reverse_append]
    simp [hidle]
  have hfront : front.reverse.reverse <+: Path.pieces path := by
    rw [List.reverse_reverse, hpieces]
    exact List.prefix_append _ _
  rw [← List.reverse_reverse front] at hclear hbefore
  obtain ⟨middle, hmiddle, hgrown⟩ := exists_makeFolders hfront h.good hbefore h.here hclear
  rw [List.reverse_reverse] at hclear hbefore hgrown
  have hsame := hgrown.start_eq path
  rw [← hsame] at hbefore
  rcases leadsTo_or_missing h.good hnames hbefore hname
      (FileTree.exists_folder_of_isFolderAt (hgrown.kept _ h.here))
      (by rw [hsame]; exact hgrown.isClear hclear) with
    ⟨trail, entries, hleads, hlocation⟩ | ⟨-, hnone⟩
  · rw [hsame] at hlocation
    have hfree : ∀ inner, entries.lookup name ≠ some (.folder inner) := by
      intro inner hinner
      rw [← hleads.isTrail.at?_append_name hleads.folder, hlocation, List.append_assoc,
        ← hnames] at hinner
      rcases hgrown.added _ _ hinner with hold | ⟨-, hbelow⟩
      · exact h.free ⟨inner, hold⟩
      · have hlength := hbelow.length_le
        simp only [hnames, List.length_append, List.length_singleton] at hlength
        omega
    obtain ⟨made, hmade⟩ := exists_create hleads h.named hfree bytes
    refine ⟨made, ?_⟩
    unfold write
    rw [habove, hmiddle]
    simp only [hmade]
  · rw [hsame] at hnone
    exact absurd hgrown.folder hnone

theorem read_of_write {bytes : List UInt8} {made : FileSystem}
    (h : system.write path bytes = (.ok (), made)) :
    made.HoldsNull path ∨ made.read path = .ok (.ofBytes bytes) := by
  unfold write at h
  split at h
  · cases h
  · split at h
    · cases h
    · rename_i hcreate
      cases h
      exact read_of_create hcreate

/-- **What was written is read again**, through compression if the path asks for it, unless the path
leads to a device. -/
theorem openReader_of_write {codec : Codec} (hcodec : codec.RoundTrips) {content : List UInt8}
    {made : FileSystem} (hpath : path ≠ Path.standard)
    (h : system.write path (storedBytes codec path content) = (.ok (), made)) (input : Stream) :
    made.HoldsNull path ∨ (made.source codec input).openReader path = .ok (.ofBytes content) := by
  refine (read_of_write h).imp_right fun hread => ?_
  have hfile : (made.source codec input).file path = _ := hread
  unfold FileSource.openReader
  rw [if_neg hpath, hfile]
  unfold storedBytes
  cases hgzip : Path.isGzip path with
  | true =>
    change (.ok (codec.decompress (codec.compress content)) : Except FileError Stream) = _
    rw [hcodec content]
  | false => rfl

end FileSystem

end SelfPlay
