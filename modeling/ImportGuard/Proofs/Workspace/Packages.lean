import ImportGuard.Proofs.Workspace.Tree

/-!
# The packages that patterns name

A pattern comes apart into **targets**: folders, or a single file.  A folder that is added replaces the
files that its package has, and a file is put behind them.  Still every target adds its files to those
that are there and takes none away, since a package has only files of its folder (`Sound`) and a folder
brings all of them (`addTo_cases`).  So the files of a package are those that some pattern names
(`packages_eq_ok`), whatever the order of the patterns, and no file is in two packages
(`Sound.nodup_files`).
-/

namespace ImportGuard

namespace Packages

/-! ### Assigning -/

theorem lookup_map_assign (packages : Packages) (folder other : Path) (files : List Path) :
    (packages.map fun (folder', files') =>
      if folder' = folder then (folder, files) else (folder', files')).lookup other =
        if other = folder then (packages.lookup other).map fun _ => files
        else packages.lookup other := by
  induction packages with
  | nil => simp
  | cons package packages ih =>
    obtain ⟨folder', files'⟩ := package
    by_cases hfolder : folder' = folder
    · subst hfolder
      by_cases hother : other = folder'
      · simp [hother]
      · simp only [List.map_cons, if_true, List.lookup_cons, beq_eq_false_iff_ne.2 hother, ih]
    · by_cases hother : other = folder'
      · subst hother
        simp [hfolder]
      · simp only [List.map_cons, hfolder, if_false, List.lookup_cons,
          beq_eq_false_iff_ne.2 hother, ih]

theorem filesOf_assign (packages : Packages) (folder other : Path) (files : List Path) :
    (packages.assign folder files).filesOf other =
      if other = folder then files else packages.filesOf other := by
  unfold assign filesOf
  split
  · rename_i hthere
    rw [lookup_map_assign]
    split
    · rename_i hother
      subst hother
      cases hlookup : packages.lookup other with
      | some _ => rfl
      | none =>
        obtain ⟨package, hmem, hkey⟩ := List.any_eq_true.1 hthere
        have hnone := List.lookup_eq_none_iff.1 hlookup package hmem
        simp at hkey hnone
        exact absurd hkey.symm hnone
    · rfl
  · rename_i hthere
    rw [List.lookup_append]
    split
    · rename_i hother
      subst hother
      have hnone : packages.lookup other = none := by
        refine List.lookup_eq_none_iff.2 fun package hmem => bne_iff_ne.2 fun hkey => hthere ?_
        exact List.any_eq_true.2 ⟨package, hmem, decide_eq_true hkey.symm⟩
      simp [hnone]
    · rename_i hother
      have hskip : List.lookup other [(folder, files)] = none := by
        simp [List.lookup_cons, beq_eq_false_iff_ne.2 hother]
      rw [hskip, Option.or_none]

theorem map_fst_assign (packages : Packages) (folder : Path) (files : List Path) :
    (packages.assign folder files).map (·.1) =
      if folder ∈ packages.map (·.1) then packages.map (·.1)
      else packages.map (·.1) ++ [folder] := by
  have hany : packages.any (·.1 = folder) = true ↔ folder ∈ packages.map (·.1) := by
    simp [List.any_eq_true]
  unfold assign
  by_cases hthere : folder ∈ packages.map (·.1)
  · rw [if_pos (hany.2 hthere), if_pos hthere, List.map_map]
    refine List.map_congr_left fun package _ => ?_
    by_cases hfolder : package.1 = folder
    · simp [hfolder]
    · simp [hfolder]
  · rw [if_neg fun h => hthere (hany.1 h), if_neg hthere, List.map_append]
    rfl

theorem mem_assign {packages : Packages} {folder : Path} {files : List Path}
    {package : Path × List Path} (h : package ∈ packages.assign folder files) :
    package = (folder, files) ∨ package ∈ packages := by
  unfold assign at h
  split at h
  · obtain ⟨old, hold, rfl⟩ := List.mem_map.1 h
    by_cases hfolder : old.1 = folder
    · exact Or.inl (if_pos hfolder)
    · exact Or.inr (by simpa [hfolder] using hold)
  · rcases List.mem_append.1 h with h | h
    · exact Or.inr h
    · exact Or.inl (List.mem_singleton.1 h)

/-! ### Sound packages -/

/-- Packages as a search keeps them: different folders, and for each of them some of its Go files,
once each. -/
structure Sound (workspace : Workspace) (packages : Packages) : Prop where
  distinct : (packages.map (·.1)).Nodup
  nonempty : ∀ package ∈ packages, package.2 ≠ []
  nodup : ∀ package ∈ packages, package.2.Nodup
  subset : ∀ package ∈ packages, package.2 ⊆ workspace.goFilesIn package.1

variable {workspace : Workspace} {packages : Packages}

theorem sound_nil : Sound workspace [] := by
  constructor <;> simp

theorem Sound.assign (h : Sound workspace packages) {folder : Path} {files : List Path}
    (hne : files ≠ []) (hnodup : files.Nodup) (hsub : files ⊆ workspace.goFilesIn folder) :
    Sound workspace (packages.assign folder files) where
  distinct := by
    rw [map_fst_assign]
    split
    · exact h.distinct
    · rename_i hnew
      exact List.concat_eq_append ▸ h.distinct.concat hnew
  nonempty package hp := by
    rcases mem_assign hp with rfl | hp
    · exact hne
    · exact h.nonempty package hp
  nodup package hp := by
    rcases mem_assign hp with rfl | hp
    · exact hnodup
    · exact h.nodup package hp
  subset package hp := by
    rcases mem_assign hp with rfl | hp
    · exact hsub
    · exact h.subset package hp

theorem Sound.filesOf_eq (h : Sound workspace packages) {package : Path × List Path}
    (hp : package ∈ packages) : packages.filesOf package.1 = package.2 := by
  rw [filesOf, (lookup_eq_some_iff_mem h.distinct).2 hp, Option.getD_some]

/-- The files of a folder are those of its package. -/
theorem Sound.mem_filesOf (h : Sound workspace packages) {folder file : Path} :
    file ∈ packages.filesOf folder ↔ ∃ package ∈ packages, package.1 = folder ∧ file ∈ package.2 := by
  constructor
  · intro hfile
    rw [filesOf] at hfile
    cases hlookup : packages.lookup folder with
    | none => simp [hlookup] at hfile
    | some files =>
      rw [hlookup, Option.getD_some] at hfile
      exact ⟨(folder, files), (lookup_eq_some_iff_mem h.distinct).1 hlookup, rfl, hfile⟩
  · rintro ⟨package, hp, rfl, hfile⟩
    rw [h.filesOf_eq hp]
    exact hfile

theorem Sound.filesOf_subset (h : Sound workspace packages) (folder : Path) :
    packages.filesOf folder ⊆ workspace.goFilesIn folder := by
  intro file hfile
  obtain ⟨package, hp, rfl, hmem⟩ := h.mem_filesOf.1 hfile
  exact h.subset package hp hmem

theorem Sound.nodup_filesOf (h : Sound workspace packages) (folder : Path) :
    (packages.filesOf folder).Nodup := by
  rw [filesOf]
  cases hlookup : packages.lookup folder with
  | none => exact List.nodup_nil
  | some files => exact h.nodup _ ((lookup_eq_some_iff_mem h.distinct).1 hlookup)

/-- A folder has a package exactly if it has files. -/
theorem Sound.mem_folders (h : Sound workspace packages) {folder : Path} :
    folder ∈ packages.map (·.1) ↔ ∃ file, file ∈ packages.filesOf folder := by
  constructor
  · intro hfolder
    obtain ⟨package, hp, rfl⟩ := List.mem_map.1 hfolder
    obtain ⟨file, hfile⟩ := List.exists_mem_of_ne_nil _ (h.nonempty package hp)
    exact ⟨file, h.mem_filesOf.2 ⟨package, hp, rfl, hfile⟩⟩
  · rintro ⟨file, hfile⟩
    obtain ⟨package, hp, hfolder, _⟩ := h.mem_filesOf.1 hfile
    exact List.mem_map.2 ⟨package, hp, hfolder⟩

def files (packages : Packages) : List Path :=
  packages.flatMap (·.2)

theorem Sound.mem_files (h : Sound workspace packages) {file : Path} :
    file ∈ packages.files ↔ ∃ folder, file ∈ packages.filesOf folder := by
  constructor
  · intro hfile
    obtain ⟨package, hp, hfile⟩ := List.mem_flatMap.1 hfile
    exact ⟨package.1, h.mem_filesOf.2 ⟨package, hp, rfl, hfile⟩⟩
  · rintro ⟨folder, hfile⟩
    obtain ⟨package, hp, _, hfile⟩ := h.mem_filesOf.1 hfile
    exact List.mem_flatMap.2 ⟨package, hp, hfile⟩

/-- **No file is in two packages, or twice in one.** -/
theorem Sound.nodup_files (h : Sound workspace packages) (hw : workspace.WellFormed) :
    packages.files.Nodup := by
  refine List.nodup_flatMap.2 ⟨h.nodup, ?_⟩
  refine (List.pairwise_map.1 h.distinct).imp_of_mem fun {p q} hp hq hne => ?_
  intro file hfile hfile'
  -- A file tells its folder, so it cannot be in the packages of two.
  have hparent := Workspace.parent_of_mem_goFilesIn hw (h.subset p hp hfile)
  have hparent' := Workspace.parent_of_mem_goFilesIn hw (h.subset q hq hfile')
  exact hne (hparent.symm.trans hparent')

end Packages

/-! ### Targets -/

/-- What a pattern adds: the Go files of a folder, or one file. -/
inductive Target where
  | folder (path : Path)
  | file (path : Path)

namespace Target

/-- The folder whose package gets the files. -/
def home : Target → Path
  | folder path => path
  | file path => path.parent

def files (workspace : Workspace) : Target → List Path
  | folder path => workspace.goFilesIn path
  | file path => [path]

def addTo (workspace : Workspace) (packages : Packages) : Target → Packages
  | folder path => workspace.addFolder packages path
  | file path => packages.addFile path

variable {workspace : Workspace} {packages : Packages} {target : Target}

/-- **What adding a target does**: nothing if it has no files, and otherwise its folder gets these
files beside those that it has. -/
theorem addTo_cases (hw : workspace.WellFormed) (hs : packages.Sound workspace)
    (ht : target.files workspace ⊆ workspace.goFilesIn target.home) :
    (target.files workspace = [] ∧ addTo workspace packages target = packages) ∨
      ∃ files, addTo workspace packages target = packages.assign target.home files ∧
        files ≠ [] ∧ files.Nodup ∧ files ⊆ workspace.goFilesIn target.home ∧
        ∀ file, file ∈ files ↔
          file ∈ packages.filesOf target.home ∨ file ∈ target.files workspace := by
  cases target with
  | folder path =>
    cases hfiles : workspace.goFilesIn path with
    | nil =>
      refine Or.inl ⟨hfiles, ?_⟩
      simp only [addTo, Workspace.addFolder, hfiles]
    | cons first rest =>
      refine Or.inr ⟨workspace.goFilesIn path, ?_, ?_, Workspace.nodup_goFilesIn hw path,
        List.Subset.refl _, fun file => ?_⟩
      · simp only [addTo, Workspace.addFolder, hfiles, home]
      · simp [hfiles]
      · -- The files that the package had are among those of the folder.
        exact ⟨Or.inr, fun h => h.elim (fun hold => hs.filesOf_subset path hold) id⟩
  | file path =>
    by_cases hthere : path ∈ packages.filesOf path.parent
    · refine Or.inr ⟨packages.filesOf path.parent, ?_, List.ne_nil_of_mem hthere,
        hs.nodup_filesOf _, hs.filesOf_subset _, fun file => ?_⟩
      · simp [addTo, Packages.addFile, home, hthere]
      · simp only [home, files, List.mem_singleton]
        exact ⟨Or.inl, fun h => h.elim id fun he => he ▸ hthere⟩
    · refine Or.inr ⟨packages.filesOf path.parent ++ [path], ?_, by simp,
        List.concat_eq_append ▸ (hs.nodup_filesOf _).concat hthere,
        List.append_subset.2 ⟨hs.filesOf_subset _, ht⟩, fun file => List.mem_append⟩
      simp [addTo, Packages.addFile, home, hthere]

theorem sound_addTo (hw : workspace.WellFormed) (hs : packages.Sound workspace)
    (ht : target.files workspace ⊆ workspace.goFilesIn target.home) :
    (addTo workspace packages target).Sound workspace := by
  rcases addTo_cases hw hs ht with ⟨_, he⟩ | ⟨files, he, hne, hnodup, hsub, _⟩
  · rw [he]
    exact hs
  · rw [he]
    exact hs.assign hne hnodup hsub

theorem mem_filesOf_addTo (hw : workspace.WellFormed) (hs : packages.Sound workspace)
    (ht : target.files workspace ⊆ workspace.goFilesIn target.home) {folder file : Path} :
    file ∈ (addTo workspace packages target).filesOf folder ↔
      file ∈ packages.filesOf folder ∨ target.home = folder ∧ file ∈ target.files workspace := by
  rcases addTo_cases hw hs ht with ⟨hnone, he⟩ | ⟨files, he, _, _, _, hfiles⟩
  · rw [he, hnone]
    simp
  · rw [he, Packages.filesOf_assign]
    by_cases hfolder : folder = target.home
    · subst hfolder
      rw [if_pos rfl, hfiles]
      simp
    · rw [if_neg hfolder]
      simp [Ne.symm hfolder]

/-- Adding targets one after another. -/
theorem foldl_addTo {targets : List Target} (hw : workspace.WellFormed)
    (hs : packages.Sound workspace)
    (ht : ∀ t ∈ targets, t.files workspace ⊆ workspace.goFilesIn t.home) :
    (targets.foldl (addTo workspace) packages).Sound workspace ∧
      ∀ folder file, file ∈ Packages.filesOf (targets.foldl (addTo workspace) packages) folder ↔
        file ∈ packages.filesOf folder ∨
          ∃ t ∈ targets, t.home = folder ∧ file ∈ t.files workspace := by
  induction targets generalizing packages with
  | nil => exact ⟨hs, by simp⟩
  | cons target targets ih =>
    obtain ⟨htarget, htargets⟩ := List.forall_mem_cons.1 ht
    obtain ⟨hsound, hfiles⟩ := ih (sound_addTo hw hs htarget) htargets
    refine ⟨hsound, fun folder file => ?_⟩
    rw [List.foldl_cons, hfiles, mem_filesOf_addTo hw hs htarget, List.exists_mem_cons_iff, or_assoc]

end Target

/-! ### Patterns -/

namespace Workspace

def targets (workspace : Workspace) (excluded : List String) (pattern : String) :
    Except SourceError (List Target) :=
  match recursiveRoot? pattern with
  | some root =>
    if workspace.isFolder root then .ok ((workspace.foldersBelow excluded root).map .folder)
    else .error (.noFolder root)
  | none =>
    let target := Path.ofString pattern
    if workspace.isFile target && target.ending = goEnding then .ok [.file target]
    else if workspace.isFolder target then .ok [.folder target]
    else .error (.noPackage pattern)

variable {workspace : Workspace} {excluded : List String}

theorem addPattern_eq (packages : Packages) (pattern : String) :
    workspace.addPattern excluded packages pattern =
      (workspace.targets excluded pattern).map (·.foldl (Target.addTo workspace) packages) := by
  unfold addPattern targets
  cases recursiveRoot? pattern with
  | some root =>
    by_cases hfolder : workspace.isFolder root = true
    · simp only [hfolder, if_true, Except.map, List.foldl_map, Target.addTo]
    · simp only [hfolder, Except.map]
      rfl
  | none =>
    simp only
    split
    · rfl
    · split
      · rfl
      · rfl

theorem files_subset_of_mem_targets (hw : workspace.WellFormed) {pattern : String}
    {targets : List Target} (h : workspace.targets excluded pattern = .ok targets) :
    ∀ t ∈ targets, t.files workspace ⊆ workspace.goFilesIn t.home := by
  have hfolders : ∀ paths : List Path, ∀ t ∈ paths.map Target.folder,
      t.files workspace ⊆ workspace.goFilesIn t.home := by
    intro paths t ht
    obtain ⟨path, _, rfl⟩ := List.mem_map.1 ht
    exact List.Subset.refl _
  unfold Workspace.targets at h
  cases hroot : recursiveRoot? pattern with
  | some root =>
    simp only [hroot] at h
    split at h
    · cases h
      exact hfolders _
    · cases h
  | none =>
    simp only [hroot] at h
    split at h
    · rename_i hfile
      cases h
      rw [Bool.and_eq_true, decide_eq_true_eq] at hfile
      intro t ht
      rw [List.mem_singleton.1 ht]
      exact List.cons_subset.2 ⟨mem_goFilesIn_parent hw hfile.1 hfile.2, List.nil_subset _⟩
    · split at h
      · cases h
        exact hfolders [_]
      · cases h

def Names (workspace : Workspace) (excluded : List String) (pattern : String)
    (folder file : Path) : Prop :=
  ∃ targets, workspace.targets excluded pattern = .ok targets ∧
    ∃ t ∈ targets, t.home = folder ∧ file ∈ t.files workspace

/-- A search succeeds exactly if every pattern has targets. -/
theorem exists_foldlM_addPattern {patterns : List String} {packages : Packages} :
    (∃ found, patterns.foldlM (workspace.addPattern excluded) packages = .ok found) ↔
      ∀ pattern ∈ patterns, ∃ targets, workspace.targets excluded pattern = .ok targets := by
  induction patterns generalizing packages with
  | nil => exact ⟨by simp, fun _ => ⟨packages, rfl⟩⟩
  | cons pattern patterns ih =>
    rw [List.foldlM_cons, addPattern_eq, List.forall_mem_cons]
    cases workspace.targets excluded pattern with
    | error why => simp [Except.map, bind, Except.bind]
    | ok targets =>
      simp only [Except.ok.injEq, exists_eq', true_and]
      exact ih

/-- **What a search adds is what its patterns name.** -/
theorem foldlM_addPattern_eq_ok (hw : workspace.WellFormed) {patterns : List String}
    {packages found : Packages} (hs : packages.Sound workspace)
    (h : patterns.foldlM (workspace.addPattern excluded) packages = .ok found) :
    found.Sound workspace ∧
      ∀ folder file, file ∈ found.filesOf folder ↔
        file ∈ packages.filesOf folder ∨
          ∃ pattern ∈ patterns, workspace.Names excluded pattern folder file := by
  induction patterns generalizing packages with
  | nil =>
    have hfound : packages = found := by simpa [pure, Except.pure] using h
    exact ⟨hfound ▸ hs, by simp [hfound]⟩
  | cons pattern patterns ih =>
    rw [List.foldlM_cons, addPattern_eq] at h
    cases htargets : workspace.targets excluded pattern with
    | error why => simp [htargets, Except.map, bind, Except.bind] at h
    | ok targets =>
      rw [htargets] at h
      obtain ⟨hsound, hfiles⟩ := Target.foldl_addTo hw hs (files_subset_of_mem_targets hw htargets)
      obtain ⟨hfound, hall⟩ := ih hsound h
      refine ⟨hfound, fun folder file => ?_⟩
      rw [hall, hfiles, List.exists_mem_cons_iff, or_assoc]
      simp [Names, htargets]

variable {patterns : List String}

theorem exists_packages_iff (hne : patterns ≠ []) :
    (∃ found, workspace.packages excluded patterns = .ok found) ↔
      ∀ pattern ∈ patterns, ∃ targets, workspace.targets excluded pattern = .ok targets := by
  rw [packages, if_neg (by simpa using hne)]
  exact exists_foldlM_addPattern

theorem packages_eq_ok (hw : workspace.WellFormed) (hne : patterns ≠ []) {found : Packages}
    (h : workspace.packages excluded patterns = .ok found) :
    found.Sound workspace ∧
      ∀ folder file, file ∈ found.filesOf folder ↔
        ∃ pattern ∈ patterns, workspace.Names excluded pattern folder file := by
  rw [packages, if_neg (by simpa using hne)] at h
  obtain ⟨hsound, hfiles⟩ := foldlM_addPattern_eq_ok hw Packages.sound_nil h
  refine ⟨hsound, fun folder file => ?_⟩
  rw [hfiles]
  simp [Packages.filesOf]

end Workspace

end ImportGuard
