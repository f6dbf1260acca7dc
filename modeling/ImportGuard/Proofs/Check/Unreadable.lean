import ImportGuard.Proofs.Check.Patterns

/-!
# A file that cannot be read

Two checks are compared that differ in one file: in the second reading it fails (`Workspace.fail`).
Both find the same packages, since a search reads no file.  All paths that lead to the file are lost,
and the other paths give what they gave before (`read_fail_of_ne`).  So everything that the report says
of other paths stays, in its order, and each lost path moves from those that were checked to those that
were not (`check_fail_loses`).  Every path that the search finds is counted on one of the two sides
(`filesChecked_add_length`).

Patterns can lead to one file by several paths, which are then in different packages, and each of them
is lost (`not_loses_one_back`).

Findings name their file by its text.  That they can be told apart by it rests on the search: the paths
that it finds have different texts.
-/

namespace ImportGuard

/-- The report `s` is the report `r` after some paths could not be read: the findings that name one of
them are gone and the others stand as they stood, the paths are no longer counted, and there is one
more failure for each of them, while the failures from before stay in their order. -/
structure CheckReport.Loses (r s : CheckReport) (lost : List Path) (why : AccessError) : Prop where
  findings : s.findings = r.findings.filter (·.position.filename ∉ lost.map Path.render)
  filesChecked : s.filesChecked + lost.length = r.filesChecked
  unreadable : s.unreadable.Perm (r.unreadable ++ lost.map (.unreadable · why))
  kept : r.unreadable.Sublist s.unreadable

/-- Members that satisfy either of two properties, and never both, are counted by counting each. -/
theorem countP_add_countP {α : Type} {p q r : α → Bool} {l : List α}
    (h : ∀ a ∈ l, p a = (q a || r a) ∧ (q a && r a) = false) :
    l.countP q + l.countP r = l.countP p := by
  induction l with
  | nil => rfl
  | cons a l ih =>
    obtain ⟨⟨hp, hapart⟩, hrest⟩ := List.forall_mem_cons.1 h
    rw [List.countP_cons, List.countP_cons, List.countP_cons, ← ih hrest, hp]
    cases hq : q a with
    | true =>
      rw [hq, Bool.true_and] at hapart
      simp [hapart]
      omega
    | false =>
      simp
      omega

namespace Workspace

variable {workspace : Workspace} {checker : Checker} {patterns : List String} {found : Packages}

theorem sound_packages {excluded : List String} (hw : workspace.WellFormed)
    (h : workspace.packages excluded patterns = .ok found) : found.Sound workspace := by
  by_cases hne : patterns = []
  · -- without patterns a search starts from the pattern for everything
    subst hne
    have hall : workspace.packages excluded ["." ++ recursiveEnding] = .ok found := h
    exact (packages_eq_ok hw (List.cons_ne_nil _ _) hall).1
  · exact (packages_eq_ok hw hne h).1

/-! ### Every path is accounted for -/

theorem filesChecked_add_length (packages : Packages) :
    (workspace.checkPackages checker packages).filesChecked +
        (workspace.checkPackages checker packages).unreadable.length =
      packages.files.length := by
  have hfailures : (packages.reading.filterMap workspace.failureAt?).length =
      packages.files.countP fun path => !workspace.isReadable path := by
    rw [List.length_filterMap_eq_countP, packages.perm_reading.countP_eq]
    simp only [isSome_failureAt?]
  rw [filesChecked_checkPackages, unreadable_checkPackages, hfailures,
    packages.files.length_eq_countP_add_countP workspace.isReadable]
  simp

/-! ### A file that fails -/

section Fail

variable {number : Nat} {content : List UInt8} {path : Path}

theorem lt_length_of_content (h : workspace.contents[number]? = some (.ok content)) :
    number < workspace.contents.length :=
  (List.getElem?_eq_some_iff.1 h).1

theorem isReadable_of_fileAt? (h : workspace.contents[number]? = some (.ok content))
    (hpath : workspace.fileAt? path = some number) : workspace.isReadable path = true := by
  rw [isReadable, read_of_fileAt? hpath, List.getD_eq_getElem?_getD, h]
  rfl

theorem packages_fail (excluded : List String) (why : AccessError) :
    (workspace.fail number why).packages excluded patterns =
      workspace.packages excluded patterns :=
  rfl

theorem isReadable_fail (h : workspace.contents[number]? = some (.ok content))
    (why : AccessError) (path : Path) :
    (workspace.fail number why).isReadable path =
      (workspace.isReadable path && decide (workspace.fileAt? path ≠ some number)) := by
  unfold isReadable
  by_cases hpath : workspace.fileAt? path = some number
  · rw [read_fail_of_fileAt? hpath (lt_length_of_content h), decide_eq_false (not_not_intro hpath),
      Bool.and_false]
    rfl
  · rw [read_fail_of_ne hpath, decide_eq_true hpath, Bool.and_true]

theorem failureAt?_fail_of_fileAt? (h : workspace.contents[number]? = some (.ok content))
    (why : AccessError) (hpath : workspace.fileAt? path = some number) :
    (workspace.fail number why).failureAt? path = some (.unreadable path why) ∧
      workspace.failureAt? path = none := by
  refine ⟨?_, ?_⟩
  · rw [failureAt?, read_fail_of_fileAt? hpath (lt_length_of_content h)]
  · rw [← Option.not_isSome_iff_eq_none, isSome_failureAt?, isReadable_of_fileAt? h hpath]
    decide

theorem failureAt?_fail_of_ne (why : AccessError) (hpath : workspace.fileAt? path ≠ some number) :
    (workspace.fail number why).failureAt? path = workspace.failureAt? path := by
  rw [failureAt?, failureAt?, read_fail_of_ne hpath]

theorem findingsAt_fail_of_fileAt? (h : workspace.contents[number]? = some (.ok content))
    (why : AccessError) (hpath : workspace.fileAt? path = some number) :
    (workspace.fail number why).findingsAt checker path = [] := by
  rw [findingsAt, sourceAt?, readSource, read_fail_of_fileAt? hpath (lt_length_of_content h)]
  simp [Except.toOption, Analyzer.run]

theorem findingsAt_fail_of_ne (why : AccessError) (hpath : workspace.fileAt? path ≠ some number) :
    (workspace.fail number why).findingsAt checker path = workspace.findingsAt checker path := by
  rw [findingsAt, findingsAt, sourceAt?, sourceAt?, readSource, readSource, read_fail_of_ne hpath]

/-! ### What the report loses -/

/-- The paths in packages that lead to a file. -/
def pathsTo (workspace : Workspace) (number : Nat) (packages : Packages) : List Path :=
  (packages.flatMap (·.2)).filter fun path => workspace.fileAt? path = some number

theorem mem_pathsTo :
    path ∈ workspace.pathsTo number found ↔
      path ∈ found.files ∧ workspace.fileAt? path = some number := by
  rw [pathsTo, List.mem_filter, decide_eq_true_iff]
  rfl

/-- A path that is found has the text of a lost one only if it is lost itself. -/
theorem render_mem_pathsTo_iff (hw : workspace.WellFormed) (hs : found.Sound workspace)
    (number : Nat) (hpath : path ∈ found.reading) :
    path.render ∈ (workspace.pathsTo number found).map Path.render ↔
      workspace.fileAt? path = some number := by
  constructor
  · intro hmem
    obtain ⟨other, hother, hrender⟩ := List.mem_map.1 hmem
    obtain ⟨hfiles, hnumber⟩ := mem_pathsTo.1 hother
    have hinj := List.inj_on_of_nodup_map (hs.nodup_map_render hw)
    exact hinj (found.perm_reading.mem_iff.2 hfiles) hpath hrender ▸ hnumber
  · intro hnumber
    refine List.mem_map_of_mem (mem_pathsTo.2 ⟨?_, hnumber⟩)
    exact found.perm_reading.mem_iff.1 hpath

theorem findings_checkPackages_fail (hw : workspace.WellFormed) (hs : found.Sound workspace)
    (h : workspace.contents[number]? = some (.ok content)) (why : AccessError) :
    ((workspace.fail number why).checkPackages checker found).findings =
      (workspace.checkPackages checker found).findings.filter
        (·.position.filename ∉ (workspace.pathsTo number found).map Path.render) := by
  rw [findings_checkPackages, findings_checkPackages, Finding.filter_sort, List.filter_flatMap]
  refine congrArg Finding.sort (List.flatMap_congr fun path hpath => ?_)
  have hname : ∀ f ∈ workspace.findingsAt checker path, f.position.filename = path.render :=
    fun f hf => filename_of_mem_findingsAt hf
  have hmem := render_mem_pathsTo_iff hw hs number hpath
  by_cases hnumber : workspace.fileAt? path = some number
  · rw [findingsAt_fail_of_fileAt? h why hnumber, eq_comm, List.filter_eq_nil_iff]
    intro f hf
    rw [hname f hf, decide_eq_true_iff]
    exact not_not_intro (hmem.2 hnumber)
  · rw [findingsAt_fail_of_ne why hnumber, eq_comm, List.filter_eq_self]
    intro f hf
    rw [hname f hf, decide_eq_true_iff]
    exact mt hmem.1 hnumber

theorem filesChecked_checkPackages_fail (h : workspace.contents[number]? = some (.ok content))
    (why : AccessError) (found : Packages) :
    ((workspace.fail number why).checkPackages checker found).filesChecked +
        (workspace.pathsTo number found).length =
      (workspace.checkPackages checker found).filesChecked := by
  rw [filesChecked_checkPackages, filesChecked_checkPackages, pathsTo,
    ← List.countP_eq_length_filter]
  refine countP_add_countP fun path _ => ?_
  rw [isReadable_fail h]
  by_cases hnumber : workspace.fileAt? path = some number
  · simp [hnumber, isReadable_of_fileAt? h hnumber]
  · simp [hnumber]

/-- Along any paths, the failures from before stay, and each lost path adds one. -/
theorem filterMap_failureAt?_fail (h : workspace.contents[number]? = some (.ok content))
    (why : AccessError) (paths : List Path) :
    (paths.filterMap (workspace.fail number why).failureAt?).Perm
        (paths.filterMap workspace.failureAt? ++
          (paths.filter fun path => workspace.fileAt? path = some number).map
            (.unreadable · why)) ∧
      (paths.filterMap workspace.failureAt?).Sublist
        (paths.filterMap (workspace.fail number why).failureAt?) := by
  induction paths with
  | nil => exact ⟨List.Perm.refl _, List.Sublist.refl _⟩
  | cons path paths ih =>
    obtain ⟨hperm, hsub⟩ := ih
    by_cases hnumber : workspace.fileAt? path = some number
    · obtain ⟨hsome, hnone⟩ := failureAt?_fail_of_fileAt? h why hnumber
      rw [List.filterMap_cons_some hsome, List.filterMap_cons_none hnone,
        List.filter_cons_of_pos (by simpa using hnumber), List.map_cons]
      exact ⟨(hperm.cons _).trans List.perm_middle.symm, hsub.cons _⟩
    · rw [List.filter_cons_of_neg (by simpa using hnumber), List.filterMap_cons,
        List.filterMap_cons, failureAt?_fail_of_ne why hnumber]
      cases workspace.failureAt? path with
      | none => exact ⟨hperm, hsub⟩
      | some failure => exact ⟨hperm.cons _, hsub.cons_cons _⟩

/-- **The report loses the paths to the file, and nothing else.** -/
theorem loses_checkPackages_fail (hw : workspace.WellFormed) (checker : Checker)
    (hs : found.Sound workspace)
    (h : workspace.contents[number]? = some (.ok content)) (why : AccessError) :
    (workspace.checkPackages checker found).Loses
      ((workspace.fail number why).checkPackages checker found)
      (workspace.pathsTo number found) why := by
  obtain ⟨hperm, hsub⟩ := filterMap_failureAt?_fail h why found.reading
  refine ⟨findings_checkPackages_fail hw hs h why, filesChecked_checkPackages_fail h why found,
    ?_, ?_⟩
  · rw [unreadable_checkPackages, unreadable_checkPackages]
    exact hperm.trans (((found.perm_reading.filter _).map _).append_left _)
  · rw [unreadable_checkPackages, unreadable_checkPackages]
    exact hsub

/-! ### What becomes of the packages -/

/-- A package has files that can be read, and all of them are one file. -/
def hasOnly (workspace : Workspace) (number : Nat) (package : Path × List Path) : Bool :=
  package.2.any workspace.isReadable &&
    package.2.all fun path => !workspace.isReadable path || workspace.fileAt? path = some number

theorem hasOnly_iff {package : Path × List Path} :
    workspace.hasOnly number package = true ↔
      (∃ path ∈ package.2, workspace.isReadable path = true) ∧
        ∀ path ∈ package.2, workspace.isReadable path = true →
          workspace.fileAt? path = some number := by
  rw [hasOnly, Bool.and_eq_true, List.any_eq_true, List.all_eq_true]
  refine and_congr_right fun _ => forall₂_congr fun path _ => ?_
  cases workspace.isReadable path with
  | true => simp
  | false => simp

/-- **The packages that are no longer checked** are those of which the file was all that could be
read. -/
theorem packagesChecked_checkPackages_fail (checker : Checker)
    (h : workspace.contents[number]? = some (.ok content)) (why : AccessError) (found : Packages) :
    ((workspace.fail number why).checkPackages checker found).packagesChecked +
        found.countP (workspace.hasOnly number) =
      (workspace.checkPackages checker found).packagesChecked := by
  rw [packagesChecked_checkPackages, packagesChecked_checkPackages]
  refine countP_add_countP fun package _ => ?_
  have hleft : package.2.any (workspace.fail number why).isReadable = true ↔
      ∃ path ∈ package.2, workspace.isReadable path = true ∧
        workspace.fileAt? path ≠ some number := by
    rw [List.any_eq_true]
    simp only [isReadable_fail h, Bool.and_eq_true, decide_eq_true_iff]
  rw [Bool.eq_iff_iff, Bool.or_eq_true, Bool.and_eq_false_imp, hleft, hasOnly_iff,
    ← Bool.not_eq_true, hasOnly_iff, List.any_eq_true]
  constructor
  · constructor
    · rintro ⟨path, hpath, hreadable⟩
      by_cases hall : ∀ other ∈ package.2, workspace.isReadable other = true →
          workspace.fileAt? other = some number
      · exact Or.inr ⟨⟨path, hpath, hreadable⟩, hall⟩
      · push Not at hall
        exact Or.inl hall
    · rintro (⟨path, hpath, hreadable, _⟩ | ⟨hany, _⟩)
      · exact ⟨path, hpath, hreadable⟩
      · exact hany
  · rintro ⟨path, hpath, hreadable, hne⟩ ⟨_, hall⟩
    exact hne (hall path hpath hreadable)

/-- If one path leads to the file, only its package can have nothing else. -/
theorem countP_hasOnly (hw : workspace.WellFormed) (hs : found.Sound workspace)
    {package : Path × List Path} (hpackage : package ∈ found) {file : Path}
    (hfile : file ∈ package.2) (honly : workspace.pathsTo number found = [file]) :
    found.countP (workspace.hasOnly number) =
      if workspace.hasOnly number package then 1 else 0 := by
  have hother : ∀ other ∈ found, workspace.hasOnly number other = true → other = package := by
    intro other hmem hhas
    obtain ⟨⟨path, hpath, hreadable⟩, hall⟩ := hasOnly_iff.1 hhas
    have hlost : path ∈ workspace.pathsTo number found :=
      mem_pathsTo.2 ⟨List.mem_flatMap.2 ⟨other, hmem, hpath⟩, hall path hpath hreadable⟩
    rw [honly, List.mem_singleton] at hlost
    -- a path tells its folder, and a folder its package
    have hparent := parent_of_mem_goFilesIn hw (hs.subset package hpackage hfile)
    have hparent' := parent_of_mem_goFilesIn hw (hs.subset other hmem hpath)
    rw [hlost] at hparent'
    exact List.inj_on_of_nodup_map hs.distinct hmem hpackage (hparent'.symm.trans hparent)
  have hnodup : found.Nodup := List.Nodup.of_map _ hs.distinct
  split
  · rename_i hhas
    have hcount : found.countP (workspace.hasOnly number) = found.count package := by
      refine List.countP_congr fun other hmem => ?_
      rw [beq_iff_eq]
      exact ⟨hother other hmem, fun he => he ▸ hhas⟩
    rw [hcount, List.count_eq_one_of_mem hnodup hpackage]
  · rename_i hhas
    refine List.countP_eq_zero.2 fun other hmem hother' => hhas ?_
    exact hother other hmem hother' ▸ hother'

end Fail

/-- **A file that cannot be read is isolated and accounted for.**  A check of the packages that a
search finds succeeds, and counts each path that the search finds as checked or as unreadable.  Take a
file that can be read, and let reading it fail: the check succeeds too, and its report has lost the
paths that lead to the file and nothing else.  It counts fewer packages by those of which the file was all
that could be read.  If a single path leads to the file, that path is all that is lost, and one package
less is counted exactly if it was the only one of its package that could be read. -/
theorem check_fail_loses (hw : workspace.WellFormed) (checker : Checker) (patterns : List String)
    {found : Packages} (hfound : workspace.packages checker.excluded patterns = .ok found) :
    ∃ r, (workspace.check checker patterns).1 = .ok r ∧
      r.filesChecked + r.unreadable.length = (found.flatMap (·.2)).length ∧
      ∀ number content why, workspace.contents[number]? = some (.ok content) →
        ∃ s, ((workspace.fail number why).check checker patterns).1 = .ok s ∧
          r.Loses s (workspace.pathsTo number found) why ∧
          s.packagesChecked + found.countP (workspace.hasOnly number) = r.packagesChecked ∧
          ∀ package ∈ found, ∀ file ∈ package.2, workspace.pathsTo number found = [file] →
            r.Loses s [file] why ∧
            (s.packagesChecked = r.packagesChecked ∨ s.packagesChecked + 1 = r.packagesChecked) ∧
            (s.packagesChecked + 1 = r.packagesChecked ↔
              ∀ other ∈ package.2, workspace.isReadable other = true → other = file) := by
  have hs := sound_packages hw hfound
  refine ⟨_, check_fst_of_packages checker hfound, filesChecked_add_length found, ?_⟩
  intro number content why hcontent
  have hloses := loses_checkPackages_fail hw checker hs hcontent why
  have hcount := packagesChecked_checkPackages_fail checker hcontent why found
  have hfail : (workspace.fail number why).packages checker.excluded patterns = .ok found :=
    (packages_fail _ why).trans hfound
  refine ⟨_, check_fst_of_packages checker hfail, hloses, hcount, ?_⟩
  intro package hpackage file hfile honly
  rw [honly] at hloses
  have hself : file ∈ workspace.pathsTo number found := honly ▸ List.mem_singleton_self file
  have hnumber := (mem_pathsTo.1 hself).2
  have hhas : workspace.hasOnly number package = true ↔
      ∀ other ∈ package.2, workspace.isReadable other = true → other = file := by
    rw [hasOnly_iff, and_iff_right ⟨file, hfile, isReadable_of_fileAt? hcontent hnumber⟩]
    refine forall₃_congr fun other hother _ => ⟨fun hlost => ?_, fun he => he ▸ hnumber⟩
    have hmem : other ∈ workspace.pathsTo number found :=
      mem_pathsTo.2 ⟨List.mem_flatMap.2 ⟨package, hpackage, hother⟩, hlost⟩
    rw [honly] at hmem
    exact List.mem_singleton.1 hmem
  rw [countP_hasOnly hw hs hpackage hfile honly] at hcount
  refine ⟨hloses, ?_, ?_⟩
  · split at hcount
    · exact Or.inr hcount
    · exact Or.inl hcount
  · rw [← hhas]
    split at hcount
    · rename_i h
      exact iff_of_true hcount h
    · rename_i h
      exact iff_of_false (by omega) h

/-- The last file is alone in its package, and the first is not. -/
theorem check_fail_loses_sample :
    sampleWorkspace.WellFormed ∧
    sampleWorkspace.packages sampleChecker.excluded ["a/x.go", "a/y.go", "b/z.go"] =
      .ok [(⟨.here, ["a"]⟩, [⟨.here, ["a", "x.go"]⟩, ⟨.here, ["a", "y.go"]⟩]),
        (⟨.here, ["b"]⟩, [⟨.here, ["b", "z.go"]⟩])] ∧
    ∃ r s t, (sampleWorkspace.check sampleChecker ["a/x.go", "a/y.go", "b/z.go"]).1 = .ok r ∧
      ((sampleWorkspace.fail 2 .denied).check sampleChecker
        ["a/x.go", "a/y.go", "b/z.go"]).1 = .ok s ∧
      ((sampleWorkspace.fail 0 .denied).check sampleChecker
        ["a/x.go", "a/y.go", "b/z.go"]).1 = .ok t ∧
      r.filesChecked + r.unreadable.length = 3 ∧
      r.Loses s [⟨.here, ["b", "z.go"]⟩] .denied ∧ s.packagesChecked + 1 = r.packagesChecked ∧
      r.Loses t [⟨.here, ["a", "x.go"]⟩] .denied ∧ t.packagesChecked = r.packagesChecked := by
  have hfound : sampleWorkspace.packages sampleChecker.excluded ["a/x.go", "a/y.go", "b/z.go"] =
      .ok [(⟨.here, ["a"]⟩, [⟨.here, ["a", "x.go"]⟩, ⟨.here, ["a", "y.go"]⟩]),
        (⟨.here, ["b"]⟩, [⟨.here, ["b", "z.go"]⟩])] := by
    decide +kernel
  obtain ⟨r, hr, hcount, hall⟩ :=
    check_fail_loses wellFormed_sampleWorkspace sampleChecker _ hfound
  obtain ⟨s, hs, _, _, hsingle⟩ := hall 2 [] .denied rfl
  obtain ⟨hloses, _, honly⟩ := hsingle (⟨.here, ["b"]⟩, [⟨.here, ["b", "z.go"]⟩]) (by simp)
    ⟨.here, ["b", "z.go"]⟩ (by simp) (by decide)
  obtain ⟨t, ht, _, _, hsingle'⟩ := hall 0 [] .denied rfl
  obtain ⟨hloses', hpackages, hnot⟩ :=
    hsingle' (⟨.here, ["a"]⟩, [⟨.here, ["a", "x.go"]⟩, ⟨.here, ["a", "y.go"]⟩]) (by simp)
      ⟨.here, ["a", "x.go"]⟩ (by simp) (by decide)
  refine ⟨wellFormed_sampleWorkspace, hfound, r, s, t, hr, hs, ht, hcount, hloses, honly.2 ?_,
    hloses', hpackages.resolve_right (mt hnot.1 ?_)⟩
  · intro other hmem _
    exact List.mem_singleton.1 hmem
  · intro hsame
    exact absurd (hsame ⟨.here, ["a", "y.go"]⟩ (by simp) rfl) (by decide)

def backWorkspace : Workspace :=
  ({} : Workspace).addFile (Path.ofString "a/x.go") (.ok [])

def backPackages : Packages :=
  [(⟨.here, ["a"]⟩, [⟨.here, ["a", "x.go"]⟩]),
    (⟨.here, ["a", "..", "a"]⟩, [⟨.here, ["a", "..", "a", "x.go"]⟩])]

/-- **One file can be lost twice.** -/
theorem not_loses_one_back :
    backWorkspace.WellFormed ∧
    backWorkspace.packages sampleChecker.excluded ["a/x.go", "a/../a/x.go"] =
      .ok backPackages ∧
    backWorkspace.contents[0]? = some (.ok []) ∧
    backWorkspace.fileAt? ⟨.here, ["a", "x.go"]⟩ = some 0 ∧
    ∃ r s, (backWorkspace.check sampleChecker ["a/x.go", "a/../a/x.go"]).1 = .ok r ∧
      ((backWorkspace.fail 0 .denied).check sampleChecker ["a/x.go", "a/../a/x.go"]).1 = .ok s ∧
      r.unreadable.length = 0 ∧ s.unreadable.length = 2 ∧
      r.filesChecked = 2 ∧ s.filesChecked = 0 ∧ r.packagesChecked = 2 ∧ s.packagesChecked = 0 ∧
      ¬ r.Loses s [⟨.here, ["a", "x.go"]⟩] .denied := by
  have hw : backWorkspace.WellFormed := (wellFormed_empty []).addFile (by decide) _
  have hfound : backWorkspace.packages sampleChecker.excluded ["a/x.go", "a/../a/x.go"] =
      .ok backPackages := by
    decide +kernel
  have hfail : (backWorkspace.fail 0 .denied).packages sampleChecker.excluded
      ["a/x.go", "a/../a/x.go"] = .ok backPackages :=
    (packages_fail _ .denied).trans hfound
  have hr : (backWorkspace.checkPackages sampleChecker backPackages).filesChecked = 2 := by
    rw [filesChecked_checkPackages]
    decide
  have hs : ((backWorkspace.fail 0 .denied).checkPackages sampleChecker
      backPackages).filesChecked = 0 := by
    rw [filesChecked_checkPackages]
    decide
  refine ⟨hw, hfound, rfl, rfl, _, _, check_fst_of_packages sampleChecker hfound,
    check_fst_of_packages sampleChecker hfail, ?_, ?_, hr, hs, ?_, ?_, ?_⟩
  · rw [unreadable_checkPackages, List.length_filterMap_eq_countP, backPackages.perm_reading.countP_eq]
    decide
  · rw [unreadable_checkPackages, List.length_filterMap_eq_countP, backPackages.perm_reading.countP_eq]
    decide
  · rw [packagesChecked_checkPackages]
    decide
  · rw [packagesChecked_checkPackages]
    decide
  · intro hloses
    have hone := hloses.filesChecked
    rw [hr, hs] at hone
    exact absurd hone (by decide)

end Workspace

end ImportGuard
