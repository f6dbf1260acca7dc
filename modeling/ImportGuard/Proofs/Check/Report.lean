import ImportGuard.Check
import ImportGuard.Proofs.Analysis.Suppression
import ImportGuard.Proofs.Finding.Order
import ImportGuard.Proofs.Workspace.Packages

/-!
# What a check reports

A check goes through packages and adds to a report.  All that it reports, the notes apart, comes from
single files: a file can be read or not (`isReadable`, `failureAt?`), and if it can, it has findings
(`findingsAt`), all of which name it (`filename_of_mem_findingsAt`).  The report lists and counts these
over the files in the order in which they are read.
-/

namespace ImportGuard

namespace Analyzer

/-- Every finding of a file names the file. -/
theorem filename_of_mem_findings {analyzer : Analyzer} {file : SourceFile} {f : Finding}
    (h : f ∈ (analyzer.checkFile file).findings) : f.position.filename = file.filename := by
  cases hfault : f.cause.isFault with
  | false =>
    obtain ⟨rule, _, spec, _, _, hdue⟩ := exists_due_of_mem_findings h hfault
    rcases cause_of_mem_due hdue with rfl | ⟨_, name, use, _, hposition⟩
    · rfl
    · rw [hposition]
      rfl
  | true =>
    obtain ⟨group, _, option, hmem⟩ :=
      exists_group_of_fault (mem_output_of_mem_findings h) hfault
    obtain ⟨comment, _, hposition⟩ := Register.position_of_mem_faultsIn hmem
    rw [hposition]
    rfl

end Analyzer

namespace Packages

/-- The files of packages in the order in which they are read. -/
def reading (packages : Packages) : List Path :=
  packages.flatMap fun package => Path.sort package.2

@[simp] theorem reading_cons (package : Path × List Path) (packages : Packages) :
    reading (package :: packages) = Path.sort package.2 ++ packages.reading :=
  List.flatMap_cons

@[simp] theorem files_cons (package : Path × List Path) (packages : Packages) :
    files (package :: packages) = package.2 ++ packages.files :=
  List.flatMap_cons

theorem perm_reading (packages : Packages) : packages.reading.Perm packages.files :=
  List.Perm.flatMap_left packages fun package _ => List.mergeSort_perm package.2 _

/-- The files of packages have different texts, since their paths are different and plain. -/
theorem Sound.nodup_map_render {workspace : Workspace} {packages : Packages}
    (hs : packages.Sound workspace) (hw : workspace.WellFormed) :
    (packages.reading.map Path.render).Nodup := by
  have hplain : ∀ path ∈ packages.reading, path.Plain := by
    intro path hpath
    obtain ⟨folder, hmem⟩ := hs.mem_files.1 (packages.perm_reading.mem_iff.1 hpath)
    obtain ⟨_, _, _, hfile⟩ := (Workspace.mem_goFilesIn hw).1 (hs.filesOf_subset folder hmem)
    exact hw.plain_of_isFile hfile
  refine List.Nodup.map_on ?_ (packages.perm_reading.nodup_iff.2 (hs.nodup_files hw))
  intro p hp q hq hpq
  exact Path.render_injective (hplain p hp) (hplain q hq) hpq

end Packages

namespace Workspace

/-! ### Single files -/

def isReadable (workspace : Workspace) (path : Path) : Bool :=
  (workspace.read path).toOption.isSome

def failureAt? (workspace : Workspace) (path : Path) : Option SourceError :=
  match workspace.read path with
  | .error why => some (.unreadable path why)
  | .ok _ => none

def sourceAt? (workspace : Workspace) (parse : Parser) (path : Path) : Option SourceFile :=
  (workspace.readSource parse path).toOption

def findingsAt (workspace : Workspace) (checker : Checker) (path : Path) : List Finding :=
  (checker.analyzer.run (workspace.sourceAt? checker.parse path).toList).flatMap (·.findings)

variable {workspace : Workspace} {checker : Checker}

theorem readSource_eq (workspace : Workspace) (parse : Parser) (path : Path) :
    (∃ why, workspace.read path = .error why ∧
        workspace.readSource parse path = .error (.unreadable path why)) ∨
      ∃ content, workspace.read path = .ok content ∧
        workspace.readSource parse path = .ok (SourceFile.read parse path.render content) := by
  unfold readSource
  cases workspace.read path with
  | error why => exact Or.inl ⟨why, rfl, rfl⟩
  | ok content => exact Or.inr ⟨content, rfl, rfl⟩

/-- A file that can be read is named by its path. -/
theorem exists_eq_read_of_sourceAt? {parse : Parser} {path : Path} {file : SourceFile}
    (h : workspace.sourceAt? parse path = some file) :
    ∃ content, workspace.read path = .ok content ∧
      file = SourceFile.read parse path.render content := by
  unfold sourceAt? at h
  rcases readSource_eq workspace parse path with ⟨why, _, hsource⟩ | ⟨content, hread, hsource⟩
  · rw [hsource] at h
    exact absurd h (by simp [Except.toOption])
  · rw [hsource] at h
    exact ⟨content, hread, (Option.some.inj h).symm⟩

theorem isSome_sourceAt? (parse : Parser) (path : Path) :
    (workspace.sourceAt? parse path).isSome = workspace.isReadable path := by
  unfold sourceAt? isReadable
  rcases readSource_eq workspace parse path with ⟨why, hread, hsource⟩ | ⟨content, hread, hsource⟩
  · rw [hread, hsource]
    rfl
  · rw [hread, hsource]
    rfl

theorem isSome_failureAt? (path : Path) :
    (workspace.failureAt? path).isSome = !workspace.isReadable path := by
  unfold failureAt? isReadable
  cases workspace.read path with
  | error why => rfl
  | ok content => rfl

/-- The findings of a file that is read are those of its analysis. -/
theorem exists_file_of_mem_findingsAt {path : Path} {f : Finding}
    (h : f ∈ workspace.findingsAt checker path) :
    ∃ file, workspace.sourceAt? checker.parse path = some file ∧
      f ∈ (checker.analyzer.checkFile file).findings := by
  unfold findingsAt Analyzer.run at h
  split at h
  · exact absurd h List.not_mem_nil
  · cases hsource : workspace.sourceAt? checker.parse path with
    | none => simp [hsource] at h
    | some file =>
      rw [hsource, Option.toList_some, List.map_singleton, List.flatMap_singleton] at h
      exact ⟨file, rfl, h⟩

theorem filename_of_mem_findingsAt {path : Path} {f : Finding}
    (h : f ∈ workspace.findingsAt checker path) : f.position.filename = path.render := by
  obtain ⟨file, hfile, hf⟩ := exists_file_of_mem_findingsAt h
  obtain ⟨content, _, rfl⟩ := exists_eq_read_of_sourceAt? hfile
  exact Analyzer.filename_of_mem_findings hf

theorem readable_map (parse : Parser) (paths : List Path) :
    readable (paths.map (workspace.readSource parse)) =
      paths.filterMap (workspace.sourceAt? parse) := by
  rw [readable, List.filterMap_map]
  rfl

theorem failures_map (parse : Parser) (paths : List Path) :
    failures (paths.map (workspace.readSource parse)) =
      paths.filterMap workspace.failureAt? := by
  rw [failures, List.filterMap_map]
  refine List.filterMap_congr fun path _ => ?_
  unfold failureAt?
  rw [Function.comp_apply]
  rcases readSource_eq workspace parse path with ⟨why, hread, hsource⟩ | ⟨content, hread, hsource⟩
  · rw [hread, hsource]
  · rw [hread, hsource]

theorem length_filterMap_sourceAt? (parse : Parser) (paths : List Path) :
    (paths.filterMap (workspace.sourceAt? parse)).length = paths.countP workspace.isReadable := by
  rw [List.length_filterMap_eq_countP]
  simp only [isSome_sourceAt?]

theorem flatMap_findings_run (checker : Checker) (paths : List Path) :
    (checker.analyzer.run (paths.filterMap (workspace.sourceAt? checker.parse))).flatMap
        (·.findings) =
      paths.flatMap (workspace.findingsAt checker) := by
  induction paths with
  | nil => simp [Analyzer.run]
  | cons path paths ih =>
    rw [List.flatMap_cons, ← ih, List.filterMap_cons]
    unfold findingsAt Analyzer.run
    cases workspace.sourceAt? checker.parse path with
    | none => simp
    | some file =>
      by_cases hrules : checker.analyzer.rules.isEmpty = true
      · simp [hrules]
      · simp [hrules]

/-! ### Packages -/

/-- What the check of a package adds to a report. -/
theorem checkPackage_eq (workspace : Workspace) (checker : Checker) (report : CheckReport)
    (files : List Path) :
    (workspace.checkPackage checker report files).findings =
        report.findings ++ (Path.sort files).flatMap (workspace.findingsAt checker) ∧
      (workspace.checkPackage checker report files).filesChecked =
        report.filesChecked + files.countP workspace.isReadable ∧
      (workspace.checkPackage checker report files).packagesChecked =
        report.packagesChecked + (if files.any workspace.isReadable then 1 else 0) ∧
      (workspace.checkPackage checker report files).unreadable =
        report.unreadable ++ (Path.sort files).filterMap workspace.failureAt? := by
  have hcount : ((Path.sort files).filterMap (workspace.sourceAt? checker.parse)).length =
      files.countP workspace.isReadable := by
    rw [length_filterMap_sourceAt?]
    exact (List.mergeSort_perm files _).countP_eq _
  have hempty : ((Path.sort files).filterMap (workspace.sourceAt? checker.parse)).isEmpty =
      !files.any workspace.isReadable := by
    rw [Bool.eq_iff_iff, List.isEmpty_iff_length_eq_zero, hcount, List.countP_eq_zero]
    simp
  simp only [checkPackage, readable_map, failures_map, flatMap_findings_run, hcount, hempty,
    true_and, and_true]
  cases files.any workspace.isReadable with
  | true => rfl
  | false => rfl

theorem foldl_checkPackage (workspace : Workspace) (checker : Checker) (packages : Packages)
    (report : CheckReport) :
    let done := packages.foldl (fun report package =>
      workspace.checkPackage checker report package.2) report
    done.findings =
        report.findings ++ packages.reading.flatMap (workspace.findingsAt checker) ∧
      done.filesChecked = report.filesChecked + packages.files.countP workspace.isReadable ∧
      done.packagesChecked =
        report.packagesChecked + packages.countP (fun package => package.2.any workspace.isReadable) ∧
      done.unreadable = report.unreadable ++ packages.reading.filterMap workspace.failureAt? := by
  induction packages generalizing report with
  | nil => simp [Packages.reading, Packages.files]
  | cons package packages ih =>
    obtain ⟨hfindings, hfiles, hpackages, hunreadable⟩ :=
      checkPackage_eq workspace checker report package.2
    obtain ⟨hfindings', hfiles', hpackages', hunreadable'⟩ :=
      ih (workspace.checkPackage checker report package.2)
    simp only [List.foldl_cons]
    refine ⟨?_, ?_, ?_, ?_⟩
    · rw [hfindings', hfindings, Packages.reading_cons, List.flatMap_append, List.append_assoc]
    · rw [hfiles', hfiles, Packages.files_cons, List.countP_append, Nat.add_assoc]
    · rw [hpackages', hpackages, List.countP_cons, Nat.add_right_comm, Nat.add_assoc]
    · rw [hunreadable', hunreadable, Packages.reading_cons, List.filterMap_append,
        List.append_assoc]

variable (packages : Packages)

theorem findings_checkPackages :
    (workspace.checkPackages checker packages).findings =
      Finding.sort (packages.reading.flatMap (workspace.findingsAt checker)) := by
  rw [checkPackages, (foldl_checkPackage workspace checker packages {}).1]
  rfl

theorem filesChecked_checkPackages :
    (workspace.checkPackages checker packages).filesChecked =
      packages.files.countP workspace.isReadable := by
  rw [checkPackages, (foldl_checkPackage workspace checker packages {}).2.1]
  exact Nat.zero_add _

theorem packagesChecked_checkPackages :
    (workspace.checkPackages checker packages).packagesChecked =
      packages.countP fun package => package.2.any workspace.isReadable := by
  rw [checkPackages, (foldl_checkPackage workspace checker packages {}).2.2.1]
  exact Nat.zero_add _

theorem unreadable_checkPackages :
    (workspace.checkPackages checker packages).unreadable =
      packages.reading.filterMap workspace.failureAt? := by
  rw [checkPackages, (foldl_checkPackage workspace checker packages {}).2.2.2]
  rfl

/-- A check succeeds exactly if the search for packages does. -/
theorem check_fst (checker : Checker) (patterns : List String) :
    (workspace.check checker patterns).1 =
      (workspace.packages checker.excluded patterns).map (workspace.checkPackages checker) := by
  unfold check
  cases workspace.packages checker.excluded patterns with
  | error why => rfl
  | ok found => rfl

theorem check_fst_of_packages (checker : Checker) {patterns : List String} {found : Packages}
    (h : workspace.packages checker.excluded patterns = .ok found) :
    (workspace.check checker patterns).1 = .ok (workspace.checkPackages checker found) := by
  rw [check_fst, h]
  rfl

end Workspace

end ImportGuard
