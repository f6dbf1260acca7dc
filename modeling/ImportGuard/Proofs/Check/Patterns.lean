import ImportGuard.Proofs.Check.Report

/-!
# Patterns as a set

A check depends on which patterns it is given, and neither on their order nor on how often each is
repeated: the packages that patterns name have the files that the single patterns name, and packages
with the same files give reports that agree (`agrees_checkPackages`).
-/

namespace ImportGuard

/-- Reports agree: they say the same, but files that could not be read may come in another order. -/
structure CheckReport.Agrees (r s : CheckReport) : Prop where
  findings : r.findings = s.findings
  filesChecked : r.filesChecked = s.filesChecked
  packagesChecked : r.packagesChecked = s.packagesChecked
  unreadable : r.unreadable.Perm s.unreadable

namespace Packages

variable {workspace : Workspace} {packages : Packages}

/-- The folders with a file that satisfies `p`. -/
theorem Sound.mem_folders_filter (h : Sound workspace packages) {p : Path → Bool} {folder : Path} :
    folder ∈ (packages.filter fun package => package.2.any p).map (·.1) ↔
      ∃ file ∈ packages.filesOf folder, p file = true := by
  constructor
  · intro hfolder
    obtain ⟨package, hmem, rfl⟩ := List.mem_map.1 hfolder
    obtain ⟨hpackage, hany⟩ := List.mem_filter.1 hmem
    rw [h.filesOf_eq hpackage]
    exact List.any_eq_true.1 hany
  · rintro ⟨file, hfile, hp⟩
    obtain ⟨package, hpackage, rfl, hmem⟩ := h.mem_filesOf.1 hfile
    refine List.mem_map.2 ⟨package, List.mem_filter.2 ⟨hpackage, ?_⟩, rfl⟩
    exact List.any_eq_true.2 ⟨file, hmem, hp⟩

/-- How many packages have a file that satisfies `p` depends on the files only. -/
theorem Sound.countP_any_eq {packages' : Packages} (hs : Sound workspace packages)
    (hs' : Sound workspace packages')
    (h : ∀ folder file, file ∈ packages.filesOf folder ↔ file ∈ packages'.filesOf folder)
    (p : Path → Bool) :
    packages.countP (fun package => package.2.any p) =
      packages'.countP fun package => package.2.any p := by
  have hnodup : ∀ {packages : Packages}, Sound workspace packages →
      ((packages.filter fun package => package.2.any p).map (·.1)).Nodup :=
    fun hs => hs.distinct.sublist (List.filter_sublist.map _)
  have hfolders : ((packages.filter fun package => package.2.any p).map (·.1)).Perm
      ((packages'.filter fun package => package.2.any p).map (·.1)) := by
    refine (List.perm_ext_iff_of_nodup (hnodup hs) (hnodup hs')).2 fun folder => ?_
    simp only [hs.mem_folders_filter, hs'.mem_folders_filter, h]
  simpa [List.countP_eq_length_filter] using hfolders.length_eq

end Packages

namespace Workspace

variable {workspace : Workspace} {found found' : Packages}

/-- **Packages with the same files give reports that agree.** -/
theorem agrees_checkPackages (hw : workspace.WellFormed) (checker : Checker)
    (hs : found.Sound workspace) (hs' : found'.Sound workspace)
    (h : ∀ folder file, file ∈ found.filesOf folder ↔ file ∈ found'.filesOf folder) :
    (workspace.checkPackages checker found).Agrees (workspace.checkPackages checker found') := by
  have hfiles : found.files.Perm found'.files := by
    refine (List.perm_ext_iff_of_nodup (hs.nodup_files hw) (hs'.nodup_files hw)).2 fun file => ?_
    simp only [hs.mem_files, hs'.mem_files, h]
  have hreading : found.reading.Perm found'.reading :=
    found.perm_reading.trans (hfiles.trans found'.perm_reading.symm)
  refine ⟨?_, ?_, ?_, ?_⟩
  · rw [findings_checkPackages, findings_checkPackages]
    exact Finding.sort_flatMap_perm hreading (hs.nodup_map_render hw) fun path _ f hf =>
      filename_of_mem_findingsAt hf
  · rw [filesChecked_checkPackages, filesChecked_checkPackages]
    exact hfiles.countP_eq _
  · rw [packagesChecked_checkPackages, packagesChecked_checkPackages]
    exact hs.countP_any_eq hs' h _
  · rw [unreadable_checkPackages, unreadable_checkPackages]
    exact hreading.filterMap _

def Fails (workspace : Workspace) (checker : Checker) (patterns : List String) : Prop :=
  ∃ error, (workspace.check checker patterns).1 = .error error

variable {checker : Checker} {excluded patterns : List String}

/-- A check fails exactly if one of its patterns has no targets. -/
theorem fails_iff (hne : patterns ≠ []) :
    workspace.Fails checker patterns ↔
      ∃ pattern ∈ patterns, ¬ ∃ targets, workspace.targets checker.excluded pattern = .ok targets := by
  have hnot : workspace.Fails checker patterns ↔
      ¬ ∃ found, workspace.packages checker.excluded patterns = .ok found := by
    rw [Fails, check_fst]
    cases workspace.packages checker.excluded patterns with
    | error why => simp [Except.map]
    | ok found => simp [Except.map]
  rw [hnot, exists_packages_iff hne]
  simp only [not_forall, exists_prop]

/-- What a pattern names is what a search for it alone finds. -/
theorem names_iff (hw : workspace.WellFormed) {pattern : String} {folder file : Path} :
    workspace.Names excluded pattern folder file ↔
      ∃ single, workspace.packages excluded [pattern] = .ok single ∧
        file ∈ single.filesOf folder := by
  have hne : [pattern] ≠ [] := List.cons_ne_nil _ _
  constructor
  · intro hnames
    have ⟨targets, htargets, _⟩ := hnames
    obtain ⟨single, hsingle⟩ :=
      (exists_packages_iff hne).2 (List.forall_mem_singleton.2 ⟨targets, htargets⟩)
    refine ⟨single, hsingle, ((packages_eq_ok hw hne hsingle).2 folder file).2 ?_⟩
    exact ⟨pattern, List.mem_singleton_self pattern, hnames⟩
  · rintro ⟨single, hsingle, hfile⟩
    obtain ⟨pattern', hpattern, hnames⟩ := ((packages_eq_ok hw hne hsingle).2 folder file).1 hfile
    exact List.mem_singleton.1 hpattern ▸ hnames

/-- The files of a folder are those that searches for the single patterns find for it. -/
theorem mem_filesOf_iff_single (hw : workspace.WellFormed) (hne : patterns ≠ [])
    (h : workspace.packages excluded patterns = .ok found) {folder file : Path} :
    file ∈ found.filesOf folder ↔
      ∃ pattern ∈ patterns, ∃ single, workspace.packages excluded [pattern] = .ok single ∧
        file ∈ single.filesOf folder := by
  rw [(packages_eq_ok hw hne h).2]
  simp only [names_iff hw]

theorem mem_folders_iff_single (hw : workspace.WellFormed) (hne : patterns ≠ [])
    (h : workspace.packages excluded patterns = .ok found) {folder : Path} :
    folder ∈ found.map (·.1) ↔
      ∃ pattern ∈ patterns, ∃ single, workspace.packages excluded [pattern] = .ok single ∧
        folder ∈ single.map (·.1) := by
  have hsound : ∀ {pattern single}, workspace.packages excluded [pattern] = .ok single →
      Packages.Sound workspace single :=
    fun hsingle => (packages_eq_ok hw (List.cons_ne_nil _ _) hsingle).1
  rw [(packages_eq_ok hw hne h).1.mem_folders]
  constructor
  · rintro ⟨file, hfile⟩
    obtain ⟨pattern, hpattern, single, hsingle, hmem⟩ := (mem_filesOf_iff_single hw hne h).1 hfile
    exact ⟨pattern, hpattern, single, hsingle, (hsound hsingle).mem_folders.2 ⟨file, hmem⟩⟩
  · rintro ⟨pattern, hpattern, single, hsingle, hmem⟩
    obtain ⟨file, hfile⟩ := (hsound hsingle).mem_folders.1 hmem
    exact ⟨file, (mem_filesOf_iff_single hw hne h).2 ⟨pattern, hpattern, single, hsingle, hfile⟩⟩

/-- Checks of the same patterns give reports that agree. -/
theorem exists_agrees_check (hw : workspace.WellFormed) {ps qs : List String} (hps : ps ≠ [])
    (hqs : qs ≠ []) (h : ∀ p, p ∈ ps ↔ p ∈ qs) {r : CheckReport}
    (hr : (workspace.check checker ps).1 = .ok r) :
    ∃ s, (workspace.check checker qs).1 = .ok s ∧ r.Agrees s := by
  rw [check_fst] at hr ⊢
  cases hfound : workspace.packages checker.excluded ps with
  | error why => simp [hfound, Except.map] at hr
  | ok found =>
    obtain rfl : workspace.checkPackages checker found = r := by
      simpa [hfound, Except.map] using hr
    have htargets := (exists_packages_iff hps).1 ⟨found, hfound⟩
    obtain ⟨found', hfound'⟩ := (exists_packages_iff hqs).2 fun q hq => htargets q ((h q).2 hq)
    obtain ⟨hs, hfiles⟩ := packages_eq_ok hw hps hfound
    obtain ⟨hs', hfiles'⟩ := packages_eq_ok hw hqs hfound'
    refine ⟨workspace.checkPackages checker found', by rw [hfound']; rfl, ?_⟩
    refine agrees_checkPackages hw checker hs hs' fun folder file => ?_
    simp only [hfiles, hfiles', h]

/-- **Patterns are a set.**  Take two lists with the same patterns, in any order and with any
repetitions.  A check of one fails exactly if a check of the other does, and exactly if a check of one
of the patterns alone does.  If it succeeds, both give the same findings in the same order, count the
same files and packages, and name the same unreadable files.  The search finds for each folder the files
that searches for the single patterns find for it, and finds no file twice. -/
theorem check_patterns_as_set (hw : workspace.WellFormed) (checker : Checker)
    {ps qs : List String} (hps : ps ≠ []) (h : ∀ p, p ∈ ps ↔ p ∈ qs) :
    (workspace.Fails checker ps ↔ workspace.Fails checker qs) ∧
    (workspace.Fails checker ps ↔
      ∃ p ∈ ps, workspace.Fails checker [p]) ∧
    (∀ r, (workspace.check checker ps).1 = .ok r →
      ∃ s, (workspace.check checker qs).1 = .ok s ∧ r.Agrees s) ∧
    ∀ found, workspace.packages checker.excluded ps = .ok found →
      (found.map (·.1)).Nodup ∧ (found.flatMap (·.2)).Nodup ∧
      (∀ folder, folder ∈ found.map (·.1) ↔
        ∃ p ∈ ps, ∃ single, workspace.packages checker.excluded [p] = .ok single ∧
          folder ∈ single.map (·.1)) ∧
      ∀ folder file, file ∈ found.filesOf folder ↔
        ∃ p ∈ ps, ∃ single, workspace.packages checker.excluded [p] = .ok single ∧
          file ∈ single.filesOf folder := by
  have hqs : qs ≠ [] := by
    obtain ⟨p, hp⟩ := List.exists_mem_of_ne_nil _ hps
    exact List.ne_nil_of_mem ((h p).1 hp)
  refine ⟨?_, ?_, ?_, ?_⟩
  · rw [fails_iff hps, fails_iff hqs]
    simp only [h]
  · rw [fails_iff hps]
    simp only [fails_iff (List.cons_ne_nil _ _), List.mem_singleton, exists_eq_left]
  · intro r hr
    exact exists_agrees_check hw hps hqs h hr
  · intro found hfound
    have hs := (packages_eq_ok hw hps hfound).1
    exact ⟨hs.distinct, hs.nodup_files hw, fun _ => mem_folders_iff_single hw hps hfound,
      fun _ _ => mem_filesOf_iff_single hw hps hfound⟩

/-- Two packages, one of them with two files, in a folder of the top. -/
def sampleWorkspace : Workspace :=
  ((({ start := ["w"] } : Workspace).addFile (Path.ofString "a/x.go") (.ok [])).addFile
    (Path.ofString "a/y.go") (.ok [])).addFile (Path.ofString "b/z.go") (.ok [])

theorem wellFormed_sampleWorkspace : sampleWorkspace.WellFormed :=
  (((wellFormed_empty ["w"]).addFile (by decide) _).addFile (by decide) _).addFile (by decide) _

/-- A checker with a parser that finds nothing in a text. -/
def sampleChecker : Checker where
  parse source := (⟨.sourceFile, true, none, 0, source.length, []⟩, false)
  analyzer := .ofPolicy "fmt" false
  excluded := []

/-- One folder is named by a path from the top, and another by one that goes back. -/
theorem check_patterns_as_set_sample :
    sampleWorkspace.WellFormed ∧ ["a/x.go", "../w/b", "/w/a"] ≠ [] ∧
    (∀ p, p ∈ ["a/x.go", "../w/b", "/w/a"] ↔ p ∈ ["/w/a", "a/x.go", "/w/a", "../w/b"]) ∧
    ∃ r s, (sampleWorkspace.check sampleChecker ["a/x.go", "../w/b", "/w/a"]).1 = .ok r ∧
      (sampleWorkspace.check sampleChecker ["/w/a", "a/x.go", "/w/a", "../w/b"]).1 = .ok s ∧
      r.Agrees s := by
  have hsame : ∀ p, p ∈ ["a/x.go", "../w/b", "/w/a"] ↔
      p ∈ ["/w/a", "a/x.go", "/w/a", "../w/b"] := by
    simp
    tauto
  have hne : ["a/x.go", "../w/b", "/w/a"] ≠ [] := List.cons_ne_nil _ _
  obtain ⟨found, hfound⟩ : ∃ found,
      sampleWorkspace.packages sampleChecker.excluded ["a/x.go", "../w/b", "/w/a"] = .ok found := by
    rw [exists_packages_iff hne]
    simp only [List.forall_mem_cons, List.not_mem_nil, false_imp_iff, implies_true, and_true]
    exact ⟨⟨_, rfl⟩, ⟨_, rfl⟩, ⟨_, rfl⟩⟩
  have hr : (sampleWorkspace.check sampleChecker ["a/x.go", "../w/b", "/w/a"]).1 =
      .ok (sampleWorkspace.checkPackages sampleChecker found) :=
    check_fst_of_packages sampleChecker hfound
  obtain ⟨s, hs, hagrees⟩ :=
    (check_patterns_as_set wellFormed_sampleWorkspace sampleChecker hne hsame).2.2.1 _ hr
  exact ⟨wellFormed_sampleWorkspace, hne, hsame, _, s, hr, hs, hagrees⟩

end Workspace

end ImportGuard
