import ImportGuard.Analysis
import ImportGuard.Proofs.Comment.Entries
import ImportGuard.Proofs.Directive.Inquiry
import ImportGuard.Proofs.Usage.Filing

/-!
# What the check of a file puts forward

The check of a file is one long inquiry: it asks about the file, about each import and about each
use, and every question may report faults.  By `Reports` all of it comes apart into plain functions
of the file: `SourceFile.suppresses` answers every question, `SourceFile.recorded` is the index of
the uses of an import, and `Analyzer.output` lists what the check puts forward.  The findings of the
check are the output recorded from nothing (`findings_checkFile`).

Recording drops repeated faults only, so it **leaves the findings of rules as they are**
(`filter_foldl_record`), and keeps every fault that was put forward, once for a cause and an offset
(`exists_repeats_of_mem_raw`, `pairwise_foldl_record`).
-/

namespace ImportGuard

/-! ### Recording -/

namespace Finding

/-- Two findings report one cause at one offset. -/
def Repeats (f g : Finding) : Prop :=
  f.cause = g.cause ∧ f.position.offset = g.position.offset

theorem record_eq_self_or (findings : List Finding) (f : Finding) :
    (record findings f = findings ∧ f.cause.isFault = true ∧ ∃ g ∈ findings, g.Repeats f) ∨
      (record findings f = findings ++ [f] ∧
        (f.cause.isFault = true → ∀ g ∈ findings, ¬ g.Repeats f)) := by
  unfold record
  split
  · rename_i h
    rw [Bool.and_eq_true, List.any_eq_true] at h
    obtain ⟨hfault, g, hg, hsame⟩ := h
    refine Or.inl ⟨rfl, hfault, g, hg, ?_⟩
    simpa [Repeats] using hsame
  · rename_i h
    refine Or.inr ⟨rfl, fun hfault g hg hsame => h ?_⟩
    rw [hfault, Bool.true_and, List.any_eq_true]
    exact ⟨g, hg, by simpa [Repeats] using hsame⟩

/-- **Recording leaves the findings of rules as they are.** -/
theorem filter_foldl_record (raw findings : List Finding) :
    (raw.foldl record findings).filter (fun f => !f.cause.isFault) =
      findings.filter (fun f => !f.cause.isFault) ++ raw.filter (fun f => !f.cause.isFault) := by
  induction raw generalizing findings with
  | nil => simp
  | cons f raw ih =>
    rw [List.foldl_cons, ih]
    rcases record_eq_self_or findings f with ⟨he, hfault, _⟩ | ⟨he, _⟩
    · rw [he, List.filter_cons_of_neg (by simp [hfault])]
    · rw [he, List.filter_append, List.append_assoc, ← List.filter_append, List.singleton_append]

theorem mem_foldl_record_of_mem {findings : List Finding} {f : Finding} (h : f ∈ findings)
    (raw : List Finding) : f ∈ raw.foldl record findings := by
  induction raw generalizing findings with
  | nil => exact h
  | cons g raw ih =>
    rw [List.foldl_cons]
    apply ih
    rcases record_eq_self_or findings g with ⟨he, _⟩ | ⟨he, _⟩
    · rw [he]
      exact h
    · rw [he]
      exact List.mem_append_left _ h

/-- What is recorded was there or was put forward. -/
theorem mem_of_mem_foldl_record {raw findings : List Finding} {f : Finding}
    (h : f ∈ raw.foldl record findings) : f ∈ findings ∨ f ∈ raw := by
  induction raw generalizing findings with
  | nil => exact Or.inl h
  | cons g raw ih =>
    rcases ih h with hin | hraw
    · rcases record_eq_self_or findings g with ⟨he, _⟩ | ⟨he, _⟩
      · exact Or.inl (he ▸ hin)
      · rw [he, List.mem_append, List.mem_singleton] at hin
        rcases hin with hin | rfl
        · exact Or.inl hin
        · exact Or.inr List.mem_cons_self
    · exact Or.inr (List.mem_cons_of_mem g hraw)

/-- What is put forward is recorded, or a finding that it repeats is. -/
theorem exists_repeats_of_mem_raw {raw : List Finding} {f : Finding} (h : f ∈ raw)
    (findings : List Finding) : ∃ g ∈ raw.foldl record findings, g.Repeats f := by
  induction raw generalizing findings with
  | nil => exact absurd h (by simp)
  | cons g raw ih =>
    rcases List.mem_cons.1 h with rfl | hraw
    · rcases record_eq_self_or findings f with ⟨he, _, k, hk, hsame⟩ | ⟨he, _⟩
      · refine ⟨k, mem_foldl_record_of_mem ?_ raw, hsame⟩
        rw [he]
        exact hk
      · refine ⟨f, mem_foldl_record_of_mem ?_ raw, rfl, rfl⟩
        rw [he]
        exact List.mem_append_right _ (List.mem_singleton_self f)
    · exact ih hraw _

/-- **What is put forward is recorded**, if findings that repeat each other are one. -/
theorem mem_foldl_record_iff {raw : List Finding}
    (h : ∀ f ∈ raw, ∀ g ∈ raw, g.cause.isFault = true → f.Repeats g → f = g) {f : Finding}
    (hfault : f.cause.isFault = true) : f ∈ raw.foldl record [] ↔ f ∈ raw := by
  constructor
  · intro hf
    exact (mem_of_mem_foldl_record hf).resolve_left List.not_mem_nil
  · intro hf
    obtain ⟨g, hg, hsame⟩ := exists_repeats_of_mem_raw hf []
    have hraw := (mem_of_mem_foldl_record hg).resolve_left List.not_mem_nil
    rw [← h g hraw f hf hfault hsame]
    exact hg

/-- **No fault is recorded twice.** -/
theorem pairwise_foldl_record {raw findings : List Finding}
    (h : findings.Pairwise fun f g => g.cause.isFault = true → ¬ f.Repeats g) :
    (raw.foldl record findings).Pairwise fun f g => g.cause.isFault = true → ¬ f.Repeats g := by
  induction raw generalizing findings with
  | nil => exact h
  | cons g raw ih =>
    rw [List.foldl_cons]
    refine ih ?_
    rcases record_eq_self_or findings g with ⟨he, _⟩ | ⟨he, hnew⟩
    · rw [he]
      exact h
    · rw [he, List.pairwise_append]
      refine ⟨h, List.pairwise_singleton _ g, fun f hf k hk hfault => ?_⟩
      rw [List.mem_singleton] at hk
      subst hk
      exact hnew hfault f hf

theorem nodup_faults_foldl_record (raw : List Finding) :
    ((raw.foldl record []).filter fun f => f.cause.isFault).Nodup := by
  have hpair : (raw.foldl record []).Pairwise fun f g =>
      g.cause.isFault = true → ¬ f.Repeats g := pairwise_foldl_record List.Pairwise.nil
  refine (hpair.filter _).imp_of_mem fun _ hg hne heq => ?_
  exact hne (List.mem_filter.1 hg).2 (heq ▸ ⟨rfl, rfl⟩)

end Finding

/-! ### The answers -/

/-- **Whether an `ignore` covers the node at an address, at an offset**: a well-formed one in a
group that belongs to the node, or to a node whose range has the offset, both of its ends included.
-/
def SourceFile.suppresses (file : SourceFile) (address : Address) (offset : Nat) : Bool :=
  (CommentMap.ofFile file).entries.any fun entry =>
    (entry.site.address = address || CommentMap.covers offset entry.site) &&
      entry.groups.any CommentGroup.ignores

theorem SourceFile.any_consulted (file : SourceFile) (address : Address) (offset : Nat) :
    (Register.consulted (CommentMap.ofFile file).arrange address offset).any
      CommentGroup.ignores = file.suppresses address offset := by
  have hd := CommentMap.distinct_ofFile file
  have ho := CommentMap.order_ofFile file
  rw [Bool.eq_iff_iff, suppresses, List.any_eq_true, List.any_eq_true]
  constructor
  · rintro ⟨group, hgroup, hignores⟩
    rcases List.mem_append.1 hgroup with hown | haround
    · rw [CommentMap.groupsAt_arrange] at hown
      obtain ⟨entry, hentry, rfl, hmem⟩ := CommentMap.exists_entry_of_mem_groupsAt hown
      refine ⟨entry, hentry, ?_⟩
      rw [decide_eq_true rfl, Bool.true_or, Bool.true_and, List.any_eq_true]
      exact ⟨group, hmem, hignores⟩
    · obtain ⟨entry, hentry, hmem⟩ := List.mem_flatMap.1 haround
      obtain ⟨hentry, hcover⟩ := (CommentMap.mem_enclosing_arrange hd ho).1 hentry
      refine ⟨entry, hentry, ?_⟩
      rw [hcover, Bool.or_true, Bool.true_and, List.any_eq_true]
      exact ⟨group, hmem, hignores⟩
  · rintro ⟨entry, hentry, h⟩
    rw [Bool.and_eq_true, Bool.or_eq_true, decide_eq_true_eq, List.any_eq_true] at h
    obtain ⟨hreach, group, hmem, hignores⟩ := h
    refine ⟨group, List.mem_append.2 ?_, hignores⟩
    rcases hreach with rfl | hcover
    · left
      rw [CommentMap.groupsAt_arrange, CommentMap.groupsAt_of_mem hd hentry]
      exact hmem
    · right
      exact List.mem_flatMap.2
        ⟨entry, (CommentMap.mem_enclosing_arrange hd ho).2 ⟨hentry, hcover⟩, hmem⟩

/-- The index of the uses of an import that no `ignore` covers. -/
def SourceFile.recorded (file : SourceFile) (spec : Import) : Usage.Index :=
  Id.run (Usage.scan file.source file.root spec.qualifier spec.mode fun use =>
    pure (file.suppresses use.address use.place.offset))

/-- The uses under a name that no `ignore` covers, in the order in which they are met. -/
def SourceFile.kept (file : SourceFile) (name : String) : List Use :=
  (Usage.usesOf file.source file.root name).filter fun use =>
    !file.suppresses use.address use.place.offset

theorem SourceFile.recorded_eq (file : SourceFile) (spec : Import) :
    file.recorded spec =
      (Usage.scanName spec.qualifier spec.mode).elim [(Usage.unspecified, [])] fun name =>
        Usage.index (file.kept name) := by
  rw [recorded, Usage.scan_pure]
  rfl

/-! ### The check, part by part -/

def SourceFile.faultsAt (file : SourceFile) (address : Address) (offset : Nat) : List Finding :=
  (Register.ofFile file).faultsAt (CommentMap.ofFile file).arrange address offset

theorem SourceFile.reports_isIgnored (file : SourceFile) (address : Address) (offset : Nat) :
    Reports ((Register.ofFile file).isIgnored (CommentMap.ofFile file).arrange address offset)
      (file.faultsAt address offset) (file.suppresses address offset) := by
  rw [← file.any_consulted]
  exact Register.reports_isIgnored _ _ address offset

/-- The faults met when the uses of an import are collected. -/
def SourceFile.scanFaults (file : SourceFile) (spec : Import) : List Finding :=
  (Usage.scanName spec.qualifier spec.mode).elim [] fun name =>
    (Usage.usesOf file.source file.root name).flatMap fun use =>
      file.faultsAt use.address use.place.offset

theorem SourceFile.reports_scan (file : SourceFile) (spec : Import) :
    Reports
      (Usage.scan file.source file.root spec.qualifier spec.mode fun use =>
        (Register.ofFile file).isIgnored (CommentMap.ofFile file).arrange use.address
          use.place.offset)
      (file.scanFaults spec) (file.recorded spec) := by
  rw [recorded_eq, Usage.scan_eq, scanFaults]
  cases Usage.scanName spec.qualifier spec.mode with
  | none => exact reports_pure _
  | some name =>
    have hfilter := reports_filterM
      (fun use : Use => (file.reports_isIgnored use.address use.place.offset).map not)
      (Usage.usesOf file.source file.root name)
    have hall := hfilter.bind (k := fun kept => pure (Usage.index kept)) (reports_pure _)
    rw [List.append_nil] at hall
    exact hall

namespace Analyzer

/-- What a rule finds in an import is no fault. -/
theorem isFault_of_mem_violations {file : SourceFile} {rule : Rule} {spec : Import}
    {index : Usage.Index} {f : Finding} (h : f ∈ violations file rule spec index) :
    f.cause.isFault = false := by
  unfold violations at h
  split at h
  · exact absurd h (by simp)
  · split at h
    · rw [List.mem_singleton.1 h]
      rfl
    · obtain ⟨name, _, hname⟩ := List.mem_flatMap.1 h
      obtain ⟨place, _, rfl⟩ := List.mem_map.1 hname
      rfl

/-- What the check of an import against a rule puts forward. -/
def importOutput (file : SourceFile) (rule : Rule) (spec : Import) : List Finding :=
  file.faultsAt spec.address spec.start.offset ++
    if file.suppresses spec.address spec.start.offset then []
    else file.scanFaults spec ++ violations file rule spec (file.recorded spec)

theorem reports_checkImport (file : SourceFile) (rule : Rule) (spec : Import) :
    Reports (checkImport (Register.ofFile file) (CommentMap.ofFile file).arrange file rule spec)
      (importOutput file rule spec) () := by
  have hask := file.reports_isIgnored spec.address spec.start.offset
  unfold importOutput
  cases hs : file.suppresses spec.address spec.start.offset with
  | true =>
    rw [hs] at hask
    exact hask.bind (reports_pure ())
  | false =>
    rw [hs] at hask
    have hadd : Reports (modify (· ++ violations file rule spec (file.recorded spec)))
        (violations file rule spec (file.recorded spec)) () :=
      reports_modify fun f hf => isFault_of_mem_violations hf
    exact hask.bind ((file.reports_scan spec).bind
      (k := fun index => modify (· ++ violations file rule spec index)) hadd)

/-- What the check of a file against rules puts forward. -/
def output (rules : List Rule) (file : SourceFile) : List Finding :=
  (Register.ofFile file).fileFaults ++
    if (Register.ofFile file).docIgnores then []
    else rules.flatMap fun rule =>
      (file.importsOfPath rule.importPath).flatMap (importOutput file rule)

theorem reports_inspect (rules : List Rule) (file : SourceFile) :
    Reports (inspect rules file) (output rules file)
      (if (Register.ofFile file).docIgnores then .ignored else .checked) := by
  have hask := (Register.ofFile file).reports_fileIsIgnored
  unfold output
  cases hd : (Register.ofFile file).docIgnores with
  | true =>
    rw [hd] at hask
    exact hask.bind (reports_pure _)
  | false =>
    rw [hd] at hask
    have hrules := reports_forM (fun rule => reports_forM (reports_checkImport file rule)
      (file.importsOfPath rule.importPath)) rules
    have hdone := hrules.bind (k := fun _ => pure FileOutcome.checked) (reports_pure _)
    rw [List.append_nil] at hdone
    exact hask.bind hdone

/-- **The findings of a check are its output, recorded from nothing**, and the file is left out
exactly if its package documentation says so. -/
theorem checkFile_eq {analyzer : Analyzer} {file : SourceFile}
    (h : (analyzer.ignoreTests && isTestFile file.filename) = false) :
    analyzer.checkFile file =
      ⟨file.filename, (output analyzer.rules file).foldl Finding.record [],
        if (Register.ofFile file).docIgnores then .ignored else .checked⟩ := by
  rw [checkFile, h, reports_inspect analyzer.rules file []]
  rfl

theorem findings_checkFile {analyzer : Analyzer} {file : SourceFile}
    (h : (analyzer.ignoreTests && isTestFile file.filename) = false) :
    (analyzer.checkFile file).findings = (output analyzer.rules file).foldl Finding.record [] := by
  rw [checkFile_eq h]

theorem mem_output_of_mem_findings {analyzer : Analyzer} {file : SourceFile} {f : Finding}
    (h : f ∈ (analyzer.checkFile file).findings) : f ∈ output analyzer.rules file := by
  cases htest : analyzer.ignoreTests && isTestFile file.filename with
  | true =>
    rw [checkFile, htest] at h
    exact absurd h List.not_mem_nil
  | false =>
    rw [findings_checkFile htest] at h
    exact (Finding.mem_of_mem_foldl_record h).resolve_left List.not_mem_nil

end Analyzer

end ImportGuard
