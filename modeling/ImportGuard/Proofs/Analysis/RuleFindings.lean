import ImportGuard.Proofs.Analysis.Output
import ImportGuard.Proofs.Finding.Message

/-!
# The findings of rules

The check of a file asks its questions in an order that depends on the rules, the imports and the
uses, and reports a fault when it first meets it.  None of this shows in the findings of rules.
With the findings about directives left out, **the findings are those of the rules in order, of
their imports in order, less the imports that an `ignore` covers** (`ruleFindings_checkFile`), each
worked out from the uses that no `ignore` covers and from nothing else (`due`).

Findings about directives are told from others by their words (`isDirective_eq_isFault`).
-/

namespace ImportGuard

/-! ### Findings about directives -/

/-- Whether a finding has one of the two fixed texts about directives. -/
def Finding.isDirective (finding : Finding) : Bool :=
  finding.message = Cause.missingReason.message ||
    finding.message = Cause.misplacedFileIgnore.message

theorem Finding.isDirective_eq_isFault (finding : Finding) :
    finding.isDirective = finding.cause.isFault := by
  obtain ⟨position, cause⟩ := finding
  have hmissing : cause.message = Cause.missingReason.message → cause.initial = 'm' :=
    Cause.initial_eq_of_message_eq
  have hmisplaced : cause.message = Cause.misplacedFileIgnore.message → cause.initial = 'f' :=
    Cause.initial_eq_of_message_eq
  unfold isDirective message
  cases cause with
  | package path suggestion =>
    rw [decide_eq_false fun h => absurd (hmissing h) (by simp [Cause.initial]),
      decide_eq_false fun h => absurd (hmisplaced h) (by simp [Cause.initial])]
    rfl
  | declaration name path suggestion =>
    rw [decide_eq_false fun h => absurd (hmissing h) (by simp [Cause.initial]),
      decide_eq_false fun h => absurd (hmisplaced h) (by simp [Cause.initial])]
    rfl
  | missingReason =>
    rw [decide_eq_true rfl]
    rfl
  | misplacedFileIgnore =>
    rw [decide_eq_true (p := Cause.misplacedFileIgnore.message = _) rfl, Bool.or_true]
    rfl

namespace Analyzer

/-! ### What a rule owes to an import -/

/-- The findings of a rule in an import, from the uses that no `ignore` covers: none without uses;
one about the package if its uses cannot be told apart or the rule lists no declarations; otherwise
the uses of each listed declaration, by offset. -/
def due (file : SourceFile) (rule : Rule) (spec : Import) : List Finding :=
  if file.recorded spec = [] then []
  else if Usage.unspecified ∈ (file.recorded spec).map (·.1) ∨ rule.declarations = [] then
    [⟨file.positionOf spec.pathStart, .package spec.path rule.suggestion⟩]
  else
    rule.declarations.flatMap fun name =>
      (Usage.placesOf (file.recorded spec) name).map fun place =>
        ⟨file.positionOf place, .declaration name spec.path rule.suggestion⟩

theorem violations_recorded (file : SourceFile) (rule : Rule) (spec : Import) :
    violations file rule spec (file.recorded spec) = due file rule spec := by
  unfold violations due
  refine if_congr List.isEmpty_iff rfl (if_congr ?_ rfl rfl)
  rw [Bool.or_eq_true, List.any_eq_true, List.mem_map, Rule.forbidsPackage, List.isEmpty_iff]
  simp only [decide_eq_true_eq]

theorem isFault_of_mem_due {file : SourceFile} {rule : Rule} {spec : Import} {f : Finding}
    (h : f ∈ due file rule spec) : f.cause.isFault = false :=
  isFault_of_mem_violations (violations_recorded file rule spec ▸ h)

theorem isFault_of_mem_scanFaults {file : SourceFile} {spec : Import} {f : Finding}
    (h : f ∈ file.scanFaults spec) : f.cause.isFault = true := by
  unfold SourceFile.scanFaults at h
  cases hname : Usage.scanName spec.qualifier spec.mode with
  | none => simp [hname] at h
  | some name =>
    rw [hname, Option.elim_some, List.mem_flatMap] at h
    obtain ⟨use, _, hf⟩ := h
    exact Register.isFault_of_mem_faultsAt hf

/-! ### Leaving faults out -/

theorem filter_faults {raw : List Finding} (h : ∀ f ∈ raw, f.cause.isFault = true) :
    raw.filter (fun f => !f.cause.isFault) = [] := by
  rw [List.filter_eq_nil_iff]
  intro f hf
  simp [h f hf]

theorem filter_importOutput (file : SourceFile) (rule : Rule) (spec : Import) :
    (importOutput file rule spec).filter (fun f => !f.cause.isFault) =
      if file.suppresses spec.address spec.start.offset then [] else due file rule spec := by
  unfold importOutput
  rw [SourceFile.faultsAt, List.filter_append,
    filter_faults fun f hf => Register.isFault_of_mem_faultsAt hf, List.nil_append]
  split
  · rfl
  · rw [List.filter_append, filter_faults fun f hf => isFault_of_mem_scanFaults hf,
      List.nil_append, violations_recorded, List.filter_eq_self]
    intro f hf
    simp [isFault_of_mem_due hf]

/-- The check of an import adds faults, and what the rule owes to it unless an `ignore` covers it.
-/
theorem filter_run_checkImport (file : SourceFile) (rule : Rule) (spec : Import)
    (prior : List Finding) :
    ((checkImport (Register.ofFile file) (CommentMap.ofFile file).arrange file rule spec).run
        prior).2.filter (fun f => !f.isDirective) =
      prior.filter (fun f => !f.isDirective) ++
        if file.suppresses spec.address spec.start.offset then [] else due file rule spec := by
  rw [reports_checkImport file rule spec prior]
  simp only [Finding.isDirective_eq_isFault]
  rw [Finding.filter_foldl_record, filter_importOutput]

theorem filter_output {rules : List Rule} {file : SourceFile}
    (h : (Register.ofFile file).docIgnores = false) :
    (output rules file).filter (fun f => !f.cause.isFault) =
      rules.flatMap fun rule =>
        ((file.importsOfPath rule.importPath).filter fun spec =>
          !file.suppresses spec.address spec.start.offset).flatMap (due file rule) := by
  have himports : ∀ (rule : Rule) (specs : List Import),
      (specs.flatMap (importOutput file rule)).filter (fun f => !f.cause.isFault) =
        (specs.filter fun spec => !file.suppresses spec.address spec.start.offset).flatMap
          (due file rule) := by
    intro rule specs
    induction specs with
    | nil => rfl
    | cons spec specs ih =>
      rw [List.flatMap_cons, List.filter_append, ih, filter_importOutput]
      by_cases hs : file.suppresses spec.address spec.start.offset = true
      · rw [if_pos hs, List.filter_cons_of_neg (by simp [hs]), List.nil_append]
      · rw [if_neg hs, List.filter_cons_of_pos (by simp [hs]), List.flatMap_cons]
  unfold output
  rw [List.filter_append, filter_faults fun f hf => Register.isFault_of_mem_fileFaults hf,
    List.nil_append, if_neg (by simp [h])]
  induction rules with
  | nil => rfl
  | cons rule rules ih =>
    rw [List.flatMap_cons, List.filter_append, ih, himports, List.flatMap_cons]

theorem checked_iff {analyzer : Analyzer} {file : SourceFile} :
    (analyzer.checkFile file).outcome = .checked ↔
      (analyzer.ignoreTests && isTestFile file.filename) = false ∧
        (Register.ofFile file).docIgnores = false := by
  cases ht : analyzer.ignoreTests && isTestFile file.filename with
  | true =>
    rw [checkFile, ht]
    simp
  | false =>
    rw [checkFile_eq ht]
    cases (Register.ofFile file).docIgnores with
    | true => simp
    | false => simp

theorem sorted_placesOf_recorded (file : SourceFile) (spec : Import) (name : String) :
    (Usage.placesOf (file.recorded spec) name).Pairwise fun a b => a.offset ≤ b.offset := by
  rw [file.recorded_eq]
  cases Usage.scanName spec.qualifier spec.mode with
  | none =>
    rw [Option.elim_none, Usage.placesOf, List.lookup_cons]
    cases name == Usage.unspecified with
    | true => exact List.Pairwise.nil
    | false => exact List.Pairwise.nil
  | some _ => exact Usage.sorted_placesOf_index _ name

/-- **What rules find does not depend on what was asked before.**  With the two fixed texts about
directives left out, the findings of a file that is checked are those that the rules in order owe to
their imports in order, less the imports that an `ignore` covers.  The places under a name are in
order of their offsets, and no answer about an `ignore` depends on the findings made so far. -/
theorem ruleFindings_checkFile {analyzer : Analyzer} {file : SourceFile}
    (h : (analyzer.checkFile file).outcome = .checked) :
    (analyzer.checkFile file).findings.filter (fun f => !f.isDirective) =
        (analyzer.rules.flatMap fun rule =>
          ((file.importsOfPath rule.importPath).filter fun spec =>
            !file.suppresses spec.address spec.start.offset).flatMap (due file rule)) ∧
      (∀ spec name, (Usage.placesOf (file.recorded spec) name).Pairwise fun a b =>
        a.offset ≤ b.offset) ∧
      ∀ address offset findings,
        (((Register.ofFile file).isIgnored (CommentMap.ofFile file).arrange address offset).run
          findings).1 = file.suppresses address offset := by
  obtain ⟨ht, hd⟩ := checked_iff.1 h
  refine ⟨?_, sorted_placesOf_recorded file, fun address offset findings => ?_⟩
  · rw [checkFile_eq ht]
    simp only [Finding.isDirective_eq_isFault]
    rw [Finding.filter_foldl_record, filter_output hd]
    rfl
  · rw [file.reports_isIgnored address offset findings]

/-- A statement that selects a name on a package of three letters. -/
def sampleUse (start stop : Nat) : Node :=
  ⟨.statement "expression", true, none, start, stop,
    [⟨.selectorExpression, true, none, start, stop,
      [⟨.identifier, true, some .operand, start, start + 3, []⟩,
        ⟨.other "field_identifier", true, some .selected, start + 4, stop, []⟩]⟩]⟩

/-- A file that uses its import `fmt` twice.  A directive without a reason belongs to the first use,
and an `ignore` to the second. -/
def sampleFile : SourceFile where
  filename := "a.go"
  source := "fmt.New;fmt.Old".toList.map fun c => c.val.toUInt8
  root := ⟨.sourceFile, true, none, 0, 15, [sampleUse 0 7, sampleUse 8 15]⟩
  imports := [⟨[0], "\"fmt\"", none, ⟨0, 1, 1⟩, ⟨0, 1, 1⟩⟩]
  comments :=
    [⟨0, ⟨"//faillint:ignore", ⟨7, 1, 8⟩, ⟨8, 1, 9⟩⟩, []⟩,
      ⟨1, ⟨"//faillint:ignore legacy", ⟨15, 1, 16⟩, ⟨15, 1, 16⟩⟩, []⟩]

/-- An analyzer whose only rule lists both declarations that the file uses. -/
def sampleAnalyzer : Analyzer :=
  ⟨[⟨"fmt", ["Old", "New"], ""⟩], false⟩

theorem ruleFindings_checkFile_sample :
    (sampleAnalyzer.checkFile sampleFile).outcome = .checked ∧
      (sampleAnalyzer.rules.flatMap fun rule =>
        ((sampleFile.importsOfPath rule.importPath).filter fun spec =>
          !sampleFile.suppresses spec.address spec.start.offset).flatMap (due sampleFile rule)) =
        [⟨⟨"a.go", 4, 1, 5⟩, .declaration "New" "fmt" ""⟩] ∧
      (sampleAnalyzer.checkFile sampleFile).findings.filter (fun f => !f.isDirective) =
        [⟨⟨"a.go", 4, 1, 5⟩, .declaration "New" "fmt" ""⟩] := by
  have h : (sampleAnalyzer.checkFile sampleFile).outcome = .checked :=
    checked_iff.2 ⟨by decide, by rfl⟩
  have hdue : (sampleAnalyzer.rules.flatMap fun rule =>
      ((sampleFile.importsOfPath rule.importPath).filter fun spec =>
        !sampleFile.suppresses spec.address spec.start.offset).flatMap (due sampleFile rule)) =
      [⟨⟨"a.go", 4, 1, 5⟩, .declaration "New" "fmt" ""⟩] := by
    decide +kernel
  exact ⟨h, hdue, (ruleFindings_checkFile h).1.trans hdue⟩

end Analyzer

end ImportGuard
