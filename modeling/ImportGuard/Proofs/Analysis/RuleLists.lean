import ImportGuard.Proofs.Analysis.Suppression

/-!
# Rules act independently

All rules of a policy put their questions to one register, and what one of them has reported the next
does not report again.  Still no rule changes what another finds.  The findings of rules come rule by
rule (`ruleFindings_append`).  The faults of directives are those that some rule meets
(`mem_directiveFindings`), each once (`nodup_directiveFindings`), so they depend on which rules there
are and not on their order or number (`perm_directiveFindings`).

A fault is dropped if one with its words was reported at its offset.  In a file that was read the two
are the same, since an offset has one place there; this is where the file matters.
-/

namespace ImportGuard.Analyzer

/-- The findings of rules in a file: those about packages and those about declarations. -/
def ruleFindings (analyzer : Analyzer) (file : SourceFile) : List Finding :=
  (analyzer.checkFile file).findings.filter fun f => !f.isDirective

def directiveFindings (analyzer : Analyzer) (file : SourceFile) : List Finding :=
  (analyzer.checkFile file).findings.filter (·.isDirective)

def leavesOut (analyzer : Analyzer) (file : SourceFile) : Bool :=
  analyzer.ignoreTests && isTestFile file.filename

theorem perm_findings (analyzer : Analyzer) (file : SourceFile) :
    (analyzer.directiveFindings file ++ analyzer.ruleFindings file).Perm
      (analyzer.checkFile file).findings :=
  List.filter_append_perm _ _

/-! ### What is put forward, rule by rule -/

theorem mem_output {rules : List Rule} {file : SourceFile} {f : Finding} :
    f ∈ output rules file ↔
      f ∈ (Register.ofFile file).fileFaults ∨
        (Register.ofFile file).docIgnores = false ∧
          ∃ rule ∈ rules, ∃ spec ∈ file.importsOfPath rule.importPath,
            f ∈ importOutput file rule spec := by
  unfold output
  rw [List.mem_append]
  cases (Register.ofFile file).docIgnores with
  | true => simp
  | false => simp [List.mem_flatMap]

theorem mem_output_append {A B : List Rule} {file : SourceFile} {f : Finding} :
    f ∈ output (A ++ B) file ↔ f ∈ output A file ∨ f ∈ output B file := by
  rw [mem_output, mem_output, mem_output]
  simp only [List.mem_append, or_and_right, exists_or, and_or_left]
  exact or_or_distrib_left

theorem filter_output_append (A B : List Rule) (file : SourceFile) :
    (output (A ++ B) file).filter (fun f => !f.cause.isFault) =
      (output A file).filter (fun f => !f.cause.isFault) ++
        (output B file).filter fun f => !f.cause.isFault := by
  have hfile : (Register.ofFile file).fileFaults.filter (fun f => !f.cause.isFault) = [] :=
    filter_faults fun f hf => Register.isFault_of_mem_fileFaults hf
  unfold output
  rw [List.filter_append, List.filter_append, List.filter_append, hfile]
  cases (Register.ofFile file).docIgnores with
  | true => rfl
  | false => simp only [Bool.false_eq_true, if_false, List.flatMap_append, List.filter_append,
      List.nil_append]

/-! ### The findings of rules -/

theorem findings_eq (analyzer : Analyzer) (file : SourceFile) :
    (analyzer.checkFile file).findings =
      if analyzer.leavesOut file then []
      else (output analyzer.rules file).foldl Finding.record [] := by
  cases h : analyzer.leavesOut file with
  | true =>
    rw [checkFile, show (analyzer.ignoreTests && isTestFile file.filename) = true from h]
    rfl
  | false => exact findings_checkFile h

theorem ruleFindings_eq (analyzer : Analyzer) (file : SourceFile) :
    analyzer.ruleFindings file =
      if analyzer.leavesOut file then []
      else (output analyzer.rules file).filter fun f => !f.cause.isFault := by
  unfold ruleFindings
  simp only [Finding.isDirective_eq_isFault, findings_eq]
  split
  · rfl
  · exact Finding.filter_foldl_record _ []

theorem ruleFindings_append (A B : List Rule) (tests : Bool) (file : SourceFile) :
    ruleFindings ⟨A ++ B, tests⟩ file =
      ruleFindings ⟨A, tests⟩ file ++ ruleFindings ⟨B, tests⟩ file := by
  rw [ruleFindings_eq, ruleFindings_eq, ruleFindings_eq]
  -- whether the file is left out does not depend on the rules
  show (if leavesOut ⟨[], tests⟩ file then _ else _) =
    (if leavesOut ⟨[], tests⟩ file then _ else _) ++ if leavesOut ⟨[], tests⟩ file then _ else _
  split
  · rfl
  · exact filter_output_append A B file

theorem ruleFindings_perm {A B : List Rule} (h : A.Perm B) (tests : Bool) (file : SourceFile) :
    (ruleFindings ⟨A, tests⟩ file).Perm (ruleFindings ⟨B, tests⟩ file) := by
  have hsplit : ∀ rules : List Rule, ruleFindings ⟨rules, tests⟩ file =
      rules.flatMap fun rule => ruleFindings ⟨[rule], tests⟩ file := by
    intro rules
    induction rules with
    | nil =>
      have hnone := ruleFindings_append [] [] tests file
      exact List.self_eq_append_right.1 hnone
    | cons rule rules ih =>
      rw [List.flatMap_cons, ← ih]
      exact ruleFindings_append [rule] rules tests file
  rw [hsplit A, hsplit B]
  exact h.flatMap_right _

/-! ### The findings about directives -/

theorem directiveFindings_eq (analyzer : Analyzer) (file : SourceFile) :
    analyzer.directiveFindings file =
      if analyzer.leavesOut file then []
      else ((output analyzer.rules file).foldl Finding.record []).filter fun f =>
        f.cause.isFault := by
  unfold directiveFindings
  simp only [Finding.isDirective_eq_isFault, findings_eq]
  split
  · rfl
  · rfl

theorem nodup_directiveFindings (analyzer : Analyzer) (file : SourceFile) :
    (analyzer.directiveFindings file).Nodup := by
  rw [directiveFindings_eq]
  split
  · exact List.nodup_nil
  · exact Finding.nodup_faults_foldl_record _

section Read

variable {filename : String} {source : List UInt8} {root : Node} {broken : Bool}

theorem mem_directiveFindings {analyzer : Analyzer} {f : Finding} :
    f ∈ analyzer.directiveFindings (SourceFile.ofTree filename source root broken) ↔
      analyzer.leavesOut (SourceFile.ofTree filename source root broken) = false ∧
        f.cause.isFault = true ∧
          f ∈ output analyzer.rules (SourceFile.ofTree filename source root broken) := by
  rw [directiveFindings_eq]
  cases analyzer.leavesOut (SourceFile.ofTree filename source root broken) with
  | true => simp
  | false =>
    rw [if_neg Bool.false_ne_true, List.mem_filter]
    constructor
    · rintro ⟨hmem, hfault⟩
      exact ⟨rfl, hfault, (mem_foldl_record_output hfault).1 hmem⟩
    · rintro ⟨-, hfault, hmem⟩
      exact ⟨(mem_foldl_record_output hfault).2 hmem, hfault⟩

theorem mem_directiveFindings_append {A B : List Rule} {tests : Bool} {f : Finding} :
    f ∈ directiveFindings ⟨A ++ B, tests⟩ (SourceFile.ofTree filename source root broken) ↔
      f ∈ directiveFindings ⟨A, tests⟩ (SourceFile.ofTree filename source root broken) ∨
        f ∈ directiveFindings ⟨B, tests⟩ (SourceFile.ofTree filename source root broken) := by
  rw [mem_directiveFindings, mem_directiveFindings, mem_directiveFindings, mem_output_append]
  show leavesOut ⟨[], tests⟩ _ = false ∧ _ ↔
    leavesOut ⟨[], tests⟩ _ = false ∧ _ ∨ leavesOut ⟨[], tests⟩ _ = false ∧ _
  rw [← and_or_left, ← and_or_left]

/-- **Faults depend on which rules there are**, and not on their order or number. -/
theorem perm_directiveFindings {A B : List Rule} (h : ∀ rule, rule ∈ A ↔ rule ∈ B) (tests : Bool) :
    (directiveFindings ⟨A, tests⟩ (SourceFile.ofTree filename source root broken)).Perm
      (directiveFindings ⟨B, tests⟩ (SourceFile.ofTree filename source root broken)) := by
  refine (List.perm_ext_iff_of_nodup (nodup_directiveFindings _ _)
    (nodup_directiveFindings _ _)).2 fun f => ?_
  simp only [mem_directiveFindings, mem_output, h]
  rfl

/-- **Rules act independently.**  In a file that was read, the findings of rules under two lists of
rules together are those under the first, then those under the second.  The findings about directives
are those that are found under one of the lists or the other, each once.  So the order of rules does
not change which findings there are and how often; and a rule that is repeated repeats what it finds,
while no finding about a directive is repeated. -/
theorem findings_rules_independent (filename : String) (source : List UInt8) (root : Node)
    (broken tests : Bool) (A B : List Rule) :
    let file := SourceFile.ofTree filename source root broken
    ruleFindings ⟨A ++ B, tests⟩ file =
        ruleFindings ⟨A, tests⟩ file ++ ruleFindings ⟨B, tests⟩ file ∧
      (directiveFindings ⟨A ++ B, tests⟩ file).Nodup ∧
      (∀ f, f ∈ directiveFindings ⟨A ++ B, tests⟩ file ↔
        f ∈ directiveFindings ⟨A, tests⟩ file ∨ f ∈ directiveFindings ⟨B, tests⟩ file) ∧
      (A.Perm B → (checkFile ⟨A, tests⟩ file).findings.Perm (checkFile ⟨B, tests⟩ file).findings) ∧
      ∀ rule ∈ A ++ B,
        ruleFindings ⟨A ++ rule :: B, tests⟩ file =
            ruleFindings ⟨A, tests⟩ file ++ ruleFindings ⟨[rule], tests⟩ file ++
              ruleFindings ⟨B, tests⟩ file ∧
          (directiveFindings ⟨A ++ rule :: B, tests⟩ file).Perm
            (directiveFindings ⟨A ++ B, tests⟩ file) := by
  intro file
  refine ⟨ruleFindings_append A B tests file, nodup_directiveFindings _ file,
    fun f => mem_directiveFindings_append, fun hperm => ?_, fun rule hrule => ⟨?_, ?_⟩⟩
  · have hdirectives : (directiveFindings ⟨A, tests⟩ file).Perm (directiveFindings ⟨B, tests⟩ file) :=
      perm_directiveFindings (fun rule => hperm.mem_iff) tests
    exact (perm_findings _ file).symm.trans
      ((hdirectives.append (ruleFindings_perm hperm tests file)).trans (perm_findings _ file))
  · rw [ruleFindings_append A (rule :: B), List.append_assoc]
    exact congrArg _ (ruleFindings_append [rule] B tests file)
  · refine perm_directiveFindings (fun other => ?_) tests
    rw [List.mem_append, List.mem_cons, List.mem_append]
    constructor
    · rintro (hA | rfl | hB)
      · exact Or.inl hA
      · exact List.mem_append.1 hrule
      · exact Or.inr hB
    · rintro (hA | hB)
      · exact Or.inl hA
      · exact Or.inr (Or.inr hB)

end Read

/-- Two rules in either order, and the first of them once more. -/
theorem findings_rules_independent_note :
    [(⟨"fmt", ["New"], ""⟩ : Rule), ⟨"fmt", [], ""⟩].Perm [⟨"fmt", [], ""⟩, ⟨"fmt", ["New"], ""⟩] ∧
      (checkFile ⟨[⟨"fmt", ["New"], ""⟩, ⟨"fmt", [], ""⟩], false⟩
          (SourceFile.ofTree "a.go" noteSource noteRoot false)).findings.Perm
        (checkFile ⟨[⟨"fmt", [], ""⟩, ⟨"fmt", ["New"], ""⟩], false⟩
          (SourceFile.ofTree "a.go" noteSource noteRoot false)).findings ∧
      (⟨"fmt", ["New"], ""⟩ : Rule) ∈ [⟨"fmt", ["New"], ""⟩] ++ [] ∧
      ruleFindings ⟨[⟨"fmt", ["New"], ""⟩, ⟨"fmt", ["New"], ""⟩], false⟩
          (SourceFile.ofTree "a.go" noteSource noteRoot false) =
        ruleFindings ⟨[⟨"fmt", ["New"], ""⟩], false⟩
            (SourceFile.ofTree "a.go" noteSource noteRoot false) ++
          ruleFindings ⟨[⟨"fmt", ["New"], ""⟩], false⟩
            (SourceFile.ofTree "a.go" noteSource noteRoot false) := by
  have hperm : [(⟨"fmt", ["New"], ""⟩ : Rule), ⟨"fmt", [], ""⟩].Perm
      [⟨"fmt", [], ""⟩, ⟨"fmt", ["New"], ""⟩] := List.Perm.swap _ _ _
  have hmem : (⟨"fmt", ["New"], ""⟩ : Rule) ∈ [⟨"fmt", ["New"], ""⟩] ++ [] := by simp
  obtain ⟨-, -, -, horder, -⟩ := findings_rules_independent "a.go" noteSource noteRoot false false
    [⟨"fmt", ["New"], ""⟩, ⟨"fmt", [], ""⟩] [⟨"fmt", [], ""⟩, ⟨"fmt", ["New"], ""⟩]
  obtain ⟨-, -, -, -, hrepeat⟩ := findings_rules_independent "a.go" noteSource noteRoot false false
    [⟨"fmt", ["New"], ""⟩] []
  obtain ⟨htwice, -⟩ := hrepeat _ hmem
  refine ⟨hperm, horder hperm, hmem, htwice.trans ?_⟩
  exact List.append_nil _

end ImportGuard.Analyzer
