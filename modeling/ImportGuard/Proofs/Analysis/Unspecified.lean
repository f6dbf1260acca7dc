import ImportGuard.Proofs.Analysis.RuleFindings
import ImportGuard.Proofs.Policy.Paths

/-!
# Rules that list declarations

A rule that lists declarations is meant to allow the package and to forbid the listed uses.  Where
the package has a name in the file, the rule does so **exactly as long as no use of it selects the
name `unspecified`** (`listedFindings_iff`).  That name is the key under which a package counts as
used as a whole, and uses are filed in the same index: one use of it makes the import itself a
finding, and the uses of listed declarations go unreported.
-/

namespace ImportGuard.Analyzer

/-- A finding for each listed declaration and each use of it. -/
def usesOfListed (file : SourceFile) (rule : Rule) (spec : Import) (uses : List Use) :
    List Finding :=
  rule.declarations.flatMap fun name =>
    (uses.filter (·.name = name)).map fun use =>
      ⟨file.positionOf use.place, .declaration name spec.path rule.suggestion⟩

/-! ### What is owed to an import with a name -/

theorem unspecified_mem_keys_index (uses : List Use) :
    Usage.unspecified ∈ (Usage.index uses).map (·.1) ↔
      ∃ use ∈ uses, use.name = Usage.unspecified := by
  have hany := Usage.any_index uses Usage.unspecified
  rw [Bool.eq_iff_iff, List.any_eq_true, List.any_eq_true] at hany
  simpa using hany

theorem due_of_unspecified {file : SourceFile} {rule : Rule} {spec : Import} {uses : List Use}
    (hrecorded : file.recorded spec = Usage.index uses)
    (h : ∃ use ∈ uses, use.name = Usage.unspecified) :
    due file rule spec =
      [⟨file.positionOf spec.pathStart, .package spec.path rule.suggestion⟩] := by
  have hkey := (unspecified_mem_keys_index uses).2 h
  have hne : file.recorded spec ≠ [] := by
    intro hnil
    rw [← hrecorded, hnil] at hkey
    exact absurd hkey (by simp)
  rw [due, if_neg hne, if_pos (Or.inl (hrecorded ▸ hkey))]

theorem perm_due_usesOfListed {file : SourceFile} {rule : Rule} {spec : Import} {uses : List Use}
    (hlisted : rule.declarations ≠ []) (hrecorded : file.recorded spec = Usage.index uses)
    (h : ∀ use ∈ uses, use.name ≠ Usage.unspecified) :
    (due file rule spec).Perm (usesOfListed file rule spec uses) := by
  have hkey : ¬ Usage.unspecified ∈ (Usage.index uses).map (·.1) := by
    intro hmem
    obtain ⟨use, huse, hname⟩ := (unspecified_mem_keys_index uses).1 hmem
    exact h use huse hname
  have hplaces : (unwantedUses file rule spec (file.recorded spec)).Perm
      (usesOfListed file rule spec uses) := by
    refine List.Perm.flatMap_left rule.declarations fun name _ => ?_
    rw [hrecorded, Usage.placesOf_index]
    refine ((List.mergeSort_perm _ _).map _).trans ?_
    rw [List.map_map]
    exact List.Perm.refl _
  unfold due
  split
  · rename_i hnil
    have hnone : unwantedUses file rule spec [] = [] := by
      simp [unwantedUses, Usage.placesOf]
    rw [hnil, hnone] at hplaces
    exact hplaces
  · rw [if_neg (by rw [hrecorded]; exact fun hor => hor.elim hkey hlisted)]
    exact hplaces

/-- **A rule that lists declarations finds the listed uses and never the import, exactly as long as
no use selects `unspecified`.**  For a rule of a policy that lists declarations, and an import of
its path that has a name and that no `ignore` covers, whatever was found before: what the check
adds, directives apart, has no finding about the package and has one finding for each listed
declaration and each use of it that no scope hides and no `ignore` covers, if and only if no such
use selects `unspecified`.  If one does, all that is added is the finding about the package. -/
theorem listedFindings_iff {text : String} {rule : Rule} (hrule : rule ∈ parsePolicy text)
    (hlisted : rule.declarations ≠ []) {file : SourceFile} {spec : Import}
    (hspec : spec ∈ file.importsOfPath rule.importPath)
    (hopen : file.suppresses spec.address spec.start.offset = false)
    (hmode : spec.mode = .named ∨ spec.mode = .guessed) :
    ∃ name, spec.qualifier = some name ∧ ∀ prior, ∃ added,
      ((checkImport (Register.ofFile file) (CommentMap.ofFile file).arrange file rule spec).run
          prior).2.filter (fun f => !f.isDirective) =
        prior.filter (fun f => !f.isDirective) ++ added ∧
      ((∀ f ∈ added, ∀ path suggestion, f.cause ≠ .package path suggestion) ∧
          added.Perm (usesOfListed file rule spec (file.kept name)) ↔
        ∀ use ∈ file.kept name, use.name ≠ Usage.unspecified) ∧
      ((∃ use ∈ file.kept name, use.name = Usage.unspecified) →
        added = [⟨file.positionOf spec.pathStart, .package spec.path rule.suggestion⟩]) := by
  obtain ⟨name, hname, hne⟩ := Import.exists_qualifier hrule hspec hmode
  have hrecorded : file.recorded spec = Usage.index (file.kept name) := by
    rw [file.recorded_eq, hname]
    rcases hmode with hmode | hmode
    · simp [hmode, Usage.scanName, hne]
    · simp [hmode, Usage.scanName, hne]
  refine ⟨name, hname, fun prior =>
    ⟨due file rule spec, ?_, ⟨?_, ?_⟩, due_of_unspecified hrecorded⟩⟩
  · rw [filter_run_checkImport, hopen]
    rfl
  · rintro ⟨hpackage, _⟩ use huse hunspecified
    rw [due_of_unspecified hrecorded ⟨use, huse, hunspecified⟩] at hpackage
    exact hpackage _ (List.mem_singleton_self _) _ _ rfl
  · intro h
    have hperm := perm_due_usesOfListed hlisted hrecorded h
    refine ⟨fun f hf path suggestion => ?_, hperm⟩
    obtain ⟨listed, _, hlisted⟩ := List.mem_flatMap.1 (hperm.subset hf)
    obtain ⟨use, _, rfl⟩ := List.mem_map.1 hlisted
    exact Cause.noConfusion

def unspecifiedImport : Import := ⟨[0], "\"fmt\"", none, ⟨0, 1, 1⟩, ⟨0, 1, 1⟩⟩

/-- A file that uses its import `fmt` twice, the second time for the name `unspecified`. -/
def unspecifiedFile : SourceFile where
  filename := "a.go"
  source := "fmt.New;fmt.unspecified".toList.map fun c => c.val.toUInt8
  root := ⟨.sourceFile, true, none, 0, 23, [sampleUse 0 7, sampleUse 8 23]⟩
  imports := [unspecifiedImport]

/-- A rule that lists `New` finds the package, and its use of `New` goes unreported. -/
theorem listedFindings_iff_unspecified :
    (⟨"fmt", ["New"], ""⟩ : Rule) ∈ parsePolicy "fmt.\x7bNew\x7d" ∧
      unspecifiedImport ∈ unspecifiedFile.importsOfPath "fmt" ∧
      unspecifiedFile.suppresses [0] 0 = false ∧
      unspecifiedImport.mode = .guessed ∧
      (unspecifiedFile.kept "fmt").map (·.name) = ["New", "unspecified"] ∧
      ((checkImport (Register.ofFile unspecifiedFile) (CommentMap.ofFile unspecifiedFile).arrange
          unspecifiedFile ⟨"fmt", ["New"], ""⟩ unspecifiedImport).run
            []).2.filter (fun f => !f.isDirective) =
        [⟨⟨"a.go", 0, 1, 1⟩, .package "fmt" ""⟩] := by
  have hpolicy : parsePolicy "fmt.\x7bNew\x7d" = [⟨"fmt", ["New"], ""⟩] := by decide +kernel
  have hrule : (⟨"fmt", ["New"], ""⟩ : Rule) ∈ parsePolicy "fmt.\x7bNew\x7d" := by
    rw [hpolicy]
    exact List.mem_singleton_self _
  have himports : unspecifiedFile.importsOfPath "fmt" = [unspecifiedImport] := by decide +kernel
  have hspec : unspecifiedImport ∈ unspecifiedFile.importsOfPath "fmt" := by
    rw [himports]
    exact List.mem_singleton_self _
  have hopen : unspecifiedFile.suppresses [0] 0 = false := by decide
  have hkept : (unspecifiedFile.kept "fmt").map (·.name) = ["New", "unspecified"] := by decide +kernel
  refine ⟨hrule, hspec, hopen, rfl, hkept, ?_⟩
  obtain ⟨name, hname, h⟩ :=
    listedFindings_iff hrule (List.cons_ne_nil _ _) hspec hopen (Or.inr rfl)
  have hfmt : unspecifiedImport.qualifier = some "fmt" := by decide +kernel
  obtain rfl : "fmt" = name := Option.some.inj (hfmt.symm.trans hname)
  obtain ⟨added, hadded, _, hpackage⟩ := h []
  have hmem : Usage.unspecified ∈ (unspecifiedFile.kept "fmt").map (·.name) := by
    rw [hkept]
    decide
  rw [hadded, hpackage (List.mem_map.1 hmem), Import.path_of_mem_importsOfPath hspec]
  rfl

end ImportGuard.Analyzer
