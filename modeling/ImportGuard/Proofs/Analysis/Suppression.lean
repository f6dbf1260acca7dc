import ImportGuard.Proofs.Analysis.Unspecified
import ImportGuard.Proofs.Directive.Easing
import Mathlib.Data.List.Flatten
import Mathlib.Data.List.Perm.Subperm

/-!
# Suppression never escalates

Turning a comment that is no directive into an `ignore` takes findings away and adds none
(`findings_reword`).  The findings need not come in the same order: with an answer turned from no to
yes other groups are asked, so a fault may be met later than before.  Hence two arguments.  What
rules find is compared part by part (`subperm_filter_output`).  Faults are recorded once for an
offset, and an offset has one place in a file, so there it is enough that each fault was met before
(`eq_of_repeats`).

A use of the name `unspecified` is left out by assumption: with one of those suppressed, the uses of
listed declarations come to light.
-/

namespace ImportGuard

/-! ### Where faults are -/

theorem Register.position_of_mem_faultsIn {register : Register} {option : String}
    {group : CommentGroup} {f : Finding} (h : f ∈ register.faultsIn option group) :
    ∃ comment ∈ group.comments, f.position = Position.ofPlace register.filename comment.start := by
  obtain ⟨comment, hcomment, hf⟩ := List.mem_flatMap.1 h
  refine ⟨comment, upTo_subset hcomment, ?_⟩
  unfold faultsOf at hf
  split at hf
  · exact absurd hf (by simp)
  · rcases List.mem_append.1 hf with hf | hf
    · split at hf
      · rw [List.mem_singleton.1 hf]
      · exact absurd hf (by simp)
    · split at hf
      · rw [List.mem_singleton.1 hf]
      · exact absurd hf (by simp)

theorem SourceFile.mem_comments_of_mem_consulted {file : SourceFile} {address : Address}
    {offset : Nat} {group : CommentGroup}
    (h : group ∈ Register.consulted (CommentMap.ofFile file).arrange address offset) :
    group ∈ file.comments := by
  rw [← CommentMap.exists_entry_iff]
  rcases List.mem_append.1 h with hown | haround
  · rw [CommentMap.groupsAt_arrange] at hown
    obtain ⟨entry, hentry, _, hgroup⟩ := CommentMap.exists_entry_of_mem_groupsAt hown
    exact ⟨entry, hentry, hgroup⟩
  · obtain ⟨entry, hentry, hgroup⟩ := List.mem_flatMap.1 haround
    obtain ⟨hmem, _⟩ := (CommentMap.mem_enclosing_arrange (CommentMap.distinct_ofFile file)
      (CommentMap.order_ofFile file)).1 hentry
    exact ⟨entry, hmem, hgroup⟩

/-- What is recorded is less, if what rules put forward is less and every fault that is put forward
is recorded on the other side too. -/
theorem Finding.subperm_foldl_record {raw raw' : List Finding}
    (hrules : (raw.filter fun f => !f.cause.isFault).Subperm
      (raw'.filter fun f => !f.cause.isFault))
    (hfaults : ∀ f ∈ raw, f.cause.isFault = true → f ∈ raw'.foldl record []) :
    (raw.foldl record []).Subperm (raw'.foldl record []) := by
  have hsplit : ∀ findings : List Finding,
      (findings.filter (fun f => f.cause.isFault) ++
        findings.filter (fun f => !f.cause.isFault)).Perm findings :=
    List.filter_append_perm fun f : Finding => f.cause.isFault
  have hnodup := nodup_faults_foldl_record raw
  have hsubset : (raw.foldl record []).filter (fun f => f.cause.isFault) ⊆
      (raw'.foldl record []).filter fun f => f.cause.isFault := by
    intro f hf
    obtain ⟨hmem, hfault⟩ := List.mem_filter.1 hf
    have hraw : f ∈ raw := (mem_of_mem_foldl_record hmem).resolve_left List.not_mem_nil
    exact List.mem_filter.2 ⟨hfaults f hraw hfault, hfault⟩
  have hothers := filter_foldl_record raw []
  have hothers' := filter_foldl_record raw' []
  rw [List.filter_nil, List.nil_append] at hothers hothers'
  rw [← hothers, ← hothers'] at hrules
  exact (hsplit _).symm.subperm.trans
    (((hnodup.subperm hsubset).append hrules).trans (hsplit _).subperm)

namespace Analyzer

/-- A fault that a check puts forward is met in a group of the file or in its documentation. -/
theorem exists_group_of_fault {rules : List Rule} {file : SourceFile} {f : Finding}
    (h : f ∈ output rules file) (hfault : f.cause.isFault = true) :
    ∃ group, (group ∈ file.comments ∨ file.doc = some group) ∧
      ∃ option, f ∈ (Register.ofFile file).faultsIn option group := by
  have hask : ∀ address offset, f ∈ file.faultsAt address offset →
      ∃ group, (group ∈ file.comments ∨ file.doc = some group) ∧
        ∃ option, f ∈ (Register.ofFile file).faultsIn option group := by
    intro address offset hf
    obtain ⟨group, hgroup, hf⟩ := List.mem_flatMap.1 hf
    exact ⟨group, Or.inl (SourceFile.mem_comments_of_mem_consulted (upTo_subset hgroup)),
      Directive.ignore, hf⟩
  rcases List.mem_append.1 h with hf | hf
  · cases hdoc : file.doc with
    | none => simp [Register.fileFaults, Register.ofFile, hdoc] at hf
    | some group =>
      refine ⟨group, Or.inr rfl, Directive.fileIgnore, ?_⟩
      simpa [Register.fileFaults, Register.ofFile, hdoc] using hf
  · split at hf
    · exact absurd hf (by simp)
    obtain ⟨rule, _, hf⟩ := List.mem_flatMap.1 hf
    obtain ⟨spec, _, hf⟩ := List.mem_flatMap.1 hf
    rcases List.mem_append.1 hf with hf | hf
    · exact hask _ _ hf
    split at hf
    · exact absurd hf (by simp)
    rcases List.mem_append.1 hf with hf | hf
    · unfold SourceFile.scanFaults at hf
      cases hname : Usage.scanName spec.qualifier spec.mode with
      | none => simp [hname] at hf
      | some name =>
        rw [hname] at hf
        obtain ⟨use, _, hf⟩ := List.mem_flatMap.1 hf
        exact hask _ _ hf
    · rw [isFault_of_mem_violations hf] at hfault
      exact absurd hfault (by simp)

/-- In a file that was read, a fault is at the place of an offset. -/
theorem exists_offset_of_fault {rules : List Rule} {filename : String} {source : List UInt8}
    {root : Node} {broken : Bool} {f : Finding}
    (h : f ∈ output rules (SourceFile.ofTree filename source root broken))
    (hfault : f.cause.isFault = true) :
    ∃ offset, f.position = Position.ofPlace filename (Place.ofOffset source offset) := by
  obtain ⟨group, hgroup, option, hin⟩ := exists_group_of_fault h hfault
  obtain ⟨comment, hcomment, hposition⟩ := Register.position_of_mem_faultsIn hin
  have hmem : group ∈ CommentGroup.ofTree source root :=
    hgroup.elim id SourceFile.doc_mem_comments
  refine ⟨comment.start.offset, ?_⟩
  rw [hposition, ← CommentGroup.start_of_mem_ofTree hmem hcomment]
  rfl

/-- **In a file that was read, faults that repeat each other are one.** -/
theorem eq_of_repeats {rules : List Rule} {filename : String} {source : List UInt8} {root : Node}
    {broken : Bool} {f g : Finding}
    (hf : f ∈ output rules (SourceFile.ofTree filename source root broken))
    (hg : g ∈ output rules (SourceFile.ofTree filename source root broken))
    (hfault : f.cause.isFault = true) (h : f.Repeats g) : f = g := by
  obtain ⟨hcause, hoffset⟩ := h
  obtain ⟨a, hfa⟩ := exists_offset_of_fault hf hfault
  obtain ⟨b, hgb⟩ := exists_offset_of_fault hg (hcause ▸ hfault)
  have hab : a = b := by
    rw [hfa, hgb] at hoffset
    exact Int.ofNat.inj hoffset
  subst hab
  obtain ⟨position, cause⟩ := f
  obtain ⟨position', cause'⟩ := g
  exact congrArg₂ Finding.mk (hfa.trans hgb.symm) hcause

/-- **In a file that was read, every fault that is met is reported.** -/
theorem mem_foldl_record_output {rules : List Rule} {filename : String} {source : List UInt8}
    {root : Node} {broken : Bool} {f : Finding} (hfault : f.cause.isFault = true) :
    f ∈ (output rules (SourceFile.ofTree filename source root broken)).foldl Finding.record [] ↔
      f ∈ output rules (SourceFile.ofTree filename source root broken) := by
  refine Finding.mem_foldl_record_iff (fun g hg k hk hkfault hsame => ?_) hfault
  exact eq_of_repeats hg hk (hsame.1 ▸ hkfault) hsame

/-! ### What rules find -/

/-- What is gathered from fewer members, and less from each, is less. -/
theorem subperm_flatMap {α β : Type} {l m : List α} {f g : α → List β} (h : l.Sublist m)
    (hless : ∀ a ∈ l, (f a).Subperm (g a)) : (l.flatMap f).Subperm (m.flatMap g) := by
  induction h with
  | slnil => exact List.Subperm.refl _
  | cons a _ ih =>
    rw [List.flatMap_cons]
    exact (ih hless).trans (List.sublist_append_right _ _).subperm
  | cons_cons a _ ih =>
    rw [List.flatMap_cons, List.flatMap_cons]
    exact (hless a List.mem_cons_self).append
      (ih fun b hb => hless b (List.mem_cons_of_mem a hb))

theorem usesOfListed_sublist (file : SourceFile) (rule : Rule) (spec : Import)
    {uses uses' : List Use} (h : uses.Sublist uses') :
    (usesOfListed file rule spec uses).Sublist (usesOfListed file rule spec uses') :=
  List.Sublist.flatMap_right _ fun _ _ => (h.filter _).map _

variable {φ : CommentGroup → CommentGroup}

/-- **With more suppressed, a rule is owed no more.** -/
theorem due_subperm (h : CommentGroup.Easing φ) {file : SourceFile} {rule : Rule} {spec : Import}
    (hnames : ∀ name, spec.qualifier = some name → ∀ use ∈ file.kept name,
      use.name ≠ Usage.unspecified) :
    (due (file.mapGroups φ) rule spec).Subperm (due file rule spec) := by
  have hrecorded := file.recorded_eq spec
  have heased := (file.mapGroups φ).recorded_eq spec
  cases hscan : Usage.scanName spec.qualifier spec.mode with
  | none =>
    rw [hscan] at hrecorded heased
    unfold due
    rw [heased, hrecorded]
    exact List.Subperm.refl _
  | some name =>
    rw [hscan] at hrecorded heased
    have hsub := h.kept_sublist file name
    have hplain := hnames name (Usage.eq_of_scanName_eq_some hscan)
    by_cases hlisted : rule.declarations = []
    · -- the package is found for as long as a use is left
      unfold due
      by_cases hnone : (file.mapGroups φ).recorded spec = []
      · rw [if_pos hnone]
        exact List.nil_subperm
      · have hsome : file.recorded spec ≠ [] := by
          intro hnil
          rw [hrecorded, Option.elim_some, ← List.isEmpty_iff, Usage.isEmpty_index,
            List.isEmpty_iff] at hnil
          rw [hnil, List.sublist_nil] at hsub
          rw [heased, Option.elim_some, hsub] at hnone
          exact hnone rfl
        rw [if_neg hnone, if_pos (Or.inr hlisted), if_neg hsome, if_pos (Or.inr hlisted)]
        exact List.Subperm.refl _
    · have hbefore := perm_due_usesOfListed hlisted hrecorded hplain
      have hafter := perm_due_usesOfListed hlisted heased fun use huse =>
        hplain use (hsub.subset huse)
      exact hafter.subperm.trans
        ((usesOfListed_sublist file rule spec hsub).subperm.trans hbefore.symm.subperm)

theorem subperm_filter_output (h : CommentGroup.Easing φ) {rules : List Rule} {file : SourceFile}
    (hnames : ∀ rule ∈ rules, ∀ spec ∈ file.importsOfPath rule.importPath,
      file.suppresses spec.address spec.start.offset = false →
        ∀ name, spec.qualifier = some name → ∀ use ∈ file.kept name,
          use.name ≠ Usage.unspecified) :
    ((output rules (file.mapGroups φ)).filter fun f => !f.cause.isFault).Subperm
      ((output rules file).filter fun f => !f.cause.isFault) := by
  have hd := h.docIgnores_eq file
  cases hdoc : (Register.ofFile file).docIgnores with
  | true =>
    rw [hdoc] at hd
    rw [output, if_pos hd, List.append_nil,
      filter_faults fun f hf => Register.isFault_of_mem_fileFaults hf]
    exact List.nil_subperm
  | false =>
    rw [hdoc] at hd
    rw [filter_output hdoc, filter_output hd]
    refine subperm_flatMap (List.Sublist.refl _) fun rule hrule => ?_
    have hspecs : ((file.importsOfPath rule.importPath).filter fun spec =>
        !(file.mapGroups φ).suppresses spec.address spec.start.offset).Sublist
        ((file.importsOfPath rule.importPath).filter fun spec =>
          !file.suppresses spec.address spec.start.offset) := by
      refine List.monotone_filter_right _ fun spec hspec => ?_
      cases hs : file.suppresses spec.address spec.start.offset with
      | false => rfl
      | true =>
        have heased := h.suppresses_mono hs
        simp [heased] at hspec
    refine subperm_flatMap hspecs fun spec hspec => due_subperm h ?_
    obtain ⟨hmem, hopen⟩ := List.mem_filter.1 (hspecs.subset hspec)
    exact hnames rule hrule spec hmem (by simpa using hopen)

/-- **Easing comments takes findings away and adds none.** -/
theorem findings_subperm (h : CommentGroup.Easing φ) {analyzer : Analyzer} {filename : String}
    {source : List UInt8} {root : Node} {broken : Bool} {file : SourceFile}
    (hfile : file = SourceFile.ofTree filename source root broken)
    (hnames : ∀ rule ∈ analyzer.rules, ∀ spec ∈ file.importsOfPath rule.importPath,
      file.suppresses spec.address spec.start.offset = false →
        ∀ name, spec.qualifier = some name → ∀ use ∈ file.kept name,
          use.name ≠ Usage.unspecified) :
    (analyzer.checkFile (file.mapGroups φ)).findings.Subperm
      (analyzer.checkFile file).findings := by
  cases htest : analyzer.ignoreTests && isTestFile file.filename with
  | true =>
    rw [checkFile, show (analyzer.ignoreTests && isTestFile (file.mapGroups φ).filename) = true
      from htest]
    exact List.nil_subperm
  | false =>
    have htest' : (analyzer.ignoreTests && isTestFile (file.mapGroups φ).filename) = false := htest
    rw [findings_checkFile htest, findings_checkFile htest']
    refine Finding.subperm_foldl_record (subperm_filter_output h hnames) fun f hf hfault => ?_
    have hmem := h.fault_mem_output hf hfault
    subst hfile
    exact (mem_foldl_record_output hfault).2 hmem

/-! ### Where nothing is found -/

/-- An `ignore` in a group of an entry covers every offset in the range of the entry's node. -/
theorem suppresses_of_covers {file : SourceFile} {entry : MapEntry}
    (hentry : entry ∈ (CommentMap.ofFile file).entries)
    (hignores : entry.groups.any CommentGroup.ignores = true) {offset : Nat}
    (hstart : entry.site.node.start ≤ offset) (hstop : offset ≤ entry.site.node.stop)
    (address : Address) : file.suppresses address offset = true := by
  have hcovers : CommentMap.covers offset entry.site = true :=
    CommentMap.covers_iff.2 ⟨hstart, hstop⟩
  refine List.any_eq_true.2 ⟨entry, hentry, ?_⟩
  rw [hcovers, hignores, Bool.or_true, Bool.true_and]

/-- What rules find is owed to imports that no `ignore` covers. -/
theorem exists_due_of_mem_findings {analyzer : Analyzer} {file : SourceFile} {f : Finding}
    (h : f ∈ (analyzer.checkFile file).findings) (hrule : f.cause.isFault = false) :
    ∃ rule ∈ analyzer.rules, ∃ spec ∈ file.importsOfPath rule.importPath,
      file.suppresses spec.address spec.start.offset = false ∧ f ∈ due file rule spec := by
  cases htest : analyzer.ignoreTests && isTestFile file.filename with
  | true =>
    rw [checkFile, htest] at h
    exact absurd h List.not_mem_nil
  | false =>
    have hmem : f ∈ (output analyzer.rules file).filter fun f => !f.cause.isFault := by
      have hfilter := Finding.filter_foldl_record (output analyzer.rules file) []
      rw [List.filter_nil, List.nil_append, ← findings_checkFile htest] at hfilter
      rw [← hfilter, List.mem_filter, hrule]
      exact ⟨h, rfl⟩
    cases hdoc : (Register.ofFile file).docIgnores with
    | true =>
      rw [output, if_pos hdoc, List.append_nil,
        filter_faults fun f hf => Register.isFault_of_mem_fileFaults hf] at hmem
      exact absurd hmem List.not_mem_nil
    | false =>
      rw [filter_output hdoc] at hmem
      obtain ⟨rule, hrule, hmem⟩ := List.mem_flatMap.1 hmem
      obtain ⟨spec, hspec, hmem⟩ := List.mem_flatMap.1 hmem
      obtain ⟨hspec, hopen⟩ := List.mem_filter.1 hspec
      exact ⟨rule, hrule, spec, hspec, by simpa using hopen, hmem⟩

/-- What is owed is about the package, at the path of the import, or it is at a use that no `ignore`
covers. -/
theorem cause_of_mem_due {file : SourceFile} {rule : Rule} {spec : Import} {f : Finding}
    (h : f ∈ due file rule spec) :
    f = ⟨file.positionOf spec.pathStart, .package spec.path rule.suggestion⟩ ∨
      (∀ path suggestion, f.cause ≠ .package path suggestion) ∧
        ∃ name, ∃ use ∈ file.kept name, f.position = file.positionOf use.place := by
  unfold due at h
  split at h
  · exact absurd h List.not_mem_nil
  · split at h
    · exact Or.inl (List.mem_singleton.1 h)
    · rename_i hkeys
      obtain ⟨listed, _, h⟩ := List.mem_flatMap.1 h
      obtain ⟨place, hplace, rfl⟩ := List.mem_map.1 h
      refine Or.inr ⟨fun _ _ => Cause.noConfusion, ?_⟩
      rw [file.recorded_eq] at hplace hkeys
      cases hscan : Usage.scanName spec.qualifier spec.mode with
      | none =>
        rw [hscan] at hkeys
        exact absurd (Or.inl (List.mem_singleton_self _)) hkeys
      | some name =>
        rw [hscan, Option.elim_some, Usage.placesOf_index, List.mem_mergeSort] at hplace
        obtain ⟨use, huse, rfl⟩ := List.mem_map.1 hplace
        exact ⟨name, use, List.mem_of_mem_filter huse, rfl⟩

/-- **Suppression never escalates.**  Let the text of one comment of a file that was read become an
`ignore` with a reason, where it was no directive, and let no use that counts select `unspecified`.
Then the findings, as a multiset and faults included, are contained in those from before.  The
comment's group belongs to a node, and in the range of that node, both of its ends included, nothing
is left: no use of a listed declaration is found there, and the check of an import that starts there
finds nothing, so that every finding about a package is owed to an import that starts outside. -/
theorem findings_reword {analyzer : Analyzer} {filename : String} {source : List UInt8}
    {root : Node} {broken : Bool} {file : SourceFile}
    (hfile : file = SourceFile.ofTree filename source root broken) {group : CommentGroup}
    (hgroup : group ∈ file.comments) {index : Nat} {comment : Comment}
    (hcomment : group.comments[index]? = some comment)
    (hplain : Directive.parse? comment.text = none) {reason : String} (hreason : reason ≠ "")
    {edited : SourceFile}
    (hedited : edited = file.mapGroups (group.reword index ("//faillint:ignore " ++ reason)))
    (hnames : ∀ rule ∈ analyzer.rules, ∀ spec ∈ file.importsOfPath rule.importPath,
      file.suppresses spec.address spec.start.offset = false →
        ∀ name, spec.qualifier = some name → ∀ use ∈ file.kept name,
          use.name ≠ Usage.unspecified) :
    (analyzer.checkFile edited).findings.Subperm (analyzer.checkFile file).findings ∧
      (∃ entry ∈ (CommentMap.ofFile file).entries, group ∈ entry.groups) ∧
      ∀ entry ∈ (CommentMap.ofFile file).entries, group ∈ entry.groups →
        (∀ f ∈ (analyzer.checkFile edited).findings, ∀ name path suggestion,
          f.cause = .declaration name path suggestion →
            ¬ ((entry.site.node.start : Int) ≤ f.position.offset ∧
              f.position.offset ≤ (entry.site.node.stop : Int))) ∧
        (∀ rule ∈ analyzer.rules, ∀ spec ∈ edited.importsOfPath rule.importPath,
          entry.site.node.start ≤ spec.start.offset →
          spec.start.offset ≤ entry.site.node.stop → ∀ prior,
            ((checkImport (Register.ofFile edited) (CommentMap.ofFile edited).arrange edited rule
              spec).run prior).2.filter (fun f => !f.isDirective) =
                prior.filter fun f => !f.isDirective) ∧
        ∀ f ∈ (analyzer.checkFile edited).findings, ∀ path suggestion,
          f.cause = .package path suggestion →
            ∃ rule ∈ analyzer.rules, ∃ spec ∈ edited.importsOfPath rule.importPath,
              f = ⟨edited.positionOf spec.pathStart, .package spec.path rule.suggestion⟩ ∧
              ¬ (entry.site.node.start ≤ spec.start.offset ∧
                spec.start.offset ≤ entry.site.node.stop) := by
  have hease := CommentGroup.easing_reword hcomment hplain hreason
  refine ⟨?_, CommentMap.exists_entry_iff.2 hgroup, fun entry hentry hin => ?_⟩
  · rw [hedited]
    exact findings_subperm hease hfile hnames
  -- the entry is there after the change too, and one of its groups ignores now
  have hcovered : ∀ address offset, entry.site.node.start ≤ offset →
      offset ≤ entry.site.node.stop → edited.suppresses address offset = true := by
    intro address offset hstart hstop
    have hmem : CommentMap.mapEntry (group.reword index ("//faillint:ignore " ++ reason)) entry ∈
        (CommentMap.ofFile edited).entries := by
      rw [hedited, CommentMap.ofFile_mapGroups hease.keeps]
      exact List.mem_map_of_mem hentry
    refine suppresses_of_covers hmem ?_ hstart hstop address
    exact List.any_eq_true.2
      ⟨_, List.mem_map_of_mem hin, CommentGroup.ignores_reword hcomment hreason⟩
  refine ⟨fun f hf name path suggestion hcause hrange => ?_,
    fun rule _ spec _ hstart hstop prior => ?_, fun f hf path suggestion hcause => ?_⟩
  · obtain ⟨rule, _, spec, _, _, hdue⟩ := exists_due_of_mem_findings hf (by rw [hcause]; rfl)
    rcases cause_of_mem_due hdue with rfl | ⟨_, qualifier, use, huse, hposition⟩
    · exact absurd hcause Cause.noConfusion
    · have hopen := (List.mem_filter.1 huse).2
      have hoffset : f.position.offset = (use.place.offset : Int) := by
        rw [hposition]
        rfl
      rw [hcovered use.address use.place.offset (by omega) (by omega)] at hopen
      exact absurd hopen (by simp)
  · rw [filter_run_checkImport, hcovered _ _ hstart hstop, if_pos rfl, List.append_nil]
  · obtain ⟨rule, hrule, spec, hspec, hopen, hdue⟩ :=
      exists_due_of_mem_findings hf (by rw [hcause]; rfl)
    refine ⟨rule, hrule, spec, hspec, ?_, fun hrange => ?_⟩
    · rcases cause_of_mem_due hdue with heq | ⟨hne, _⟩
      · exact heq
      · exact absurd hcause (hne path suggestion)
    · rw [hcovered _ _ hrange.1 hrange.2] at hopen
      exact absurd hopen (by simp)

/-- An import, a use of it, and a comment behind the use. -/
def noteSource : List UInt8 := "\"fmt\" fmt.New //x".toList.map fun c => c.val.toUInt8

def noteRoot : Node :=
  ⟨.sourceFile, true, none, 0, 17,
    [⟨.importDeclaration, true, none, 0, 5,
        [⟨.importSpec, true, none, 0, 5, [⟨.other "literal", true, some .path, 0, 5, []⟩]⟩]⟩,
      sampleUse 6 13, ⟨.comment, true, none, 14, 17, []⟩]⟩

def noteGroup : CommentGroup := ⟨0, ⟨"//x", ⟨14, 1, 15⟩, ⟨17, 1, 18⟩⟩, []⟩

def noteFile : SourceFile where
  filename := "a.go"
  source := noteSource
  root := noteRoot
  imports := [⟨[0, 0], "\"fmt\"", none, ⟨0, 1, 1⟩, ⟨0, 1, 1⟩⟩]
  comments := [noteGroup]

theorem findings_reword_note :
    noteFile = SourceFile.ofTree "a.go" noteSource noteRoot false ∧
      noteGroup ∈ noteFile.comments ∧ Directive.parse? "//x" = none ∧
      (Usage.usesOf noteSource noteRoot "fmt").map (·.name) = ["New"] ∧
      (sampleAnalyzer.checkFile (noteFile.mapGroups
        (noteGroup.reword 0 ("//faillint:ignore " ++ "legacy")))).findings.Subperm
        (sampleAnalyzer.checkFile noteFile).findings := by
  have hfile : noteFile = SourceFile.ofTree "a.go" noteSource noteRoot false := by
    have hgroups : CommentGroup.ofTree noteSource noteRoot = [noteGroup] := by decide +kernel
    have himports : noteFile.imports = SourceFile.importsOf noteSource noteRoot := by
      decide +kernel
    rw [SourceFile.ofTree, hgroups, ← himports]
    rfl
  have hgroup : noteGroup ∈ noteFile.comments := List.mem_singleton_self _
  have hplain : Directive.parse? "//x" = none := by rfl
  have huses : (Usage.usesOf noteSource noteRoot "fmt").map (·.name) = ["New"] := by decide +kernel
  refine ⟨hfile, hgroup, hplain, huses, ?_⟩
  refine (findings_reword hfile hgroup rfl hplain (by decide) rfl ?_).1
  intro rule hrule spec hspec _ name hname use huse hunspecified
  obtain rfl := List.mem_singleton.1 hrule
  obtain rfl := List.mem_singleton.1 (List.mem_of_mem_filter hspec)
  have hfmt : (⟨[0, 0], "\"fmt\"", none, ⟨0, 1, 1⟩, ⟨0, 1, 1⟩⟩ : Import).qualifier =
      some "fmt" := by decide +kernel
  obtain rfl : "fmt" = name := Option.some.inj (hfmt.symm.trans hname)
  have hmem := List.mem_map_of_mem (f := Use.name) (List.mem_of_mem_filter huse)
  rw [show (Usage.usesOf noteFile.source noteFile.root "fmt").map Use.name = ["New"] from huses,
    hunspecified] at hmem
  exact absurd hmem (by decide)

end Analyzer

end ImportGuard
