import ImportGuard.Proofs.Analysis.Output
import ImportGuard.Proofs.Comment.Rewording
import Mathlib.Data.List.Forall2

/-!
# Adding an `ignore`

A comment is **eased** when it turns from no directive into a well-formed `ignore`
(`Comment.Eases`).  This settles every inquiry sooner or not at all later: an answer can only turn
from no to yes (`suppresses_mono`), and the faults met on the way to it are among those met before
(`faultsAt_subset`), since an inquiry stops at the first comment that settles it and the eased
comment has no fault in either form.

All is stated for a map of groups that eases any number of comments.
-/

namespace ImportGuard

/-! ### Eased comments -/

/-- The first comment is the second, or a well-formed `ignore` in the place of one that is no
directive. -/
def Comment.Eases (eased comment : Comment) : Prop :=
  eased = comment ∨
    Directive.parse? comment.text = none ∧
      ∃ reason, reason ≠ "" ∧ Directive.parse? eased.text = some ⟨Directive.ignore, reason⟩

/-- The text of an `ignore` with its reason is read as such. -/
theorem Directive.parse?_ignore (reason : String) :
    parse? ("//faillint:ignore " ++ reason) = some ⟨ignore, reason⟩ := by
  have hopening : opening.toList.isPrefixOf ("//faillint:ignore " ++ reason).toList = true := by
    rw [String.toList_append]
    rfl
  have hrest : ("//faillint:ignore " ++ reason).toList.drop opening.length =
      "ignore ".toList ++ reason.toList := by
    rw [String.toList_append]
    rfl
  have hcut : Pieces.cutFirst ' ' ("ignore ".toList ++ reason.toList) =
      ("ignore".toList, some reason.toList) := rfl
  rw [parse?, if_pos hopening, hrest, hcut]
  simp [ignore, String.ofList_toList]

namespace Comment.Eases

variable {eased comment : Comment} (h : eased.Eases comment)

include h

theorem carries_ignore (hc : comment.carries Directive.ignore = true) :
    eased.carries Directive.ignore = true := by
  rcases h with rfl | ⟨hplain, _⟩
  · exact hc
  · rw [carries, hplain] at hc
    exact absurd hc (by simp)

theorem carries_fileIgnore :
    eased.carries Directive.fileIgnore = comment.carries Directive.fileIgnore := by
  rcases h with rfl | ⟨hplain, reason, _, heased⟩
  · rfl
  · have hne : Directive.ignore ≠ Directive.fileIgnore := by decide
    simp [carries, hplain, heased, hne]

theorem faultsOf_eq (register : Register) (isDoc : Bool) (option : String) :
    register.faultsOf isDoc option eased = register.faultsOf isDoc option comment := by
  rcases h with rfl | ⟨hplain, reason, hreason, heased⟩
  · rfl
  · have hne : Directive.ignore ≠ Directive.fileIgnore := by decide
    simp [Register.faultsOf, hplain, heased, hreason, hne]

end Comment.Eases

theorem any_carries_fileIgnore {eased comments : List Comment}
    (h : List.Forall₂ Comment.Eases eased comments) :
    eased.any (Comment.carries Directive.fileIgnore) =
      comments.any (Comment.carries Directive.fileIgnore) := by
  induction h with
  | nil => rfl
  | cons hease _ ih => rw [List.any_cons, List.any_cons, hease.carries_fileIgnore, ih]

/-- What is collected up to an earlier stop, from less at each step, is less. -/
theorem flatMap_upTo_subset {α β γ : Type} {R : α → β → Prop} {p : α → Bool} {q : β → Bool}
    {f : α → List γ} {g : β → List γ} {l : List α} {m : List β} (h : List.Forall₂ R l m)
    (hstop : ∀ a b, R a b → q b = true → p a = true) (hless : ∀ a b, R a b → f a ⊆ g b) :
    (upTo p l).flatMap f ⊆ (upTo q m).flatMap g := by
  induction h with
  | nil => exact List.Subset.refl _
  | @cons a b l m hab _ ih =>
    by_cases hp : p a = true
    · have hfirst : g b ⊆ (upTo q (b :: m)).flatMap g := by
        rw [upTo]
        split
        · simp
        · simp
      rw [upTo, if_pos hp, List.flatMap_singleton]
      exact List.Subset.trans (hless a b hab) hfirst
    · have hq : ¬ q b = true := fun hq => hp (hstop a b hab hq)
      rw [upTo, if_neg hp, upTo, if_neg hq, List.flatMap_cons, List.flatMap_cons]
      exact List.append_subset.2
        ⟨List.Subset.trans (hless a b hab) (List.subset_append_left _ _),
          List.Subset.trans ih (List.subset_append_right _ _)⟩

/-! ### Eased groups -/

/-- The map leaves the numbers and places of groups alone, and eases their comments. -/
structure CommentGroup.Easing (φ : CommentGroup → CommentGroup) : Prop where
  keeps : CommentGroup.Keeps φ
  eases : ∀ group, List.Forall₂ Comment.Eases (φ group).comments group.comments

/-- **Turning one comment that is no directive into an `ignore` with a reason is easing.** -/
theorem CommentGroup.easing_reword {target : CommentGroup} {index : Nat} {comment : Comment}
    {reason : String} (hcomment : target.comments[index]? = some comment)
    (hplain : Directive.parse? comment.text = none) (hreason : reason ≠ "") :
    Easing (reword target index ("//faillint:ignore " ++ reason)) := by
  refine ⟨keeps_reword _ _ _, fun group => ?_⟩
  unfold reword
  split
  · rename_i hgroup
    rw [comments_withText, hgroup, List.forall₂_iff_get]
    refine ⟨List.length_modify _ _ _, fun i hi hi' => ?_⟩
    rw [List.get_eq_getElem, List.get_eq_getElem, List.getElem_modify]
    split
    · rename_i heq
      subst heq
      have hsame : target.comments[index] = comment := by
        rw [List.getElem?_eq_getElem hi'] at hcomment
        exact Option.some.inj hcomment
      rw [hsame]
      exact Or.inr ⟨hplain, reason, hreason, Directive.parse?_ignore reason⟩
    · exact Or.inl rfl
  · exact List.forall₂_same.2 fun _ _ => Or.inl rfl

/-- The comment that has become an `ignore` makes its group one that ignores. -/
theorem CommentGroup.ignores_reword {target : CommentGroup} {index : Nat} {comment : Comment}
    {reason : String} (hcomment : target.comments[index]? = some comment) (hreason : reason ≠ "") :
    (reword target index ("//faillint:ignore " ++ reason) target).ignores = true := by
  rw [reword, if_pos rfl, ignores, comments_withText, List.any_eq_true]
  refine ⟨{ comment with text := "//faillint:ignore " ++ reason }, ?_, ?_⟩
  · refine List.mem_of_getElem? (i := index) ?_
    rw [List.getElem?_modify, hcomment]
    simp
  · simp [Comment.carries, Directive.parse?_ignore, Directive.isWellFormed,
      Directive.isRecognized, hreason]

/-! ### Eased files -/

namespace CommentGroup.Easing

variable {φ : CommentGroup → CommentGroup} (h : CommentGroup.Easing φ)

include h

theorem ignores_mono {group : CommentGroup} (hg : group.ignores = true) :
    (φ group).ignores = true := by
  obtain ⟨comment, hcomment, hcarries⟩ := List.any_eq_true.1 hg
  obtain ⟨i, hi, rfl⟩ := List.mem_iff_getElem.1 hcomment
  obtain ⟨hlength, heases⟩ := List.forall₂_iff_get.1 (h.eases group)
  exact List.any_eq_true.2
    ⟨_, List.getElem_mem (hlength ▸ hi), (heases i (hlength ▸ hi) hi).carries_ignore hcarries⟩

theorem isDoc_eq (file : SourceFile) (group : CommentGroup) :
    (Register.ofFile (file.mapGroups φ)).isDoc (φ group) = (Register.ofFile file).isDoc group := by
  show (file.doc.map φ).any _ = file.doc.any _
  cases file.doc with
  | none => rfl
  | some doc =>
    show decide ((φ doc).number = (φ group).number) = decide (doc.number = group.number)
    rw [(h.keeps doc).1, (h.keeps group).1]

theorem faultsIn_subset (file : SourceFile) {option : String}
    (hoption : option = Directive.ignore ∨ option = Directive.fileIgnore) (group : CommentGroup) :
    (Register.ofFile (file.mapGroups φ)).faultsIn option (φ group) ⊆
      (Register.ofFile file).faultsIn option group := by
  unfold Register.faultsIn
  rw [h.isDoc_eq]
  refine flatMap_upTo_subset (h.eases group) (fun eased comment hease hc => ?_)
    fun eased comment hease => ?_
  · rcases hoption with rfl | rfl
    · exact hease.carries_ignore hc
    · rw [hease.carries_fileIgnore]
      exact hc
  · intro f hf
    rw [hease.faultsOf_eq] at hf
    exact hf

/-- Whether the file is left out does not change. -/
theorem docIgnores_eq (file : SourceFile) :
    (Register.ofFile (file.mapGroups φ)).docIgnores = (Register.ofFile file).docIgnores := by
  show (file.doc.map φ).any _ = file.doc.any _
  cases file.doc with
  | none => rfl
  | some doc => exact any_carries_fileIgnore (h.eases doc)

theorem fileFaults_subset (file : SourceFile) :
    (Register.ofFile (file.mapGroups φ)).fileFaults ⊆ (Register.ofFile file).fileFaults := by
  cases hdoc : file.doc with
  | none => simp [Register.fileFaults, Register.ofFile, SourceFile.mapGroups, hdoc]
  | some doc =>
    have hless := h.faultsIn_subset file (Or.inr rfl) doc
    simpa [Register.fileFaults, Register.ofFile, SourceFile.mapGroups, hdoc] using hless

theorem consulted_eq (file : SourceFile) (address : Address) (offset : Nat) :
    Register.consulted (CommentMap.ofFile (file.mapGroups φ)).arrange address offset =
      (Register.consulted (CommentMap.ofFile file).arrange address offset).map φ := by
  unfold Register.consulted
  rw [CommentMap.ofFile_mapGroups h.keeps, CommentMap.arrange_mapGroups,
    CommentMap.groupsAt_mapGroups, CommentMap.enclosing_mapGroups, List.map_append]

/-- **An answer can only turn from no to yes.** -/
theorem suppresses_mono {file : SourceFile} {address : Address} {offset : Nat}
    (hs : file.suppresses address offset = true) :
    (file.mapGroups φ).suppresses address offset = true := by
  rw [← SourceFile.any_consulted] at hs ⊢
  rw [h.consulted_eq]
  obtain ⟨group, hgroup, hignores⟩ := List.any_eq_true.1 hs
  exact List.any_eq_true.2 ⟨φ group, List.mem_map_of_mem hgroup, h.ignores_mono hignores⟩

/-- **The faults met by an inquiry are among those met before.** -/
theorem faultsAt_subset (file : SourceFile) (address : Address) (offset : Nat) :
    (file.mapGroups φ).faultsAt address offset ⊆ file.faultsAt address offset := by
  unfold SourceFile.faultsAt Register.faultsAt
  rw [h.consulted_eq]
  refine flatMap_upTo_subset (R := fun eased group => eased = φ group)
    (List.forall₂_map_left_iff.2 (List.forall₂_same.2 fun _ _ => rfl)) ?_ ?_
  · rintro _ group rfl hg
    exact h.ignores_mono hg
  · rintro _ group rfl
    exact h.faultsIn_subset file (Or.inl rfl) group

theorem scanFaults_subset (file : SourceFile) (spec : Import) :
    (file.mapGroups φ).scanFaults spec ⊆ file.scanFaults spec := by
  unfold SourceFile.scanFaults
  cases Usage.scanName spec.qualifier spec.mode with
  | none => exact List.Subset.refl _
  | some name =>
    intro f hf
    obtain ⟨use, huse, hfault⟩ := List.mem_flatMap.1 hf
    exact List.mem_flatMap.2 ⟨use, huse, h.faultsAt_subset file _ _ hfault⟩

theorem kept_sublist (file : SourceFile) (name : String) :
    ((file.mapGroups φ).kept name).Sublist (file.kept name) := by
  refine List.monotone_filter_right _ fun use huse => ?_
  cases hs : file.suppresses use.address use.place.offset with
  | false => rfl
  | true =>
    have heased := h.suppresses_mono hs
    simp [heased] at huse

/-- **No fault is put forward that was not before.** -/
theorem fault_mem_output {rules : List Rule} {file : SourceFile} {f : Finding}
    (hf : f ∈ Analyzer.output rules (file.mapGroups φ)) (hfault : f.cause.isFault = true) :
    f ∈ Analyzer.output rules file := by
  unfold Analyzer.output at hf ⊢
  rw [h.docIgnores_eq] at hf
  rcases List.mem_append.1 hf with hf | hf
  · exact List.mem_append_left _ (h.fileFaults_subset file hf)
  refine List.mem_append_right _ ?_
  split at hf
  · exact absurd hf (by simp)
  rw [if_neg (by assumption)]
  obtain ⟨rule, hrule, hf⟩ := List.mem_flatMap.1 hf
  obtain ⟨spec, hspec, hf⟩ := List.mem_flatMap.1 hf
  refine List.mem_flatMap.2 ⟨rule, hrule, List.mem_flatMap.2 ⟨spec, hspec, ?_⟩⟩
  unfold Analyzer.importOutput at hf ⊢
  rcases List.mem_append.1 hf with hf | hf
  · exact List.mem_append_left _ (h.faultsAt_subset file _ _ hf)
  refine List.mem_append_right _ ?_
  split at hf
  · exact absurd hf (by simp)
  · rename_i hopen
    rw [if_neg fun hs => hopen (h.suppresses_mono hs)]
    rcases List.mem_append.1 hf with hf | hf
    · exact List.mem_append_left _ (h.scanFaults_subset file spec hf)
    · rw [Analyzer.isFault_of_mem_violations hf] at hfault
      exact absurd hfault (by simp)

end CommentGroup.Easing

end ImportGuard
