import ImportGuard.Proofs.Analysis.Output
import ImportGuard.Proofs.Comment.Lowering
import ImportGuard.Proofs.Usage.Likeness

/-!
# The check of a text that is moved down

With `k` line feeds in front of a text and the tree over it moved along, **the check finds the same
things, `k` lines further down** (`checkFile_lowered`).  The uses of a package are lowered since the
moved tree reads as the tree did (`usesOf_lowered`, by `usesOf_like`); what suppresses a finding is
looked up in a comment map that is lowered; and the check of a file, as the list of what it puts
forward, is put together from these (`output_lowered`).  Recording compares offsets and causes, and
lowering changes neither who is equal to whom nor the order (`foldl_record_lowered`).
-/

namespace ImportGuard

/-! ### Uses -/

def Use.lowered (k : Nat) (use : Use) : Use :=
  { use with start := use.start + k, stop := use.stop + k, place := use.place.lowered k }

theorem Node.like_moved (k : Nat) (node : Node) :
    node.Like (fun a b => b = a.moved k) (node.moved k) := by
  induction node using Node.induction with
  | step node ih =>
    refine .intro rfl ?_
    rw [children_moved, List.forall₂_map_right_iff, List.forall₂_same]
    exact ih

theorem Node.readsAs_moved (k : Nat) (source : List UInt8) (a b : Node) (h : b = a.moved k) :
    a.ReadsAs source (feeds k ++ source) b := by
  subst h
  exact ⟨(a.kind_moved k).symm, (a.named_moved k).symm, (a.role_moved k).symm,
    (a.text_moved_feeds k source).symm⟩

/-- **The uses of a package are lowered with the tree.** -/
theorem Usage.usesOf_lowered (k : Nat) (source : List UInt8) (root : Node) (name : String) :
    usesOf (feeds k ++ source) (root.moved k) name =
      (usesOf source root name).map (Use.lowered k) := by
  have hU : Walk.RelatesUses source (feeds k ++ source) (fun a b => b = a.moved k)
      fun use use' => use' = use.lowered k := by
    rintro address node _ package _ selected _ rfl rfl rfl
    simp only [Walk.useOf, Use.lowered, Node.start_moved, Node.stop_moved, Node.text_moved_feeds,
      Place.ofOffset_lowered]
  have hlike := usesOf_like (Node.readsAs_moved k source) hU (root.like_moved k) name
  rw [← List.forall₂_eq_eq_eq, List.forall₂_map_right_iff]
  exact hlike.flip.imp fun _ _ h => h

def Usage.Index.lowered (k : Nat) (index : Usage.Index) : Usage.Index :=
  index.map fun entry => (entry.1, entry.2.map (Place.lowered k))

theorem Usage.file_lowered (k : Nat) (index : Index) (use : Use) :
    file (Index.lowered k index) (use.lowered k) = Index.lowered k (file index use) := by
  have hany : (Index.lowered k index).any (·.1 = use.name) = index.any (·.1 = use.name) := by
    unfold Index.lowered
    rw [List.any_map]
    rfl
  rw [file_eq, file_eq]
  show (if (Index.lowered k index).any (·.1 = use.name) then _ else _) = _
  rw [hany]
  split
  · unfold Index.lowered
    rw [List.map_map, List.map_map]
    apply List.map_congr_left
    intro entry _
    by_cases hname : entry.1 = use.name
    · simp [Use.lowered, hname]
    · simp [Use.lowered, hname]
  · simp [Index.lowered, Use.lowered]

theorem Usage.index_lowered (k : Nat) (uses : List Use) :
    index (uses.map (Use.lowered k)) = Index.lowered k (index uses) := by
  have hfold : ∀ (uses : List Use) (filed : Index),
      (uses.map (Use.lowered k)).foldl file (Index.lowered k filed) =
        Index.lowered k (uses.foldl file filed) := by
    intro uses
    induction uses with
    | nil => exact fun filed => rfl
    | cons use rest ih =>
      intro filed
      rw [List.map_cons, List.foldl_cons, List.foldl_cons, file_lowered, ih]
  have hsort : ∀ places : List Place,
      ((places.map (Place.lowered k)).mergeSort fun a b => a.offset ≤ b.offset) =
        (places.mergeSort fun a b => a.offset ≤ b.offset).map (Place.lowered k) := by
    intro places
    refine (List.map_mergeSort ?_).symm
    intro a _ b _
    rw [decide_eq_decide]
    show _ ↔ a.offset + k ≤ b.offset + k
    omega
  unfold index
  rw [show ([] : Index) = Index.lowered k [] from rfl, hfold]
  unfold Index.lowered
  rw [List.map_map, List.map_map]
  apply List.map_congr_left
  intro entry _
  exact congrArg (entry.1, ·) (hsort entry.2)

theorem Usage.placesOf_lowered (k : Nat) (index : Index) (name : String) :
    placesOf (Index.lowered k index) name = (placesOf index name).map (Place.lowered k) := by
  unfold placesOf Index.lowered
  rw [lookup_map_values fun _ (places : List Place) => places.map (Place.lowered k)]
  cases index.lookup name with
  | none => rfl
  | some places => rfl

/-! ### Findings -/

def Position.lowered (k : Nat) (position : Position) : Position :=
  { position with offset := position.offset + k, line := position.line + k }

/-- The finding, lowered: its words stay. -/
def Finding.lowered (k : Nat) (finding : Finding) : Finding :=
  { finding with position := finding.position.lowered k }

theorem Position.ofPlace_lowered (k : Nat) (filename : String) (place : Place) :
    ofPlace filename (place.lowered k) = (ofPlace filename place).lowered k := by
  simp [ofPlace, lowered, Place.lowered]

theorem Finding.record_lowered (k : Nat) (findings : List Finding) (f : Finding) :
    record (findings.map (lowered k)) (f.lowered k) = (record findings f).map (lowered k) := by
  have hany : (findings.map (lowered k)).any (fun g =>
        g.cause = (f.lowered k).cause && g.position.offset = (f.lowered k).position.offset) =
      findings.any fun g => g.cause = f.cause && g.position.offset = f.position.offset := by
    rw [List.any_map]
    congr 1
    funext g
    have hoffset : decide (g.position.offset + (k : Int) = f.position.offset + k) =
        decide (g.position.offset = f.position.offset) :=
      decide_eq_decide.mpr (Int.add_left_inj _)
    exact congrArg (decide (g.cause = f.cause) && ·) hoffset
  unfold record
  rw [hany, show (f.lowered k).cause = f.cause from rfl]
  split
  · rfl
  · rw [List.map_append, List.map_singleton]

theorem Finding.foldl_record_lowered (k : Nat) (raw findings : List Finding) :
    (raw.map (lowered k)).foldl record (findings.map (lowered k)) =
      (raw.foldl record findings).map (lowered k) := by
  induction raw generalizing findings with
  | nil => rfl
  | cons f raw ih => rw [List.map_cons, List.foldl_cons, List.foldl_cons, record_lowered, ih]

/-! ### Faults -/

def Register.lowered (k : Nat) (register : Register) : Register :=
  { register with doc := register.doc.map (CommentGroup.lowered k) }

theorem upTo_map {α β : Type} (g : α → β) {p : α → Bool} {p' : β → Bool}
    (h : ∀ a, p' (g a) = p a) (l : List α) : upTo p' (l.map g) = (upTo p l).map g := by
  induction l with
  | nil => rfl
  | cons a l ih =>
    rw [List.map_cons, upTo, upTo, h, ih]
    split
    · rfl
    · rfl

namespace Register

theorem carries_lowered (k : Nat) (option : String) (comment : Comment) :
    (comment.lowered k).carries option = comment.carries option := rfl

theorem ignores_lowered (k : Nat) (group : CommentGroup) :
    (group.lowered k).ignores = group.ignores := by
  unfold CommentGroup.ignores
  rw [CommentGroup.comments_lowered, List.any_map]
  rfl

theorem isDoc_lowered (k : Nat) (register : Register) (group : CommentGroup) :
    (register.lowered k).isDoc (group.lowered k) = register.isDoc group := by
  unfold isDoc lowered
  rw [Option.any_map]
  rfl

theorem faultsOf_lowered (k : Nat) (register : Register) (isDoc : Bool) (option : String)
    (comment : Comment) :
    (register.lowered k).faultsOf isDoc option (comment.lowered k) =
      (register.faultsOf isDoc option comment).map (Finding.lowered k) := by
  unfold faultsOf
  rw [show (comment.lowered k).text = comment.text from rfl,
    show (comment.lowered k).start = comment.start.lowered k from rfl,
    show (register.lowered k).filename = register.filename from rfl, Position.ofPlace_lowered]
  cases Directive.parse? comment.text with
  | none => rfl
  | some directive =>
    dsimp only
    rw [List.map_append, apply_ite (List.map (Finding.lowered k)),
      apply_ite (List.map (Finding.lowered k))]
    rfl

theorem faultsIn_lowered (k : Nat) (register : Register) (option : String) (group : CommentGroup) :
    (register.lowered k).faultsIn option (group.lowered k) =
      (register.faultsIn option group).map (Finding.lowered k) := by
  unfold faultsIn
  rw [CommentGroup.comments_lowered, upTo_map (Comment.lowered k) (carries_lowered k option),
    List.flatMap_map, List.map_flatMap, isDoc_lowered]
  simp only [faultsOf_lowered]

theorem consulted_lowered (k : Nat) (map : CommentMap) (address : Address) (offset : Nat) :
    consulted (map.lowered k) address (offset + k) =
      (consulted map address offset).map (CommentGroup.lowered k) := by
  unfold consulted
  rw [CommentMap.groupsAt_lowered, CommentMap.enclosing_lowered, List.map_append,
    List.flatMap_map, List.map_flatMap]
  rfl

theorem faultsAt_lowered (k : Nat) (register : Register) (map : CommentMap) (address : Address)
    (offset : Nat) :
    (register.lowered k).faultsAt (map.lowered k) address (offset + k) =
      (register.faultsAt map address offset).map (Finding.lowered k) := by
  unfold faultsAt
  rw [consulted_lowered, upTo_map (CommentGroup.lowered k) (ignores_lowered k), List.flatMap_map,
    List.map_flatMap]
  simp only [faultsIn_lowered]

theorem fileFaults_lowered (k : Nat) (register : Register) :
    (register.lowered k).fileFaults = register.fileFaults.map (Finding.lowered k) := by
  cases hdoc : register.doc with
  | none => simp [fileFaults, lowered, hdoc]
  | some group =>
    have hlowered := register.faultsIn_lowered k Directive.fileIgnore group
    simpa [fileFaults, lowered, hdoc] using hlowered

theorem docIgnores_lowered (k : Nat) (register : Register) :
    (register.lowered k).docIgnores = register.docIgnores := by
  unfold docIgnores lowered
  rw [Option.any_map]
  congr 1
  funext group
  simp only [CommentGroup.comments_lowered, List.any_map]
  rfl

end Register

/-! ### The check of a file -/

namespace SourceFile

variable (k : Nat) (file : SourceFile)

theorem ofFile_register_lowered :
    Register.ofFile (file.lowered k) = (Register.ofFile file).lowered k := rfl

theorem faultsAt_lowered (address : Address) (offset : Nat) :
    (file.lowered k).faultsAt address (offset + k) =
      (file.faultsAt address offset).map (Finding.lowered k) := by
  unfold faultsAt
  rw [CommentMap.ofFile_lowered, CommentMap.arrange_lowered, ofFile_register_lowered,
    Register.faultsAt_lowered]

theorem suppresses_lowered (address : Address) (offset : Nat) :
    (file.lowered k).suppresses address (offset + k) = file.suppresses address offset := by
  rw [← any_consulted, ← any_consulted, CommentMap.ofFile_lowered, CommentMap.arrange_lowered,
    Register.consulted_lowered, List.any_map]
  congr 1
  funext group
  exact Register.ignores_lowered k group

theorem kept_lowered (name : String) :
    (file.lowered k).kept name = (file.kept name).map (Use.lowered k) := by
  unfold kept
  show ((Usage.usesOf (feeds k ++ file.source) (file.root.moved k) name).filter _) = _
  rw [Usage.usesOf_lowered, List.filter_map]
  congr 2
  funext use
  show (!(file.lowered k).suppresses use.address (use.place.offset + k)) = _
  rw [suppresses_lowered]

theorem recorded_lowered (spec : Import) :
    (file.lowered k).recorded (spec.lowered k) = (file.recorded spec).lowered k := by
  rw [recorded_eq, recorded_eq]
  show (Usage.scanName spec.qualifier spec.mode).elim _ _ = _
  cases Usage.scanName spec.qualifier spec.mode with
  | none => rfl
  | some name =>
    rw [Option.elim_some, Option.elim_some, kept_lowered, Usage.index_lowered]

theorem scanFaults_lowered (spec : Import) :
    (file.lowered k).scanFaults (spec.lowered k) =
      (file.scanFaults spec).map (Finding.lowered k) := by
  unfold scanFaults
  show (Usage.scanName spec.qualifier spec.mode).elim _ _ = _
  cases Usage.scanName spec.qualifier spec.mode with
  | none => rfl
  | some name =>
    rw [Option.elim_some, Option.elim_some]
    show ((Usage.usesOf (feeds k ++ file.source) (file.root.moved k) name).flatMap _) = _
    rw [Usage.usesOf_lowered, List.flatMap_map, List.map_flatMap]
    apply List.flatMap_congr
    intro use _
    exact faultsAt_lowered k file use.address use.place.offset

theorem importsOfPath_lowered (path : String) :
    (file.lowered k).importsOfPath path = (file.importsOfPath path).map (Import.lowered k) := by
  unfold importsOfPath
  show (file.imports.map (Import.lowered k)).filter _ = _
  rw [List.filter_map]
  rfl

end SourceFile

namespace Analyzer

variable (k : Nat) (file : SourceFile)

theorem violations_lowered (rule : Rule) (spec : Import) (index : Usage.Index) :
    violations (file.lowered k) rule (spec.lowered k) (index.lowered k) =
      (violations file rule spec index).map (Finding.lowered k) := by
  have hempty : (index.lowered k).isEmpty = index.isEmpty := by
    unfold Usage.Index.lowered
    exact List.isEmpty_map
  have hany : (index.lowered k).any (·.1 = Usage.unspecified) =
      index.any (·.1 = Usage.unspecified) := by
    unfold Usage.Index.lowered
    rw [List.any_map]
    rfl
  have huses : unwantedUses (file.lowered k) rule (spec.lowered k) (index.lowered k) =
      (unwantedUses file rule spec index).map (Finding.lowered k) := by
    unfold unwantedUses
    rw [List.map_flatMap]
    apply List.flatMap_congr
    intro name _
    rw [Usage.placesOf_lowered, List.map_map, List.map_map]
    apply List.map_congr_left
    intro place _
    exact congrArg (Finding.mk · _) (Position.ofPlace_lowered k file.filename place)
  have himport : unwantedImport (file.lowered k) rule (spec.lowered k) =
      (unwantedImport file rule spec).lowered k :=
    congrArg (Finding.mk · _) (Position.ofPlace_lowered k file.filename spec.pathStart)
  unfold violations
  rw [hempty, hany, huses, himport]
  split
  · rfl
  · split
    · rfl
    · rfl

theorem importOutput_lowered (rule : Rule) (spec : Import) :
    importOutput (file.lowered k) rule (spec.lowered k) =
      (importOutput file rule spec).map (Finding.lowered k) := by
  unfold importOutput
  show (file.lowered k).faultsAt spec.address (spec.start.offset + k) ++
    (if (file.lowered k).suppresses spec.address (spec.start.offset + k) then _ else _) = _
  rw [file.faultsAt_lowered, file.suppresses_lowered, file.scanFaults_lowered,
    file.recorded_lowered, violations_lowered, List.map_append]
  split
  · rfl
  · rw [List.map_append]

/-- **What the check of a file puts forward is lowered with the file.** -/
theorem output_lowered (rules : List Rule) :
    output rules (file.lowered k) = (output rules file).map (Finding.lowered k) := by
  unfold output
  rw [file.ofFile_register_lowered, Register.fileFaults_lowered, Register.docIgnores_lowered,
    List.map_append]
  split
  · rfl
  · congr 1
    rw [List.map_flatMap]
    apply List.flatMap_congr
    intro rule _
    rw [file.importsOfPath_lowered, List.flatMap_map, List.map_flatMap]
    apply List.flatMap_congr
    intro spec _
    exact importOutput_lowered k file rule spec

end Analyzer

def FileReport.lowered (k : Nat) (report : FileReport) : FileReport :=
  { report with findings := report.findings.map (Finding.lowered k) }

namespace Analyzer

/-- **The check of a file that is moved down finds the same things, lowered.** -/
theorem checkFile_lowered (analyzer : Analyzer) (k : Nat) (file : SourceFile) :
    analyzer.checkFile (file.lowered k) = (analyzer.checkFile file).lowered k := by
  cases htest : analyzer.ignoreTests && isTestFile file.filename with
  | true =>
    have htest' : (analyzer.ignoreTests && isTestFile (file.lowered k).filename) = true := htest
    rw [checkFile, checkFile, htest, htest']
    rfl
  | false =>
    have htest' : (analyzer.ignoreTests && isTestFile (file.lowered k).filename) = false := htest
    rw [checkFile_eq htest, checkFile_eq htest', output_lowered, file.ofFile_register_lowered,
      Register.docIgnores_lowered, show ([] : List Finding) = [].map (Finding.lowered k) from rfl,
      Finding.foldl_record_lowered]
    rfl

/-- **The analysis does not depend on how far down a text stands.**  Take any text, any tree over
it and any analyzer, write `k` line feeds in front of the text and move all ranges of the tree by
`k`.  Then the groups of comments, the package's documentation and the entries of the comment map
in source order are those from before, lowered; and the check of the file makes the same
diagnostics in the same order, with every offset and every line increased by `k`, and the same file
names, columns and messages. -/
theorem diagnostics_moved_down (analyzer : Analyzer) (filename : String) (source : List UInt8)
    (root : Node) (broken : Bool) (k : Nat) :
    let file := SourceFile.ofTree filename source root broken
    let below :=
      SourceFile.ofTree filename (List.replicate k lineFeed ++ source) (root.moved k) broken
    below.comments = file.comments.map (CommentGroup.lowered k) ∧
      below.doc = file.doc.map (CommentGroup.lowered k) ∧
      (CommentMap.ofFile below).items.1 =
        (CommentMap.ofFile file).items.1.map (MapEntry.lowered k) ∧
      (analyzer.checkFile below).outcome = (analyzer.checkFile file).outcome ∧
      (analyzer.checkFile below).findings.map Finding.diagnostic =
        (analyzer.checkFile file).findings.map (fun finding =>
          ⟨⟨finding.position.filename, finding.position.offset + k, finding.position.line + k,
            finding.position.column⟩, finding.message⟩) ∧
      analyzer.run [below] = (analyzer.run [file]).map (FileReport.lowered k) := by
  intro file below
  have hbelow : below = file.lowered k := SourceFile.ofTree_lowered filename source root broken k
  have hcheck : analyzer.checkFile below = (analyzer.checkFile file).lowered k := by
    rw [hbelow, checkFile_lowered]
  refine ⟨?_, ?_, ?_, ?_, ?_, ?_⟩
  · rw [hbelow]
    rfl
  · rw [hbelow]
    rfl
  · rw [hbelow, CommentMap.ofFile_lowered, CommentMap.items_lowered]
  · rw [hcheck]
    rfl
  · rw [hcheck, FileReport.lowered, List.map_map]
    rfl
  · unfold run
    rw [List.map_singleton, List.map_singleton, hcheck]
    split
    · rfl
    · rfl

end Analyzer

end ImportGuard
