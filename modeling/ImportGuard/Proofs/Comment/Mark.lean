import ImportGuard.Proofs.Comment.Grouping
import ImportGuard.Proofs.Comment.Lowering
import ImportGuard.Proofs.Directive.Inquiry
import Mathlib.Data.List.TakeWhile

/-!
# A byte order mark in front of a text

Write a byte order mark in front of a text, and move the tree over it along.  The mark is no token, so
one expects the comments to be grouped as before.  But the look behind a comment for code on its line
sees bytes, and takes the mark for code: a comment **at the top**, with only white space before it in
the whole text, now trails code (`trailsCode_marked`), and a comment on the next line no longer joins
it.

So the groups and the package's documentation stay what they were **if and only if no group at the
top goes on to a next line** (`doc_marked_iff`).  Line feeds in front of a text are another matter: the
look behind ends at them (`CommentGroup.ofTree_lowered`).
-/

namespace ImportGuard

def byteOrderMark : List UInt8 := [0xEF, 0xBB, 0xBF]

/-! ### Places -/

namespace Place

/-- The place behind a byte order mark in front of the text. -/
def marked (place : Place) : Place :=
  ⟨place.offset + 3, place.line, if place.line = 1 then place.column + 3 else place.column⟩

theorem ofOffset_marked (bytes : List UInt8) (offset : Nat) :
    ofOffset (byteOrderMark ++ bytes) (offset + 3) = (ofOffset bytes offset).marked := by
  have hwalk : walk 1 1 (offset + 3) (byteOrderMark ++ bytes) = walk 1 4 offset bytes := rfl
  have hline : (walk 1 4 offset bytes).1 = (walk 1 1 offset bytes).1 := by
    rw [walk_fst, walk_fst]
  have hfirst : (walk 1 1 offset bytes).1 = 1 ↔ row bytes offset = 0 := by
    rw [walk_fst]
    omega
  -- the mark moves the columns of the first line only
  have hcolumn : (walk 1 4 offset bytes).2 =
      if (walk 1 1 offset bytes).1 = 1 then (walk 1 1 offset bytes).2 + 3
      else (walk 1 1 offset bytes).2 := by
    rw [walk_snd, walk_snd]
    by_cases hrow : row bytes offset = 0
    · rw [if_pos hrow, if_pos hrow, if_pos (hfirst.2 hrow)]
      omega
    · rw [if_neg hrow, if_neg hrow, if_neg (mt hfirst.1 hrow)]
  unfold ofOffset marked
  dsimp only
  rw [hwalk, hline, hcolumn]

end Place

/-! ### Comments -/

def Comment.marked (comment : Comment) : Comment :=
  { comment with start := comment.start.marked, stop := comment.stop.marked }

namespace Comment

/-- **Before an offset the whole text is white space inside a line.** -/
def AtTop (source : List UInt8) (offset : Nat) : Prop :=
  ∀ b ∈ source.take offset, b ∈ indentBytes

instance (source : List UInt8) (offset : Nat) : Decidable (AtTop source offset) :=
  inferInstanceAs (Decidable (∀ b ∈ source.take offset, b ∈ indentBytes))

theorem ofNode_marked (source : List UInt8) (node : Node) :
    ofNode (byteOrderMark ++ source) (node.moved 3) = (ofNode source node).marked := by
  have htext : (node.moved 3).text (byteOrderMark ++ source) = node.text source :=
    Node.text_moved byteOrderMark source node
  unfold ofNode marked
  rw [htext, Node.start_moved, Node.stop_moved, Place.ofOffset_marked, Place.ofOffset_marked]

theorem dropWhile_eq_nil_iff_atTop {source : List UInt8} {offset : Nat} :
    (source.take offset).reverse.dropWhile isIndentByte = [] ↔ AtTop source offset := by
  rw [List.dropWhile_eq_nil_iff]
  simp only [List.mem_reverse, isIndentByte_iff, AtTop]

theorem trailsCode_of_atTop {source : List UInt8} {offset : Nat} (h : AtTop source offset) :
    trailsCode source offset = false := by
  unfold trailsCode
  rw [dropWhile_eq_nil_iff_atTop.2 h]

/-- **Behind a mark it is the comments at the top that trail code as well.** -/
theorem trailsCode_marked (source : List UInt8) (offset : Nat) :
    trailsCode (byteOrderMark ++ source) (offset + 3) =
      (decide (AtTop source offset) || trailsCode source offset) := by
  have htake : (byteOrderMark ++ source).take (offset + 3) =
      byteOrderMark ++ source.take offset := rfl
  unfold trailsCode
  rw [htake, List.reverse_append, List.dropWhile_append]
  cases hrest : (source.take offset).reverse.dropWhile isIndentByte with
  | nil =>
    have htop := dropWhile_eq_nil_iff_atTop.1 hrest
    rw [decide_eq_true htop]
    rfl
  | cons b rest =>
    have htop : ¬ AtTop source offset := by
      intro htop
      rw [dropWhile_eq_nil_iff_atTop.2 htop] at hrest
      exact absurd hrest (by simp)
    rw [decide_eq_false htop]
    rfl

theorem reach_marked (source : List UInt8) (first : Comment) :
    reach (byteOrderMark ++ source) first.marked =
      if AtTop source first.start.offset then 0 else reach source first := by
  have htrails : trailsCode (byteOrderMark ++ source) first.marked.start.offset =
      (decide (AtTop source first.start.offset) || trailsCode source first.start.offset) :=
    trailsCode_marked source first.start.offset
  unfold reach
  rw [htrails]
  by_cases htop : AtTop source first.start.offset
  · rw [if_pos htop, decide_eq_true htop]
    rfl
  · rw [if_neg htop, decide_eq_false htop]
    rfl

theorem joins_marked (source : List UInt8) (reach : Nat) (previous next : Comment) :
    joins (byteOrderMark ++ source) reach previous.marked next.marked =
      joins source reach previous next := by
  unfold joins marked Place.marked
  dsimp only
  rw [Nat.add_sub_add_right]
  rfl

/-- To join without reaching down is to join, and not to start below the end of the other. -/
theorem joins_zero (source : List UInt8) (previous next : Comment) :
    joins source 0 previous next =
      (joins source 1 previous next && decide (next.start.line ≤ previous.stop.line)) := by
  have hline : decide (next.start.line ≤ previous.stop.line + 0) =
      (decide (next.start.line ≤ previous.stop.line + 1) &&
        decide (next.start.line ≤ previous.stop.line)) := by
    rw [← Bool.decide_and, decide_eq_decide]
    omega
  unfold joins
  rw [hline, Bool.and_assoc]

end Comment

/-! ### Groups -/

namespace CommentGroup

/-- The group behind a byte order mark in front of the text. -/
def marked (group : CommentGroup) : CommentGroup :=
  { group with first := group.first.marked, rest := group.rest.map Comment.marked }

theorem stop_marked (group : CommentGroup) : group.marked.stop = group.stop.marked := by
  have hlast : group.marked.last = group.last.marked := List.getLastD_map
  unfold stop
  rw [hlast]
  rfl

def texts (group : CommentGroup) : List String :=
  group.comments.map (·.text)

theorem texts_marked (group : CommentGroup) : group.marked.texts = group.texts := by
  show (group.comments.map Comment.marked).map (·.text) = group.comments.map (·.text)
  rw [List.map_map]
  rfl

/-- Comments none of which starts on a line below the end of the one before it. -/
def Level (comments : List Comment) : Prop :=
  comments.IsChain fun a b => b.start.line ≤ a.stop.line

/-- **Each group at the top of the text stays on its line.** -/
def LevelAtTop (source : List UInt8) (groups : List CommentGroup) : Prop :=
  ∀ group ∈ groups, Comment.AtTop source group.start.offset → Level group.comments

/-- A run that does not reach down is the same run exactly if that run is level. -/
theorem run_zero_eq_iff (source : List UInt8) (previous : Comment) (comments : List Comment) :
    run source 0 previous comments = run source 1 previous comments ↔
      Level (previous :: (run source 1 previous comments).1) := by
  induction comments generalizing previous with
  | nil => exact iff_of_true rfl (.singleton previous)
  | cons next rest ih =>
    rw [run, run, Comment.joins_zero]
    cases hjoins : Comment.joins source 1 previous next with
    | false => exact iff_of_true rfl (.singleton previous)
    | true =>
      by_cases hline : next.start.line ≤ previous.stop.line
      · rw [decide_eq_true hline]
        have hlevel : Level (previous :: next :: (run source 1 next rest).1) ↔
            Level (next :: (run source 1 next rest).1) :=
          List.isChain_cons_cons.trans (and_iff_right hline)
        refine Iff.trans ?_ ((ih next).trans hlevel.symm)
        simp [Prod.ext_iff]
      · rw [decide_eq_false hline]
        refine iff_of_false (by simp) fun hlevel => ?_
        exact hline (List.isChain_cons_cons.1 hlevel).1

/-- Two runs over the same comments are the same if they are of one length. -/
theorem run_eq_of_length {source source' : List UInt8} {reach reach' : Nat}
    {previous : Comment} {comments : List Comment}
    (h : (run source' reach' previous comments).1.length =
      (run source reach previous comments).1.length) :
    run source' reach' previous comments = run source reach previous comments := by
  have happend := (run_append source' reach' previous comments).trans
    (run_append source reach previous comments).symm
  obtain ⟨hfst, hsnd⟩ := List.append_inj happend h
  exact Prod.ext hfst hsnd

/-- Behind a mark the first group is the same exactly if it is level or not at the top. -/
theorem run_marked_eq_iff (source : List UInt8) (first : Comment) (more : List Comment) :
    run source (if Comment.AtTop source first.start.offset then 0 else Comment.reach source first)
        first more = run source (Comment.reach source first) first more ↔
      (Comment.AtTop source first.start.offset →
        Level (first :: (run source (Comment.reach source first) first more).1)) := by
  by_cases htop : Comment.AtTop source first.start.offset
  · have hreach : Comment.reach source first = 1 := by
      rw [Comment.reach, Comment.trailsCode_of_atTop htop]
      rfl
    rw [if_pos htop, hreach, run_zero_eq_iff]
    exact ⟨fun hlevel _ => hlevel, fun hlevel => hlevel htop⟩
  · rw [if_neg htop]
    exact iff_of_true rfl fun h => absurd h htop

theorem gather_marked_cons (source : List UInt8) (number : Nat) (first : Comment)
    (more : List Comment) :
    gather (byteOrderMark ++ source) number ((first :: more).map Comment.marked) =
      let parts := run source
        (if Comment.AtTop source first.start.offset then 0 else Comment.reach source first) first more
      marked ⟨number, first, parts.1⟩ ::
        gather (byteOrderMark ++ source) (number + 1) (parts.2.map Comment.marked) := by
  rw [List.map_cons, gather, Comment.reach_marked]
  dsimp only
  rw [run_map (Comment.joins_marked source _)]
  rfl

/-- **If the groups at the top are level, the mark moves the groups and changes nothing else.** -/
theorem gather_marked {source : List UInt8} {number : Nat} {comments : List Comment}
    (h : LevelAtTop source (gather source number comments)) :
    gather (byteOrderMark ++ source) number (comments.map Comment.marked) =
      (gather source number comments).map marked := by
  induction number, comments using gather.induct source with
  | case1 number => simp [gather]
  | case2 number first more parts ih =>
    rw [gather] at h
    obtain ⟨hfirst, hrest⟩ := List.forall_mem_cons.1 h
    have hrun := (run_marked_eq_iff source first more).2 hfirst
    rw [gather_marked_cons, hrun, gather, List.map_cons]
    exact congrArg _ (ih hrest)

/-- If the texts stay together as they were, the groups at the top are level. -/
theorem levelAtTop_of_texts {source : List UInt8} {number : Nat} {comments : List Comment}
    (h : (gather (byteOrderMark ++ source) number (comments.map Comment.marked)).map texts =
      (gather source number comments).map texts) :
    LevelAtTop source (gather source number comments) := by
  induction number, comments using gather.induct source with
  | case1 number => simp [gather, LevelAtTop]
  | case2 number first more parts ih =>
    rw [gather_marked_cons, gather] at h
    obtain ⟨hfirst, hrest⟩ := List.cons.inj h
    have hrun : run source
        (if Comment.AtTop source first.start.offset then 0 else Comment.reach source first)
        first more = run source (Comment.reach source first) first more := by
      refine run_eq_of_length ?_
      have hlength := congrArg List.length hfirst
      rw [texts_marked] at hlength
      simpa [texts, comments] using hlength
    rw [hrun] at hrest
    rw [gather]
    exact List.forall_mem_cons.2 ⟨(run_marked_eq_iff source first more).1 hrun, ih hrest⟩

theorem ofTree_marked_eq (source : List UInt8) (root : Node) :
    ofTree (byteOrderMark ++ source) (root.moved 3) = gather (byteOrderMark ++ source) 0
      (((ofTree source root).flatMap (·.comments)).map Comment.marked) :=
  ofTree_moved (Comment.ofNode_marked source) root

/-- **The groups of a tree behind a mark are its groups, moved, if those at the top are level.** -/
theorem ofTree_marked {source : List UInt8} {root : Node}
    (h : LevelAtTop source (ofTree source root)) :
    ofTree (byteOrderMark ++ source) (root.moved 3) = (ofTree source root).map marked := by
  rw [← gather_comments_ofTree] at h
  rw [ofTree_marked_eq, gather_marked h, gather_comments_ofTree]

theorem levelAtTop_iff_texts {source : List UInt8} {root : Node} :
    (ofTree (byteOrderMark ++ source) (root.moved 3)).map texts = (ofTree source root).map texts ↔
      LevelAtTop source (ofTree source root) := by
  constructor
  · intro htexts
    rw [ofTree_marked_eq] at htexts
    rw [← gather_comments_ofTree]
    refine levelAtTop_of_texts ?_
    rw [htexts, gather_comments_ofTree]
  · intro hlevel
    rw [ofTree_marked hlevel, List.map_map]
    exact List.map_congr_left fun group _ => texts_marked group

end CommentGroup

/-! ### Files -/

namespace SourceFile

theorem docOf_marked (source : List UInt8) (groups : List CommentGroup) (clause : Node) :
    docOf (byteOrderMark ++ source) (groups.map CommentGroup.marked) (clause.moved 3) =
      (docOf source groups clause).map CommentGroup.marked := by
  refine docOf_map (fun group => ?_) (fun group => ?_) groups
  · rw [CommentGroup.stop_marked, Node.start_moved, Place.marked]
    dsimp only
    omega
  · rw [CommentGroup.stop_marked, Node.start_moved, Place.ofOffset_marked, Place.marked,
      Place.marked]

/-- **The documentation of the package is the same group, if the groups at the top are level.** -/
theorem doc_marked {filename : String} {source : List UInt8} {root : Node} {broken : Bool}
    (h : CommentGroup.LevelAtTop source (ofTree filename source root broken).comments) :
    (ofTree filename (byteOrderMark ++ source) (root.moved 3) broken).doc =
      (ofTree filename source root broken).doc.map CommentGroup.marked := by
  unfold ofTree at h ⊢
  dsimp only at h ⊢
  rw [packageClause?_moved, CommentGroup.ofTree_marked h]
  cases packageClause? root with
  | none => rfl
  | some clause => exact docOf_marked source _ clause

/-- Moving a group behind a mark changes nothing about the directives in it. -/
theorem docIgnores_marked (filename : String) (doc : Option CommentGroup) :
    Register.docIgnores ⟨filename, doc.map CommentGroup.marked⟩ =
      Register.docIgnores ⟨filename, doc⟩ := by
  cases doc with
  | none => rfl
  | some group =>
    show (group.comments.map Comment.marked).any _ = group.comments.any _
    rw [List.any_map]
    rfl

/-- **A byte order mark is transparent to grouping exactly if the groups at the top are level**: then,
and only then, the same comments are together, group by group, and the group with the same number
documents the package.  It follows that a `file-ignore` is honoured in both texts or in neither. -/
theorem doc_marked_iff (filename : String) (source : List UInt8) (root : Node) (broken : Bool) :
    let plain := ofTree filename source root broken
    let marked := ofTree filename (byteOrderMark ++ source) (root.moved 3) broken
    (marked.comments.map CommentGroup.texts = plain.comments.map CommentGroup.texts ∧
        marked.doc.map (·.number) = plain.doc.map (·.number) ↔
      CommentGroup.LevelAtTop source plain.comments) ∧
    (CommentGroup.LevelAtTop source plain.comments → ∀ findings,
      ((Register.ofFile marked).fileIsIgnored.run findings).1 =
        ((Register.ofFile plain).fileIsIgnored.run findings).1) := by
  intro plain marked
  refine ⟨⟨fun h => CommentGroup.levelAtTop_iff_texts.1 h.1, fun hlevel => ⟨?_, ?_⟩⟩, ?_⟩
  · exact CommentGroup.levelAtTop_iff_texts.2 hlevel
  · rw [doc_marked hlevel, Option.map_map]
    rfl
  · intro hlevel findings
    rw [Register.reports_fileIsIgnored, Register.reports_fileIsIgnored]
    show Register.docIgnores ⟨filename, marked.doc⟩ = Register.docIgnores ⟨filename, plain.doc⟩
    rw [doc_marked hlevel, docIgnores_marked]

def apartSource : List UInt8 :=
  "// a\n\n//faillint:file-ignore b\npackage p".toList.map fun c => c.val.toUInt8

/-- A comment at the top, and below an empty line the documentation, which ignores the file. -/
def apartRoot : Node :=
  ⟨.sourceFile, true, none, 0, 40,
    [⟨.comment, true, none, 0, 4, []⟩, ⟨.comment, true, none, 6, 30, []⟩,
      ⟨.packageClause, true, none, 31, 40, [⟨.packageIdentifier, true, none, 39, 40, []⟩]⟩]⟩

theorem doc_marked_iff_apart :
    CommentGroup.LevelAtTop apartSource (ofTree "a.go" apartSource apartRoot false).comments ∧
      (ofTree "a.go" (byteOrderMark ++ apartSource) (apartRoot.moved 3) false).comments.map
        CommentGroup.texts = [["// a"], ["//faillint:file-ignore b"]] ∧
      ((Register.ofFile (ofTree "a.go" (byteOrderMark ++ apartSource) (apartRoot.moved 3)
        false)).fileIsIgnored.run []).1 = true := by
  have hgroups : CommentGroup.ofTree apartSource apartRoot =
      [⟨0, ⟨"// a", ⟨0, 1, 1⟩, ⟨4, 1, 5⟩⟩, []⟩,
        ⟨1, ⟨"//faillint:file-ignore b", ⟨6, 3, 1⟩, ⟨30, 3, 25⟩⟩, []⟩] :=
    (CommentGroup.ofTree_eq_gather apartSource (by decide)).trans (by decide +kernel)
  have hdoc : (ofTree "a.go" apartSource apartRoot false).doc =
      some ⟨1, ⟨"//faillint:file-ignore b", ⟨6, 3, 1⟩, ⟨30, 3, 25⟩⟩, []⟩ := by
    show (packageClause? apartRoot).bind
      (docOf apartSource (CommentGroup.ofTree apartSource apartRoot)) = _
    rw [hgroups]
    decide +kernel
  have hlevel : CommentGroup.LevelAtTop apartSource
      (CommentGroup.ofTree apartSource apartRoot) := by
    rw [hgroups]
    intro group hgroup _
    simp only [List.mem_cons, List.not_mem_nil, or_false] at hgroup
    rcases hgroup with rfl | rfl
    · exact .singleton _
    · exact .singleton _
  obtain ⟨hiff, hignored⟩ := doc_marked_iff "a.go" apartSource apartRoot false
  refine ⟨hlevel, ?_, ?_⟩
  · rw [(hiff.2 hlevel).1]
    exact congrArg (·.map CommentGroup.texts) hgroups
  · rw [hignored hlevel [], Register.reports_fileIsIgnored]
    show Register.docIgnores ⟨"a.go", (ofTree "a.go" apartSource apartRoot false).doc⟩ = true
    rw [hdoc]
    decide +kernel

-- The documentation at the top, over two lines: behind a mark it is two groups.
example :
    let source : List UInt8 := "// a\n// b\n".toList.map fun c => c.val.toUInt8
    let root : Node := ⟨.sourceFile, true, none, 0, 10,
      [⟨.comment, true, none, 0, 4, []⟩, ⟨.comment, true, none, 5, 9, []⟩]⟩
    (CommentGroup.ofTree source root).map CommentGroup.texts = [["// a", "// b"]] ∧
      (CommentGroup.ofTree (byteOrderMark ++ source) (root.moved 3)).map CommentGroup.texts =
        [["// a"], ["// b"]] := by
  intro source root
  constructor
  · rw [CommentGroup.ofTree_eq_gather source (by decide)]
    decide +kernel
  · rw [CommentGroup.ofTree_eq_gather (byteOrderMark ++ source) (by decide)]
    decide +kernel

end SourceFile

end ImportGuard
