import ImportGuard.Proofs.Comment.Grouping
import Mathlib.Data.List.TakeWhile

/-!
# The documentation of a package

The group that documents the package is looked for among all groups before the package clause, and the
last one that ends on the line above the clause is taken.  That could be a group further up, with other
groups between it and the clause.  It never is: if only comments and white space stand before the
clause, **the documentation is the last group before the clause, or there is none**
(`doc_eq_last_group`).

`Prelude` is the situation, and two facts carry the argument.  Before the clause no group starts behind
code, since code there could only be another comment, which the group would have joined
(`Prelude.not_codeBefore`).  So a group that ends on the line above the clause takes in whatever comment
comes next before the clause: the next group starts behind the start of the clause
(`Prelude.lt_start_of_next`).
-/

namespace ImportGuard

namespace Place

/-! ### Rows -/

theorem row_mono (bytes : List UInt8) {i j : Nat} (h : i ≤ j) : row bytes i ≤ row bytes j :=
  (List.take_sublist_take_left h).count_le lineFeed

/-- Offsets with no line feed between them are in one row. -/
theorem row_eq_of_forall_ne {bytes : List UInt8} {i j : Nat} (hij : i ≤ j)
    (h : ∀ k, i ≤ k → k < j → bytes[k]? ≠ some lineFeed) : row bytes j = row bytes i := by
  have htake : bytes.take j = bytes.take i ++ (bytes.drop i).take (j - i) := by
    rw [← List.take_add, Nat.add_sub_cancel' hij]
  have hnone : lineFeed ∉ (bytes.drop i).take (j - i) := by
    intro hmem
    have hall : ∀ b ∈ (bytes.drop i).take (j - i), b ≠ lineFeed :=
      Comment.forall_mem_between.2 fun k hik hkj b hb heq => h k hik hkj (heq ▸ hb)
    exact hall lineFeed hmem rfl
  rw [row, htake, List.count_append, List.count_eq_zero.2 hnone]
  rfl

end Place

/-! ### Before the package clause -/

/-- The bytes that may stand between the comments before a package clause. -/
def blankBytes : List UInt8 := [0x20, 0x09, 0x0D, 0x0A]

/-- Groups of comments that are ranges apart from each other, none of which takes in the next one's
first comment, in a text that has only comments and white space before an offset. -/
structure Prelude (source : List UInt8) (groups : List CommentGroup) (offset : Nat) : Prop where
  placed : ∀ group ∈ groups, ∀ c ∈ group.comments, c.Placed source
  range : ∀ group ∈ groups, ∀ c ∈ group.comments, c.start.offset ≤ c.stop.offset
  apart : (groups.flatMap (·.comments)).Pairwise fun a b => a.stop.offset ≤ b.start.offset
  parted : groups.IsChain fun g h => ¬ Comment.Together source g.first g.last h.first
  blank : ∀ i < offset, ∀ b ∈ source[i]?, b ∈ blankBytes ∨
    ∃ group ∈ groups, ∃ c ∈ group.comments, c.start.offset ≤ i ∧ i < c.stop.offset

namespace Prelude

variable {source : List UInt8} {groups before behind : List CommentGroup} {offset : Nat}
  {group next : CommentGroup} {c : Comment}

theorem start_le_of_mem (h : Prelude source groups offset) (hgroup : group ∈ groups)
    (hc : c ∈ group.comments) : group.start.offset ≤ c.start.offset := by
  have hpair := (List.pairwise_flatMap.1 h.apart).1 group hgroup
  rw [CommentGroup.comments, List.pairwise_cons] at hpair
  have hrange := h.range group hgroup group.first group.first_mem_comments
  rcases List.mem_cons.1 hc with rfl | hc
  · exact Nat.le_refl _
  · exact Nat.le_trans hrange (hpair.1 c hc)

theorem stop_le_of_mem (h : Prelude source groups offset) (hgroup : group ∈ groups)
    (hc : c ∈ group.comments) : c.stop.offset ≤ group.stop.offset := by
  have hpair := (List.pairwise_flatMap.1 h.apart).1 group hgroup
  obtain ⟨init, hinit⟩ := List.getLast?_eq_some_iff.1 group.getLast?_comments
  rw [hinit] at hpair hc
  have hrange := h.range group hgroup group.last group.last_mem_comments
  rcases List.mem_append.1 hc with hc | hc
  · have hlast := (List.pairwise_append.1 hpair).2.2 c hc group.last (List.mem_singleton_self _)
    exact Nat.le_trans hlast hrange
  · rw [List.mem_singleton.1 hc]
    exact Nat.le_refl _

theorem stop_line (h : Prelude source groups offset) (hgroup : group ∈ groups) :
    group.stop.line = Place.row source group.stop.offset + 1 := by
  have hplaced := (h.placed group hgroup group.last group.last_mem_comments).stop
  show group.last.stop.line = _
  rw [hplaced, Place.line_ofOffset]
  rfl

theorem start_le_stop (h : Prelude source groups offset) (hgroup : group ∈ groups) :
    group.start.offset ≤ group.stop.offset := by
  have hrange := h.range group hgroup group.first group.first_mem_comments
  exact Nat.le_trans hrange (h.stop_le_of_mem hgroup group.first_mem_comments)

/-- Groups are apart from each other too. -/
theorem pairwise (h : Prelude source groups offset) :
    groups.Pairwise fun g k => g.stop.offset ≤ k.start.offset := by
  have hacross := (List.pairwise_flatMap.1 h.apart).2
  exact hacross.imp fun hall => hall _ (CommentGroup.last_mem_comments _) _
    (CommentGroup.first_mem_comments _)

theorem stop_le_stop (h : Prelude source groups offset) :
    groups.Pairwise fun g k => g.stop.offset ≤ k.stop.offset :=
  h.pairwise.imp_of_mem fun _ hk hle => Nat.le_trans hle (h.start_le_stop hk)

/-- A comment ends before the group in front of `group` does, or does not start before `group`. -/
theorem exists_front_or_start_le (h : Prelude source (before ++ group :: behind) offset)
    {home : CommentGroup} (hhome : home ∈ before ++ group :: behind) (hc : c ∈ home.comments) :
    (∃ front previous, before = front ++ [previous] ∧ c.stop.offset ≤ previous.stop.offset) ∨
      group.start.offset ≤ c.start.offset := by
  have hgroup : group ∈ before ++ group :: behind := by simp
  rcases List.mem_append.1 hhome with hbefore | hbehind
  · left
    rcases List.eq_nil_or_concat before with rfl | ⟨front, previous, rfl⟩
    · exact absurd hbefore List.not_mem_nil
    · rw [List.concat_eq_append] at h hhome hbefore hgroup ⊢
      refine ⟨front, previous, rfl, Nat.le_trans (h.stop_le_of_mem hhome hc) ?_⟩
      rcases List.mem_append.1 hbefore with hfront | hlast
      · have hpair := (List.pairwise_append.1 h.stop_le_stop).1
        exact (List.pairwise_append.1 hpair).2.2 home hfront previous (List.mem_singleton_self _)
      · exact Nat.le_of_eq (congrArg (·.stop.offset) (List.mem_singleton.1 hlast))
  · right
    have hpair := (List.pairwise_append.1 h.pairwise).2.1
    rcases List.mem_cons.1 hbehind with rfl | hbehind
    · exact h.start_le_of_mem hhome hc
    · have hlater := (List.pairwise_cons.1 hpair).1 home hbehind
      have hstart := h.start_le_of_mem hhome hc
      have hrange := h.start_le_stop hgroup
      omega

theorem not_together (h : Prelude source (before ++ group :: next :: behind) offset) :
    ¬ Comment.Together source group.first group.last next.first :=
  (List.isChain_append_cons_cons.1 h.parted).2.1

/-- Between two groups before the offset is only white space. -/
theorem mem_blankBytes (h : Prelude source (before ++ group :: next :: behind) offset)
    (hnext : next.start.offset ≤ offset) {i : Nat} (hstop : group.stop.offset ≤ i)
    (hstart : i < next.start.offset) {b : UInt8} (hb : source[i]? = some b) : b ∈ blankBytes := by
  have hsplit : before ++ group :: next :: behind = (before ++ [group]) ++ next :: behind := by simp
  rcases h.blank i (by omega) b hb with hblank | ⟨home, hhome, c, hc, hle, hlt⟩
  · exact hblank
  · rw [hsplit] at h hhome
    rcases h.exists_front_or_start_le hhome hc with ⟨front, previous, heq, hprevious⟩ | hlater
    · obtain ⟨-, hlast⟩ := List.append_inj' heq rfl
      obtain rfl := List.singleton_inj.1 hlast
      omega
    · omega

theorem mem_gapBytes_of_mem_blankBytes {b : UInt8} (hb : b ∈ blankBytes) :
    b ∈ Comment.gapBytes := by
  simp only [blankBytes, Comment.gapBytes, List.mem_cons, List.not_mem_nil, or_false] at *
  tauto

/-- **No group before the offset starts behind code.** -/
theorem not_codeBefore (h : Prelude source groups offset) (hgroup : group ∈ groups)
    (hstart : group.start.offset ≤ offset) :
    ¬ Comment.CodeBefore source group.start.offset := by
  rintro ⟨i, hi, b, hb, hcode, hline⟩
  obtain ⟨before, behind, rfl⟩ := List.append_of_mem hgroup
  rcases h.blank i (by omega) b hb with hblank | ⟨home, hhome, c, hc, hle, hlt⟩
  · -- white space that is code would end the line
    have hfeed : b = lineFeed := by
      simp only [blankBytes, Comment.indentBytes, List.mem_cons, List.not_mem_nil, or_false] at *
      tauto
    exact hline i (Nat.le_refl i) hi (hfeed ▸ hb)
  · rcases h.exists_front_or_start_le hhome hc with ⟨front, previous, rfl, hprevious⟩ | hlater
    · -- the code belongs to a comment, so the group in front ends in the same row
      rw [List.append_assoc, List.singleton_append] at h
      have hpair := (List.pairwise_append.1 h.pairwise).2.1
      have hapart := (List.pairwise_cons.1 hpair).1 group List.mem_cons_self
      refine h.not_together ⟨fun j hj hjstart byte hbyte => ?_, ?_⟩
      · exact mem_gapBytes_of_mem_blankBytes (h.mem_blankBytes hstart hj hjstart hbyte)
      · have hrow : Place.row source group.first.start.offset =
            Place.row source previous.last.stop.offset :=
          Place.row_eq_of_forall_ne hapart fun k hk hkstart => hline k
            (by show i ≤ k; have : previous.stop.offset ≤ k := hk; omega) hkstart
        rw [hrow]
        exact Nat.le_add_right _ _
    · omega

/-- **Behind a group that ends in the row above the offset, the next group starts behind the
offset.** -/
theorem lt_start_of_next (h : Prelude source (before ++ group :: next :: behind) offset)
    (hstop : group.stop.offset ≤ offset)
    (hrow : Place.row source group.stop.offset + 1 = Place.row source offset) :
    offset < next.start.offset := by
  by_contra hnot
  have hnext : next.start.offset ≤ offset := Nat.le_of_not_lt hnot
  have hgroup : group ∈ before ++ group :: next :: behind := by simp
  have hcode := h.not_codeBefore hgroup (Nat.le_trans (h.start_le_stop hgroup) hstop)
  refine h.not_together ⟨fun i hi histart b hb => ?_, ?_⟩
  · exact mem_gapBytes_of_mem_blankBytes (h.mem_blankBytes hnext hi histart hb)
  · have hbelow := Place.row_mono source hnext
    show Place.row source next.start.offset ≤ Place.row source group.stop.offset +
      if Comment.CodeBefore source group.start.offset then 0 else 1
    rw [if_neg hcode]
    omega

/-- Every other group ends before such a group, or starts behind the offset. -/
theorem stop_le_or_lt_start (h : Prelude source groups offset) (hgroup : group ∈ groups)
    (hstop : group.stop.offset ≤ offset)
    (hrow : Place.row source group.stop.offset + 1 = Place.row source offset)
    {other : CommentGroup} (hother : other ∈ groups) (hne : other ≠ group) :
    other.stop.offset ≤ group.start.offset ∨ offset < other.start.offset := by
  obtain ⟨before, behind, rfl⟩ := List.append_of_mem hgroup
  have hpair := List.pairwise_append.1 h.pairwise
  rcases List.mem_append.1 hother with hbefore | hbehind
  · exact Or.inl (hpair.2.2 other hbefore group List.mem_cons_self)
  · right
    cases behind with
    | nil => exact absurd (List.mem_singleton.1 hbehind) hne
    | cons next behind =>
      have hnext := h.lt_start_of_next hstop hrow
      have hlater := (List.pairwise_cons.1 (List.pairwise_cons.1 hpair.2.1).2).1
      rcases List.mem_cons.1 hbehind with rfl | hbehind
      · exact absurd rfl hne
      · rcases List.mem_cons.1 hbehind with rfl | hbehind
        · exact hnext
        · have hapart := hlater other hbehind
          have hrange : next.start.offset ≤ next.stop.offset := h.start_le_stop (by simp)
          omega

/-- So every comment before the offset has ended where that group ends. -/
theorem stop_le_stop_of_row (h : Prelude source groups offset) (hgroup : group ∈ groups)
    (hstop : group.stop.offset ≤ offset)
    (hrow : Place.row source group.stop.offset + 1 = Place.row source offset)
    {other : CommentGroup} (hother : other ∈ groups) {comment : Comment}
    (hcomment : comment ∈ other.comments) (hend : comment.stop.offset ≤ offset) :
    comment.stop.offset ≤ group.stop.offset := by
  have hlast := h.stop_le_of_mem hother hcomment
  by_cases heq : other = group
  · rwa [heq] at hlast
  · have hfirst := h.start_le_of_mem hother hcomment
    have hrange := h.range other hother comment hcomment
    have hgroupRange := h.start_le_stop hgroup
    rcases h.stop_le_or_lt_start hgroup hstop hrow hother heq with hle | hlt
    · omega
    · omega

end Prelude

/-! ### The last group before the package clause -/

/-- In a list that a property starts and leaves for good, the members at its start are those that have
the property. -/
theorem takeWhile_eq_filter_of_pairwise {α : Type} {p : α → Bool} {l : List α}
    (h : l.Pairwise fun a b => p b = true → p a = true) : l.takeWhile p = l.filter p := by
  induction l with
  | nil => rfl
  | cons a l ih =>
    rw [List.pairwise_cons] at h
    by_cases ha : p a = true
    · rw [List.takeWhile_cons_of_pos ha, List.filter_cons_of_pos ha, ih h.2]
    · rw [List.takeWhile_cons_of_neg ha, List.filter_cons_of_neg ha]
      exact (List.filter_eq_nil_iff.2 fun b hb hpb => ha (h.1 b hb hpb)).symm

/-- If no member but the last can have a property, looking for the last that has it is looking at the
last. -/
theorem getLast?_filter_eq {α : Type} {p : α → Bool} {l : List α}
    (h : ∀ front a b behind, l = front ++ a :: b :: behind → p a = false) :
    (l.filter p).getLast? = l.getLast?.filter p := by
  rcases List.eq_nil_or_concat l with rfl | ⟨init, last, rfl⟩
  · rfl
  rw [List.concat_eq_append] at *
  have hinit : init.filter p = [] := by
    refine List.filter_eq_nil_iff.2 fun a ha hpa => ?_
    obtain ⟨front, behind, rfl⟩ := List.append_of_mem ha
    have hfalse : p a = false := by
      cases behind with
      | nil => exact h front a last [] (by simp)
      | cons b behind => exact h front a b (behind ++ [last]) (by simp)
    rw [hfalse] at hpa
    exact Bool.noConfusion hpa
  rw [List.filter_append, hinit, List.nil_append, List.getLast?_append, List.getLast?_singleton,
    Option.some_or, Option.filter_some, List.filter_singleton]
  cases p last with
  | true => rfl
  | false => rfl

namespace Node

/-- Two ranges do not overlap: one that does not start behind the other ends before it starts. -/
def Apart (a b : Node) : Prop :=
  (a.start ≤ b.start → a.stop ≤ b.start) ∧ (b.start ≤ a.start → b.stop ≤ a.start)

instance (a b : Node) : Decidable (Apart a b) :=
  inferInstanceAs (Decidable (_ ∧ _))

theorem Apart.symm {a b : Node} (h : Apart a b) : Apart b a :=
  ⟨h.2, h.1⟩

end Node

namespace SourceFile

variable {source : List UInt8} {root clause : Node}

theorem flatMap_ofTree (source : List UInt8) (root : Node) :
    (CommentGroup.ofTree source root).flatMap (·.comments) =
      (root.comments.mergeSort fun a b => a.start ≤ b.start).map (Comment.ofNode source) :=
  CommentGroup.flatMap_gather source 0 _

/-- The comments in the groups of a tree are those of its comment nodes. -/
theorem exists_group_iff {c : Comment} :
    (∃ group ∈ CommentGroup.ofTree source root, c ∈ group.comments) ↔
      ∃ node ∈ root.comments, Comment.ofNode source node = c := by
  rw [← List.mem_flatMap, flatMap_ofTree, List.mem_map]
  exact exists_congr fun node => and_congr_left fun _ =>
    (CommentGroup.mergeSort_start root.comments).1.mem_iff

/-- **A tree in which comments do not overlap, over a text with only comments and white space before
the package clause, has a prelude.** -/
theorem prelude_ofTree (hrange : ∀ node ∈ root.comments, node.start ≤ node.stop)
    (hapart : root.comments.Pairwise Node.Apart)
    (hbefore : ∀ i < clause.start, ∀ b ∈ source[i]?, b ∈ blankBytes ∨
      ∃ node ∈ root.comments, node.start ≤ i ∧ i < node.stop) :
    Prelude source (CommentGroup.ofTree source root) clause.start := by
  obtain ⟨hperm, hsorted, -⟩ := CommentGroup.mergeSort_start root.comments
  have hplaced : ∀ group ∈ CommentGroup.ofTree source root, ∀ c ∈ group.comments,
      c.Placed source := by
    intro group hgroup c hc
    obtain ⟨node, _, rfl⟩ := exists_group_iff.1 ⟨group, hgroup, hc⟩
    exact Comment.placed_ofNode source node
  refine ⟨hplaced, ?_, ?_, ?_, ?_⟩
  · intro group hgroup c hc
    obtain ⟨node, hmem, rfl⟩ := exists_group_iff.1 ⟨group, hgroup, hc⟩
    exact hrange node hmem
  · rw [flatMap_ofTree, List.pairwise_map]
    have happart := hapart.perm hperm.symm fun h => Node.Apart.symm h
    exact hsorted.imp₂ (fun a b hle h => h.1 hle) happart
  · refine (CommentGroup.isChain_gather source 0 _).imp_of_mem_imp ?_
    intro g k hg hk hjoins htogether
    rw [← Comment.joins_iff (hplaced g hg g.last g.last_mem_comments)
      (hplaced k hk k.first k.first_mem_comments), hjoins] at htogether
    exact Bool.noConfusion htogether
  · intro i hi b hb
    refine (hbefore i hi b hb).imp_right ?_
    rintro ⟨node, hmem, hle, hlt⟩
    obtain ⟨group, hgroup, hcomment⟩ := exists_group_iff.2 ⟨node, hmem, rfl⟩
    exact ⟨group, hgroup, _, hcomment, hle, hlt⟩

/-- **Before the package clause only the last group can be the documentation.** -/
theorem docOf_eq {groups : List CommentGroup} (h : Prelude source groups clause.start) :
    docOf source groups clause =
      (groups.filter (·.stop.offset ≤ clause.start)).getLast?.filter
        (·.stop.line + 1 = (Place.ofOffset source clause.start).line) := by
  have hearly : groups.takeWhile (·.stop.offset ≤ clause.start) =
      groups.filter (·.stop.offset ≤ clause.start) := by
    refine takeWhile_eq_filter_of_pairwise (h.stop_le_stop.imp fun hle hlater => ?_)
    rw [decide_eq_true_eq] at *
    exact Nat.le_trans hle hlater
  unfold docOf
  dsimp only
  rw [← hearly]
  refine getLast?_filter_eq fun front group next behind heq => ?_
  rw [decide_eq_false_iff_not]
  intro hline
  -- a group on the line above the clause, and behind it another one that ends before the clause
  have hmem : ∀ g ∈ front ++ group :: next :: behind,
      g ∈ groups ∧ g.stop.offset ≤ clause.start := by
    intro g hg
    rw [← heq, hearly, List.mem_filter, decide_eq_true_eq] at hg
    exact hg
  obtain ⟨hgroup, hstop⟩ := hmem group (by simp)
  obtain ⟨hnext, hnextStop⟩ := hmem next (by simp)
  have hrow : Place.row source group.stop.offset + 1 = Place.row source clause.start := by
    rw [h.stop_line hgroup, Place.line_ofOffset] at hline
    omega
  have hrange := h.start_le_stop hnext
  rw [← List.takeWhile_append_dropWhile (p := (·.stop.offset ≤ clause.start)) (l := groups), heq,
    List.append_assoc, List.cons_append, List.cons_append] at h
  have hbehind := h.lt_start_of_next hstop hrow
  omega

theorem mem_of_docOf {groups : List CommentGroup} {doc : CommentGroup}
    (h : docOf source groups clause = some doc) :
    doc ∈ groups ∧ doc.stop.offset ≤ clause.start ∧
      doc.stop.line + 1 = (Place.ofOffset source clause.start).line := by
  have hfilter := List.mem_filter.1 (List.mem_of_getLast? h)
  have htake := List.mem_takeWhile_imp hfilter.1
  exact ⟨List.takeWhile_subset _ hfilter.1, of_decide_eq_true htake, of_decide_eq_true hfilter.2⟩

/-- **The documentation of a package is the last group before the package clause.**  Let comments not
overlap, and let only comments, spaces, tabs, carriage returns and line feeds stand before the first
package clause.  The documentation is the last group that ends at or before the clause, if that ends
on the line above the clause, and there is none otherwise.  So every other group ends before the
documentation starts or starts behind the start of the clause, and a comment that ends before the
clause on its line leaves the package without documentation. -/
theorem doc_eq_last_group (filename : String) (source : List UInt8) (root clause : Node)
    (broken : Bool) (hclause : packageClause? root = some clause)
    (hrange : ∀ node ∈ root.comments, node.start ≤ node.stop)
    (hapart : root.comments.Pairwise Node.Apart)
    (hbefore : ∀ i < clause.start, ∀ b ∈ source[i]?, b ∈ blankBytes ∨
      ∃ node ∈ root.comments, node.start ≤ i ∧ i < node.stop) :
    let file := ofTree filename source root broken
    let line := (Place.ofOffset source clause.start).line
    file.doc = (file.comments.filter (·.stop.offset ≤ clause.start)).getLast?.filter
      (·.stop.line + 1 = line) ∧
    (∀ doc, file.doc = some doc → ∀ group ∈ file.comments, group ≠ doc →
      group.stop.offset ≤ doc.start.offset ∨ clause.start < group.start.offset) ∧
    ((∃ node ∈ root.comments, node.stop ≤ clause.start ∧
      (Place.ofOffset source node.stop).line = line) → file.doc = none) := by
  intro file line
  have h : Prelude source file.comments clause.start := prelude_ofTree hrange hapart hbefore
  have hdocOf : file.doc = docOf source file.comments clause := by
    show (packageClause? root).bind _ = _
    rw [hclause]
    rfl
  have hrow : ∀ doc, file.doc = some doc → doc ∈ file.comments ∧ doc.stop.offset ≤ clause.start ∧
      Place.row source doc.stop.offset + 1 = Place.row source clause.start := by
    intro doc hdoc
    obtain ⟨hmem, hstop, hline⟩ := mem_of_docOf (hdocOf.symm.trans hdoc)
    rw [h.stop_line hmem, Place.line_ofOffset] at hline
    exact ⟨hmem, hstop, by omega⟩
  refine ⟨hdocOf.trans (docOf_eq h), ?_, ?_⟩
  · intro doc hdoc group hgroup hne
    obtain ⟨hmem, hstop, hbelow⟩ := hrow doc hdoc
    exact h.stop_le_or_lt_start hmem hstop hbelow hgroup hne
  · rintro ⟨node, hnode, hend, hsame⟩
    by_contra hsome
    obtain ⟨doc, hdoc⟩ := Option.ne_none_iff_exists'.1 hsome
    obtain ⟨hmem, hstop, hbelow⟩ := hrow doc hdoc
    obtain ⟨group, hgroup, hc⟩ := exists_group_iff.2 ⟨node, hnode, rfl⟩
    rw [show line = Place.row source clause.start + 1 from Place.line_ofOffset _ _,
      Place.line_ofOffset] at hsame
    -- the comment ends in the clause's row, and so below the documentation
    have hle : node.stop ≤ doc.stop.offset :=
      h.stop_le_stop_of_row hmem hstop hbelow hgroup hc hend
    have hrows := Place.row_mono source hle
    omega

def docSource : List UInt8 :=
  "// x\n\n// a\n// b\npackage p".toList.map fun c => c.val.toUInt8

def docClause : Node :=
  ⟨.packageClause, true, none, 16, 25, [⟨.packageIdentifier, true, none, 24, 25, []⟩]⟩

def docRoot : Node :=
  ⟨.sourceFile, true, none, 0, 25,
    [⟨.comment, true, none, 0, 4, []⟩, ⟨.comment, true, none, 6, 10, []⟩,
      ⟨.comment, true, none, 11, 15, []⟩, docClause]⟩

/-- Of two groups before the clause, the one directly above it is the documentation. -/
theorem doc_eq_last_group_above :
    packageClause? docRoot = some docClause ∧
      (∀ node ∈ docRoot.comments, node.start ≤ node.stop) ∧
      docRoot.comments.Pairwise Node.Apart ∧
      (∀ i < docClause.start, ∀ b ∈ docSource[i]?, b ∈ blankBytes ∨
        ∃ node ∈ docRoot.comments, node.start ≤ i ∧ i < node.stop) ∧
      (ofTree "a.go" docSource docRoot false).comments.length = 2 ∧
      (ofTree "a.go" docSource docRoot false).doc.map (·.text) = some "// a\n// b" := by
  have hrange : ∀ node ∈ docRoot.comments, node.start ≤ node.stop := by decide
  have hapart : docRoot.comments.Pairwise Node.Apart := by decide
  have hbefore : ∀ i < docClause.start, ∀ b ∈ docSource[i]?, b ∈ blankBytes ∨
      ∃ node ∈ docRoot.comments, node.start ≤ i ∧ i < node.stop := by decide +kernel
  have hcomments : (ofTree "a.go" docSource docRoot false).comments =
      CommentGroup.gather docSource 0 (docRoot.comments.map (Comment.ofNode docSource)) :=
    CommentGroup.ofTree_eq_gather docSource (by decide)
  have hlast : ((ofTree "a.go" docSource docRoot false).comments.filter
      (·.stop.offset ≤ docClause.start)).getLast?.filter
        (·.stop.line + 1 = (Place.ofOffset docSource docClause.start).line) =
      some ⟨1, ⟨"// a", ⟨6, 3, 1⟩, ⟨10, 3, 5⟩⟩, [⟨"// b", ⟨11, 4, 1⟩, ⟨15, 4, 5⟩⟩]⟩ := by
    rw [hcomments]
    decide +kernel
  refine ⟨rfl, hrange, hapart, hbefore, by rw [hcomments]; decide +kernel, ?_⟩
  rw [(doc_eq_last_group "a.go" docSource docRoot docClause false rfl hrange hapart hbefore).1,
    hlast]
  decide +kernel

end SourceFile

end ImportGuard
