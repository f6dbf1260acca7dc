import ImportGuard.Proofs.Comment.Partition
import ImportGuard.Proofs.Position
import ImportGuard.Proofs.StableSort
import Mathlib.Data.List.Chain

/-!
# The maximal grouping of comments

Comments are put into groups by a run from the left that carries the first comment of the group it is
in.  `IsGrouping` says what a grouping is without a run: the groups hold all comments in order, and
**two neighbours are in one group if and only if they stand together** (`Comment.Together`), where the
first comment of the left one's group tells how far apart they may be.

There is one such grouping, and it is the one that the run makes (`isGrouping_iff`,
`ofNodes_eq_iff_isGrouping`).  As for a list that is split wherever neighbours are unrelated, this
comes from two facts: inside a group neighbours join (`isChain_of_mem_gather`), and from the end of a
group to the start of the next they do not (`isChain_gather`).
-/

namespace ImportGuard

namespace Comment

/-! ### Comments that stand together -/

def gapBytes : List UInt8 := [0x20, 0x09, 0x0A, 0x0B, 0x0C, 0x0D]

def indentBytes : List UInt8 := [0x20, 0x09, 0x0D]

/-- **Before an offset, on its line, stands a byte that is no white space.** -/
def CodeBefore (source : List UInt8) (offset : Nat) : Prop :=
  ∃ i < offset, ∃ b, source[i]? = some b ∧ b ∉ indentBytes ∧
    ∀ j, i ≤ j → j < offset → source[j]? ≠ some lineFeed

theorem isGapByte_iff {b : UInt8} : isGapByte b = true ↔ b ∈ gapBytes := by
  simp only [isGapByte, gapBytes, Bool.or_eq_true, Bool.and_eq_true, decide_eq_true_eq,
    List.mem_cons, List.not_mem_nil, or_false, UInt8.le_iff_toNat_le, ← UInt8.toNat_inj,
    UInt8.reduceToNat]
  omega

theorem isIndentByte_iff {b : UInt8} : isIndentByte b = true ↔ b ∈ indentBytes := by
  simp only [isIndentByte, indentBytes, Bool.or_eq_true, decide_eq_true_eq, List.mem_cons,
    List.not_mem_nil, or_false, or_assoc]

/-- The look behind an offset goes on over white space and stops at any other byte. -/
theorem trailsCode_succ (source : List UInt8) (offset : Nat) :
    trailsCode source (offset + 1) =
      source[offset]?.elim (trailsCode source offset) fun b =>
        if isIndentByte b then trailsCode source offset else b != lineFeed := by
  unfold trailsCode
  rw [List.take_add_one]
  cases source[offset]? with
  | none => simp
  | some b =>
    rw [Option.toList_some, List.reverse_append, List.reverse_singleton, List.singleton_append,
      List.dropWhile_cons, Option.elim_some]
    by_cases hindent : isIndentByte b = true
    · rw [if_pos hindent, if_pos hindent]
    · rw [if_neg hindent, if_neg hindent]

theorem lineFeed_notMem_indentBytes : lineFeed ∉ indentBytes := by decide

/-- **A comment trails code exactly if there is code before it on its line.** -/
theorem trailsCode_iff {source : List UInt8} {offset : Nat} :
    trailsCode source offset = true ↔ CodeBefore source offset := by
  induction offset with
  | zero =>
    refine ⟨fun h => absurd h (by simp [trailsCode]), ?_⟩
    rintro ⟨i, hi, _⟩
    omega
  | succ offset ih =>
    rw [trailsCode_succ]
    -- code before the last byte is code before the offset unless that byte ends a line
    have hmono : source[offset]? ≠ some lineFeed → CodeBefore source offset →
        CodeBefore source (offset + 1) := by
      rintro hlast ⟨i, hi, b, hb, hcode, hline⟩
      refine ⟨i, by omega, b, hb, hcode, fun j hij hj => ?_⟩
      by_cases heq : j = offset
      · rwa [heq]
      · exact hline j hij (by omega)
    have hback : (∀ b, source[offset]? = some b → b ∈ indentBytes) →
        CodeBefore source (offset + 1) → CodeBefore source offset := by
      rintro hlast ⟨i, hi, b, hb, hcode, hline⟩
      have hne : i ≠ offset := fun heq => hcode (hlast b (heq ▸ hb))
      exact ⟨i, by omega, b, hb, hcode, fun j hij hj => hline j hij (by omega)⟩
    cases hlast : source[offset]? with
    | none =>
      refine ih.trans ⟨hmono (by rw [hlast]; simp), hback fun b hb => ?_⟩
      rw [hlast] at hb
      exact absurd hb (by simp)
    | some b =>
      rw [Option.elim_some]
      split
      · rename_i hindent
        have hmem := isIndentByte_iff.1 hindent
        refine ih.trans ⟨hmono fun heq => ?_, hback fun c hc => ?_⟩
        · rw [hlast] at heq
          exact lineFeed_notMem_indentBytes (Option.some.inj heq ▸ hmem)
        · rw [hlast] at hc
          exact Option.some.inj hc ▸ hmem
      · rename_i hcode
        rw [isIndentByte_iff] at hcode
        rw [bne_iff_ne]
        constructor
        · intro hne
          refine ⟨offset, by omega, b, hlast, hcode, fun j hij hj => ?_⟩
          obtain rfl : j = offset := by omega
          rw [hlast]
          exact fun heq => hne (Option.some.inj heq)
        · rintro ⟨i, hi, -, -, -, hline⟩ rfl
          exact hline offset (by omega) (by omega) hlast

instance (source : List UInt8) (offset : Nat) : Decidable (CodeBefore source offset) :=
  decidable_of_iff _ trailsCode_iff

/-- **Two neighbours stand together**, in a group that starts with `first`: between them is only white
space, and the second starts at most one row below the end of the first, and in its row if `first`
has code before it. -/
def Together (source : List UInt8) (first a b : Comment) : Prop :=
  (∀ i, a.stop.offset ≤ i → i < b.start.offset → ∀ byte, source[i]? = some byte →
    byte ∈ gapBytes) ∧
  Place.row source b.start.offset ≤ Place.row source a.stop.offset +
    if CodeBefore source first.start.offset then 0 else 1

/-- A comment at places of the text. -/
structure Placed (source : List UInt8) (comment : Comment) : Prop where
  start : comment.start = Place.ofOffset source comment.start.offset
  stop : comment.stop = Place.ofOffset source comment.stop.offset

theorem placed_ofNode (source : List UInt8) (node : Node) : (ofNode source node).Placed source :=
  ⟨rfl, rfl⟩

theorem forall_mem_between {source : List UInt8} {start stop : Nat} {P : UInt8 → Prop} :
    (∀ b ∈ (source.drop start).take (stop - start), P b) ↔
      ∀ i, start ≤ i → i < stop → ∀ b, source[i]? = some b → P b := by
  simp only [List.mem_iff_getElem?, List.getElem?_take, List.getElem?_drop]
  constructor
  · intro h i hi hstop b hb
    refine h b ⟨i - start, ?_⟩
    rw [if_pos (by omega), show start + (i - start) = i by omega]
    exact hb
  · rintro h b ⟨j, hj⟩
    split at hj
    · exact h (start + j) (by omega) (by omega) b hj
    · exact absurd hj (by simp)

/-- **Comments of a text join exactly if they stand together.** -/
theorem joins_iff {source : List UInt8} {first a b : Comment} (ha : a.Placed source)
    (hb : b.Placed source) :
    joins source (reach source first) a b = true ↔ Together source first a b := by
  have hreach : reach source first = if CodeBefore source first.start.offset then 0 else 1 :=
    if_congr trailsCode_iff rfl rfl
  have hline : ∀ k, b.start.line ≤ a.stop.line + k ↔
      Place.row source b.start.offset ≤ Place.row source a.stop.offset + k := by
    intro k
    rw [ha.stop, hb.start, Place.line_ofOffset, Place.line_ofOffset]
    show _ ↔ Place.row source b.start.offset ≤ Place.row source a.stop.offset + k
    omega
  unfold joins Together
  rw [Bool.and_eq_true, List.all_eq_true, decide_eq_true_eq, hline, hreach]
  simp only [isGapByte_iff, forall_mem_between]

end Comment

namespace CommentGroup

/-! ### A run -/

section Run

variable {source : List UInt8} {reach : Nat}

theorem isChain_run (previous : Comment) (comments : List Comment) :
    (previous :: (run source reach previous comments).1).IsChain fun a b =>
      Comment.joins source reach a b = true := by
  induction comments generalizing previous with
  | nil => exact .singleton previous
  | cons next rest ih =>
    unfold run
    split
    · rename_i hjoins
      exact List.isChain_cons_cons.2 ⟨hjoins, ih next⟩
    · exact .singleton previous

/-- What follows a run does not join its last comment. -/
theorem joins_run (previous : Comment) (comments : List Comment) :
    ∀ next ∈ (run source reach previous comments).2.head?,
      Comment.joins source reach ((run source reach previous comments).1.getLastD previous) next =
        false := by
  induction comments generalizing previous with
  | nil => exact fun next h => absurd h (by simp [run])
  | cons next rest ih =>
    unfold run
    split
    · intro other hother
      rw [List.getLastD_cons]
      exact ih next other hother
    · rename_i hjoins
      intro other hother
      obtain rfl : next = other := by simpa using hother
      simpa using hjoins

/-- Comments that join one after the other are a run, if what follows does not join. -/
theorem run_append_of_isChain {previous : Comment} {l m : List Comment}
    (hl : (previous :: l).IsChain fun a b => Comment.joins source reach a b = true)
    (hm : ∀ next ∈ m.head?, Comment.joins source reach (l.getLastD previous) next = false) :
    run source reach previous (l ++ m) = (l, m) := by
  induction l generalizing previous with
  | nil =>
    cases m with
    | nil => rfl
    | cons next m =>
      have hnext := hm next rfl
      rw [List.getLastD_nil] at hnext
      rw [List.nil_append, run, if_neg (by simp [hnext])]
  | cons b l ih =>
    obtain ⟨hjoins, hrest⟩ := List.isChain_cons_cons.1 hl
    rw [List.getLastD_cons] at hm
    rw [List.cons_append, run, if_pos hjoins, ih hrest hm]

end Run

/-! ### Gathering -/

section Gather

variable {source : List UInt8} {number : Nat} {comments : List Comment}

/-- Inside a group neighbours join. -/
theorem isChain_of_mem_gather {group : CommentGroup} (h : group ∈ gather source number comments) :
    group.comments.IsChain fun a b =>
      Comment.joins source (Comment.reach source group.first) a b = true := by
  induction number, comments using gather.induct source with
  | case1 number => simp [gather] at h
  | case2 number first more parts ih =>
    rw [gather] at h
    rcases List.mem_cons.1 h with rfl | h
    · exact isChain_run first more
    · exact ih h

theorem head?_gather (source : List UInt8) (number : Nat) (comments : List Comment) :
    (gather source number comments).head?.map (·.first) = comments.head? := by
  cases comments with
  | nil => simp [gather]
  | cons first more => simp [gather]

/-- **The last comment of a group does not join the first of the next.** -/
theorem isChain_gather (source : List UInt8) (number : Nat) (comments : List Comment) :
    (gather source number comments).IsChain fun g h =>
      Comment.joins source (Comment.reach source g.first) g.last h.first = false := by
  induction number, comments using gather.induct source with
  | case1 number => simp [gather]
  | case2 number first more parts ih =>
    rw [gather, List.isChain_cons]
    refine ⟨fun next hnext => joins_run first more _ ?_, ih⟩
    rw [← head?_gather source (number + 1), Option.mem_def, hnext]
    rfl

theorem map_number_gather (source : List UInt8) (number : Nat) (comments : List Comment) :
    (gather source number comments).map (·.number) =
      List.range' number (gather source number comments).length := by
  induction number, comments using gather.induct source with
  | case1 number => simp [gather]
  | case2 number first more parts ih =>
    rw [gather, List.map_cons, List.length_cons, List.range'_succ]
    exact congrArg (number :: ·) ih

/-- **Groups that are numbered, in which neighbours join, and which do not join each other, are what
gathering makes of their comments.** -/
theorem gather_flatMap {groups : List CommentGroup}
    (hnumber : groups.map (·.number) = List.range' number groups.length)
    (hinside : ∀ group ∈ groups, group.comments.IsChain fun a b =>
      Comment.joins source (Comment.reach source group.first) a b = true)
    (hacross : groups.IsChain fun g h =>
      Comment.joins source (Comment.reach source g.first) g.last h.first = false) :
    gather source number (groups.flatMap (·.comments)) = groups := by
  induction groups generalizing number with
  | nil => simp [gather]
  | cons group groups ih =>
    obtain ⟨k, first, rest⟩ := group
    rw [List.map_cons, List.length_cons, List.range'_succ, List.cons.injEq] at hnumber
    rw [List.forall_mem_cons] at hinside
    rw [List.isChain_cons] at hacross
    have hrun : run source (Comment.reach source first) first
        (rest ++ groups.flatMap (·.comments)) = (rest, groups.flatMap (·.comments)) := by
      refine run_append_of_isChain hinside.1 fun next hnext => ?_
      cases groups with
      | nil => exact absurd hnext (by simp)
      | cons other groups =>
        obtain rfl : other.first = next := by simpa [CommentGroup.comments] using hnext
        exact hacross.1 other rfl
    have hcomments : (⟨k, first, rest⟩ :: groups : List CommentGroup).flatMap (·.comments) =
        first :: (rest ++ groups.flatMap (·.comments)) := rfl
    rw [hcomments, gather, hrun, ih hnumber.2 hinside.2 hacross.2, ← hnumber.1]

end Gather

/-! ### Groupings -/

def members (groups : List CommentGroup) : List (CommentGroup × Comment) :=
  groups.flatMap fun group => group.comments.map fun comment => (group, comment)

/-- **A maximal grouping of comments**: numbered groups that hold the comments in their order, in which
two neighbours are in one group if and only if they stand together. -/
structure IsGrouping (source : List UInt8) (comments : List Comment)
    (groups : List CommentGroup) : Prop where
  numbered : groups.map (·.number) = List.range groups.length
  complete : groups.flatMap (·.comments) = comments
  maximal : (members groups).IsChain fun x y =>
    x.1 = y.1 ↔ Comment.Together source x.1.first x.2 y.2

theorem getLast?_comments (group : CommentGroup) : group.comments.getLast? = some group.last := by
  rw [comments, List.getLast?_cons, last, List.getLastD_eq_getLast?]

/-- What holds of neighbouring members holds inside each group and from each group to the next. -/
theorem isChain_members {R : CommentGroup × Comment → CommentGroup × Comment → Prop}
    {groups : List CommentGroup} :
    (members groups).IsChain R ↔
      (∀ group ∈ groups, group.comments.IsChain fun a b => R (group, a) (group, b)) ∧
        groups.IsChain fun g h => R (g, g.last) (h, h.first) := by
  have hmembers : members groups =
      (groups.map fun group => group.comments.map fun comment => (group, comment)).flatten := rfl
  have hne : [] ∉ groups.map fun group => group.comments.map fun comment => (group, comment) := by
    simp [comments]
  have hhead : ∀ group : CommentGroup, group.comments.head? = some group.first := fun _ => rfl
  rw [hmembers, List.isChain_flatten hne, List.forall_mem_map, List.isChain_map]
  simp only [List.isChain_map, List.getLast?_map, List.head?_map, getLast?_comments, hhead,
    Option.map_some, Option.mem_some_iff, forall_eq']

theorem nodup_of_map_number {number : Nat} {groups : List CommentGroup}
    (h : groups.map (·.number) = List.range' number groups.length) : groups.Nodup :=
  List.Nodup.of_map (·.number) (h ▸ List.nodup_range')

/-- For groups of comments of a text, none of them twice, the rule for neighbours comes down to joining:
inside a group, and not from a group to the next. -/
theorem isChain_together_iff {source : List UInt8} {groups : List CommentGroup}
    (hplaced : ∀ group ∈ groups, ∀ comment ∈ group.comments, comment.Placed source)
    (hnodup : groups.Nodup) :
    ((members groups).IsChain fun x y => x.1 = y.1 ↔ Comment.Together source x.1.first x.2 y.2) ↔
      (∀ group ∈ groups, group.comments.IsChain fun a b =>
        Comment.joins source (Comment.reach source group.first) a b = true) ∧
      groups.IsChain fun g h =>
        Comment.joins source (Comment.reach source g.first) g.last h.first = false := by
  have hjoins : ∀ g ∈ groups, ∀ h ∈ groups, ∀ a ∈ g.comments, ∀ b ∈ h.comments,
      (Comment.joins source (Comment.reach source g.first) a b = true ↔
        Comment.Together source g.first a b) :=
    fun g hg h hh a ha b hb => Comment.joins_iff (hplaced g hg a ha) (hplaced h hh b hb)
  rw [isChain_members]
  refine and_congr (forall₂_congr fun group hgroup => ?_) ?_
  · refine ⟨fun hchain => hchain.imp_of_mem_imp ?_, fun hchain => hchain.imp_of_mem_imp ?_⟩
    · intro a b ha hb htogether
      exact (hjoins group hgroup group hgroup a ha b hb).2 (htogether.1 rfl)
    · intro a b ha hb hab
      exact iff_of_true rfl ((hjoins group hgroup group hgroup a ha b hb).1 hab)
  · rw [List.isChain_iff_forall_rel_of_append_cons_cons,
      List.isChain_iff_forall_rel_of_append_cons_cons]
    refine forall₄_congr fun g h before after => forall_congr' fun heq => ?_
    have hne : g ≠ h := by
      rw [heq, List.nodup_append'] at hnodup
      exact fun hgh => (List.nodup_cons.1 hnodup.2.1).1 (hgh ▸ List.mem_cons_self)
    have hg : g ∈ groups := heq ▸ by simp
    have hh : h ∈ groups := heq ▸ by simp
    rw [← Bool.not_eq_true,
      hjoins g hg h hh g.last g.last_mem_comments h.first h.first_mem_comments]
    exact ⟨fun hiff htogether => hne (hiff.2 htogether), iff_of_false hne⟩

/-- **There is one maximal grouping of the comments of a text, the one that gathering makes.** -/
theorem isGrouping_iff {source : List UInt8} {comments : List Comment}
    (hplaced : ∀ comment ∈ comments, comment.Placed source) {groups : List CommentGroup} :
    IsGrouping source comments groups ↔ groups = gather source 0 comments := by
  have hmem : groups.flatMap (·.comments) = comments →
      ∀ group ∈ groups, ∀ comment ∈ group.comments, comment.Placed source :=
    fun hcomplete group hgroup comment hcomment => hplaced comment
      (hcomplete ▸ List.mem_flatMap.2 ⟨group, hgroup, hcomment⟩)
  constructor
  · intro h
    have hnumber := h.numbered
    rw [List.range_eq_range'] at hnumber
    obtain ⟨hinside, hacross⟩ :=
      (isChain_together_iff (hmem h.complete) (nodup_of_map_number hnumber)).1 h.maximal
    rw [← h.complete]
    exact (gather_flatMap hnumber hinside hacross).symm
  · rintro rfl
    have hcomplete := flatMap_gather source 0 comments
    refine ⟨?_, hcomplete, (isChain_together_iff (hmem hcomplete) (nodup_gather source 0 comments)).2
      ⟨fun group hgroup => isChain_of_mem_gather hgroup, isChain_gather source 0 comments⟩⟩
    rw [List.range_eq_range']
    exact map_number_gather source 0 comments

/-! ### The groups of nodes -/

theorem placed_of_mem_map {source : List UInt8} {nodes : List Node} {comment : Comment}
    (h : comment ∈ nodes.map (Comment.ofNode source)) : comment.Placed source := by
  obtain ⟨node, _, rfl⟩ := List.mem_map.1 h
  exact Comment.placed_ofNode source node

/-- Sorting by the start is sorting, and keeps nodes with one start in their order. -/
theorem mergeSort_start (nodes : List Node) :
    (nodes.mergeSort fun a b => a.start ≤ b.start).Perm nodes ∧
      (nodes.mergeSort fun a b => a.start ≤ b.start).Pairwise (fun a b => a.start ≤ b.start) ∧
      ∀ offset, (nodes.mergeSort fun a b => a.start ≤ b.start).filter (·.start = offset) =
        nodes.filter (·.start = offset) := by
  have htrans : ∀ a b c : Node, decide (a.start ≤ b.start) = true →
      decide (b.start ≤ c.start) = true → decide (a.start ≤ c.start) = true := by
    intro a b c hab hbc
    simp only [decide_eq_true_eq] at *
    omega
  have htotal : ∀ a b : Node,
      (decide (a.start ≤ b.start) || decide (b.start ≤ a.start)) = true := by
    intro a b
    simp only [Bool.or_eq_true, decide_eq_true_eq]
    omega
  refine ⟨List.mergeSort_perm nodes _, ?_, fun offset => ?_⟩
  · exact (List.pairwise_mergeSort htrans htotal nodes).imp fun h => of_decide_eq_true h
  · -- nodes that start at the offset are those on a level with such a node
    have hlevel : level (fun a b : Node => decide (a.start ≤ b.start))
        ⟨.comment, true, none, offset, offset, []⟩ = fun node => decide (node.start = offset) := by
      funext node
      rw [level, ← Bool.decide_and, decide_eq_decide]
      dsimp only
      omega
    have hfilter := filter_level_mergeSort htrans htotal nodes
      ⟨.comment, true, none, offset, offset, []⟩
    rwa [hlevel] at hfilter

/-- **The comments at nodes have one maximal grouping, and that is their grouping.**  Let the nodes be
sorted by their starts, those with one start in the order in which they come.  No group is empty, and
groups of the sorted comments are a maximal grouping of them, so that they hold these comments in this
order and two neighbours are in one group if and only if they stand together, exactly if they are the
groups of the nodes. -/
theorem ofNodes_eq_iff_isGrouping (source : List UInt8) (nodes : List Node) :
    let sorted := nodes.mergeSort fun a b => a.start ≤ b.start
    (sorted.Perm nodes ∧ sorted.Pairwise (fun a b => a.start ≤ b.start) ∧
      ∀ offset, sorted.filter (·.start = offset) = nodes.filter (·.start = offset)) ∧
    (∀ group ∈ ofNodes source nodes, group.comments ≠ []) ∧
    ∀ groups, IsGrouping source (sorted.map (Comment.ofNode source)) groups ↔
      groups = ofNodes source nodes := by
  intro sorted
  refine ⟨mergeSort_start nodes, fun group _ => List.cons_ne_nil _ _, fun groups => ?_⟩
  exact isGrouping_iff fun comment hcomment => placed_of_mem_map hcomment

end CommentGroup

end ImportGuard
