import ImportGuard.Proofs.Comment.Partition
import ImportGuard.Proofs.Position
import ImportGuard.Proofs.Syntax.Moving

/-!
# Moving a text down

Write `k` line feeds in front of a text, and move the tree over it along.  Everything that is read
off the tree then stands `k` lines further down, at the same column (`ofOffset_lowered`), and is
otherwise what it was.  `lowered` says so for each kind of thing, and this file shows that
**reading a file commutes with it**: for the groups of comments (`ofTree_lowered`), the package's
documentation, the imports, and so for the file as a whole (`SourceFile.ofTree_lowered`); and for
the comment map of a file (`CommentMap.ofFile_lowered`).

Grouping looks behind a comment for code on its line.  It is the line feeds that make this work: the
look behind the first line of the text ends at one of them, as it ended at the start of the text.
-/

namespace ImportGuard

def feeds (k : Nat) : List UInt8 := List.replicate k lineFeed

@[simp] theorem length_feeds (k : Nat) : (feeds k).length = k := List.length_replicate

theorem Node.text_moved_feeds (k : Nat) (source : List UInt8) (node : Node) :
    (node.moved k).text (feeds k ++ source) = node.text source := by
  have hmoved := text_moved (feeds k) source node
  rwa [length_feeds] at hmoved

/-! ### Places -/

namespace Place

/-- The place `k` lines further down, behind `k` more bytes. -/
def lowered (k : Nat) (place : Place) : Place :=
  ⟨place.offset + k, place.line + k, place.column⟩

theorem walk_feeds (line k count : Nat) (bytes : List UInt8) :
    walk line 1 (count + k) (feeds k ++ bytes) = walk (line + k) 1 count bytes := by
  induction k generalizing line with
  | zero => rfl
  | succ k ih =>
    have hstep : walk line 1 (count + (k + 1)) (lineFeed :: (feeds k ++ bytes)) =
        walk (line + 1) 1 (count + k) (feeds k ++ bytes) := by
      rw [← Nat.add_assoc, walk, if_pos rfl]
    have hsum : line + 1 + k = line + (k + 1) := by omega
    rw [feeds, List.replicate_succ, List.cons_append, ← feeds, hstep, ih, hsum]

/-- **Line feeds in front of a text lower every place.** -/
theorem ofOffset_lowered (k : Nat) (bytes : List UInt8) (offset : Nat) :
    ofOffset (feeds k ++ bytes) (offset + k) = (ofOffset bytes offset).lowered k := by
  have hline : (walk (1 + k) 1 offset bytes).1 = (walk 1 1 offset bytes).1 + k := by
    rw [walk_fst, walk_fst]
    omega
  have hcolumn : (walk (1 + k) 1 offset bytes).2 = (walk 1 1 offset bytes).2 := by
    rw [walk_snd, walk_snd]
  simp only [ofOffset, lowered, walk_feeds, hline, hcolumn]

end Place

/-! ### Comments and their groups -/

def Comment.lowered (k : Nat) (comment : Comment) : Comment :=
  { comment with start := comment.start.lowered k, stop := comment.stop.lowered k }

def CommentGroup.lowered (k : Nat) (group : CommentGroup) : CommentGroup :=
  { group with first := group.first.lowered k, rest := group.rest.map (Comment.lowered k) }

namespace Comment

theorem ofNode_lowered (k : Nat) (source : List UInt8) (node : Node) :
    ofNode (feeds k ++ source) (node.moved k) = (ofNode source node).lowered k := by
  unfold ofNode lowered
  rw [Node.text_moved_feeds, Node.start_moved, Node.stop_moved, Place.ofOffset_lowered,
    Place.ofOffset_lowered]

/-- Line feeds in front of a text are no code on its first line. -/
theorem trailsCode_lowered (k : Nat) (source : List UInt8) (offset : Nat) :
    trailsCode (feeds k ++ source) (offset + k) = trailsCode source offset := by
  have htake : (feeds k ++ source).take (offset + k) = feeds k ++ source.take offset := by
    rw [Nat.add_comm]
    have happend := @List.take_length_add_append _ (feeds k) source offset
    rwa [length_feeds] at happend
  have hreverse : (feeds k ++ source.take offset).reverse =
      (source.take offset).reverse ++ feeds k := by
    rw [List.reverse_append, feeds, List.reverse_replicate]
  unfold trailsCode
  rw [htake, hreverse, List.dropWhile_append]
  cases hrest : (source.take offset).reverse.dropWhile isIndentByte with
  | cons b rest => simp
  | nil =>
    -- all before the offset is white space, so the look behind goes on to the line feeds
    cases k with
    | zero => rfl
    | succ k => rfl

theorem reach_lowered (k : Nat) (source : List UInt8) (first : Comment) :
    reach (feeds k ++ source) (first.lowered k) = reach source first := by
  unfold reach
  rw [← trailsCode_lowered k source]
  rfl

theorem joins_lowered (k : Nat) (source : List UInt8) (reach : Nat) (previous next : Comment) :
    joins (feeds k ++ source) reach (previous.lowered k) (next.lowered k) =
      joins source reach previous next := by
  have hdrop : (feeds k ++ source).drop (previous.stop.offset + k) =
      source.drop previous.stop.offset := by
    rw [Nat.add_comm]
    have happend := @List.drop_length_add_append _ (feeds k) source previous.stop.offset
    rwa [length_feeds] at happend
  have hline : (next.start.line + k ≤ previous.stop.line + k + reach) ↔
      next.start.line ≤ previous.stop.line + reach := by omega
  unfold joins lowered Place.lowered
  dsimp only
  rw [hdrop, Nat.add_sub_add_right, decide_eq_decide.2 hline]

end Comment

namespace CommentGroup

@[simp] theorem comments_lowered (k : Nat) (group : CommentGroup) :
    (group.lowered k).comments = group.comments.map (Comment.lowered k) := rfl

@[simp] theorem start_lowered (k : Nat) (group : CommentGroup) :
    (group.lowered k).start = group.start.lowered k := rfl

@[simp] theorem stop_lowered (k : Nat) (group : CommentGroup) :
    (group.lowered k).stop = group.stop.lowered k := by
  have hlast : (group.lowered k).last = group.last.lowered k := List.getLastD_map
  unfold stop
  rw [hlast]
  rfl

/-- A map of comments that leaves it as it is whether two join commutes with a run. -/
theorem run_map {source source' : List UInt8} {reach : Nat} {f : Comment → Comment}
    (h : ∀ a b, Comment.joins source' reach (f a) (f b) = Comment.joins source reach a b)
    (previous : Comment) (comments : List Comment) :
    run source' reach (f previous) (comments.map f) =
      ((run source reach previous comments).1.map f,
        (run source reach previous comments).2.map f) := by
  induction comments generalizing previous with
  | nil => rfl
  | cons next rest ih =>
    rw [List.map_cons, run, run, h, ih]
    split
    · rfl
    · rfl

theorem gather_lowered (k : Nat) (source : List UInt8) (number : Nat) (comments : List Comment) :
    gather (feeds k ++ source) number (comments.map (Comment.lowered k)) =
      (gather source number comments).map (lowered k) := by
  induction number, comments using gather.induct source with
  | case1 number => simp [gather]
  | case2 number first more parts ih =>
    rw [List.map_cons, gather, gather, Comment.reach_lowered,
      run_map (Comment.joins_lowered k source (Comment.reach source first)), List.map_cons]
    exact congrArg _ ih

/-- The comments of a moved tree are those of the tree, if `f` is what moving does to a comment. -/
theorem ofTree_moved {k : Nat} {source source' : List UInt8} {f : Comment → Comment}
    (h : ∀ node : Node, Comment.ofNode source' (node.moved k) = f (Comment.ofNode source node))
    (root : Node) :
    ofTree source' (root.moved k) =
      gather source' 0 (((ofTree source root).flatMap (·.comments)).map f) := by
  have hnodes : (((root.moved k).sites.map (·.node)).filter (·.kind = .comment)) =
      ((root.sites.map (·.node)).filter (·.kind = .comment)).map (Node.moved k) := by
    rw [Node.sites_moved, List.map_map, List.filter_map, List.filter_map, List.map_map]
    simp only [Function.comp_def, Site.moved, Node.kind_moved]
  have hsorted : ∀ nodes : List Node,
      ((nodes.map (Node.moved k)).mergeSort fun a b => a.start ≤ b.start) =
        (nodes.mergeSort fun a b => a.start ≤ b.start).map (Node.moved k) := by
    intro nodes
    refine (List.map_mergeSort ?_).symm
    intro a _ b _
    rw [Node.start_moved, Node.start_moved, decide_eq_decide]
    omega
  have hcomments : ∀ nodes : List Node,
      (nodes.map (Node.moved k)).map (Comment.ofNode source') =
        (nodes.map (Comment.ofNode source)).map f := by
    intro nodes
    rw [List.map_map, List.map_map]
    apply List.map_congr_left
    intro node _
    exact h node
  unfold ofTree ofNodes
  dsimp only
  rw [hnodes, hsorted, hcomments, flatMap_gather]

theorem gather_comments_ofTree (source : List UInt8) (root : Node) :
    gather source 0 ((ofTree source root).flatMap (·.comments)) = ofTree source root := by
  unfold ofTree ofNodes
  dsimp only
  rw [flatMap_gather]

/-- **The groups of a tree that is moved down are its groups, lowered.** -/
theorem ofTree_lowered (k : Nat) (source : List UInt8) (root : Node) :
    ofTree (feeds k ++ source) (root.moved k) = (ofTree source root).map (lowered k) := by
  rw [ofTree_moved (Comment.ofNode_lowered k source), gather_lowered, gather_comments_ofTree]

end CommentGroup

/-! ### Files -/

def Import.lowered (k : Nat) (spec : Import) : Import :=
  { spec with start := spec.start.lowered k, pathStart := spec.pathStart.lowered k }

namespace SourceFile

/-- The file with `k` line feeds in front, and all that was read off it lowered. -/
def lowered (k : Nat) (file : SourceFile) : SourceFile :=
  { file with
    source := feeds k ++ file.source
    root := file.root.moved k
    imports := file.imports.map (Import.lowered k)
    comments := file.comments.map (CommentGroup.lowered k)
    doc := file.doc.map (CommentGroup.lowered k) }

theorem importAt?_lowered (k : Nat) (source : List UInt8) (site : Site) :
    importAt? (feeds k ++ source) (site.moved k) =
      (importAt? source site).map (Import.lowered k) := by
  unfold importAt? Site.moved
  dsimp only
  rw [Node.child?_moved, Node.child?_moved, Option.map_map, Option.map_map, Option.map_map]
  apply Option.map_congr
  intro path _
  simp only [Function.comp_apply, Function.comp_def, Import.lowered, Node.text_moved_feeds,
    Node.start_moved, Place.ofOffset_lowered]

theorem importsOf_lowered (k : Nat) (source : List UInt8) (root : Node) :
    importsOf (feeds k ++ source) (root.moved k) =
      (importsOf source root).map (Import.lowered k) := by
  have hkind : ∀ (kind : Kind) (sites : List Site),
      (sites.map (Site.moved k)).filter (·.node.kind = kind) =
        (sites.filter (·.node.kind = kind)).map (Site.moved k) := by
    intro kind sites
    rw [List.filter_map]
    simp only [Function.comp_def, Site.moved, Node.kind_moved]
  unfold importsOf
  dsimp only
  rw [Node.childSites_moved, hkind, List.flatMap_map, List.map_filterMap]
  have hspecs : ∀ sites : List Site,
      (sites.flatMap fun site => ((site.moved k).node.sitesAt (site.moved k).address).filter
        (·.node.kind = .importSpec)) =
      (sites.flatMap fun site => (site.node.sitesAt site.address).filter
        (·.node.kind = .importSpec)).map (Site.moved k) := by
    intro sites
    rw [List.map_flatMap]
    apply List.flatMap_congr
    intro site _
    rw [← hkind, ← Node.sitesAt_moved]
    rfl
  rw [hspecs, List.filterMap_map]
  apply List.filterMap_congr
  intro site _
  exact importAt?_lowered k source site

theorem packageClause?_moved (k : Nat) (root : Node) :
    packageClause? (root.moved k) = (packageClause? root).map (Node.moved k) := by
  unfold packageClause?
  rw [Node.children_moved, List.find?_map]
  simp only [Function.comp_def, Node.kind_moved]

theorem packageName?_lowered (k : Nat) (source : List UInt8) (clause : Node) :
    packageName? (feeds k ++ source) (clause.moved k) = packageName? source clause := by
  unfold packageName?
  rw [Node.children_moved, List.find?_map, Option.map_map]
  simp only [Function.comp_def, Node.kind_moved, Node.text_moved_feeds]

/-- A map of groups that leaves it as it is which groups end before the clause, and which on the line
above it, commutes with looking for the documentation. -/
theorem docOf_map {source source' : List UInt8} {clause clause' : Node}
    {f : CommentGroup → CommentGroup}
    (hoffset : ∀ group, (f group).stop.offset ≤ clause'.start ↔ group.stop.offset ≤ clause.start)
    (hline : ∀ group, (f group).stop.line + 1 = (Place.ofOffset source' clause'.start).line ↔
      group.stop.line + 1 = (Place.ofOffset source clause.start).line)
    (groups : List CommentGroup) :
    docOf source' (groups.map f) clause' = (docOf source groups clause).map f := by
  unfold docOf
  dsimp only
  rw [List.takeWhile_map, List.filter_map, List.getLast?_map]
  simp only [Function.comp_def, hoffset, hline]

/-- **The group that documents the package is the same group.** -/
theorem docOf_lowered (k : Nat) (source : List UInt8) (groups : List CommentGroup) (clause : Node) :
    docOf (feeds k ++ source) (groups.map (CommentGroup.lowered k)) (clause.moved k) =
      (docOf source groups clause).map (CommentGroup.lowered k) := by
  refine docOf_map (fun group => ?_) (fun group => ?_) groups
  · rw [CommentGroup.stop_lowered, Node.start_moved, Place.lowered]
    dsimp only
    omega
  · rw [CommentGroup.stop_lowered, Node.start_moved, Place.ofOffset_lowered, Place.lowered,
      Place.lowered]
    dsimp only
    omega

/-- **Reading a tree that is moved down gives the file, lowered.** -/
theorem ofTree_lowered (filename : String) (source : List UInt8) (root : Node) (broken : Bool)
    (k : Nat) :
    ofTree filename (feeds k ++ source) (root.moved k) broken =
      (ofTree filename source root broken).lowered k := by
  unfold ofTree lowered
  dsimp only
  rw [packageClause?_moved, importsOf_lowered, CommentGroup.ofTree_lowered]
  cases packageClause? root with
  | none => rfl
  | some clause =>
    rw [Option.map_some, Option.bind_some, Option.bind_some, Option.bind_some, Option.bind_some,
      packageName?_lowered, docOf_lowered]

end SourceFile

/-! ### Comment maps -/

def MapEntry.lowered (k : Nat) (entry : MapEntry) : MapEntry :=
  ⟨entry.site.moved k, entry.groups.map (CommentGroup.lowered k)⟩

namespace CommentMap

def lowered (k : Nat) (map : CommentMap) : CommentMap where
  entries := map.entries.map (MapEntry.lowered k)
  order := map.order.map fun sites => sites.map (Site.moved k)

theorem lastBefore_lowered (k offset : Nat) (anchors : List Site) :
    lastBefore (offset + k) (anchors.map (Site.moved k)) =
      (lastBefore offset anchors).map (Site.moved k) := by
  have hstop : ∀ site : Site, (site.moved k).node.stop = site.node.stop + k :=
    fun site => Node.stop_moved k site.node
  induction anchors using List.reverseRecOn with
  | nil => rfl
  | append_singleton anchors site ih =>
    rw [List.map_append, List.map_singleton, lastBefore_concat, lastBefore_concat, ih, hstop]
    by_cases hle : site.node.stop ≤ offset
    · rw [if_pos hle, if_pos (by omega)]
      cases lastBefore offset anchors with
      | none => rfl
      | some found =>
        show (if (found.moved k).node.stop < site.node.stop + k then _ else _) =
          Option.map (Site.moved k) (if found.node.stop < site.node.stop then _ else _)
        rw [hstop]
        by_cases hlt : found.node.stop < site.node.stop
        · rw [if_pos hlt, if_pos (by omega)]
          rfl
        · rw [if_neg hlt, if_neg (by omega)]
          rfl
    · rw [if_neg hle, if_neg (by omega)]

theorem firstBehind_lowered (k : Nat) (group : CommentGroup) (anchors : List Site) :
    firstBehind (group.lowered k) (anchors.map (Site.moved k)) =
      (firstBehind group anchors).map (Site.moved k) := by
  unfold firstBehind
  rw [List.find?_map]
  congr 2
  funext site
  simp only [Function.comp_apply, Site.moved, CommentGroup.start_lowered, CommentGroup.stop_lowered,
    Place.lowered, Node.start_moved, Node.stop_moved, Nat.add_lt_add_iff_right,
    Nat.add_le_add_iff_right]

theorem staysAbove_lowered (k : Nat) (group : CommentGroup) (endLine : Nat)
    (nextLine : Option Nat) :
    staysAbove (group.lowered k) (endLine + k) (nextLine.map (· + k)) =
      staysAbove group endLine nextLine := by
  have hsame : decide (endLine + k = group.start.line + k) =
      decide (endLine = group.start.line) := by
    rw [decide_eq_decide]
    omega
  unfold staysAbove
  rw [CommentGroup.start_lowered, CommentGroup.stop_lowered, Place.lowered, Place.lowered]
  dsimp only
  rw [hsame]
  cases nextLine with
  | none => rfl
  | some line =>
    have hbelow : decide (endLine + k + 1 = group.start.line + k) =
        decide (endLine + 1 = group.start.line) := by
      rw [decide_eq_decide]
      omega
    have hgap : decide (group.stop.line + k + 1 < line + k) =
        decide (group.stop.line + 1 < line) := by
      rw [decide_eq_decide]
      omega
    show (_ || (decide (endLine + k + 1 = group.start.line + k) &&
      decide (group.stop.line + k + 1 < line + k))) = _
    rw [hbelow, hgap]

theorem anchorOf_lowered (k : Nat) (source : List UInt8) (anchors : List Site)
    (group : CommentGroup) :
    anchorOf (feeds k ++ source) (anchors.map (Site.moved k)) (group.lowered k) =
      (anchorOf source anchors group).map (Site.moved k) := by
  have hlast : lastBefore (group.start.lowered k).offset (anchors.map (Site.moved k)) =
      (lastBefore group.start.offset anchors).map (Site.moved k) :=
    lastBefore_lowered k group.start.offset anchors
  unfold anchorOf
  rw [CommentGroup.start_lowered, hlast, firstBehind_lowered]
  cases lastBefore group.start.offset anchors with
  | none => rfl
  | some previous =>
    have hend : (Place.ofOffset (feeds k ++ source) (previous.moved k).node.stop).line =
        (Place.ofOffset source previous.node.stop).line + k := by
      show (Place.ofOffset _ (previous.node.moved k).stop).line = _
      rw [Node.stop_moved, Place.ofOffset_lowered]
      rfl
    have hnext : ((firstBehind group anchors).map (Site.moved k)).map (fun site =>
        (Place.ofOffset (feeds k ++ source) site.node.start).line) =
        ((firstBehind group anchors).map fun site =>
          (Place.ofOffset source site.node.start).line).map (· + k) := by
      rw [Option.map_map, Option.map_map]
      apply Option.map_congr
      intro site _
      show (Place.ofOffset _ (site.node.moved k).start).line = _
      rw [Node.start_moved, Place.ofOffset_lowered]
      rfl
    dsimp only [Option.map_some]
    rw [hend, hnext, staysAbove_lowered]
    split
    · rfl
    · rfl

theorem anchorsOf_moved (k : Nat) (root : Node) :
    anchorsOf (root.moved k) = (anchorsOf root).map (Site.moved k) := by
  unfold anchorsOf
  rw [Node.sites_moved, ← List.map_tail, List.filter_map]
  simp only [Function.comp_def, Site.moved, Node.kind_moved]

/-- **The home of a group stays its home.** -/
theorem homeOf_lowered (k : Nat) (file : SourceFile) (anchors : List Site) (group : CommentGroup) :
    homeOf (file.lowered k) (anchors.map (Site.moved k)) (group.lowered k) =
      (homeOf file anchors group).moved k := by
  have hanchor : (anchorOf (feeds k ++ file.source) (anchors.map (Site.moved k))
      (group.lowered k)).getD ⟨[], file.root.moved k⟩ =
      ((anchorOf file.source anchors group).getD ⟨[], file.root⟩).moved k := by
    rw [anchorOf_lowered]
    cases anchorOf file.source anchors group with
    | none => rfl
    | some site => rfl
  have hclause : SourceFile.packageClause? (file.lowered k).root =
      (SourceFile.packageClause? file.root).map (Node.moved k) :=
    SourceFile.packageClause?_moved k file.root
  unfold homeOf
  rw [hclause]
  cases SourceFile.packageClause? file.root with
  | none => exact hanchor
  | some clause =>
    have hoffset : (group.lowered k).stop.offset ≤ (clause.moved k).start ↔
        group.stop.offset ≤ clause.start := by
      rw [CommentGroup.stop_lowered, Node.start_moved, Place.lowered]
      dsimp only
      omega
    show (if (group.lowered k).stop.offset ≤ (clause.moved k).start then _ else _) = _
    by_cases hle : group.stop.offset ≤ clause.start
    · rw [if_pos (hoffset.2 hle)]
      dsimp only
      rw [if_pos hle]
      rfl
    · rw [if_neg (mt hoffset.1 hle)]
      dsimp only
      rw [if_neg hle]
      exact hanchor

theorem contains_lowered (k : Nat) (map : CommentMap) (address : Address) :
    (map.lowered k).contains address = map.contains address := by
  unfold contains lowered
  rw [List.any_map]
  rfl

theorem add_lowered (k : Nat) (map : CommentMap) (site : Site) (group : CommentGroup) :
    (map.lowered k).add (site.moved k) (group.lowered k) = (map.add site group).lowered k := by
  unfold add
  rw [show (site.moved k).address = site.address from rfl, contains_lowered]
  split
  · unfold lowered
    simp only [List.map_map, mk.injEq, and_true]
    apply List.map_congr_left
    intro entry _
    by_cases he : entry.site.address = site.address
    · simp [MapEntry.lowered, Site.moved, he]
    · simp [MapEntry.lowered, Site.moved, he]
  · simp [lowered, MapEntry.lowered]

/-- **The comment map of a file that is moved down is its comment map, lowered.** -/
theorem ofFile_lowered (k : Nat) (file : SourceFile) :
    ofFile (file.lowered k) = (ofFile file).lowered k := by
  suffices hall : ∀ (groups : List CommentGroup) (map : CommentMap),
      (groups.map (CommentGroup.lowered k)).foldl (fun map group =>
        map.add (homeOf (file.lowered k) ((anchorsOf file.root).map (Site.moved k)) group) group)
        (map.lowered k) =
      (groups.foldl (fun map group =>
        map.add (homeOf file (anchorsOf file.root) group) group) map).lowered k by
    unfold ofFile
    dsimp only
    rw [show (file.lowered k).root = file.root.moved k from rfl, anchorsOf_moved]
    exact hall file.comments empty
  intro groups
  induction groups with
  | nil => exact fun map => rfl
  | cons group rest ih =>
    intro map
    rw [List.map_cons, List.foldl_cons, List.foldl_cons, homeOf_lowered, add_lowered]
    exact ih _

/-! ### Looking groups up -/

theorem groupsAt_lowered (k : Nat) (map : CommentMap) (address : Address) :
    (map.lowered k).groupsAt address =
      (map.groupsAt address).map (CommentGroup.lowered k) := by
  have hentry : entry? (map.lowered k) address =
      Option.map (MapEntry.lowered k) (map.entry? address) := by
    unfold entry? lowered
    rw [List.find?_map]
    rfl
  unfold groupsAt
  rw [hentry]
  cases map.entry? address with
  | none => rfl
  | some entry => rfl

theorem precedes_moved (k : Nat) (a b : Site) :
    precedes (a.moved k) (b.moved k) = precedes a b := by
  simp only [precedes, Site.moved, Node.start_moved, Node.stop_moved, Nat.add_lt_add_iff_right,
    Nat.add_le_add_iff_right, Nat.add_right_cancel_iff]

theorem arrange_lowered (k : Nat) (map : CommentMap) :
    (map.lowered k).arrange = map.arrange.lowered k := by
  have hsites : (map.lowered k).sortedSites = map.sortedSites.map (Site.moved k) := by
    have hsort : ∀ sites : List Site, (sites.map (Site.moved k)).mergeSort precedes =
        (sites.mergeSort precedes).map (Site.moved k) := by
      intro sites
      refine (List.map_mergeSort ?_).symm
      intro a _ b _
      exact (precedes_moved k a b).symm
    unfold sortedSites
    rw [← hsort, lowered, List.map_map, List.map_map]
    rfl
  cases ho : map.order with
  | some sites => simp [arrange, lowered, ho]
  | none =>
    unfold arrange
    rw [show (map.lowered k).order = none by simp [lowered, ho], ho]
    dsimp only
    rw [hsites]
    rfl

theorem listed_lowered (k : Nat) (map : CommentMap) (sites : List Site) :
    (map.lowered k).listed (sites.map (Site.moved k)) =
      (map.listed sites).map (MapEntry.lowered k) := by
  unfold listed
  rw [List.map_map, List.map_map]
  apply List.map_congr_left
  intro site _
  show (⟨site.moved k, (map.lowered k).groupsAt site.address⟩ : MapEntry) = _
  rw [groupsAt_lowered]
  rfl

theorem order_lowered (k : Nat) (map : CommentMap) :
    (map.lowered k).order.getD [] = (map.order.getD []).map (Site.moved k) := by
  cases ho : map.order with
  | none => simp [lowered, ho]
  | some sites => simp [lowered, ho]

/-- **The entries in source order correspond.** -/
theorem items_lowered (k : Nat) (map : CommentMap) :
    (map.lowered k).items.1 = map.items.1.map (MapEntry.lowered k) := by
  unfold items
  dsimp only
  rw [arrange_lowered, order_lowered, listed_lowered]

theorem enclosing_lowered (k : Nat) (map : CommentMap) (offset : Nat) :
    ((map.lowered k).enclosing (offset + k)).1 =
      (map.enclosing offset).1.map (MapEntry.lowered k) := by
  have hcovers : ∀ site : Site, covers (offset + k) (site.moved k) = covers offset site := by
    intro site
    simp only [covers, Site.moved, Node.start_moved, Node.stop_moved, Nat.add_le_add_iff_right]
  unfold enclosing
  dsimp only
  rw [arrange_lowered, order_lowered, List.filter_map, listed_lowered]
  simp only [Function.comp_def, hcovers]

end CommentMap

end ImportGuard
