import ImportGuard.Proofs.Comment.Rewording
import ImportGuard.Proofs.Syntax.Sites
import Mathlib.Data.List.Induction

/-!
# A comment map is a partition

A map is built by adding the groups of a file one after the other, each to its home.  It then `Files`
them: the groups of an entry are the groups whose home it is, in their order.  So in the map of a file
**a group is attached to its home and to nothing else** (`attaches_iff`), and the groups of all entries
together are the groups of the file (`perm_comments`).

The groups of a tree have increasing numbers and come in source order, so no two of them are equal
(`nodup_ofTree`), and the groups of an entry are in source order too.
-/

namespace ImportGuard

namespace CommentMap

/-- The group stands in the entry of the site. -/
def Attaches (map : CommentMap) (group : CommentGroup) (site : Site) : Prop :=
  ∃ entry ∈ map.entries, entry.site = site ∧ group ∈ entry.groups

variable {group : CommentGroup}

/-! ### The home of a group -/

theorem anchorsOf_sublist (root : Node) : (anchorsOf root).Sublist root.sites :=
  List.filter_sublist.trans (List.tail_sublist _)

theorem firstBehind_mem {anchors : List Site} {site : Site}
    (h : firstBehind group anchors = some site) : site ∈ anchors :=
  List.mem_of_find?_eq_some h

theorem lastBefore_concat (offset : Nat) (anchors : List Site) (site : Site) :
    lastBefore offset (anchors ++ [site]) =
      if site.node.stop ≤ offset then
        match lastBefore offset anchors with
        | none => some site
        | some found => if found.node.stop < site.node.stop then some site else some found
      else lastBefore offset anchors := by
  unfold lastBefore
  rw [List.foldl_append]
  rfl

theorem lastBefore_mem {offset : Nat} {anchors : List Site} {site : Site}
    (h : lastBefore offset anchors = some site) : site ∈ anchors := by
  induction anchors using List.reverseRecOn with
  | nil => exact absurd h (by simp [lastBefore])
  | append_singleton anchors last ih =>
    have hstep : lastBefore offset (anchors ++ [last]) = some last ∨
        lastBefore offset (anchors ++ [last]) = lastBefore offset anchors := by
      rw [lastBefore_concat]
      grind
    rw [List.mem_append, List.mem_singleton]
    rcases hstep with hstep | hstep
    · exact Or.inr (Option.some.inj (h.symm.trans hstep))
    · exact Or.inl (ih (hstep.symm.trans h))

theorem anchorOf_mem {source : List UInt8} {anchors : List Site} {site : Site}
    (h : anchorOf source anchors group = some site) : site ∈ anchors := by
  unfold anchorOf at h
  cases hbefore : lastBefore group.start.offset anchors with
  | none =>
    rw [hbefore] at h
    exact firstBehind_mem h
  | some previous =>
    rw [hbefore] at h
    dsimp only at h
    split at h
    · exact Option.some.inj h ▸ lastBefore_mem hbefore
    · exact firstBehind_mem h

/-- The home of a group is the root or an anchor. -/
theorem homeOf_eq_root_or_mem (file : SourceFile) (group : CommentGroup) :
    homeOf file (anchorsOf file.root) group = ⟨[], file.root⟩ ∨
      homeOf file (anchorsOf file.root) group ∈ anchorsOf file.root := by
  have hanchor : (anchorOf file.source (anchorsOf file.root) group).getD ⟨[], file.root⟩ =
        ⟨[], file.root⟩ ∨
      (anchorOf file.source (anchorsOf file.root) group).getD ⟨[], file.root⟩ ∈
        anchorsOf file.root := by
    cases hfound : anchorOf file.source (anchorsOf file.root) group with
    | none => exact Or.inl rfl
    | some site => exact Or.inr (anchorOf_mem hfound)
  unfold homeOf
  split
  · exact hanchor
  · split
    · exact Or.inl rfl
    · exact hanchor

theorem homeOf_mem_sites (file : SourceFile) (group : CommentGroup) :
    homeOf file (anchorsOf file.root) group ∈ file.root.sites := by
  rcases homeOf_eq_root_or_mem file group with hroot | hanchor
  · rw [hroot]
    exact file.root.root_mem_sites
  · exact (anchorsOf_sublist file.root).subset hanchor

/-- The site of an entry is the root or an anchor. -/
theorem site_eq_root_or_mem {file : SourceFile} {entry : MapEntry}
    (h : entry ∈ (ofFile file).entries) :
    entry.site = ⟨[], file.root⟩ ∨ entry.site ∈ anchorsOf file.root := by
  obtain ⟨group, -, hhome⟩ := (files_ofFile file).exists_home entry h
  rw [← hhome]
  exact homeOf_eq_root_or_mem file group

theorem site_mem_sites {file : SourceFile} {entry : MapEntry}
    (h : entry ∈ (ofFile file).entries) : entry.site ∈ file.root.sites := by
  obtain ⟨group, -, hhome⟩ := (files_ofFile file).exists_home entry h
  rw [← hhome]
  exact homeOf_mem_sites file group

/-- **A group of a file is attached to its home and to nothing else.** -/
theorem attaches_iff {file : SourceFile} {site : Site} :
    (ofFile file).Attaches group site ↔
      group ∈ file.comments ∧ homeOf file (anchorsOf file.root) group = site := by
  have hfiles := files_ofFile file
  constructor
  · rintro ⟨entry, hentry, rfl, hgroup⟩
    obtain ⟨hmem, haddress⟩ := hfiles.home_of_mem hentry hgroup
    exact ⟨hmem,
      Node.eq_of_address_eq (homeOf_mem_sites file group) (site_mem_sites hentry) haddress⟩
  · rintro ⟨hgroup, rfl⟩
    obtain ⟨entry, hentry, haddress⟩ := hfiles.exists_entry group hgroup
    refine ⟨entry, hentry,
      Node.eq_of_address_eq (site_mem_sites hentry) (homeOf_mem_sites file group) haddress, ?_⟩
    rw [hfiles.groups_eq entry hentry, List.mem_filter, decide_eq_true_eq]
    exact ⟨hgroup, haddress.symm⟩

/-- The groups of an entry are groups of the file, in their order. -/
theorem groups_sublist {file : SourceFile} {entry : MapEntry}
    (h : entry ∈ (ofFile file).entries) : entry.groups.Sublist file.comments := by
  rw [(files_ofFile file).groups_eq entry h]
  exact List.filter_sublist

/-- **If a file has no group twice, its map holds each group once.** -/
theorem perm_comments {file : SourceFile} (hnodup : file.comments.Nodup) :
    ((ofFile file).entries.flatMap (·.groups)).Perm file.comments := by
  have hfiles := files_ofFile file
  refine (List.perm_ext_iff_of_nodup ?_ hnodup).2 fun group => ?_
  · refine List.nodup_flatMap.2 ⟨fun entry hentry => (groups_sublist hentry).nodup hnodup, ?_⟩
    -- entries of different nodes have no group in common
    have hdistinct := List.pairwise_map.1 (distinct_ofFile file)
    refine hdistinct.imp_of_mem fun {a b} ha hb hne group hina hinb => hne ?_
    exact (hfiles.home_of_mem ha hina).2.symm.trans (hfiles.home_of_mem hb hinb).2
  · rw [List.mem_flatMap]
    exact exists_entry_iff

end CommentMap

/-! ### The groups of a tree are in order -/

def Node.comments (root : Node) : List Node :=
  (root.sites.map (·.node)).filter (·.kind = .comment)

namespace CommentGroup

theorem le_number_of_mem_gather {source : List UInt8} {number : Nat} {comments : List Comment}
    {group : CommentGroup} (h : group ∈ gather source number comments) : number ≤ group.number := by
  induction number, comments using gather.induct source with
  | case1 number => simp [gather] at h
  | case2 number first more parts ih =>
    rw [gather] at h
    rcases List.mem_cons.1 h with rfl | h
    · exact Nat.le_refl number
    · have hlater := ih h
      omega

theorem nodup_gather (source : List UInt8) (number : Nat) (comments : List Comment) :
    (gather source number comments).Nodup := by
  induction number, comments using gather.induct source with
  | case1 number => simp [gather]
  | case2 number first more parts ih =>
    rw [gather, List.nodup_cons]
    refine ⟨fun hmem => ?_, ih⟩
    have hlater := le_number_of_mem_gather hmem
    dsimp only at hlater
    omega

/-- Comments that come in the order of their starts are grouped as they come. -/
theorem ofTree_eq_gather (source : List UInt8) {root : Node}
    (h : root.comments.Pairwise fun a b => decide (a.start ≤ b.start) = true) :
    ofTree source root = gather source 0 (root.comments.map (Comment.ofNode source)) := by
  show ofNodes source root.comments = _
  rw [ofNodes, List.mergeSort_of_pairwise h]

/-- No group of a tree is there twice. -/
theorem nodup_ofTree (source : List UInt8) (root : Node) : (ofTree source root).Nodup :=
  nodup_gather source 0 _

/-- The comments of a tree, gathered in groups, come in the order in which they start. -/
theorem pairwise_comments_ofTree (source : List UInt8) (root : Node) :
    ((ofTree source root).flatMap (·.comments)).Pairwise fun a b =>
      a.start.offset ≤ b.start.offset := by
  rw [ofTree, ofNodes, flatMap_gather, List.pairwise_map]
  have hsorted : (((root.sites.map (·.node)).filter (·.kind = .comment)).mergeSort fun a b =>
      a.start ≤ b.start).Pairwise fun a b => decide (a.start ≤ b.start) = true := by
    apply List.pairwise_mergeSort
    · intro a b c hab hbc
      simp only [decide_eq_true_eq] at *
      omega
    · intro a b
      simp only [Bool.or_eq_true, decide_eq_true_eq]
      omega
  exact hsorted.imp fun hle => of_decide_eq_true hle

theorem first_mem_comments (group : CommentGroup) : group.first ∈ group.comments :=
  List.mem_cons_self

/-- **The groups of a tree come in source order.** -/
theorem pairwise_ofTree (source : List UInt8) (root : Node) :
    (ofTree source root).Pairwise fun a b => a.start.offset ≤ b.start.offset := by
  obtain ⟨-, hacross⟩ := List.pairwise_flatMap.1 (pairwise_comments_ofTree source root)
  exact hacross.imp fun h => h _ (first_mem_comments _) _ (first_mem_comments _)

theorem last_mem_comments (group : CommentGroup) : group.last ∈ group.comments := by
  unfold last comments
  cases hlast : group.rest.getLast? with
  | none =>
    rw [List.getLastD_eq_getLast?, hlast]
    exact List.mem_cons_self
  | some comment =>
    rw [List.getLastD_eq_getLast?, hlast]
    exact List.mem_cons_of_mem _ (List.mem_of_getLast? hlast)

/-- A group of a tree without empty nodes starts before it ends. -/
theorem start_lt_stop {source : List UInt8} {root : Node}
    (hfull : ∀ site ∈ root.sites, site.node.start < site.node.stop) {group : CommentGroup}
    (hgroup : group ∈ ofTree source root) : group.start.offset < group.stop.offset := by
  have hfirst : group.start.offset ≤ group.last.start.offset := by
    obtain ⟨hwithin, -⟩ := List.pairwise_flatMap.1 (pairwise_comments_ofTree source root)
    have hpair := List.pairwise_cons.1 (hwithin group hgroup)
    rcases List.mem_cons.1 group.last_mem_comments with heq | hrest
    · exact Nat.le_of_eq (congrArg (·.start.offset) heq.symm)
    · exact hpair.1 _ hrest
  have hlast : group.last.start.offset < group.stop.offset := by
    have hmem : group.last ∈ (ofTree source root).flatMap (·.comments) :=
      List.mem_flatMap.2 ⟨group, hgroup, group.last_mem_comments⟩
    rw [ofTree, ofNodes, flatMap_gather] at hmem
    obtain ⟨node, hnode, heq⟩ := List.mem_map.1 hmem
    obtain ⟨site, hsite, rfl⟩ := List.mem_map.1 (List.mem_of_mem_filter (List.mem_mergeSort.1 hnode))
    show group.last.start.offset < group.last.stop.offset
    rw [← heq]
    exact hfull site hsite
  omega

end CommentGroup

end ImportGuard
