import ImportGuard.Proofs.Comment.Entries
import ImportGuard.Proofs.StableSort

/-!
# The kept order of a comment map

A map works out the source order of its nodes when it is first asked for, and keeps it until a node is
added that the map does not have.  A group that is added to a known node leaves the order alone, and is
listed all the same.

Whatever is done to a map, **an order that it keeps is the order of its sites** (`Kept`), so reading
through it gives what working it out anew would give.  Hence no answer tells whether an order was kept
(`answers_eq_freshAnswers`): each is that of a map to which the same groups were added and nothing else
was done.  What such answers are is said without maps, in terms of the additions (`IsListing`).
-/

namespace ImportGuard.CommentMap

/-! ### Operations -/

/-- What can be done with a map. -/
inductive Operation where
  | add (addition : Addition)
  | items
  | enclosing (offset : Nat)
  | groupsAt (address : Address)
  | size
  | contains (address : Address)

inductive Answer where
  | done
  | entries (entries : List MapEntry)
  | groups (groups : List CommentGroup)
  | count (number : Nat)
  | verdict (holds : Bool)

/-- The answer to an operation, and the map that it leaves. -/
def perform (map : CommentMap) : Operation → Answer × CommentMap
  | .add addition => (.done, map.add addition.site addition.group)
  | .items => (.entries map.items.1, map.items.2)
  | .enclosing offset => (.entries (map.enclosing offset).1, (map.enclosing offset).2)
  | .groupsAt address => (.groups (map.groupsAt address), map)
  | .size => (.count map.size, map)
  | .contains address => (.verdict (map.contains address), map)

def answers : CommentMap → List Operation → List Answer
  | _, [] => []
  | map, operation :: rest =>
    (map.perform operation).1 :: answers (map.perform operation).2 rest

def reached (past : List Operation) : CommentMap :=
  past.foldl (fun map operation => (map.perform operation).2) empty

theorem reached_map_add (additions : List Addition) :
    reached (additions.map .add) = ofAdditions additions :=
  List.foldl_map

theorem reached_concat (past : List Operation) (last : Operation) :
    reached (past ++ [last]) = ((reached past).perform last).2 := by
  rw [reached, List.foldl_append]
  rfl

def Operation.additions : Operation → List Addition
  | .add addition => [addition]
  | _ => []

/-- The answers of maps that keep no order: each operation is put to a map that is built again from
what has been added so far. -/
def freshAnswers : List Addition → List Operation → List Answer
  | _, [] => []
  | additions, operation :: rest =>
    ((ofAdditions additions).perform operation).1 ::
      freshAnswers (additions ++ operation.additions) rest

/-! ### An order that is kept is right -/

variable {map : CommentMap}

/-- A group for a known node leaves the sites as they are; a new node drops the order. -/
theorem Kept.add (h : map.Kept) (addition : Addition) :
    (map.add addition.site addition.group).Kept := by
  by_cases hknown : map.contains addition.site.address = true
  · intro sites hsites
    rw [sortedSites, sites_add_of_contains hknown]
    rw [CommentMap.add, if_pos hknown] at hsites
    exact h sites hsites
  · apply kept_of_order_eq_none
    rw [CommentMap.add, if_neg hknown]

theorem Kept.perform (h : map.Kept) (operation : Operation) :
    (map.perform operation).2.Kept := by
  cases operation with
  | add addition => exact h.add addition
  | items => exact h.arrange
  | enclosing offset => exact h.arrange
  | groupsAt address => exact h
  | size => exact h
  | contains address => exact h

/-- Maps with the same entries answer alike. -/
theorem answer_eq_of_entries_eq {other : CommentMap} (h : map.Kept) (hother : other.Kept)
    (hentries : map.entries = other.entries) (operation : Operation) :
    (map.perform operation).1 = (other.perform operation).1 := by
  have hitems : map.items.1 = other.items.1 := by
    rw [items_eq_listed h, items_eq_listed hother]
    simp only [listed, groupsAt, entry?, sortedSites, hentries]
  cases operation with
  | add addition => rfl
  | items => exact congrArg Answer.entries hitems
  | enclosing offset =>
    show Answer.entries (map.enclosing offset).1 = .entries (other.enclosing offset).1
    rw [enclosing_eq_filter, enclosing_eq_filter, hitems]
  | groupsAt address =>
    show Answer.groups (map.groupsAt address) = .groups (other.groupsAt address)
    rw [groupsAt, groupsAt, entry?, entry?, hentries]
  | size => exact congrArg (fun entries => Answer.count entries.length) hentries
  | contains address =>
    show Answer.verdict (map.contains address) = .verdict (other.contains address)
    rw [contains, contains, hentries]

theorem entries_add_congr {other : CommentMap} (h : map.entries = other.entries)
    (addition : Addition) :
    (map.add addition.site addition.group).entries =
      (other.add addition.site addition.group).entries := by
  have hcontains : map.contains addition.site.address = other.contains addition.site.address := by
    rw [contains, contains, h]
  by_cases hknown : map.contains addition.site.address = true
  · rw [entries_add_of_contains _ hknown, entries_add_of_contains _ (hcontains ▸ hknown), h]
  · rw [entries_add_of_not_contains _ hknown,
      entries_add_of_not_contains _ (hcontains ▸ hknown), h]

/-! ### Runs -/

/-- The map has the entries of what was added, and no wrong order. -/
structure Represents (additions : List Addition) (map : CommentMap) : Prop where
  kept : map.Kept
  entries_eq : map.entries = (ofAdditions additions).entries

variable {additions : List Addition}

theorem represents_empty : Represents [] empty :=
  ⟨kept_of_order_eq_none rfl, rfl⟩

theorem Represents.perform (h : Represents additions map) (operation : Operation) :
    Represents (additions ++ operation.additions) (map.perform operation).2 := by
  refine ⟨h.kept.perform operation, ?_⟩
  -- reading adds nothing
  have hread : map.entries = (ofAdditions (additions ++ [])).entries := by
    rw [List.append_nil, h.entries_eq]
  cases operation with
  | add addition =>
    rw [Operation.additions, ofAdditions_concat]
    exact entries_add_congr h.entries_eq addition
  | items => exact (entries_arrange map).trans hread
  | enclosing offset => exact (entries_arrange map).trans hread
  | groupsAt address => exact hread
  | size => exact hread
  | contains address => exact hread

/-- **Whatever was done to a map, it represents what was added.** -/
theorem represents_reached (past : List Operation) :
    Represents (past.flatMap Operation.additions) (reached past) := by
  induction past using List.reverseRecOn with
  | nil => exact represents_empty
  | append_singleton earlier last ih =>
    rw [reached_concat, List.flatMap_append, List.flatMap_singleton]
    exact ih.perform last

theorem Represents.answers_eq (h : Represents additions map) (operations : List Operation) :
    map.answers operations = freshAnswers additions operations := by
  induction operations generalizing additions map with
  | nil => rfl
  | cons operation rest ih =>
    have hfresh : (ofAdditions additions).Kept :=
      kept_of_order_eq_none (order_ofAdditions additions)
    rw [answers, freshAnswers, ih (h.perform operation),
      answer_eq_of_entries_eq h.kept hfresh h.entries_eq operation]

/-! ### What is listed -/

def firstAdded (additions : List Addition) (site : Site) : Nat :=
  additions.findIdx (·.site.address = site.address)

/-- Source order of sites, outer nodes first, and those of one range as they were first added. -/
def Before (additions : List Addition) (a b : Site) : Prop :=
  a.node.start < b.node.start ∨
    a.node.start = b.node.start ∧
      (b.node.stop < a.node.stop ∨
        b.node.stop = a.node.stop ∧ firstAdded additions a < firstAdded additions b)

/-- The entries list what was added: every node once, with its groups in the order in which they were
added, and the nodes in source order. -/
structure IsListing (additions : List Addition) (entries : List MapEntry) : Prop
    extends Gathers additions entries where
  once : (entries.map (·.site.address)).Nodup
  ordered : entries.Pairwise fun a b => Before additions a.site b.site

theorem firstAdded_lt_iff {site : Site} :
    firstAdded additions site < additions.length ↔
      ∃ addition ∈ additions, addition.site.address = site.address := by
  rw [firstAdded, List.findIdx_lt_length]
  simp only [decide_eq_true_eq]

/-- A later addition does not change which was the first. -/
theorem firstAdded_concat {site : Site} (h : firstAdded additions site < additions.length)
    (last : Addition) : firstAdded (additions ++ [last]) site = firstAdded additions site := by
  unfold firstAdded at *
  rw [List.findIdx_append, if_pos h]

theorem firstAdded_concat_self {last : Addition}
    (h : ¬ firstAdded additions last.site < additions.length) :
    firstAdded (additions ++ [last]) last.site = additions.length := by
  unfold firstAdded at *
  rw [List.findIdx_append, if_neg h]
  simp

/-- Entries stand in the order in which their nodes were first added. -/
theorem pairwise_firstAdded (additions : List Addition) :
    ((ofAdditions additions).entries.map (·.site)).Pairwise fun a b =>
      firstAdded additions a < firstAdded additions b := by
  induction additions using List.reverseRecOn with
  | nil => exact List.Pairwise.nil
  | append_singleton earlier last ih =>
    have hgathers := gathers_ofAdditions earlier
    have hearlier : ∀ site ∈ (ofAdditions earlier).entries.map (·.site),
        firstAdded earlier site < earlier.length := by
      intro site hsite
      rw [firstAdded_lt_iff, ← hgathers.contains_iff, contains_iff, ← map_address_sites]
      exact List.mem_map_of_mem hsite
    have hold : ((ofAdditions earlier).entries.map (·.site)).Pairwise fun a b =>
        firstAdded (earlier ++ [last]) a < firstAdded (earlier ++ [last]) b := by
      refine ih.imp_of_mem fun {a b} ha hb hlt => ?_
      rwa [firstAdded_concat (hearlier a ha), firstAdded_concat (hearlier b hb)]
    rw [ofAdditions_concat]
    by_cases hknown : (ofAdditions earlier).contains last.site.address = true
    · rwa [sites_add_of_contains hknown]
    · have hnew : ¬ firstAdded earlier last.site < earlier.length := by
        rwa [firstAdded_lt_iff, ← hgathers.contains_iff]
      rw [sites_add_of_not_contains hknown]
      refine List.pairwise_append.2 ⟨hold, List.pairwise_singleton _ _, fun a ha b hb => ?_⟩
      rw [List.mem_singleton.1 hb, firstAdded_concat_self hnew, firstAdded_concat (hearlier a ha)]
      exact hearlier a ha

theorem precedes_iff {a b : Site} :
    precedes a b = true ↔
      a.node.start < b.node.start ∨
        a.node.start = b.node.start ∧ b.node.stop ≤ a.node.stop := by
  simp only [precedes, Bool.or_eq_true, Bool.and_eq_true, decide_eq_true_eq]

theorem precedes_trans (a b c : Site) (hab : precedes a b = true) (hbc : precedes b c = true) :
    precedes a c = true := by
  rw [precedes_iff] at *
  omega

theorem precedes_total (a b : Site) : (precedes a b || precedes b a) = true := by
  rw [Bool.or_eq_true, precedes_iff, precedes_iff]
  omega

theorem pairwise_sortedSites (additions : List Addition) :
    (ofAdditions additions).sortedSites.Pairwise (Before additions) := by
  refine List.pairwise_iff_forall_sublist.2 fun {a b} hpair => ?_
  have hab : precedes a b = true := List.pairwise_iff_forall_sublist.1
    (List.pairwise_mergeSort precedes_trans precedes_total _) hpair
  by_cases hba : precedes b a = true
  · -- sites of one range have stayed in the order of the entries
    have hsites := pair_sublist_of_mergeSort precedes_trans precedes_total hpair
      (by rw [level, hab, hba]; rfl)
    have hfirst := List.pairwise_iff_forall_sublist.1 (pairwise_firstAdded additions) hsites
    rw [precedes_iff] at hab hba
    unfold Before
    omega
  · rw [precedes_iff] at hab hba
    unfold Before
    omega

theorem Represents.distinct (h : Represents additions map) : map.Distinct := by
  unfold Distinct
  rw [h.entries_eq]
  exact distinct_ofAdditions additions

theorem Represents.items_perm (h : Represents additions map) : map.items.1.Perm map.entries :=
  CommentMap.items_perm h.kept h.distinct

/-- **A map lists what was added to it.** -/
theorem Represents.isListing (h : Represents additions map) : IsListing additions map.items.1 := by
  have hgathers : Gathers additions map.entries := h.entries_eq ▸ gathers_ofAdditions additions
  refine ⟨hgathers.perm h.items_perm, (h.items_perm.map _).nodup_iff.2 h.distinct, ?_⟩
  have hsites : map.sortedSites = (ofAdditions additions).sortedSites := by
    rw [sortedSites, sortedSites, h.entries_eq]
  rw [items_eq_listed h.kept, listed, List.pairwise_map, hsites]
  exact pairwise_sortedSites additions

/-- A look-up finds the groups of the entry that is listed. -/
theorem Represents.groupsAt_eq (h : Represents additions map) (address : Address) :
    map.groupsAt address =
      ((map.items.1.find? (·.site.address = address)).map (·.groups)).getD [] := by
  cases hfound : map.items.1.find? (·.site.address = address) with
  | none =>
    have hnone : map.entry? address = none := by
      refine List.find?_eq_none.2 fun entry hentry => ?_
      exact List.find?_eq_none.1 hfound entry (h.items_perm.mem_iff.2 hentry)
    rw [groupsAt, hnone]
  | some entry =>
    have hentry := h.items_perm.mem_iff.1 (List.mem_of_find?_eq_some hfound)
    have haddress : entry.site.address = address := by simpa using List.find?_some hfound
    rw [← haddress, groupsAt_of_mem h.distinct hentry]
    rfl

/-- **The order that a map keeps cannot be observed.**  Let anything be done to a map; the map of a
file is such a map.  Every sequence of operations on it is then answered as by maps that are built
again from what was added, and these keep no order.  All nodes that were added are listed once, in
source order, with all their groups; the entries around an offset are those of the listed entries that
cover it, in that order; and the other operations agree with what is listed. -/
theorem answers_eq_freshAnswers :
    (∀ file, ∃ past, reached past = ofFile file) ∧
    (∀ additions, (ofAdditions additions).order = none) ∧
    ∀ past : List Operation,
      (∀ operations, (reached past).answers operations =
        freshAnswers (past.flatMap Operation.additions) operations) ∧
      IsListing (past.flatMap Operation.additions) (reached past).items.1 ∧
      (∀ offset, ((reached past).enclosing offset).1 = (reached past).items.1.filter fun entry =>
        entry.site.node.start ≤ offset ∧ offset ≤ entry.site.node.stop) ∧
      (∀ address, (reached past).groupsAt address =
        (((reached past).items.1.find? (·.site.address = address)).map (·.groups)).getD []) ∧
      (reached past).size = (reached past).items.1.length ∧
      ∀ address, (reached past).contains address =
        (reached past).items.1.any (·.site.address = address) := by
  refine ⟨fun file => ?_, order_ofAdditions, fun past => ?_⟩
  · rw [ofFile_eq_ofAdditions]
    exact ⟨_, reached_map_add _⟩
  · have h := represents_reached past
    refine ⟨h.answers_eq, h.isListing, fun offset => ?_, h.groupsAt_eq, ?_, fun address => ?_⟩
    · rw [enclosing_eq_filter]
      refine List.filter_congr fun entry _ => ?_
      rw [Bool.eq_iff_iff, covers_iff, decide_eq_true_eq]
    · exact h.items_perm.length_eq.symm
    · exact (h.items_perm.any_eq).symm

end ImportGuard.CommentMap
