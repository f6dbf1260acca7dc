import ImportGuard.Comment.Map
import Mathlib.Data.List.Induction
import Mathlib.Data.List.Nodup

/-!
# The entries of a comment map

A map is built from nothing by `add`, and `add` opens an entry only for a node that has none.  So
**no two entries are of one node** (`distinct_ofFile`), and a look-up by address finds the very
entry that is meant (`groupsAt_of_mem`).  The groups of an entry are the groups that were added to its
node, in their order (`gathers_ofAdditions`).  Listing them in source order moves entries about and
changes none (`items_perm`), so the entries around an offset are exactly the entries of nodes that
cover it (`mem_enclosing_arrange`).
-/

namespace ImportGuard.CommentMap

/-! ### One entry for a node -/

/-- No two entries are of one node. -/
def Distinct (map : CommentMap) : Prop :=
  (map.entries.map (·.site.address)).Nodup

theorem contains_iff {map : CommentMap} {address : Address} :
    map.contains address = true ↔ address ∈ map.entries.map (·.site.address) := by
  simp [contains]

theorem entries_add_of_contains {map : CommentMap} {site : Site} (group : CommentGroup)
    (h : map.contains site.address = true) :
    (map.add site group).entries = map.entries.map fun entry =>
      if entry.site.address = site.address then
        { entry with groups := entry.groups ++ [group] }
      else entry := by
  rw [add, if_pos h]

theorem entries_add_of_not_contains {map : CommentMap} {site : Site} (group : CommentGroup)
    (h : ¬ map.contains site.address = true) :
    (map.add site group).entries = map.entries ++ [⟨site, [group]⟩] := by
  rw [add, if_neg h]

/-- Adding a group to a known node moves no entry to another node. -/
theorem sites_add_of_contains {map : CommentMap} {site : Site} {group : CommentGroup}
    (h : map.contains site.address = true) :
    (map.add site group).entries.map (·.site) = map.entries.map (·.site) := by
  rw [entries_add_of_contains group h, List.map_map]
  refine List.map_congr_left fun entry _ => ?_
  show (if entry.site.address = site.address then _ else entry).site = _
  split <;> rfl

theorem sites_add_of_not_contains {map : CommentMap} {site : Site} {group : CommentGroup}
    (h : ¬ map.contains site.address = true) :
    (map.add site group).entries.map (·.site) = map.entries.map (·.site) ++ [site] := by
  rw [entries_add_of_not_contains group h, List.map_append]
  rfl

theorem map_address_sites (map : CommentMap) :
    (map.entries.map (·.site)).map (·.address) = map.entries.map (·.site.address) :=
  List.map_map

theorem distinct_empty : Distinct empty := List.nodup_nil

theorem distinct_add {map : CommentMap} (h : map.Distinct) (site : Site) (group : CommentGroup) :
    (map.add site group).Distinct := by
  unfold Distinct
  rw [← map_address_sites]
  by_cases hc : map.contains site.address = true
  · rw [sites_add_of_contains hc, map_address_sites]
    exact h
  · rw [sites_add_of_not_contains hc, List.map_append, map_address_sites]
    refine List.nodup_append.2 ⟨h, List.nodup_singleton _, ?_⟩
    intro a ha b hb he
    rw [List.map_singleton, List.mem_singleton] at hb
    subst hb he
    exact hc (contains_iff.2 ha)

/-- The groups of an entry are the groups that a look-up by its address finds. -/
theorem groupsAt_of_mem {map : CommentMap} (h : map.Distinct) {entry : MapEntry}
    (he : entry ∈ map.entries) : map.groupsAt entry.site.address = entry.groups := by
  obtain ⟨entries, order⟩ := map
  simp only [Distinct] at h
  simp only [groupsAt, entry?]
  induction entries with
  | nil => exact absurd he (by simp)
  | cons first rest ih =>
    simp only [List.map_cons, List.nodup_cons] at h
    rcases List.mem_cons.1 he with rfl | hrest
    · rw [List.find?_cons_of_pos (by simp)]
      rfl
    · have hne : first.site.address ≠ entry.site.address := by
        intro heq
        exact h.1 (heq ▸ List.mem_map_of_mem hrest)
      rw [List.find?_cons_of_neg (by simpa using hne)]
      exact ih h.2 hrest

/-- Every group that a look-up finds stands in an entry of that address. -/
theorem exists_entry_of_mem_groupsAt {map : CommentMap} {address : Address}
    {group : CommentGroup} (h : group ∈ map.groupsAt address) :
    ∃ entry ∈ map.entries, entry.site.address = address ∧ group ∈ entry.groups := by
  cases hf : map.entry? address with
  | none => simp [groupsAt, hf] at h
  | some entry =>
    refine ⟨entry, List.mem_of_find?_eq_some hf, ?_, ?_⟩
    · simpa using List.find?_some hf
    · simpa [groupsAt, hf] using h

/-! ### Additions -/

structure Addition where
  site : Site
  group : CommentGroup

def ofAdditions (additions : List Addition) : CommentMap :=
  additions.foldl (fun map addition => map.add addition.site addition.group) empty

theorem ofAdditions_concat (additions : List Addition) (last : Addition) :
    ofAdditions (additions ++ [last]) = (ofAdditions additions).add last.site last.group := by
  rw [ofAdditions, List.foldl_append]
  rfl

theorem ofFile_eq_ofAdditions (file : SourceFile) :
    ofFile file = ofAdditions (file.comments.map fun group =>
      ⟨homeOf file (anchorsOf file.root) group, group⟩) := by
  rw [ofAdditions, List.foldl_map]
  rfl

theorem distinct_ofAdditions (additions : List Addition) : (ofAdditions additions).Distinct := by
  induction additions using List.reverseRecOn with
  | nil => exact distinct_empty
  | append_singleton earlier last ih =>
    rw [ofAdditions_concat]
    exact distinct_add ih last.site last.group

/-- **The map of a file has one entry for a node.** -/
theorem distinct_ofFile (file : SourceFile) : (ofFile file).Distinct := by
  rw [ofFile_eq_ofAdditions]
  exact distinct_ofAdditions _

/-- There are entries exactly for the nodes of the additions.  Each has the site with which its node
was first added, and the groups that were added to its node, in their order. -/
structure Gathers (additions : List Addition) (entries : List MapEntry) : Prop where
  exists_entry : ∀ addition ∈ additions, ∃ entry ∈ entries,
    entry.site.address = addition.site.address
  site_eq : ∀ entry ∈ entries,
    (additions.map (·.site)).find? (·.address = entry.site.address) = some entry.site
  groups_eq : ∀ entry ∈ entries,
    entry.groups = (additions.filter (·.site.address = entry.site.address)).map (·.group)

variable {additions : List Addition} {entries : List MapEntry}

theorem Gathers.nil : Gathers [] [] :=
  ⟨fun _ h => absurd h List.not_mem_nil, fun _ h => absurd h List.not_mem_nil,
    fun _ h => absurd h List.not_mem_nil⟩

/-- The site of an entry was added. -/
theorem Gathers.exists_addition (h : Gathers additions entries) {entry : MapEntry}
    (hentry : entry ∈ entries) : ∃ addition ∈ additions, addition.site = entry.site :=
  List.mem_map.1 (List.mem_of_find?_eq_some (h.site_eq entry hentry))

theorem Gathers.contains_iff {map : CommentMap} (h : Gathers additions map.entries)
    {address : Address} :
    map.contains address = true ↔ ∃ addition ∈ additions, addition.site.address = address := by
  rw [CommentMap.contains_iff, List.mem_map]
  constructor
  · rintro ⟨entry, hentry, rfl⟩
    obtain ⟨addition, haddition, hsite⟩ := h.exists_addition hentry
    exact ⟨addition, haddition, congrArg (·.address) hsite⟩
  · rintro ⟨addition, haddition, rfl⟩
    exact h.exists_entry addition haddition

/-- The entries may be listed in any order. -/
theorem Gathers.perm (h : Gathers additions entries) {others : List MapEntry}
    (hperm : others.Perm entries) : Gathers additions others where
  exists_entry addition haddition := by
    obtain ⟨entry, hentry, haddress⟩ := h.exists_entry addition haddition
    exact ⟨entry, hperm.mem_iff.2 hentry, haddress⟩
  site_eq entry hentry := h.site_eq entry (hperm.mem_iff.1 hentry)
  groups_eq entry hentry := h.groups_eq entry (hperm.mem_iff.1 hentry)

theorem Gathers.add_known {map : CommentMap} (h : Gathers additions map.entries) {last : Addition}
    (hknown : map.contains last.site.address = true) :
    Gathers (additions ++ [last]) (map.add last.site last.group).entries := by
  rw [entries_add_of_contains last.group hknown]
  refine ⟨fun addition haddition => ?_, fun entry hentry => ?_, fun entry hentry => ?_⟩
  · have hold : ∃ entry ∈ map.entries, entry.site.address = addition.site.address := by
      rcases List.mem_append.1 haddition with hearlier | hlast
      · exact h.exists_entry addition hearlier
      · rw [List.mem_singleton.1 hlast]
        exact List.mem_map.1 (CommentMap.contains_iff.1 hknown)
    obtain ⟨entry, hentry, haddress⟩ := hold
    refine ⟨_, List.mem_map_of_mem hentry, ?_⟩
    split <;> exact haddress
  · obtain ⟨old, hold, rfl⟩ := List.mem_map.1 hentry
    have hsite := h.site_eq old hold
    rw [List.map_append, List.find?_append]
    split <;> simp [hsite]
  · obtain ⟨old, hold, rfl⟩ := List.mem_map.1 hentry
    rw [List.filter_append]
    split
    · rename_i hsame
      simp [h.groups_eq old hold, hsame]
    · rename_i hother
      simp [h.groups_eq old hold, Ne.symm hother]

theorem Gathers.add_new {map : CommentMap} (h : Gathers additions map.entries) {last : Addition}
    (hnew : ¬ map.contains last.site.address = true) :
    Gathers (additions ++ [last]) (map.add last.site last.group).entries := by
  have hne : ∀ entry ∈ map.entries, entry.site.address ≠ last.site.address := by
    intro entry hentry hsame
    exact hnew (CommentMap.contains_iff.2 (List.mem_map.2 ⟨entry, hentry, hsame⟩))
  -- nothing was added to this node before, or there would be an entry for it
  have hfirst : ∀ addition ∈ additions, addition.site.address ≠ last.site.address := by
    intro addition haddition hsame
    exact hnew (h.contains_iff.2 ⟨addition, haddition, hsame⟩)
  rw [entries_add_of_not_contains last.group hnew]
  refine ⟨fun addition haddition => ?_, fun entry hentry => ?_, fun entry hentry => ?_⟩
  · rcases List.mem_append.1 haddition with hearlier | hlast
    · obtain ⟨entry, hentry, haddress⟩ := h.exists_entry addition hearlier
      exact ⟨entry, List.mem_append_left _ hentry, haddress⟩
    · rw [List.mem_singleton.1 hlast]
      exact ⟨_, List.mem_append_right _ (List.mem_singleton_self _), rfl⟩
  · rw [List.map_append, List.find?_append]
    rcases List.mem_append.1 hentry with hold | hlast
    · rw [h.site_eq entry hold, Option.some_or]
    · obtain rfl := List.mem_singleton.1 hlast
      have hnone : (additions.map (·.site)).find? (·.address = last.site.address) = none := by
        simpa using hfirst
      simp [hnone]
  · rw [List.filter_append]
    rcases List.mem_append.1 hentry with hold | hlast
    · simp [h.groups_eq entry hold, Ne.symm (hne entry hold)]
    · obtain rfl := List.mem_singleton.1 hlast
      have hnone : additions.filter (·.site.address = last.site.address) = [] := by
        simpa using hfirst
      simp [hnone]

/-- **A map gathers what was added to it.** -/
theorem gathers_ofAdditions (additions : List Addition) :
    Gathers additions (ofAdditions additions).entries := by
  induction additions using List.reverseRecOn with
  | nil => exact Gathers.nil
  | append_singleton earlier last ih =>
    rw [ofAdditions_concat]
    by_cases hknown : (ofAdditions earlier).contains last.site.address = true
    · exact ih.add_known hknown
    · exact ih.add_new hknown

/-! ### The groups of a file -/

/-- The groups of an entry are those whose home it is, and there is an entry exactly for each home. -/
structure Files (home : CommentGroup → Site) (groups : List CommentGroup) (map : CommentMap) :
    Prop where
  groups_eq : ∀ entry ∈ map.entries,
    entry.groups = groups.filter fun group => (home group).address = entry.site.address
  exists_home : ∀ entry ∈ map.entries, ∃ group ∈ groups, home group = entry.site
  exists_entry : ∀ group ∈ groups, ∃ entry ∈ map.entries,
    entry.site.address = (home group).address

/-- **The map of a file files its groups by their homes.** -/
theorem files_ofFile (file : SourceFile) :
    Files (homeOf file (anchorsOf file.root)) file.comments (ofFile file) := by
  rw [ofFile_eq_ofAdditions]
  have hgathers := gathers_ofAdditions (file.comments.map fun group =>
    ⟨homeOf file (anchorsOf file.root) group, group⟩)
  refine ⟨fun entry hentry => ?_, fun entry hentry => ?_, fun group hgroup => ?_⟩
  · rw [hgathers.groups_eq entry hentry, List.filter_map, List.map_map]
    exact List.map_id _
  · obtain ⟨addition, haddition, hsite⟩ := hgathers.exists_addition hentry
    obtain ⟨group, hgroup, rfl⟩ := List.mem_map.1 haddition
    exact ⟨group, hgroup, hsite⟩
  · exact hgathers.exists_entry _ (List.mem_map_of_mem hgroup)

/-- A group of an entry has its home at the entry's address. -/
theorem Files.home_of_mem {home : CommentGroup → Site} {groups : List CommentGroup}
    {map : CommentMap} (h : Files home groups map) {group : CommentGroup} {entry : MapEntry}
    (hentry : entry ∈ map.entries) (hgroup : group ∈ entry.groups) :
    group ∈ groups ∧ (home group).address = entry.site.address := by
  rw [h.groups_eq entry hentry, List.mem_filter, decide_eq_true_eq] at hgroup
  exact hgroup

/-! ### Source order -/

/-- A map whose source order has not been worked out. -/
theorem order_add_eq_none {map : CommentMap} (h : map.order = none) (site : Site)
    (group : CommentGroup) : (map.add site group).order = none := by
  unfold add
  split
  · exact h
  · rfl

theorem order_ofAdditions (additions : List Addition) : (ofAdditions additions).order = none := by
  induction additions using List.reverseRecOn with
  | nil => rfl
  | append_singleton earlier last ih =>
    rw [ofAdditions_concat]
    exact order_add_eq_none ih last.site last.group

theorem order_ofFile (file : SourceFile) : (ofFile file).order = none := by
  rw [ofFile_eq_ofAdditions]
  exact order_ofAdditions _

theorem entries_arrange (map : CommentMap) : map.arrange.entries = map.entries := by
  unfold arrange
  split <;> rfl

theorem covers_iff {offset : Nat} {site : Site} :
    covers offset site = true ↔ site.node.start ≤ offset ∧ offset ≤ site.node.stop := by
  rw [covers, Bool.and_eq_true, decide_eq_true_eq, decide_eq_true_eq]

/-- The order is worked out once. -/
theorem arrange_arrange (map : CommentMap) : map.arrange.arrange = map.arrange := by
  unfold arrange
  cases ho : map.order with
  | none => rfl
  | some sites => simp only [ho]

theorem groupsAt_arrange (map : CommentMap) (address : Address) :
    map.arrange.groupsAt address = map.groupsAt address := by
  simp only [groupsAt, entry?, entries_arrange]

/-- If the map keeps an order, it is the order of its sites. -/
def Kept (map : CommentMap) : Prop :=
  ∀ sites, map.order = some sites → sites = map.sortedSites

theorem kept_of_order_eq_none {map : CommentMap} (h : map.order = none) : map.Kept := by
  intro sites hsites
  rw [h] at hsites
  cases hsites

theorem sortedSites_arrange (map : CommentMap) : map.arrange.sortedSites = map.sortedSites := by
  rw [sortedSites, entries_arrange, sortedSites]

theorem order_arrange {map : CommentMap} (h : map.Kept) :
    map.arrange.order = some map.sortedSites := by
  unfold arrange
  cases horder : map.order with
  | none => rfl
  | some sites => rw [← h sites horder, horder]

theorem Kept.arrange {map : CommentMap} (h : map.Kept) : map.arrange.Kept := by
  intro sites hsites
  rw [order_arrange h] at hsites
  rw [sortedSites_arrange]
  exact (Option.some.inj hsites).symm

theorem listed_arrange (map : CommentMap) (sites : List Site) :
    map.arrange.listed sites = map.listed sites := by
  simp only [listed, groupsAt_arrange]

theorem items_eq_listed {map : CommentMap} (h : map.Kept) :
    map.items.1 = map.listed map.sortedSites := by
  rw [items, listed_arrange, order_arrange h]
  rfl

/-- The entries around an offset are listed as they are among all entries. -/
theorem enclosing_eq_filter (map : CommentMap) (offset : Nat) :
    (map.enclosing offset).1 = map.items.1.filter fun entry => covers offset entry.site := by
  rw [enclosing, items, listed, listed, List.filter_map]
  rfl

/-- Listing moves entries about and changes none. -/
theorem items_perm {map : CommentMap} (hkept : map.Kept) (hdistinct : map.Distinct) :
    map.items.1.Perm map.entries := by
  have hlisted : map.listed (map.entries.map (·.site)) = map.entries := by
    rw [listed, List.map_map]
    refine (List.map_congr_left fun entry hentry => ?_).trans (List.map_id _)
    show MapEntry.mk entry.site (map.groupsAt entry.site.address) = entry
    rw [groupsAt_of_mem hdistinct hentry]
  rw [items_eq_listed hkept]
  exact ((List.mergeSort_perm _ precedes).map _).trans (List.Perm.of_eq hlisted)

/-- **The entries around an offset are the entries of the nodes that cover it.** -/
theorem mem_enclosing_arrange {map : CommentMap} (hd : map.Distinct) (ho : map.order = none)
    {offset : Nat} {entry : MapEntry} :
    entry ∈ (map.arrange.enclosing offset).1 ↔
      entry ∈ map.entries ∧ covers offset entry.site = true := by
  have hdistinct : map.arrange.Distinct := by
    unfold Distinct
    rwa [entries_arrange]
  have hperm := items_perm (kept_of_order_eq_none ho).arrange hdistinct
  rw [enclosing_eq_filter, List.mem_filter, hperm.mem_iff, entries_arrange]

end ImportGuard.CommentMap
