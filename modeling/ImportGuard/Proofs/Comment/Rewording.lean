import ImportGuard.Proofs.Comment.Entries

/-!
# Rewording comments

The text of a comment plays no part in where the comment belongs.  A map of groups that leaves
numbers and places alone (`CommentGroup.Keeps`) therefore **commutes with everything up to the
comment map of a file** (`ofFile_mapGroups`), and so with the groups that a look-up finds.  Giving
one comment of a group another text is such a map (`keeps_reword`).

The groups of a map are the groups of its file and no others (`exists_entry_iff`), and the groups of
a tree hold its comments, each once and in order (`flatMap_gather`).
-/

namespace ImportGuard

namespace CommentGroup

/-! ### Maps of groups that keep numbers and places -/

/-- The map leaves the number of a group alone, and where it starts and ends. -/
def Keeps (φ : CommentGroup → CommentGroup) : Prop :=
  ∀ group, (φ group).number = group.number ∧ (φ group).start = group.start ∧
    (φ group).stop = group.stop

/-- The group with another text for its comment at an index. -/
def withText (index : Nat) (text : String) (group : CommentGroup) : CommentGroup :=
  match index with
  | 0 => { group with first := { group.first with text := text } }
  | index + 1 =>
    { group with rest := group.rest.modify index fun comment => { comment with text := text } }

/-- Gives one comment of one group another text, and leaves every other group alone. -/
def reword (target : CommentGroup) (index : Nat) (text : String) (group : CommentGroup) :
    CommentGroup :=
  if group = target then group.withText index text else group

theorem comments_withText (index : Nat) (text : String) (group : CommentGroup) :
    (group.withText index text).comments =
      group.comments.modify index fun comment => { comment with text := text } := by
  cases index with
  | zero => rfl
  | succ index => rfl

theorem start_withText (index : Nat) (text : String) (group : CommentGroup) :
    (group.withText index text).start = group.start := by
  cases index with
  | zero => rfl
  | succ index => rfl

theorem stop_eq (group : CommentGroup) :
    group.stop = (group.rest.map (·.stop)).getLastD group.first.stop := by
  unfold stop last
  rw [List.getLastD_eq_getLast?, List.getLastD_eq_getLast?, List.getLast?_map]
  cases group.rest.getLast? with
  | none => rfl
  | some comment => rfl

theorem stop_withText (index : Nat) (text : String) (group : CommentGroup) :
    (group.withText index text).stop = group.stop := by
  rw [stop_eq, stop_eq]
  cases index with
  | zero => rfl
  | succ index =>
    have hstops : (group.rest.modify index fun comment => { comment with text := text }).map
        (·.stop) = group.rest.map (·.stop) := by
      refine List.ext_getElem? fun i => ?_
      rw [List.getElem?_map, List.getElem?_map, List.getElem?_modify]
      cases group.rest[i]? with
      | none => rfl
      | some comment =>
        show some (if index = i then _ else comment).stop = some comment.stop
        split <;> rfl
    show ((group.rest.modify index _).map (·.stop)).getLastD group.first.stop = _
    rw [hstops]

theorem keeps_reword (target : CommentGroup) (index : Nat) (text : String) :
    Keeps (reword target index text) := by
  intro group
  unfold reword
  split
  · refine ⟨?_, start_withText index text group, stop_withText index text group⟩
    cases index with
    | zero => rfl
    | succ index => rfl
  · exact ⟨rfl, rfl, rfl⟩

end CommentGroup

def SourceFile.mapGroups (φ : CommentGroup → CommentGroup) (file : SourceFile) : SourceFile :=
  { file with comments := file.comments.map φ, doc := file.doc.map φ }

namespace CommentMap

def mapEntry (φ : CommentGroup → CommentGroup) (entry : MapEntry) : MapEntry :=
  { entry with groups := entry.groups.map φ }

def mapGroups (φ : CommentGroup → CommentGroup) (map : CommentMap) : CommentMap :=
  { map with entries := map.entries.map (mapEntry φ) }

variable {φ : CommentGroup → CommentGroup}

theorem homeOf_mapGroups (hφ : CommentGroup.Keeps φ) (file : SourceFile) (anchors : List Site)
    (group : CommentGroup) :
    homeOf (file.mapGroups φ) anchors (φ group) = homeOf file anchors group := by
  obtain ⟨_, hstart, hstop⟩ := hφ group
  unfold homeOf anchorOf firstBehind staysAbove
  rw [hstart, hstop]
  rfl

theorem contains_mapGroups (map : CommentMap) (address : Address) :
    (map.mapGroups φ).contains address = map.contains address := by
  unfold contains mapGroups
  rw [List.any_map]
  rfl

theorem add_mapGroups (map : CommentMap) (site : Site) (group : CommentGroup) :
    (map.mapGroups φ).add site (φ group) = (map.add site group).mapGroups φ := by
  unfold add
  rw [contains_mapGroups]
  split
  · unfold mapGroups
    simp only [List.map_map, mk.injEq, and_true]
    refine List.map_congr_left fun entry _ => ?_
    by_cases he : entry.site.address = site.address
    · simp [mapEntry, he]
    · simp [mapEntry, he]
  · simp [mapGroups, mapEntry]

/-- **Rewording commutes with building the comment map.** -/
theorem ofFile_mapGroups (hφ : CommentGroup.Keeps φ) (file : SourceFile) :
    ofFile (file.mapGroups φ) = (ofFile file).mapGroups φ := by
  suffices hall : ∀ (groups : List CommentGroup) (map : CommentMap),
      (groups.map φ).foldl (fun map group =>
        map.add (homeOf (file.mapGroups φ) (anchorsOf file.root) group) group) (map.mapGroups φ) =
      (groups.foldl (fun map group =>
        map.add (homeOf file (anchorsOf file.root) group) group) map).mapGroups φ from
    hall file.comments empty
  intro groups
  induction groups with
  | nil => exact fun map => rfl
  | cons group rest ih =>
    intro map
    rw [List.map_cons, List.foldl_cons, List.foldl_cons, homeOf_mapGroups hφ, add_mapGroups]
    exact ih _

theorem entry?_mapGroups (map : CommentMap) (address : Address) :
    entry? (map.mapGroups φ) address = Option.map (mapEntry φ) (map.entry? address) := by
  unfold entry? mapGroups
  rw [List.find?_map]
  rfl

theorem groupsAt_mapGroups (map : CommentMap) (address : Address) :
    (map.mapGroups φ).groupsAt address = (map.groupsAt address).map φ := by
  unfold groupsAt
  rw [entry?_mapGroups]
  cases map.entry? address with
  | none => rfl
  | some entry => rfl

theorem arrange_mapGroups (map : CommentMap) :
    (map.mapGroups φ).arrange = map.arrange.mapGroups φ := by
  unfold arrange
  cases ho : map.order with
  | some sites => simp [mapGroups, ho]
  | none =>
    have hsites : (map.mapGroups φ).sortedSites = map.sortedSites := by
      unfold sortedSites mapGroups
      rw [List.map_map]
      rfl
    simp [mapGroups, ho] at hsites ⊢
    exact hsites

theorem enclosing_mapGroups (map : CommentMap) (offset : Nat) :
    ((map.mapGroups φ).enclosing offset).1.flatMap (·.groups) =
      ((map.enclosing offset).1.flatMap (·.groups)).map φ := by
  unfold enclosing listed
  rw [arrange_mapGroups, List.flatMap_map, List.flatMap_map, List.map_flatMap]
  simp only [groupsAt_mapGroups]
  rfl

/-! ### The groups of a map -/

/-- **Every group of a file belongs to a node, and no other group does.** -/
theorem exists_entry_iff {file : SourceFile} {group : CommentGroup} :
    (∃ entry ∈ (ofFile file).entries, group ∈ entry.groups) ↔ group ∈ file.comments := by
  have hfiles := files_ofFile file
  constructor
  · rintro ⟨entry, hentry, hgroup⟩
    exact (hfiles.home_of_mem hentry hgroup).1
  · intro hgroup
    obtain ⟨entry, hentry, haddress⟩ := hfiles.exists_entry group hgroup
    refine ⟨entry, hentry, ?_⟩
    rw [hfiles.groups_eq entry hentry, List.mem_filter, decide_eq_true_eq]
    exact ⟨hgroup, haddress.symm⟩

end CommentMap

/-! ### The comments of a tree -/

namespace CommentGroup

theorem run_append (source : List UInt8) (reach : Nat) (previous : Comment)
    (comments : List Comment) :
    (run source reach previous comments).1 ++ (run source reach previous comments).2 =
      comments := by
  induction comments generalizing previous with
  | nil => rfl
  | cons next rest ih =>
    unfold run
    split
    · exact congrArg (next :: ·) (ih next)
    · rfl

/-- **Gathering loses no comment and moves none.** -/
theorem flatMap_gather (source : List UInt8) (number : Nat) (comments : List Comment) :
    (gather source number comments).flatMap (·.comments) = comments := by
  induction number, comments using gather.induct source with
  | case1 number => simp [gather]
  | case2 number first more parts ih =>
    rw [gather, List.flatMap_cons, ih]
    exact congrArg (first :: ·) (run_append source (Comment.reach source first) first more)

/-- A comment of a tree starts at the place of the offset at which it starts. -/
theorem start_of_mem_ofTree {source : List UInt8} {root : Node} {group : CommentGroup}
    {comment : Comment} (hgroup : group ∈ ofTree source root)
    (hcomment : comment ∈ group.comments) :
    comment.start = Place.ofOffset source comment.start.offset := by
  have hmem : comment ∈ (ofTree source root).flatMap (·.comments) :=
    List.mem_flatMap.2 ⟨group, hgroup, hcomment⟩
  rw [ofTree, ofNodes, flatMap_gather] at hmem
  obtain ⟨node, _, rfl⟩ := List.mem_map.1 hmem
  rfl

end CommentGroup

theorem SourceFile.doc_mem_comments {filename : String} {source : List UInt8} {root : Node}
    {broken : Bool} {group : CommentGroup}
    (h : (ofTree filename source root broken).doc = some group) :
    group ∈ (ofTree filename source root broken).comments := by
  obtain ⟨clause, _, hdoc⟩ := Option.bind_eq_some_iff.1 h
  have hlast := List.mem_of_getLast? hdoc
  exact List.takeWhile_subset _ (List.mem_of_mem_filter hlast)

end ImportGuard
