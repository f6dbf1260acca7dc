import ImportGuard.Proofs.Workspace.Tree

/-!
# The folders at and below a path

A walk lists a folder, then what the walks of its members list, members in the order of their names
and without those that are left out.  Said by paths from where the walk starts, it goes to the folders
all of whose names are `Admitted`, and to no others (`mem_foldersAt_arranged`): a folder that is left
out takes everything below it along.  The lists of the members are put one behind the other, and still
the whole list increases (`pairwise_foldersAt_arranged`), because paths are compared part by part: two
members already differ in their names, whatever comes behind.

`foldersBelow_iff_admitted` says both of a walk in a workspace.
-/

namespace ImportGuard

namespace Path

/-- The path that one comes to by names, from a path on. -/
def below (path : Path) (names : List String) : Path :=
  { path with parts := path.parts ++ names }

@[simp] theorem below_nil (path : Path) : path.below [] = path := by
  simp [below]

@[simp] theorem below_child (path : Path) (name : String) (names : List String) :
    (path.child name).below names = path.below (name :: names) := by
  simp [below, child]

theorem before_below {path : Path} {names names' : List String} (h : names < names') :
    (path.below names).before (path.below names') = true := by
  have hparts : path.parts ++ names < path.parts ++ names' := List.append_left_lt h
  rw [before, decide_eq_true_iff]
  by_cases hroot : path.root = .here
  · simp only [key, below, hroot, if_true]
    exact hparts
  · simp only [key, below, hroot, if_false]
    exact List.cons_lt_cons_iff.2 (Or.inr ⟨rfl, hparts⟩)

/-- A folder is before everything below it. -/
theorem before_below_cons (path : Path) (name : String) (names : List String) :
    path.before (path.below (name :: names)) = true := by
  have hlt : (path.below []).before (path.below (name :: names)) = true :=
    before_below (List.nil_lt_cons name names)
  rwa [below_nil] at hlt

theorem not_before_self (path : Path) : path.before path = false := by
  rw [before, decide_eq_false_iff_not]
  exact List.lt_irrefl _

theorem before_trans {p q r : Path} (hpq : p.before q = true) (hqr : q.before r = true) :
    p.before r = true := by
  rw [before, decide_eq_true_iff] at *
  exact List.lt_trans hpq hqr

/-- In a list that increases, what is before another member stands in front of it. -/
theorem pair_sublist_of_before {paths : List Path}
    (h : paths.Pairwise fun p q => p.before q = true) {p q : Path} (hp : p ∈ paths)
    (hq : q ∈ paths) (hpq : p.before q = true) : [p, q].Sublist paths := by
  obtain ⟨front, back, rfl⟩ := List.append_of_mem hp
  rcases List.mem_append.1 hq with hfront | hback
  · have hqp := (List.pairwise_append.1 h).2.2 q hfront p List.mem_cons_self
    exact absurd (before_trans hpq hqp) (by simp [not_before_self])
  · rcases List.mem_cons.1 hback with rfl | hback
    · exact absurd hpq (by simp [not_before_self])
    · exact (List.Sublist.cons_cons p (List.singleton_sublist.2 hback)).trans
        (List.sublist_append_right front _)

end Path

namespace Entry

/-! ### Trees in order -/

theorem arrangedAll_eq_map (members : List (String × Entry)) :
    arrangedAll members = members.map fun m => (m.1, m.2.arranged) := by
  induction members with
  | nil => rw [arrangedAll, List.map_nil]
  | cons m rest ih => rw [arrangedAll, ih, List.map_cons]

/-- The members of a folder, each arranged, in the order of their names. -/
def sortedMembers (members : List (String × Entry)) : List (String × Entry) :=
  (members.map fun m => (m.1, m.2.arranged)).mergeSort fun a b => !(b.1 < a.1)

theorem arranged_folder (members : List (String × Entry)) :
    (folder members).arranged = .folder (sortedMembers members) := by
  rw [arranged, arrangedAll_eq_map, sortedMembers]

theorem mem_sortedMembers {members : List (String × Entry)} {m : String × Entry} :
    m ∈ sortedMembers members ↔ ∃ entry, (m.1, entry) ∈ members ∧ m.2 = entry.arranged := by
  rw [sortedMembers, List.mem_mergeSort, List.mem_map]
  constructor
  · rintro ⟨old, hold, rfl⟩
    exact ⟨old.2, hold, rfl⟩
  · rintro ⟨entry, hentry, he⟩
    exact ⟨_, hentry, Prod.ext rfl he.symm⟩

/-- Different names come in an order that increases. -/
theorem pairwise_sortedMembers {members : List (String × Entry)}
    (h : (members.map (·.1)).Nodup) :
    (sortedMembers members).Pairwise fun a b => a.1 < b.1 := by
  have hsorted : (sortedMembers members).Pairwise fun a b => (!(b.1 < a.1)) = true := by
    refine List.pairwise_mergeSort ?_ ?_ _
    · intro a b c hab hbc
      simp only [Bool.not_eq_true', decide_eq_false_iff_not] at *
      exact String.le_trans hab hbc
    · intro a b
      rw [Bool.or_eq_true, Bool.not_eq_true', Bool.not_eq_true', decide_eq_false_iff_not,
        decide_eq_false_iff_not]
      exact String.le_total a.1 b.1
  have hnames : ((sortedMembers members).map (·.1)).Nodup := by
    rw [sortedMembers, ((List.mergeSort_perm _ _).map _).nodup_iff, List.map_map]
    exact h
  refine (hsorted.and (List.pairwise_map.1 hnames)).imp fun {a b} hab => ?_
  obtain ⟨hle, hne⟩ := hab
  rw [Bool.not_eq_true', decide_eq_false_iff_not] at hle
  by_contra hlt
  exact hne (String.le_antisymm hle hlt)

/-! ### Looking up on the way down -/

theorem lookup_folder_cons {members : List (String × Entry)} {name : String} (hname : name ≠ "..")
    (above : List Entry) (names : List String) (found : Entry) :
    lookup above (.folder members) (name :: names) = .ok found ↔
      ∃ entry, members.lookup name = some entry ∧
        lookup (.folder members :: above) entry names = .ok found := by
  rw [lookup.eq_def]
  simp only [hname, if_false]
  cases members.lookup name with
  | none => simp
  | some entry => simp

/-- What a path leads to is what its end leads to, from where its start does. -/
theorem exists_lookup_append {above : List Entry} {entry found : Entry} {parts : List String}
    (h : lookup above entry parts = .ok found) :
    ∃ above', ∀ names, lookup above entry (parts ++ names) = lookup above' found names := by
  induction parts generalizing above entry with
  | nil =>
    obtain rfl : entry = found := by simpa [lookup] using h
    exact ⟨above, fun _ => rfl⟩
  | cons part parts ih =>
    cases entry with
    | file number => simp [lookup] at h
    | folder members =>
      obtain ⟨_, ⟨rfl, rfl, htop⟩ | ⟨parent, rest, rfl, rfl, hback⟩ | ⟨member, hdots, hmember, hon⟩⟩ :=
        lookup_cons_eq_ok h
      · exact ih htop
      · exact ih hback
      · obtain ⟨above', habove⟩ := ih hon
        refine ⟨above', fun names => ?_⟩
        rw [← habove, List.cons_append, lookup.eq_def]
        simp only [hdots, if_false]
        rw [show members.lookup part = some member from hmember]

end Entry

namespace Workspace

/-! ### Names that are left out -/

/-- A folder of this name is walked through. -/
def Admitted (excluded : List String) (name : String) : Prop :=
  name.toList.head? ≠ some '.' ∧ name.toList.head? ≠ some '_' ∧ name ∉ excluded

theorem isExcluded_eq_false_iff {excluded : List String} {name : String} :
    isExcluded excluded name = false ↔ Admitted excluded name := by
  have hstart : ∀ c : Char, [c].isPrefixOf name.toList = false ↔ name.toList.head? ≠ some c := by
    intro c
    cases name.toList with
    | nil => simp
    | cons d rest =>
      simp only [List.isPrefixOf, Bool.and_true, beq_eq_false_iff_ne, List.head?_cons, ne_eq,
        Option.some.injEq]
      exact ne_comm
  have hdot : ".".toList = ['.'] := rfl
  have hunderscore : "_".toList = ['_'] := rfl
  rw [isExcluded, hdot, hunderscore, Bool.or_eq_false_iff, Bool.or_eq_false_iff, hstart, hstart,
    and_assoc, List.contains_eq_mem, decide_eq_false_iff_not, Admitted]

theorem Admitted.ne_dots {excluded : List String} {name : String} (h : Admitted excluded name) :
    name ≠ ".." := by
  rintro rfl
  exact h.1 rfl

/-! ### Walks -/

theorem foldersIn_eq_flatMap (excluded : List String) (path : Path)
    (members : List (String × Entry)) :
    foldersIn excluded path members =
      (members.filter fun m => !isExcluded excluded m.1).flatMap fun m =>
        foldersAt excluded (path.child m.1) m.2 := by
  induction members with
  | nil => rw [foldersIn, List.filter_nil, List.flatMap_nil]
  | cons m rest ih =>
    rw [foldersIn, ih, List.filter_cons]
    cases isExcluded excluded m.1 with
    | true => rfl
    | false => rfl

theorem foldersAt_arranged_folder (excluded : List String) (path : Path)
    (members : List (String × Entry)) :
    foldersAt excluded path (Entry.folder members).arranged =
      path :: ((Entry.sortedMembers members).filter fun m => !isExcluded excluded m.1).flatMap
        fun m => foldersAt excluded (path.child m.1) m.2 := by
  rw [Entry.arranged_folder, foldersAt, foldersIn_eq_flatMap]

/-- The members that a walk goes into. -/
theorem mem_filter_sortedMembers {excluded : List String} {members : List (String × Entry)}
    {m : String × Entry} :
    (m ∈ (Entry.sortedMembers members).filter fun m => !isExcluded excluded m.1) ↔
      Admitted excluded m.1 ∧ ∃ entry, (m.1, entry) ∈ members ∧ m.2 = entry.arranged := by
  rw [List.mem_filter, Entry.mem_sortedMembers, Bool.not_eq_true', isExcluded_eq_false_iff, and_comm]

variable {excluded : List String}

/-- **A walk goes to the folders that admitted names lead to.** -/
theorem mem_foldersAt_arranged {entry : Entry} (h : entry.WellFormed) (above : List Entry)
    {path found : Path} :
    found ∈ foldersAt excluded path entry.arranged ↔
      ∃ names, found = path.below names ∧ (∀ name ∈ names, Admitted excluded name) ∧
        ∃ members, Entry.lookup above entry names = .ok (.folder members) := by
  induction h generalizing above path with
  | file content =>
    rw [Entry.arranged, foldersAt]
    refine iff_of_false List.not_mem_nil ?_
    rintro ⟨_ | ⟨name, names⟩, _, _, members, hlookup⟩
    · simp [Entry.lookup] at hlookup
    · simp [Entry.lookup] at hlookup
  | @folder entries _ distinct _ ih =>
    rw [foldersAt_arranged_folder, List.mem_cons, List.mem_flatMap]
    constructor
    · rintro (rfl | ⟨m, hm, hfound⟩)
      · exact ⟨[], by simp, by simp, entries, rfl⟩
      · obtain ⟨hadmitted, entry, hentry, harranged⟩ := mem_filter_sortedMembers.1 hm
        rw [harranged, ih _ hentry (.folder entries :: above)] at hfound
        obtain ⟨names, rfl, hnames, members, hlookup⟩ := hfound
        refine ⟨m.1 :: names, by simp, List.forall_mem_cons.2 ⟨hadmitted, hnames⟩, members, ?_⟩
        rw [Entry.lookup_folder_cons hadmitted.ne_dots]
        exact ⟨entry, (lookup_eq_some_iff_mem distinct).2 hentry, hlookup⟩
    · rintro ⟨_ | ⟨name, names⟩, rfl, hnames, members, hlookup⟩
      · exact Or.inl (by simp)
      · obtain ⟨hadmitted, hnames⟩ := List.forall_mem_cons.1 hnames
        obtain ⟨entry, hentry, hlookup⟩ :=
          (Entry.lookup_folder_cons hadmitted.ne_dots above names _).1 hlookup
        have hmem := (lookup_eq_some_iff_mem distinct).1 hentry
        refine Or.inr ⟨(name, entry.arranged),
          mem_filter_sortedMembers.2 ⟨hadmitted, entry, hmem, rfl⟩, ?_⟩
        rw [ih _ hmem (.folder entries :: above)]
        exact ⟨names, by simp, hnames, members, hlookup⟩

/-- A walk stays at and below where it starts. -/
theorem exists_below_of_mem_foldersAt {entry : Entry} (h : entry.WellFormed) {path found : Path}
    (hfound : found ∈ foldersAt excluded path entry.arranged) : ∃ names, found = path.below names := by
  obtain ⟨names, hnames, _⟩ := (mem_foldersAt_arranged h []).1 hfound
  exact ⟨names, hnames⟩

/-- **The paths of a walk increase.** -/
theorem pairwise_foldersAt_arranged {entry : Entry} (h : entry.WellFormed) (path : Path) :
    (foldersAt excluded path entry.arranged).Pairwise fun p q => p.before q = true := by
  induction h generalizing path with
  | file content =>
    rw [Entry.arranged, foldersAt]
    exact List.Pairwise.nil
  | @folder entries _ distinct members ih =>
    -- what is listed for a member has the name of the member next to the path of the folder
    have hmember : ∀ m ∈ (Entry.sortedMembers entries).filter fun m => !isExcluded excluded m.1,
        ∀ found ∈ foldersAt excluded (path.child m.1) m.2,
          ∃ names, found = path.below (m.1 :: names) := by
      intro m hm found hfound
      obtain ⟨_, entry, hentry, harranged⟩ := mem_filter_sortedMembers.1 hm
      rw [harranged] at hfound
      obtain ⟨names, rfl⟩ := exists_below_of_mem_foldersAt (members _ hentry) hfound
      exact ⟨names, by simp⟩
    rw [foldersAt_arranged_folder, List.pairwise_cons, List.pairwise_flatMap]
    refine ⟨?_, ?_, ?_⟩
    · intro found hfound
      obtain ⟨m, hm, hfound⟩ := List.mem_flatMap.1 hfound
      obtain ⟨names, rfl⟩ := hmember m hm found hfound
      exact path.before_below_cons m.1 names
    · intro m hm
      obtain ⟨_, entry, hentry, harranged⟩ := mem_filter_sortedMembers.1 hm
      rw [harranged]
      exact ih _ hentry (path.child m.1)
    · refine ((Entry.pairwise_sortedMembers distinct).filter _).imp_of_mem ?_
      intro a b ha hb hlt p hp q hq
      obtain ⟨names, rfl⟩ := hmember a ha p hp
      obtain ⟨names', rfl⟩ := hmember b hb q hq
      exact Path.before_below (List.cons_lt_cons_iff.2 (Or.inl hlt))

variable {workspace : Workspace}

theorem isFolder_iff {path : Path} :
    workspace.isFolder path = true ↔ ∃ members, workspace.get? path = some (.folder members) := by
  rw [isFolder, Option.any_eq_true]
  constructor
  · rintro ⟨_ | members, hentry, hfolder⟩
    · exact absurd hfolder (by simp [Entry.isFolder])
    · exact ⟨members, hentry⟩
  · rintro ⟨members, hentry⟩
    exact ⟨_, hentry, rfl⟩

/-- Names lead from a path to a folder if they do so from the entry at the path. -/
theorem exists_isFolder_below_iff {root : Path} {entry : Entry}
    (h : workspace.get? root = some entry) :
    ∃ above, ∀ names, workspace.isFolder (root.below names) = true ↔
      ∃ members, Entry.lookup above entry names = .ok (.folder members) := by
  obtain ⟨above, habove⟩ := Entry.exists_lookup_append (get?_eq_some_iff.1 h)
  refine ⟨above, fun names => ?_⟩
  simp only [isFolder_iff, get?_eq_some_iff, Path.below, partsOf_append, habove]

/-- **A walk is exact and in order.**  In a tree of folders and files, the walk from a folder starts
with that folder and lists exactly the folders at and below it to which admitted names lead: none of
the names starts with a point or an underscore or is in the list of names to leave out, while the names
in the path of the first folder do not matter.  No path is listed twice, and the paths increase part
by part, so that a folder stands in front of everything below it. -/
theorem foldersBelow_iff_admitted (hw : workspace.WellFormed) (excluded : List String) {root : Path}
    (hroot : workspace.isFolder root = true) :
    (workspace.foldersBelow excluded root).head? = some root ∧
    (∀ path, path ∈ workspace.foldersBelow excluded root ↔
      ∃ names, path = root.below names ∧ workspace.isFolder path = true ∧
        ∀ name ∈ names, name.toList.head? ≠ some '.' ∧ name.toList.head? ≠ some '_' ∧
          name ∉ excluded) ∧
    (workspace.foldersBelow excluded root).Nodup ∧
    (workspace.foldersBelow excluded root).Pairwise (fun p q => p.before q = true) ∧
    ∀ path names, path ∈ workspace.foldersBelow excluded root →
      path.below names ∈ workspace.foldersBelow excluded root → names ≠ [] →
        [path, path.below names].Sublist (workspace.foldersBelow excluded root) := by
  obtain ⟨members, hentry⟩ := isFolder_iff.1 hroot
  have hwell := hw.entry hentry
  have hwalk : workspace.foldersBelow excluded root =
      foldersAt excluded root (Entry.folder members).arranged := by
    rw [foldersBelow, hentry]
  have hincreasing : (foldersAt excluded root (Entry.folder members).arranged).Pairwise
      fun p q => p.before q = true := pairwise_foldersAt_arranged hwell root
  rw [hwalk]
  refine ⟨?_, fun path => ?_, ?_, hincreasing, fun path names hpath hbelow hne => ?_⟩
  · rw [foldersAt_arranged_folder, List.head?_cons]
  · obtain ⟨above, habove⟩ := exists_isFolder_below_iff hentry
    rw [mem_foldersAt_arranged hwell above]
    constructor
    · rintro ⟨names, rfl, hnames, hfolder⟩
      exact ⟨names, rfl, (habove names).2 hfolder, hnames⟩
    · rintro ⟨names, rfl, hfolder, hnames⟩
      exact ⟨names, rfl, hnames, (habove names).1 hfolder⟩
  · refine hincreasing.imp fun {p q} hpq he => ?_
    rw [he, Path.not_before_self] at hpq
    exact absurd hpq (by simp)
  · refine Path.pair_sublist_of_before hincreasing hpath hbelow ?_
    cases names with
    | nil => exact absurd rfl hne
    | cons name names => exact path.before_below_cons name names

/-- A folder that is left out above one that would not be, and names that start alike. -/
def nestedWorkspace : Workspace :=
  ((((({} : Workspace).add (Path.ofString "_r/a/c") (.folder [])).add
    (Path.ofString "_r/ab") (.folder [])).add (Path.ofString "_r/a-b") (.folder [])).add
    (Path.ofString "_r/.git/a") (.folder [])).add (Path.ofString "_r/vendor/a") (.folder [])

theorem foldersBelow_iff_admitted_nested :
    nestedWorkspace.WellFormed ∧ nestedWorkspace.isFolder (Path.ofString "_r") = true ∧
    (nestedWorkspace.foldersBelow ["vendor"] (Path.ofString "_r")).head? =
      some (Path.ofString "_r") ∧
    Path.ofString "_r/a/c" ∈ nestedWorkspace.foldersBelow ["vendor"] (Path.ofString "_r") ∧
    Path.ofString "_r/vendor/a" ∉ nestedWorkspace.foldersBelow ["vendor"] (Path.ofString "_r") := by
  have hw : nestedWorkspace.WellFormed := by
    have hempty : ({} : Workspace).WellFormed := wellFormed_empty []
    have hfolder : Entry.WellFormed (.folder []) := .folder (by simp) (by simp) (by simp)
    exact ((((hempty.add (by decide) hfolder).add (by decide) hfolder).add (by decide)
      hfolder).add (by decide) hfolder).add (by decide) hfolder
  have hroot : nestedWorkspace.isFolder (Path.ofString "_r") = true := by decide
  obtain ⟨hhead, hmem, _⟩ := foldersBelow_iff_admitted hw ["vendor"] hroot
  refine ⟨hw, hroot, hhead, (hmem _).2 ⟨["a", "c"], by decide, by decide, by decide⟩, fun hin => ?_⟩
  obtain ⟨names, hpath, _, hnames⟩ := (hmem _).1 hin
  have hparts : ["_r"] ++ ["vendor", "a"] = ["_r"] ++ names := congrArg Path.parts hpath
  obtain rfl : ["vendor", "a"] = names := List.append_cancel_left hparts
  exact (hnames "vendor" List.mem_cons_self).2.2 List.mem_cons_self

end Workspace

end ImportGuard
