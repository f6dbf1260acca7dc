import ImportGuard.Proofs.Workspace.Paths
import ImportGuard.Workspace.Packages
import Mathlib.Data.List.Nodup

/-!
# Paths in a tree of folders

In a real tree of folders the names in a folder are all different, and none of them is empty, has a
slash or means another folder.  A workspace with such a tree is **well formed** (`WellFormed`), and
stays so when files and folders are added under such names (`WellFormed.add`).

* `get?_child`: a path to a member of a folder leads where the folder's list of members says.
* `WellFormed.plain`: the path of an entry is plain, so its text tells it from all others.
* `mem_goFilesIn`: the Go files in a folder are those that can be reached by their paths.
* `nodup_goFilesIn`: they are listed once each.
-/

namespace ImportGuard

/-- In a list of pairs with different keys, a key is looked up to the value it stands with. -/
theorem lookup_eq_some_iff_mem {α β : Type} [BEq α] [LawfulBEq α] {pairs : List (α × β)}
    (h : (pairs.map (·.1)).Nodup) {key : α} {value : β} :
    pairs.lookup key = some value ↔ (key, value) ∈ pairs := by
  constructor
  · intro hlookup
    obtain ⟨before, behind, rfl, _⟩ := List.lookup_eq_some_iff.1 hlookup
    simp
  · intro hmem
    induction pairs with
    | nil => exact absurd hmem (by simp)
    | cons pair pairs ih =>
      rw [List.map_cons, List.nodup_cons] at h
      rcases List.mem_cons.1 hmem with rfl | hmem
      · simp
      · have hne : (key == pair.1) = false := by
          rw [beq_eq_false_iff_ne]
          intro hkey
          exact h.1 (List.mem_map.2 ⟨_, hmem, hkey⟩)
        rw [List.lookup_cons, hne]
        exact ih h.2 hmem

namespace Entry

/-- A tree in which the names in every folder are proper and different. -/
inductive WellFormed : Entry → Prop
  | file (number : Nat) : WellFormed (.file number)
  | folder {entries : List (String × Entry)} (names : ∀ m ∈ entries, IsName m.1)
      (distinct : (entries.map (·.1)).Nodup) (members : ∀ m ∈ entries, WellFormed m.2) :
      WellFormed (.folder entries)

theorem WellFormed.names {entry : Entry} (h : entry.WellFormed) : ∀ m ∈ entry.entries, IsName m.1 := by
  cases h with
  | file => simp [entries]
  | folder names => exact names

theorem WellFormed.distinct {entry : Entry} (h : entry.WellFormed) :
    (entry.entries.map (·.1)).Nodup := by
  cases h with
  | file => simp [entries]
  | folder _ distinct => exact distinct

theorem WellFormed.members {entry : Entry} (h : entry.WellFormed) :
    ∀ m ∈ entry.entries, m.2.WellFormed := by
  cases h with
  | file => simp [entries]
  | folder _ _ members => exact members

/-! ### Looking up -/

/-- One step of looking a path up: nowhere from the top, back to the folder above, or on to a
member. -/
theorem lookup_cons_eq_ok {above : List Entry} {entry found : Entry} {part : String}
    {parts : List String} (h : lookup above entry (part :: parts) = .ok found) :
    entry.isFolder = true ∧
      ((part = ".." ∧ above = [] ∧ lookup [] entry parts = .ok found) ∨
        (∃ parent rest, part = ".." ∧ above = parent :: rest ∧
          lookup rest parent parts = .ok found) ∨
        ∃ member, part ≠ ".." ∧ entry.entries.lookup part = some member ∧
          lookup (entry :: above) member parts = .ok found) := by
  cases entry with
  | file number => simp [lookup] at h
  | folder members =>
    refine ⟨rfl, ?_⟩
    rw [lookup.eq_def] at h
    simp only at h
    split at h
    · rename_i hdots
      cases above with
      | nil => exact Or.inl ⟨hdots, rfl, h⟩
      | cons parent above => exact Or.inr (Or.inl ⟨parent, above, hdots, rfl, h⟩)
    · rename_i hdots
      cases hmember : members.lookup part with
      | none => simp [hmember] at h
      | some member =>
        rw [hmember] at h
        exact Or.inr (Or.inr ⟨member, hdots, hmember, h⟩)

/-- What a path leads to in a well-formed tree is well formed, and each part of the path goes back
or is the name of a member. -/
theorem WellFormed.of_lookup {above : List Entry} {entry found : Entry} {parts : List String}
    (habove : ∀ e ∈ above, e.WellFormed) (hentry : entry.WellFormed)
    (h : lookup above entry parts = .ok found) :
    found.WellFormed ∧ ∀ part ∈ parts, IsPart part := by
  induction parts generalizing above entry with
  | nil =>
    have hfound : entry = found := by simpa [lookup] using h
    exact ⟨hfound ▸ hentry, fun _ hpart => absurd hpart List.not_mem_nil⟩
  | cons part parts ih =>
    rw [List.forall_mem_cons]
    obtain ⟨_, ⟨rfl, rfl, htop⟩ | ⟨parent, rest, rfl, rfl, hback⟩ | ⟨member, _, hmember, hon⟩⟩ :=
      lookup_cons_eq_ok h
    · obtain ⟨hfound, hparts⟩ := ih habove hentry htop
      exact ⟨hfound, isPart_dots, hparts⟩
    · obtain ⟨hfound, hparts⟩ := ih (fun e he => habove e (List.mem_cons_of_mem _ he))
        (habove parent List.mem_cons_self) hback
      exact ⟨hfound, isPart_dots, hparts⟩
    · have hmem := (lookup_eq_some_iff_mem hentry.distinct).1 hmember
      obtain ⟨hfound, hparts⟩ := ih (List.forall_mem_cons.2 ⟨hentry, habove⟩)
        (hentry.members _ hmem) hon
      exact ⟨hfound, (hentry.names _ hmem).toIsPart, hparts⟩

/-- **The last part of a path is looked up in the folder that the other parts lead to.** -/
theorem toOption_lookup_concat {name : String} (hname : name ≠ "..") (above : List Entry)
    (entry : Entry) (parts : List String) :
    (lookup above entry (parts ++ [name])).toOption =
      (lookup above entry parts).toOption.bind fun found => found.entries.lookup name := by
  induction parts generalizing above entry with
  | nil =>
    cases entry with
    | file number => rfl
    | folder members =>
      simp only [List.nil_append, lookup, hname, if_false]
      show _ = members.lookup name
      cases members.lookup name with
      | none => rfl
      | some member => rfl
  | cons part parts ih =>
    cases entry with
    | file number => rfl
    | folder members =>
      simp only [List.cons_append, lookup]
      split
      · cases above with
        | nil => exact ih [] (.folder members)
        | cons parent above => exact ih above parent
      · cases members.lookup part with
        | none => rfl
        | some member => exact ih _ member

/-! ### Adding -/

theorem map_fst_alter (name : String) (change : Option Entry → Entry)
    (members : List (String × Entry)) :
    (alter name change members).map (·.1) =
      if name ∈ members.map (·.1) then members.map (·.1) else members.map (·.1) ++ [name] := by
  induction members with
  | nil => simp [alter]
  | cons member rest ih =>
    obtain ⟨name', entry⟩ := member
    by_cases hname : name' = name
    · subst hname
      simp [alter]
    · rw [alter, if_neg hname, List.map_cons, ih]
      by_cases hmem : name ∈ rest.map (·.1)
      · simp [hmem]
      · simp [hmem, Ne.symm hname]

/-- A member after a change is one from before, or the changed one. -/
theorem mem_alter {name : String} {change : Option Entry → Entry} {members : List (String × Entry)}
    {m : String × Entry} (h : m ∈ alter name change members) :
    m ∈ members ∨ m = (name, change none) ∨
      ∃ old, (name, old) ∈ members ∧ m = (name, change (some old)) := by
  induction members with
  | nil => exact Or.inr (Or.inl (by simpa [alter] using h))
  | cons member rest ih =>
    obtain ⟨name', entry⟩ := member
    by_cases hname : name' = name
    · subst hname
      rw [alter, if_pos rfl] at h
      rcases List.mem_cons.1 h with rfl | h
      · exact Or.inr (Or.inr ⟨entry, List.mem_cons_self, rfl⟩)
      · exact Or.inl (List.mem_cons_of_mem _ h)
    · rw [alter, if_neg hname] at h
      rcases List.mem_cons.1 h with rfl | h
      · exact Or.inl List.mem_cons_self
      · rcases ih h with hold | hnew | ⟨old, hold, rfl⟩
        · exact Or.inl (List.mem_cons_of_mem _ hold)
        · exact Or.inr (Or.inl hnew)
        · exact Or.inr (Or.inr ⟨old, List.mem_cons_of_mem _ hold, rfl⟩)

/-- **Adding under proper names keeps a tree well formed.** -/
theorem WellFormed.put {entry : Entry} (hentry : entry.WellFormed) {parts : List String}
    (hparts : ∀ part ∈ parts, IsName part) {old : Option Entry} (hold : ∀ e ∈ old, e.WellFormed) :
    (put entry parts old).WellFormed := by
  induction parts generalizing old with
  | nil =>
    unfold Entry.put
    split
    · exact hold _ rfl
    · exact hentry
  | cons part parts ih =>
    have hrest : ∀ {old : Option Entry}, (∀ e ∈ old, e.WellFormed) →
        (Entry.put entry parts old).WellFormed :=
      ih fun p hp => hparts p (List.mem_cons_of_mem part hp)
    have hmembers : WellFormed (.folder ((old.map entries).getD [])) := by
      cases old with
      | none => exact .folder (by simp) (by simp) (by simp)
      | some e =>
        have he := hold e rfl
        exact .folder he.names he.distinct he.members
    rw [Entry.put]
    refine .folder ?_ ?_ ?_
    · intro m hm
      rcases mem_alter hm with hm | rfl | ⟨_, _, rfl⟩
      · exact hmembers.names m hm
      · exact hparts part List.mem_cons_self
      · exact hparts part List.mem_cons_self
    · rw [map_fst_alter]
      split
      · exact hmembers.distinct
      · rename_i hnew
        exact List.nodup_append.2 ⟨hmembers.distinct, List.nodup_singleton part,
          fun a ha b hb he => hnew (List.mem_singleton.1 hb ▸ he ▸ ha)⟩
    · intro m hm
      rcases mem_alter hm with hm | rfl | ⟨e, he, rfl⟩
      · exact hmembers.members m hm
      · exact hrest (by simp)
      · exact hrest (by simpa using hmembers.members _ he)

end Entry

namespace Workspace

def WellFormed (workspace : Workspace) : Prop :=
  workspace.top.WellFormed

variable {workspace : Workspace}

theorem WellFormed.add (h : workspace.WellFormed) {path : Path}
    (hpath : ∀ part ∈ workspace.partsOf path, IsName part) {entry : Entry}
    (hentry : entry.WellFormed) : (workspace.add path entry).WellFormed :=
  Entry.WellFormed.put hentry hpath (by simpa [WellFormed] using h)

theorem WellFormed.addFile (h : workspace.WellFormed) {path : Path}
    (hpath : ∀ part ∈ workspace.partsOf path, IsName part)
    (content : Except AccessError (List UInt8)) : (workspace.addFile path content).WellFormed :=
  h.add hpath (.file workspace.contents.length)

theorem wellFormed_empty (start : List String) : WellFormed { start := start } :=
  .folder (by simp) (by simp) (by simp)

/-! ### Entries at paths -/

theorem get?_eq_some_iff {path : Path} {entry : Entry} :
    workspace.get? path = some entry ↔
      Entry.lookup [] workspace.top (workspace.partsOf path) = .ok entry := by
  rw [get?, lookup]
  cases Entry.lookup [] workspace.top (workspace.partsOf path) with
  | error why => simp [Except.toOption]
  | ok found => simp [Except.toOption]

/-- The parts of a longer path are more parts. -/
theorem partsOf_append (path : Path) (names : List String) :
    workspace.partsOf { path with parts := path.parts ++ names } =
      workspace.partsOf path ++ names := by
  unfold partsOf
  split
  · exact (List.append_assoc _ _ _).symm
  · rfl

/-- **A path to a member of a folder leads where the folder's list of members says.** -/
theorem get?_child (folder : Path) {name : String} (hname : name ≠ "..") :
    workspace.get? (folder.child name) =
      (workspace.get? folder).bind fun found => found.entries.lookup name := by
  rw [get?, get?, lookup, lookup, Path.child, partsOf_append]
  exact Entry.toOption_lookup_concat hname [] workspace.top _

theorem WellFormed.entry (h : workspace.WellFormed) {path : Path} {entry : Entry}
    (hentry : workspace.get? path = some entry) : entry.WellFormed :=
  (Entry.WellFormed.of_lookup (by simp) h (get?_eq_some_iff.1 hentry)).1

/-- **The path of an entry is plain.** -/
theorem WellFormed.plain (h : workspace.WellFormed) {path : Path} {entry : Entry}
    (hentry : workspace.get? path = some entry) : path.Plain := by
  intro part hpart
  refine (Entry.WellFormed.of_lookup (by simp) h (get?_eq_some_iff.1 hentry)).2 part ?_
  unfold partsOf
  split
  · exact List.mem_append_right _ hpart
  · exact hpart

/-! ### Reading -/

/-- The number of the file that a path leads to. -/
def fileAt? (workspace : Workspace) (path : Path) : Option Nat :=
  match workspace.get? path with
  | some (.file number) => some number
  | _ => none

theorem fileAt?_eq_some_iff {path : Path} {number : Nat} :
    workspace.fileAt? path = some number ↔ workspace.lookup path = .ok (.file number) := by
  unfold fileAt? get?
  cases workspace.lookup path with
  | error why => simp [Except.toOption]
  | ok entry =>
    cases entry with
    | file other => simp [Except.toOption]
    | folder members => simp [Except.toOption]

/-- **All paths to a file read the same.** -/
theorem read_of_fileAt? {path : Path} {number : Nat} (h : workspace.fileAt? path = some number) :
    workspace.read path = workspace.contents.getD number (.error .missing) := by
  rw [read, fileAt?_eq_some_iff.1 h]

theorem read_fail_of_fileAt? {path : Path} {number : Nat}
    (h : workspace.fileAt? path = some number) (hnumber : number < workspace.contents.length)
    (why : AccessError) : (workspace.fail number why).read path = .error why := by
  have hfail : (workspace.fail number why).fileAt? path = some number := h
  rw [read_of_fileAt? hfail, fail, List.getD_eq_getElem?_getD, List.getElem?_set_self hnumber]
  rfl

theorem read_fail_of_ne {path : Path} {number : Nat} (h : workspace.fileAt? path ≠ some number)
    (why : AccessError) : (workspace.fail number why).read path = workspace.read path := by
  have hlookup : (workspace.fail number why).lookup path = workspace.lookup path := rfl
  rw [read, read, hlookup]
  cases hentry : workspace.lookup path with
  | error why => rfl
  | ok entry =>
    cases entry with
    | folder members => rfl
    | file other =>
      have hne : number ≠ other := by
        rintro rfl
        exact h (fileAt?_eq_some_iff.2 hentry)
      simp only [fail, List.getD_eq_getElem?_getD, List.getElem?_set_ne hne]

/-! ### Files -/

theorem isFile_iff {path : Path} :
    workspace.isFile path = true ↔
      ∃ entry, workspace.get? path = some entry ∧ entry.isFile = true := by
  simp [isFile, Option.any_eq_true]

theorem WellFormed.plain_of_isFile (h : workspace.WellFormed) {path : Path}
    (hfile : workspace.isFile path = true) : path.Plain := by
  obtain ⟨entry, hentry, _⟩ := isFile_iff.1 hfile
  exact h.plain hentry

/-! ### Go files -/

/-- A name that the Go files of a folder may have. -/
def isGoName (name : String) : Bool :=
  goEnding.toList.isSuffixOf name.toList

theorem ne_dots_of_isGoName {name : String} (h : isGoName name = true) : name ≠ ".." := by
  rintro rfl
  exact absurd h (by decide)

/-- **The Go files in a folder are those that can be reached by their paths.** -/
theorem mem_goFilesIn (h : workspace.WellFormed) {folder file : Path} :
    file ∈ workspace.goFilesIn folder ↔
      ∃ name, isGoName name = true ∧ file = folder.child name ∧ workspace.isFile file = true := by
  simp only [goFilesIn, Path.sort, List.mem_mergeSort, List.mem_map, List.mem_filter,
    Bool.and_eq_true, Prod.exists]
  constructor
  · rintro ⟨name, entry, ⟨hmem, hfile, hname⟩, rfl⟩
    refine ⟨name, hname, rfl, isFile_iff.2 ⟨entry, ?_, hfile⟩⟩
    cases hfolder : workspace.get? folder with
    | none => simp [hfolder] at hmem
    | some found =>
      rw [hfolder] at hmem
      rw [get?_child folder (ne_dots_of_isGoName hname), hfolder, Option.bind_some]
      exact (lookup_eq_some_iff_mem (h.entry hfolder).distinct).2 hmem
  · rintro ⟨name, hname, rfl, hfile⟩
    obtain ⟨entry, hentry, hfile⟩ := isFile_iff.1 hfile
    rw [get?_child folder (ne_dots_of_isGoName hname), Option.bind_eq_some_iff] at hentry
    obtain ⟨found, hfolder, hentry⟩ := hentry
    refine ⟨name, entry, ⟨?_, hfile, hname⟩, rfl⟩
    rw [hfolder]
    exact (lookup_eq_some_iff_mem (h.entry hfolder).distinct).1 hentry

theorem parent_of_mem_goFilesIn (h : workspace.WellFormed) {folder file : Path}
    (hfile : file ∈ workspace.goFilesIn folder) : file.parent = folder := by
  obtain ⟨name, _, rfl, _⟩ := (mem_goFilesIn h).1 hfile
  exact Path.parent_child folder name

/-- A Go file that a pattern may name is one of those in its folder. -/
theorem mem_goFilesIn_parent (h : workspace.WellFormed) {file : Path}
    (hfile : workspace.isFile file = true) (hending : file.ending = goEnding) :
    file ∈ workspace.goFilesIn file.parent := by
  have hname : isGoName file.name = true := Path.suffix_of_ending (by decide) hending
  have hparts : file.parts ≠ [] := by
    intro hnil
    have hempty : file.name = "" := by simp [Path.name, hnil]
    rw [hempty] at hname
    exact absurd hname (by decide)
  exact (mem_goFilesIn h).2 ⟨file.name, hname, (Path.child_parent_name hparts).symm, hfile⟩

theorem nodup_goFilesIn (h : workspace.WellFormed) (folder : Path) :
    (workspace.goFilesIn folder).Nodup := by
  simp only [goFilesIn, Path.sort, (List.mergeSort_perm _ _).nodup_iff]
  cases hfolder : workspace.get? folder with
  | none => simp
  | some found =>
    have hnames := (h.entry hfolder).distinct
    have hsub : ((found.entries.filter fun m => m.2.isFile && isGoName m.1).map (·.1)).Nodup :=
      hnames.sublist (List.filter_sublist.map _)
    have hchild : Function.Injective folder.child := fun _ _ he => Path.child_inj.1 he
    have hfiles := hsub.map hchild
    rw [List.map_map] at hfiles
    exact hfiles

end Workspace

end ImportGuard
