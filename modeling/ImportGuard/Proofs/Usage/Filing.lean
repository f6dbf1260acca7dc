import ImportGuard.Usage.Scope
import Mathlib.Data.List.Nodup
import Mathlib.Data.List.Perm.Basic

/-!
# The index of uses

Uses are filed one after the other under the names that they select.  Read back, the index is what
one would write down from the list of uses at once: it has a name exactly if some use selects the
name (`any_index`), and under the name **the places of the uses that select it, in order of their
offsets** (`placesOf_index`).  All in all it files each use once (`perm_entries_index`).

`scan_eq` splits a scan into its two cases: an import without a name of its own counts as used as a
whole, and any other is looked for under its name (`scanName`).
-/

namespace ImportGuard.Usage

/-! ### Looking a name up -/

theorem lookup_map_values {β γ : Type} (g : String → β → γ) (entries : List (String × β))
    (name : String) :
    (entries.map fun entry => (entry.1, g entry.1 entry.2)).lookup name =
      (entries.lookup name).map (g name) := by
  induction entries with
  | nil => rfl
  | cons entry rest ih =>
    obtain ⟨key, value⟩ := entry
    by_cases hname : name = key
    · subst hname
      simp
    · have hne : (name == key) = false := by simpa using hname
      simpa [List.lookup_cons, hne] using ih

theorem isSome_lookup {β : Type} (entries : List (String × β)) (name : String) :
    (entries.lookup name).isSome = entries.any (·.1 = name) := by
  rw [Bool.eq_iff_iff, List.lookup_isSome_iff, List.any_eq_true]
  refine exists_congr fun entry => and_congr_right fun _ => ?_
  rw [beq_iff_eq, decide_eq_true_eq, eq_comm]

/-! ### Filing one use -/

theorem file_eq (index : Index) (use : Use) :
    file index use =
      if index.any (·.1 = use.name) then
        index.map fun entry =>
          (entry.1, if entry.1 = use.name then entry.2 ++ [use.place] else entry.2)
      else index ++ [(use.name, [use.place])] := by
  unfold file
  refine if_congr Iff.rfl (List.map_congr_left fun entry _ => ?_) rfl
  show (if entry.1 = use.name then _ else _) = _
  split <;> rfl

theorem any_file (index : Index) (use : Use) (name : String) :
    (file index use).any (·.1 = name) = (index.any (·.1 = name) || decide (use.name = name)) := by
  rw [file_eq]
  split
  · rename_i hknown
    rw [List.any_map]
    show index.any (·.1 = name) = _
    by_cases hname : use.name = name
    · rw [← hname, hknown]
      rfl
    · simp [hname]
  · simp

/-- **Filing a use adds its place under the name that it selects** and changes nothing else. -/
theorem placesOf_file (index : Index) (use : Use) (name : String) :
    placesOf (file index use) name =
      placesOf index name ++ (if use.name = name then [use.place] else []) := by
  rw [file_eq]
  by_cases hname : use.name = name
  · subst hname
    rw [if_pos rfl]
    split
    · rename_i hknown
      rw [← isSome_lookup, Option.isSome_iff_exists] at hknown
      obtain ⟨places, hplaces⟩ := hknown
      simp only [placesOf]
      rw [lookup_map_values fun key places =>
        if key = use.name then places ++ [use.place] else places, hplaces]
      simp
    · rename_i hnew
      have hnone : index.lookup use.name = none := by
        rw [← Option.not_isSome_iff_eq_none, isSome_lookup]
        exact hnew
      simp [placesOf, List.lookup_append, hnone]
  · rw [if_neg hname, List.append_nil]
    split
    · simp only [placesOf]
      rw [lookup_map_values fun key places =>
        if key = use.name then places ++ [use.place] else places]
      simp [Ne.symm hname]
    · have hne : (name == use.name) = false := by simpa using Ne.symm hname
      simp [placesOf, List.lookup_append, List.lookup_cons, hne]

/-! ### Filing all uses -/

theorem any_foldl_file (uses : List Use) (index : Index) (name : String) :
    (uses.foldl file index).any (·.1 = name) =
      (index.any (·.1 = name) || uses.any (·.name = name)) := by
  induction uses generalizing index with
  | nil => simp
  | cons use rest ih => rw [List.foldl_cons, ih, any_file, List.any_cons, Bool.or_assoc]

theorem placesOf_foldl_file (uses : List Use) (index : Index) (name : String) :
    placesOf (uses.foldl file index) name =
      placesOf index name ++ (uses.filter (·.name = name)).map (·.place) := by
  induction uses generalizing index with
  | nil => simp
  | cons use rest ih =>
    rw [List.foldl_cons, ih, placesOf_file]
    by_cases hname : use.name = name
    · simp [hname]
    · simp [hname]

theorem any_index (uses : List Use) (name : String) :
    (index uses).any (·.1 = name) = uses.any (·.name = name) := by
  have hfold := any_foldl_file uses [] name
  rw [List.any_nil, Bool.false_or] at hfold
  rw [index, List.any_map, ← hfold]
  rfl

/-- Something is filed exactly if there are uses. -/
theorem isEmpty_index (uses : List Use) : (index uses).isEmpty = uses.isEmpty := by
  cases uses with
  | nil => rfl
  | cons use rest =>
    have hany := any_index (use :: rest) use.name
    rw [List.any_cons, decide_eq_true rfl, Bool.true_or] at hany
    cases hindex : index (use :: rest) with
    | nil => simp [hindex] at hany
    | cons entry entries => rfl

/-- **Under a name stand the places of the uses that select it, in order of their offsets.** -/
theorem placesOf_index (uses : List Use) (name : String) :
    placesOf (index uses) name =
      ((uses.filter (·.name = name)).map (·.place)).mergeSort fun a b => a.offset ≤ b.offset := by
  have hfold := placesOf_foldl_file uses [] name
  rw [show placesOf [] name = [] from rfl, List.nil_append] at hfold
  rw [← hfold]
  simp only [placesOf, index]
  rw [lookup_map_values fun _ (places : List Place) =>
    places.mergeSort fun a b => a.offset ≤ b.offset]
  cases (uses.foldl file []).lookup name with
  | none => simp
  | some places => rfl

theorem sorted_placesOf_index (uses : List Use) (name : String) :
    (placesOf (index uses) name).Pairwise fun a b => a.offset ≤ b.offset := by
  have hsorted : (placesOf (index uses) name).Pairwise fun a b =>
      decide (a.offset ≤ b.offset) = true := by
    rw [placesOf_index]
    apply List.pairwise_mergeSort
    · intro a b c hab hbc
      simp only [decide_eq_true_eq] at *
      omega
    · intro a b
      simp only [Bool.or_eq_true, decide_eq_true_eq]
      omega
  exact hsorted.imp fun h => of_decide_eq_true h

/-! ### All that is filed -/

/-- Everything that an index files: the places, each with the name it stands under. -/
def entries (index : Index) : List (String × Place) :=
  index.flatMap fun entry => entry.2.map fun place => (entry.1, place)

/-- What is filed of a use: its place, under the name that it selects. -/
def entryOf (use : Use) : String × Place :=
  (use.name, use.place)

/-- Filing a use starts a name, or takes up a name that is there. -/
theorem keys_file (index : Index) (use : Use) :
    (file index use).map (·.1) =
      if index.any (·.1 = use.name) then index.map (·.1) else index.map (·.1) ++ [use.name] := by
  rw [file_eq]
  split
  · rw [List.map_map]
    rfl
  · rw [List.map_append]
    rfl

theorem nodup_keys_file {index : Index} (h : (index.map (·.1)).Nodup) (use : Use) :
    ((file index use).map (·.1)).Nodup := by
  rw [keys_file]
  split
  · exact h
  · rename_i hnew
    refine List.Nodup.append h (List.nodup_singleton _) ?_
    rw [List.disjoint_singleton]
    intro hmem
    obtain ⟨entry, hentry, hname⟩ := List.mem_map.1 hmem
    exact hnew (List.any_eq_true.2 ⟨entry, hentry, decide_eq_true hname⟩)

/-- **Filing a use adds one entry.** -/
theorem perm_entries_file {index : Index} (h : (index.map (·.1)).Nodup) (use : Use) :
    (entries (file index use)).Perm (entryOf use :: entries index) := by
  rw [file_eq]
  split
  · rename_i hknown
    obtain ⟨entry, hentry, hname⟩ := List.any_eq_true.1 hknown
    have hname : entry.1 = use.name := of_decide_eq_true hname
    obtain ⟨before, after, rfl⟩ := List.append_of_mem hentry
    rw [List.map_append, List.map_cons, List.nodup_middle, List.nodup_cons, ← List.map_append] at h
    -- the name of the use stands in one entry only, so the others stay as they are
    have hsame : ∀ other ∈ before ++ after, (other.1,
        if other.1 = use.name then other.2 ++ [use.place] else other.2) = other := by
      intro other hother
      rw [if_neg fun heq => h.1 (List.mem_map.2 ⟨other, hother, heq.trans hname.symm⟩)]
    have hkeep : ∀ l : Index, l ⊆ before ++ after → l.map (fun other => (other.1,
        if other.1 = use.name then other.2 ++ [use.place] else other.2)) = l := by
      intro l hl
      exact (List.map_congr_left fun other hother => hsame other (hl hother)).trans (List.map_id l)
    rw [List.map_append, List.map_cons, hkeep before (List.subset_append_left _ _),
      hkeep after (List.subset_append_right _ _), if_pos hname]
    unfold entries
    rw [List.flatMap_append, List.flatMap_cons, List.flatMap_append, List.flatMap_cons,
      List.map_append, List.append_assoc]
    rw [show entryOf use = (entry.1, use.place) by rw [entryOf, hname]]
    exact (List.perm_middle.append_left _).trans List.perm_middle
  · unfold entries
    rw [List.flatMap_append]
    exact List.perm_append_comm

theorem perm_entries_foldl (uses : List Use) {index : Index} (h : (index.map (·.1)).Nodup) :
    (entries (uses.foldl file index)).Perm (uses.map entryOf ++ entries index) := by
  induction uses generalizing index with
  | nil => exact List.Perm.refl _
  | cons use rest ih =>
    have hrest := ih (nodup_keys_file h use)
    have huse := (perm_entries_file h use).append_left (rest.map entryOf)
    exact (hrest.trans huse).trans List.perm_middle

/-- **The index files each use once**: its place, under the name that it selects. -/
theorem perm_entries_index (uses : List Use) : (entries (index uses)).Perm (uses.map entryOf) := by
  have hfold : (entries (uses.foldl file [])).Perm (uses.map entryOf ++ []) :=
    perm_entries_foldl uses List.nodup_nil
  have hsorted : (entries (index uses)).Perm (entries (uses.foldl file [])) := by
    unfold entries index
    rw [List.flatMap_map]
    exact List.Perm.flatMap_left _ fun entry _ => (List.mergeSort_perm _ _).map _
  rw [List.append_nil] at hfold
  exact hsorted.trans hfold

/-- A name is filed with its first place, so none stands in an index without a place. -/
theorem index_ne_singleton_nil (uses : List Use) (name : String) :
    index uses ≠ [(name, [])] := by
  intro h
  have hkey := any_index uses name
  have hplaces := placesOf_index uses name
  rw [h] at hkey hplaces
  obtain ⟨use, huse, hname⟩ := List.any_eq_true.1 (hkey.symm.trans (by simp))
  have hmem : use.place ∈ (uses.filter (·.name = name)).map (·.place) :=
    List.mem_map_of_mem (List.mem_filter.2 ⟨huse, hname⟩)
  have hplace : use.place ∈ placesOf [(name, [])] name := by
    rw [hplaces]
    exact List.mem_mergeSort.2 hmem
  simp [placesOf] at hplace

/-! ### The two cases of a scan -/

/-- The name under which an import's uses are looked for, if it has one. -/
def scanName (qualifier : Option String) (mode : ImportMode) : Option String :=
  match mode, qualifier with
  | .blank, _ | .dot, _ | _, none => none
  | _, some qualifier => if qualifier = "" then none else some qualifier

theorem scanName_eq_some {qualifier : String} (hqualifier : qualifier ≠ "") {mode : ImportMode}
    (hmode : mode = .named ∨ mode = .guessed) : scanName (some qualifier) mode = some qualifier := by
  rcases hmode with rfl | rfl
  · exact if_neg hqualifier
  · exact if_neg hqualifier

theorem eq_of_scanName_eq_some {qualifier : Option String} {mode : ImportMode} {name : String}
    (h : scanName qualifier mode = some name) : qualifier = some name := by
  unfold scanName at h
  split at h
  · exact absurd h (by simp)
  · exact absurd h (by simp)
  · exact absurd h (by simp)
  · split at h
    · exact absurd h (by simp)
    · exact h

theorem scan_eq {m : Type → Type} [Monad m] (source : List UInt8) (root : Node)
    (qualifier : Option String) (mode : ImportMode) (ignored : Use → m Bool) :
    scan source root qualifier mode ignored =
      (scanName qualifier mode).elim (pure [(unspecified, [])]) fun name =>
        (usesOf source root name).filterM (fun use => not <$> ignored use) >>= fun kept =>
          pure (index kept) := by
  cases qualifier with
  | none => cases mode <;> rfl
  | some name =>
    by_cases hname : name = ""
    · subst hname
      cases mode <;> rfl
    · cases mode <;> simp [scan, scanName, hname]

theorem filterAuxM_pure {m : Type → Type} [Monad m] [LawfulMonad m] {α : Type} (p : α → Bool)
    (l acc : List α) :
    l.filterAuxM (fun a => (pure (p a) : m Bool)) acc = pure ((l.filter p).reverse ++ acc) := by
  induction l generalizing acc with
  | nil => rfl
  | cons a l ih =>
    rw [List.filterAuxM, pure_bind, ih]
    cases h : p a with
    | true => simp [h]
    | false => simp [h]

/-- A scan that asks no one drops the uses that it is told to drop. -/
theorem scan_pure {m : Type → Type} [Monad m] [LawfulMonad m] (source : List UInt8) (root : Node)
    (qualifier : Option String) (mode : ImportMode) (ignored : Use → Bool) :
    scan source root qualifier mode (fun use => (pure (ignored use) : m Bool)) =
      pure ((scanName qualifier mode).elim [(unspecified, [])] fun name =>
        index ((usesOf source root name).filter fun use => !ignored use)) := by
  rw [scan_eq]
  cases scanName qualifier mode with
  | none => rfl
  | some name =>
    simp only [Option.elim_some, map_pure, List.filterM, filterAuxM_pure, pure_bind,
      List.append_nil, List.reverse_reverse]

end ImportGuard.Usage
