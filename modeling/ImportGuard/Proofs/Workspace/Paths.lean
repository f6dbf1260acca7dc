import ImportGuard.Proofs.Text.Pieces
import ImportGuard.Workspace.Path

/-!
# Paths and their texts

A path is **plain** if its parts are such as reading a text gives.  A plain path is told by its text
(`ofString_render`), so findings in files with different plain paths name different files
(`render_injective`).
-/

namespace ImportGuard

structure IsPart (part : String) : Prop where
  ne_empty : part ≠ ""
  ne_dot : part ≠ "."
  noSlash : '/' ∉ part.toList

theorem isPart_dots : IsPart ".." := by
  constructor <;> decide

/-- A text that can be the name of a member of a folder. -/
structure IsName (name : String) : Prop extends IsPart name where
  ne_dots : name ≠ ".."

instance (name : String) : Decidable (IsName name) :=
  decidable_of_iff (name ≠ "" ∧ name ≠ "." ∧ '/' ∉ name.toList ∧ name ≠ "..")
    ⟨fun ⟨hempty, hdot, hslash, hdots⟩ => ⟨⟨hempty, hdot, hslash⟩, hdots⟩,
      fun h => ⟨h.ne_empty, h.ne_dot, h.noSlash, h.ne_dots⟩⟩

namespace Path

/-- A path with proper parts. -/
def Plain (path : Path) : Prop :=
  ∀ part ∈ path.parts, IsPart part

@[simp] theorem parent_child (path : Path) (name : String) : (path.child name).parent = path := by
  simp [parent, child]

@[simp] theorem child_inj {path : Path} {name name' : String} :
    path.child name = path.child name' ↔ name = name' := by
  simp [child]

theorem child_parent_name {path : Path} (h : path.parts ≠ []) :
    path.parent.child path.name = path := by
  obtain ⟨root, parts⟩ := path
  have hlast : parts.dropLast ++ [parts.getLastD ""] = parts := by
    rw [List.getLastD_eq_getLast?, List.getLast?_eq_some_getLast h, Option.getD_some,
      List.dropLast_concat_getLast]
  simp only [parent, child, name, hlast]

/-- The ending of a path ends its last part. -/
theorem suffix_of_ending {path : Path} {text : String} (hne : text ≠ "") (h : path.ending = text) :
    text.toList.isSuffixOf path.name.toList = true := by
  simp only [ending] at h
  split at h
  · rename_i hcond
    obtain ⟨front, hfront⟩ := Pieces.eq_append_afterLast hcond.1
    rw [← h, String.toList_ofList, List.isSuffixOf_iff_suffix]
    exact ⟨front, hfront.symm⟩
  · exact absurd h.symm hne

/-! ### Texts of plain paths -/

def joined (path : Path) : List Char :=
  ['/'].intercalate (path.parts.map String.toList)

/-- What stands behind the root starts with no slash. -/
theorem takeWhile_joined {path : Path} (h : path.Plain) :
    path.joined.takeWhile (· = '/') = [] := by
  unfold joined
  cases hparts : path.parts with
  | nil => rfl
  | cons part rest =>
    have hpart : IsPart part := h part (hparts ▸ List.mem_cons_self)
    cases hchars : part.toList with
    | nil => exact absurd (String.toList_eq_nil_iff.1 hchars) hpart.ne_empty
    | cons c chars =>
      have hc : c ≠ '/' := by
        rintro rfl
        exact hpart.noSlash (hchars ▸ List.mem_cons_self)
      cases rest with
      | nil => simp [hchars, hc]
      | cons next rest => simp [List.intercalate_cons_cons, hchars, hc]

theorem ofChars_text_append (root : Root) {chars : List Char}
    (h : chars.takeWhile (· = '/') = []) : Root.ofChars (root.text.toList ++ chars) = root := by
  cases root with
  | here => simp [Root.ofChars, Root.text, h]
  | slash => simp [Root.ofChars, Root.text, h]
  | slashes => simp [Root.ofChars, Root.text, h]

/-- The slashes of a root cut off empty texts, which are no parts. -/
theorem filter_splitOn_text_append (root : Root) (chars : List Char) :
    ((Pieces.splitOn '/' (root.text.toList ++ chars)).map String.ofList).filter
        (fun part => part != "" && part != ".") =
      ((Pieces.splitOn '/' chars).map String.ofList).filter
        fun part => part != "" && part != "." := by
  cases root with
  | here => rfl
  | slash =>
    show ((Pieces.splitOn '/' ('/' :: chars)).map _).filter _ = _
    rw [Pieces.splitOn_cons_self]
    rfl
  | slashes =>
    show ((Pieces.splitOn '/' ('/' :: '/' :: chars)).map _).filter _ = _
    rw [Pieces.splitOn_cons_self, Pieces.splitOn_cons_self]
    rfl

theorem filter_splitOn_joined {path : Path} (h : path.Plain) :
    ((Pieces.splitOn '/' path.joined).map String.ofList).filter
        (fun part => part != "" && part != ".") = path.parts := by
  unfold joined
  cases hparts : path.parts with
  | nil => rfl
  | cons part rest =>
    rw [← hparts, Pieces.map_splitOn_intercalate (by simp [hparts]) fun p hp => (h p hp).noSlash,
      List.filter_eq_self]
    intro p hp
    rw [Bool.and_eq_true, bne_iff_ne, bne_iff_ne]
    exact ⟨(h p hp).ne_empty, (h p hp).ne_dot⟩

theorem toList_render {path : Path} (h : ¬ (path.root = .here ∧ path.parts = [])) :
    path.render.toList = path.root.text.toList ++ path.joined := by
  rw [render, if_neg h, String.toList_append, String.toList_intercalate]
  rfl

/-- **A plain path is read back from its text.** -/
theorem ofString_render {path : Path} (h : path.Plain) : ofString path.render = path := by
  by_cases hempty : path.root = .here ∧ path.parts = []
  · obtain ⟨root, parts⟩ := path
    obtain ⟨rfl, rfl⟩ := hempty
    decide
  · rw [ofString, toList_render hempty, ofChars_text_append path.root (takeWhile_joined h),
      filter_splitOn_text_append, filter_splitOn_joined h]

/-- Plain paths with one text are one path. -/
theorem render_injective {p q : Path} (hp : p.Plain) (hq : q.Plain) (h : p.render = q.render) :
    p = q := by
  rw [← ofString_render hp, h, ofString_render hq]

end Path

end ImportGuard
