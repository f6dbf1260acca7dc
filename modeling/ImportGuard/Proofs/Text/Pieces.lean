import ImportGuard.Text.Pieces
import Mathlib.Data.List.TakeWhile

/-!
# Texts and their parts

Cutting at every separator is the library's `List.splitOn` (`splitOn_eq`), so joining undoes it.  What
stands after the last separator ends the text (`eq_append_afterLast`), and without a separator it is
the text (`afterLast_of_not_mem`).
-/

namespace ImportGuard.Pieces

theorem splitOn_eq (sep : Char) (text : List Char) : splitOn sep text = text.splitOn sep := by
  induction text with
  | nil => rfl
  | cons c text ih =>
    rw [splitOn, ih, List.splitOn_eq_splitOnP, List.splitOn_eq_splitOnP,
      List.splitOnP_cons_eq_if_modifyHead]
    cases hparts : text.splitOnP (· == sep) with
    | nil => exact absurd hparts (List.splitOnP_ne_nil _ _)
    | cons part parts => simp

theorem splitOn_cons_self (sep : Char) (text : List Char) :
    splitOn sep (sep :: text) = [] :: splitOn sep text := by
  rw [splitOn]
  cases hparts : splitOn sep text with
  | nil =>
    rw [splitOn_eq] at hparts
    exact absurd hparts (List.splitOn_ne_nil _ _)
  | cons part parts => simp

theorem mem_of_mem_splitOn {sep c : Char} {text part : List Char} (hpart : part ∈ splitOn sep text)
    (hc : c ∈ part) : c ∈ text ∧ c ≠ sep := by
  induction text generalizing part with
  | nil =>
    rw [List.mem_singleton.1 hpart] at hc
    exact absurd hc (by simp)
  | cons d text ih =>
    rw [splitOn] at hpart
    cases hparts : splitOn sep text with
    | nil =>
      rw [splitOn_eq] at hparts
      exact absurd hparts (List.splitOn_ne_nil _ _)
    | cons first parts =>
      rw [hparts] at ih
      have hrest : ∀ {l}, l ∈ first :: parts → c ∈ l → c ∈ d :: text ∧ c ≠ sep := fun hl hcl =>
        ⟨List.mem_cons_of_mem d (ih hl hcl).1, (ih hl hcl).2⟩
      by_cases hd : d = sep
      · simp only [hparts, hd, if_true] at hpart
        rcases List.mem_cons.1 hpart with rfl | hpart
        · exact absurd hc (by simp)
        · exact hrest hpart hc
      · simp only [hparts, hd, if_false] at hpart
        rcases List.mem_cons.1 hpart with rfl | hpart
        · rcases List.mem_cons.1 hc with rfl | hc
          · exact ⟨List.mem_cons_self, hd⟩
          · exact hrest List.mem_cons_self hc
        · exact hrest (List.mem_cons_of_mem first hpart) hc

theorem forall_mem_intercalate {P : Char → Prop} {sep : List Char} {parts : List (List Char)}
    (hsep : ∀ c ∈ sep, P c) (hparts : ∀ part ∈ parts, ∀ c ∈ part, P c) :
    ∀ c ∈ sep.intercalate parts, P c := by
  induction parts with
  | nil => simp
  | cons part parts ih =>
    have hrest := ih fun l hl => hparts l (List.mem_cons_of_mem part hl)
    have hpart := hparts part List.mem_cons_self
    cases parts with
    | nil => simpa using hpart
    | cons next parts =>
      rw [List.intercalate_cons_cons]
      intro c hc
      rcases List.mem_append.1 hc with hc | hc
      · rcases List.mem_append.1 hc with hc | hc
        · exact hpart c hc
        · exact hsep c hc
      · exact hrest c hc

/-- Cutting undoes the joining of parts that are free of the separator. -/
theorem map_splitOn_intercalate {sep : Char} {parts : List String} (hne : parts ≠ [])
    (h : ∀ part ∈ parts, sep ∉ part.toList) :
    (splitOn sep ([sep].intercalate (parts.map String.toList))).map String.ofList = parts := by
  have hid : String.ofList ∘ String.toList = id := funext fun _ => String.ofList_toList
  have hparts : ∀ l ∈ parts.map String.toList, sep ∉ l := by
    intro l hl
    obtain ⟨part, hpart, rfl⟩ := List.mem_map.1 hl
    exact h part hpart
  rw [splitOn_eq, List.splitOn_intercalate sep hparts (by simpa using hne), List.map_map, hid,
    List.map_id]

/-- The last separator and what stands after it end the text. -/
theorem eq_append_afterLast {sep : Char} {text : List Char} (h : sep ∈ text) :
    ∃ front, text = front ++ sep :: afterLast sep text := by
  obtain ⟨tail, front, hsplit, htail⟩ := List.eq_append_cons_of_mem (List.mem_reverse.2 h)
  have hafter : afterLast sep text = tail.reverse := by
    have hall : ∀ c ∈ tail, decide (c ≠ sep) = true := by
      intro c hc
      exact decide_eq_true fun he => htail (he ▸ hc)
    rw [afterLast, hsplit, List.takeWhile_append_of_pos hall]
    simp
  refine ⟨front.reverse, ?_⟩
  rw [hafter]
  simpa using congrArg List.reverse hsplit

theorem not_mem_afterLast (sep : Char) (text : List Char) : sep ∉ afterLast sep text := by
  intro hmem
  have htaken := List.mem_takeWhile_imp (List.mem_reverse.1 hmem)
  exact absurd rfl (of_decide_eq_true htaken)

theorem afterLast_of_not_mem {sep : Char} {text : List Char} (h : sep ∉ text) :
    afterLast sep text = text := by
  have hall : ∀ c ∈ text.reverse, decide (c ≠ sep) = true := by
    intro c hc
    exact decide_eq_true fun he => h (he ▸ List.mem_reverse.1 hc)
  rw [afterLast, List.takeWhile_eq_self_iff.2 hall, List.reverse_reverse]

end ImportGuard.Pieces
