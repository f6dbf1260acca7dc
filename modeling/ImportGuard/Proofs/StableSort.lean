import Mathlib.Data.List.Perm.Basic

/-!
# Stable sorting

Sorting keeps members that are **level**, neither of which has to come before the other, in their order
(`filter_level_mergeSort`).  So a sorted list is known from what it has at each level (`eq_mergeSort`).
-/

namespace ImportGuard

variable {α : Type} {le : α → α → Bool}

/-- Whether neither of two members has to come before the other. -/
def level (le : α → α → Bool) (a b : α) : Bool :=
  le a b && le b a

/-- Two sorted lists that agree at every level are equal. -/
theorem eq_of_filter_level_eq (total : ∀ a b, (le a b || le b a) = true) {s t : List α}
    (hs : s.Pairwise fun a b => le a b = true) (ht : t.Pairwise fun a b => le a b = true)
    (h : ∀ a, s.filter (level le a) = t.filter (level le a)) : s = t := by
  have hself : ∀ a, level le a a = true := by
    intro a
    simpa [level] using total a a
  have hmem : ∀ {l m : List α}, (∀ a, l.filter (level le a) = m.filter (level le a)) →
      l ⊆ m := by
    intro l m hlm a ha
    have hfilter : a ∈ m.filter (level le a) := hlm a ▸ List.mem_filter.2 ⟨ha, hself a⟩
    exact List.mem_of_mem_filter hfilter
  induction s generalizing t with
  | nil => exact (List.subset_nil.1 (hmem fun a => (h a).symm)).symm
  | cons a s ih =>
    cases t with
    | nil => exact absurd (hmem h List.mem_cons_self) List.not_mem_nil
    | cons b t =>
      rw [List.pairwise_cons] at hs ht
      -- Each head is in the other list, so they are level, and lead their level in both lists.
      have hab : le a b = true := by
        rcases List.mem_cons.1 (hmem (fun c => (h c).symm) List.mem_cons_self) with rfl | hb
        · simpa [level] using hself b
        · exact hs.1 b hb
      have hba : le b a = true := by
        rcases List.mem_cons.1 (hmem h List.mem_cons_self) with rfl | ha
        · exact hab
        · exact ht.1 a ha
      have hheads := h a
      rw [List.filter_cons_of_pos (hself a),
        List.filter_cons_of_pos (by simp [level, hab, hba])] at hheads
      obtain rfl : a = b := (List.cons.inj hheads).1
      rw [ih hs.2 ht.2]
      intro c
      have hc := h c
      by_cases hlevel : level le c a = true
      · rw [List.filter_cons_of_pos hlevel, List.filter_cons_of_pos hlevel] at hc
        exact (List.cons.inj hc).2
      · rwa [List.filter_cons_of_neg hlevel, List.filter_cons_of_neg hlevel] at hc

variable (trans : ∀ a b c, le a b = true → le b c = true → le a c = true)
  (total : ∀ a b, (le a b || le b a) = true)

include trans total

/-- Sorting keeps what is level in its order. -/
theorem filter_level_mergeSort (l : List α) (a : α) :
    (l.mergeSort le).filter (level le a) = l.filter (level le a) := by
  have hsorted : (l.filter (level le a)).Pairwise fun b c => le b c = true := by
    refine List.pairwise_of_forall_mem_list fun b hb c hc => ?_
    have hb := List.of_mem_filter hb
    have hc := List.of_mem_filter hc
    rw [level, Bool.and_eq_true] at hb hc
    exact trans b a c hb.2 hc.1
  have hsub : (l.filter (level le a)).Sublist (l.mergeSort le) :=
    List.sublist_mergeSort trans total hsorted List.filter_sublist
  have hfilter := hsub.filter (level le a)
  rw [List.filter_filter] at hfilter
  simp only [Bool.and_self] at hfilter
  exact (hfilter.eq_of_length ((List.mergeSort_perm l le).filter _).length_eq.symm).symm

/-- Of two members that are level, the one that comes first after sorting came first before. -/
theorem pair_sublist_of_mergeSort {l : List α} {a b : α} (hpair : [a, b].Sublist (l.mergeSort le))
    (hlevel : level le a b = true) : [a, b].Sublist l := by
  have hself : level le a a = true := by simpa [level] using total a a
  have hfilter := hpair.filter (level le a)
  rw [filter_level_mergeSort trans total, List.filter_cons_of_pos hself,
    List.filter_cons_of_pos hlevel, List.filter_nil] at hfilter
  exact hfilter.trans List.filter_sublist

/-- **A sorted list that agrees with another at every level is that list, sorted.** -/
theorem eq_mergeSort {s l : List α} (hs : s.Pairwise fun a b => le a b = true)
    (h : ∀ a, s.filter (level le a) = l.filter (level le a)) : s = l.mergeSort le := by
  refine eq_of_filter_level_eq total hs (List.pairwise_mergeSort trans total l) fun a => ?_
  rw [filter_level_mergeSort trans total]
  exact h a

end ImportGuard
