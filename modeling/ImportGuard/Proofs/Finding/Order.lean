import ImportGuard.Finding
import ImportGuard.Proofs.StableSort

/-!
# The order of findings

Findings are sorted by file name and offset, and those at one place keep the order in which they
came.  A sorted list is known from what it has at each place (`eq_mergeSort`), so the sorted findings
of several files do not depend on the order of the files, as long as the files have different names
(`sort_flatMap_perm`): ties are then findings of one file.
-/

namespace ImportGuard

/-! ### Positions -/

namespace Position

/-- The order of positions, read from the side that sorting uses. -/
theorem not_before_iff {p q : Position} :
    (!q.before p) = true ↔
      p.filename < q.filename ∨ p.filename = q.filename ∧ p.offset ≤ q.offset := by
  simp only [before, Bool.not_eq_true', Bool.or_eq_false_iff, decide_eq_false_iff_not,
    Bool.and_eq_false_iff, beq_eq_false_iff_ne, Int.not_lt]
  by_cases hlt : p.filename < q.filename
  · have hne : q.filename ≠ p.filename := fun he => String.lt_irrefl _ (he ▸ hlt)
    simp [hlt, String.lt_asymm hlt, hne]
  · by_cases heq : p.filename = q.filename
    · simp only [heq, String.lt_irrefl, not_false_eq_true, true_and, ne_eq, not_true_eq_false,
        false_or]
    · have hgt : q.filename < p.filename := by
        by_contra hge
        exact heq (String.le_antisymm hge hlt)
      simp [hlt, heq, hgt]

theorem not_before_trans {p q r : Position} (hpq : (!q.before p) = true)
    (hqr : (!r.before q) = true) : (!r.before p) = true := by
  rw [not_before_iff] at *
  rcases hpq with hpq | ⟨hpq, hoff⟩
  · rcases hqr with hqr | ⟨hqr, _⟩
    · exact Or.inl (String.lt_trans hpq hqr)
    · exact Or.inl (hqr ▸ hpq)
  · rcases hqr with hqr | ⟨hqr, hoff'⟩
    · exact Or.inl (hpq ▸ hqr)
    · exact Or.inr ⟨hpq.trans hqr, Int.le_trans hoff hoff'⟩

theorem not_before_total (p q : Position) : (!q.before p || !p.before q) = true := by
  rw [Bool.or_eq_true, not_before_iff, not_before_iff]
  by_cases hlt : p.filename < q.filename
  · exact Or.inl (Or.inl hlt)
  · by_cases hgt : q.filename < p.filename
    · exact Or.inr (Or.inl hgt)
    · have heq := String.le_antisymm hgt hlt
      rcases Int.le_total p.offset q.offset with hoff | hoff
      · exact Or.inl (Or.inr ⟨heq, hoff⟩)
      · exact Or.inr (Or.inr ⟨heq.symm, hoff⟩)

end Position

/-! ### Findings of several files -/

namespace Finding

/-- The order that findings are sorted by. -/
def notAfter (a b : Finding) : Bool :=
  !b.position.before a.position

theorem notAfter_trans (a b c : Finding) (hab : notAfter a b = true) (hbc : notAfter b c = true) :
    notAfter a c = true :=
  Position.not_before_trans hab hbc

theorem notAfter_total (a b : Finding) : (notAfter a b || notAfter b a) = true :=
  Position.not_before_total a.position b.position

theorem pairwise_sort (findings : List Finding) :
    (sort findings).Pairwise fun a b => notAfter a b = true :=
  List.pairwise_mergeSort notAfter_trans notAfter_total findings

theorem filter_level_sort (findings : List Finding) (a : Finding) :
    (sort findings).filter (level notAfter a) = findings.filter (level notAfter a) :=
  filter_level_mergeSort notAfter_trans notAfter_total findings a

theorem eq_sort {sorted findings : List Finding}
    (hs : sorted.Pairwise fun a b => notAfter a b = true)
    (h : ∀ a, sorted.filter (level notAfter a) = findings.filter (level notAfter a)) :
    sorted = sort findings :=
  eq_mergeSort notAfter_trans notAfter_total hs h

/-- It is all one whether findings are sorted or left out first. -/
theorem filter_sort (p : Finding → Bool) (findings : List Finding) :
    (sort findings).filter p = sort (findings.filter p) := by
  refine eq_sort ((pairwise_sort findings).filter p) fun a => ?_
  rw [List.filter_comm, filter_level_sort, List.filter_comm]

/-- Findings that are level are in one file. -/
theorem filename_eq_of_level {a b : Finding} (h : level notAfter a b = true) :
    b.position.filename = a.position.filename := by
  rw [level, Bool.and_eq_true, notAfter, notAfter, Position.not_before_iff,
    Position.not_before_iff] at h
  rcases h with ⟨hab | ⟨hab, _⟩, hba⟩
  · rcases hba with hba | ⟨hba, _⟩
    · exact absurd hba (String.lt_asymm hab)
    · exact hba
  · exact hab.symm

/-- Lists of which at most one is not empty can be joined in any order. -/
theorem flatMap_eq_of_perm {α β : Type} {l m : List α} {f : α → List β} (hperm : l.Perm m)
    (h : l.Pairwise fun x y => f x = [] ∨ f y = []) : l.flatMap f = m.flatMap f := by
  induction hperm with
  | nil => rfl
  | cons x _ ih => rw [List.flatMap_cons, List.flatMap_cons, ih (List.pairwise_cons.1 h).2]
  | swap x y l =>
    rcases (List.pairwise_cons.1 h).1 x List.mem_cons_self with hy | hx
    · simp [hy]
    · simp [hx]
  | trans hlm _ ih ih' => exact (ih h).trans (ih' (hlm.pairwise h Or.symm))

/-- **The sorted findings of files with different names do not depend on the order of the files.** -/
theorem sort_flatMap_perm {α : Type} {l m : List α} {f : α → List Finding} {name : α → String}
    (hperm : l.Perm m) (hnames : (l.map name).Nodup)
    (hf : ∀ x ∈ l, ∀ finding ∈ f x, finding.position.filename = name x) :
    sort (l.flatMap f) = sort (m.flatMap f) := by
  refine eq_sort (pairwise_sort _) fun a => ?_
  rw [filter_level_sort, List.filter_flatMap, List.filter_flatMap]
  refine flatMap_eq_of_perm hperm ((List.pairwise_map.1 hnames).imp_of_mem fun {x y} hx hy hne => ?_)
  -- A file with a finding that is level with `a` has the name in `a`.
  have hname : ∀ z ∈ l, (f z).filter (level notAfter a) ≠ [] → name z = a.position.filename := by
    intro z hz hnot
    obtain ⟨finding, hmem⟩ := List.exists_mem_of_ne_nil _ hnot
    obtain ⟨hmem, hlevel⟩ := List.mem_filter.1 hmem
    rw [← hf z hz finding hmem]
    exact filename_eq_of_level hlevel
  by_contra hboth
  rw [not_or] at hboth
  exact hne ((hname x hx hboth.1).trans (hname y hy hboth.2).symm)

end Finding

end ImportGuard
