import ImportGuard.Syntax.Node

/-!
# The sites of a tree

The sites of a tree are its nodes with their addresses: a site is one of them exactly if its address
leads to its node (`mem_sites`).  So an address has one site, and sites below different children are
apart (`not_prefix_of_ne`).

A tree is **well nested** if the range of each child lies in that of its parent, and siblings come in
order and do not overlap.  Then two sites are nested, the one in the range of the other, or the one
ends before the other starts; and in the list of sites the outer comes before the inner, and the left
before the right (`WellNested.pairwise_sites`).
-/

namespace ImportGuard

/-- What holds of a node as soon as it holds of its children holds of every node. -/
theorem Node.induction {motive : Node → Prop}
    (step : ∀ node : Node, (∀ child ∈ node.children, motive child) → motive node) (node : Node) :
    motive node := by
  obtain ⟨kind, named, role, start, stop, children⟩ := node
  refine step _ fun child hchild => ?_
  have hlt : sizeOf child < sizeOf children := List.sizeOf_lt_of_mem hchild
  exact Node.induction step child
termination_by sizeOf node
decreasing_by
  simp only [Node.mk.sizeOf_spec]
  omega

/-- Nodes below different children are apart. -/
theorem not_prefix_of_ne {address a b : Address} {i j : Nat} (hij : i ≠ j)
    (ha : address ++ [i] <+: a) (hb : address ++ [j] <+: b) : ¬ a <+: b := by
  intro hab
  have hsame := List.prefix_of_prefix_length_le (ha.trans hab) hb (by simp)
  have heq := hsame.eq_of_length (by simp)
  simp only [List.append_cancel_left_eq, List.cons.injEq, and_true] at heq
  exact hij heq

namespace Node

/-! ### Addresses lead to nodes -/

theorem sitesAt_eq (address : Address) (node : Node) :
    node.sitesAt address = ⟨address, node⟩ :: sitesFrom address 0 node.children := by
  obtain ⟨kind, named, role, start, stop, children⟩ := node
  rw [sitesAt]

theorem mem_sitesFrom {address : Address} {i : Nat} {children : List Node} {site : Site} :
    site ∈ sitesFrom address i children ↔
      ∃ (j : Nat) (child : Node), children[j]? = some child ∧
        site ∈ child.sitesAt (address ++ [i + j]) := by
  induction children generalizing i with
  | nil => simp [sitesFrom]
  | cons first rest ih =>
    rw [sitesFrom, List.mem_append, ih]
    constructor
    · rintro (h | ⟨j, child, hchild, h⟩)
      · exact ⟨0, first, rfl, h⟩
      · refine ⟨j + 1, child, hchild, ?_⟩
        rwa [show i + (j + 1) = i + 1 + j by omega]
    · rintro ⟨j, child, hchild, h⟩
      cases j with
      | zero =>
        obtain rfl : first = child := Option.some.inj hchild
        exact Or.inl h
      | succ j =>
        refine Or.inr ⟨j, child, hchild, ?_⟩
        rwa [show i + 1 + j = i + (j + 1) by omega]

theorem mem_sitesAt {node : Node} {address : Address} {site : Site} :
    site ∈ node.sitesAt address ↔
      ∃ rest, site.address = address ++ rest ∧ node.get? rest = some site.node := by
  induction node using Node.induction generalizing address with
  | step node ih =>
    rw [sitesAt_eq, List.mem_cons, mem_sitesFrom]
    constructor
    · rintro (rfl | ⟨j, child, hchild, h⟩)
      · exact ⟨[], (List.append_nil _).symm, rfl⟩
      · obtain ⟨rest, haddress, hget⟩ := (ih child (List.mem_of_getElem? hchild)).1 h
        refine ⟨j :: rest, ?_, ?_⟩
        · rw [haddress, Nat.zero_add, List.append_assoc, List.singleton_append]
        · rw [get?, hchild]
          exact hget
    · rintro ⟨rest, haddress, hget⟩
      cases rest with
      | nil =>
        left
        rw [List.append_nil] at haddress
        obtain rfl : node = site.node := Option.some.inj hget
        rw [← haddress]
      | cons j rest =>
        right
        rw [get?] at hget
        cases hchild : node.children[j]? with
        | none => simp [hchild] at hget
        | some child =>
          rw [hchild] at hget
          refine ⟨j, child, hchild, (ih child (List.mem_of_getElem? hchild)).2 ⟨rest, ?_, hget⟩⟩
          rw [haddress, Nat.zero_add, List.append_assoc, List.singleton_append]

/-- **The sites of a tree are the nodes that addresses lead to.** -/
theorem mem_sites {root : Node} {site : Site} :
    site ∈ root.sites ↔ root.get? site.address = some site.node := by
  rw [sites, mem_sitesAt]
  simp

theorem root_mem_sites (root : Node) : ⟨[], root⟩ ∈ root.sites :=
  mem_sites.2 rfl

theorem eq_of_address_eq {root : Node} {a b : Site} (ha : a ∈ root.sites) (hb : b ∈ root.sites)
    (h : a.address = b.address) : a = b := by
  obtain ⟨address, node⟩ := a
  obtain ⟨address', node'⟩ := b
  obtain rfl : address = address' := h
  have hnode : some node = some node' := (mem_sites.1 ha).symm.trans (mem_sites.1 hb)
  rw [Option.some.inj hnode]

theorem prefix_of_mem_sitesAt {node : Node} {address : Address} {site : Site}
    (h : site ∈ node.sitesAt address) : address <+: site.address := by
  obtain ⟨rest, haddress, _⟩ := mem_sitesAt.1 h
  exact ⟨rest, haddress.symm⟩

theorem pairwise_ne_sitesFrom {address : Address} {i : Nat} {children : List Node}
    (hall : ∀ child ∈ children, ∀ address,
      (child.sitesAt address).Pairwise fun a b => a.address ≠ b.address) :
    (sitesFrom address i children).Pairwise fun a b => a.address ≠ b.address := by
  induction children generalizing i with
  | nil => exact List.Pairwise.nil
  | cons first rest ih =>
    rw [List.forall_mem_cons] at hall
    rw [sitesFrom, List.pairwise_append]
    refine ⟨hall.1 _, ih hall.2, fun a ha b hb heq => ?_⟩
    obtain ⟨j, child, _, hb⟩ := mem_sitesFrom.1 hb
    have hright := prefix_of_mem_sitesAt hb
    rw [← heq] at hright
    exact not_prefix_of_ne (by omega) (prefix_of_mem_sitesAt ha) hright (List.prefix_refl _)

/-- **No address comes up twice among the sites of a tree.** -/
theorem pairwise_ne_sitesAt (address : Address) (node : Node) :
    (node.sitesAt address).Pairwise fun a b => a.address ≠ b.address := by
  induction node using Node.induction generalizing address with
  | step node ih =>
    rw [sitesAt_eq, List.pairwise_cons]
    refine ⟨fun site hsite heq => ?_, pairwise_ne_sitesFrom ih⟩
    obtain ⟨j, child, _, hsite⟩ := mem_sitesFrom.1 hsite
    have hlength := (prefix_of_mem_sitesAt hsite).length_le
    rw [← show address = site.address from heq, List.length_append, List.length_singleton] at hlength
    omega

end Node

/-! ### Well-nested trees -/

/-- A tree in which the range of each child lies in that of its parent, and siblings come in order and
do not overlap. -/
inductive Node.WellNested : Node → Prop
  | intro {node : Node}
      (inside : ∀ child ∈ node.children, node.start ≤ child.start ∧ child.stop ≤ node.stop)
      (inOrder : node.children.Pairwise fun a b => a.stop ≤ b.start)
      (children : ∀ child ∈ node.children, WellNested child) : WellNested node

theorem Node.wellNested_iff {node : Node} :
    node.WellNested ↔
      (∀ child ∈ node.children, node.start ≤ child.start ∧ child.stop ≤ node.stop) ∧
        (node.children.Pairwise fun a b => a.stop ≤ b.start) ∧
        ∀ child ∈ node.children, child.WellNested := by
  constructor
  · rintro ⟨inside, inOrder, children⟩
    exact ⟨inside, inOrder, children⟩
  · rintro ⟨inside, inOrder, children⟩
    exact .intro inside inOrder children

mutual

def Node.decideWellNested : (node : Node) → Decidable node.WellNested
  | ⟨_, _, _, _, _, children⟩ =>
    have := Node.decideAllWellNested children
    decidable_of_iff _ Node.wellNested_iff.symm

def Node.decideAllWellNested :
    (nodes : List Node) → Decidable (∀ node ∈ nodes, node.WellNested)
  | [] => .isTrue fun _ h => absurd h List.not_mem_nil
  | node :: rest =>
    have := Node.decideWellNested node
    have := Node.decideAllWellNested rest
    decidable_of_iff _ List.forall_mem_cons.symm

end

instance : DecidablePred Node.WellNested := Node.decideWellNested

namespace Site

/-- The site `a` is above `b`, and its range has that of `b`. -/
structure Encloses (a b : Site) : Prop where
  above : a.address <+: b.address
  ne : a.address ≠ b.address
  start_le : a.node.start ≤ b.node.start
  stop_le : b.node.stop ≤ a.node.stop

/-- The site `a` ends before `b` starts, and neither is above the other. -/
structure Precedes (a b : Site) : Prop where
  stop_le : a.node.stop ≤ b.node.start
  not_above : ¬ a.address <+: b.address
  not_below : ¬ b.address <+: a.address

end Site

namespace Node.WellNested

variable {node : Node} {address : Address} {site : Site}

theorem inside (h : node.WellNested) {child : Node} (hchild : child ∈ node.children) :
    node.start ≤ child.start ∧ child.stop ≤ node.stop := by
  cases h with
  | intro inside _ _ => exact inside child hchild

theorem range_of_mem (h : node.WellNested) (hsite : site ∈ node.sitesAt address) :
    node.start ≤ site.node.start ∧ site.node.stop ≤ node.stop := by
  induction h generalizing address with
  | @intro node inside _ _ ih =>
    rw [sitesAt_eq, List.mem_cons, mem_sitesFrom] at hsite
    rcases hsite with rfl | ⟨j, child, hchild, hsite⟩
    · exact ⟨Nat.le_refl _, Nat.le_refl _⟩
    · have hmem := List.mem_of_getElem? hchild
      have hin := inside child hmem
      have hbelow := ih child hmem hsite
      omega

theorem of_mem (h : node.WellNested) (hsite : site ∈ node.sitesAt address) :
    site.node.WellNested := by
  induction h generalizing address with
  | @intro node inside inOrder children ih =>
    rw [sitesAt_eq, List.mem_cons, mem_sitesFrom] at hsite
    rcases hsite with rfl | ⟨j, child, hchild, hsite⟩
    · exact .intro inside inOrder children
    · exact ih child (List.mem_of_getElem? hchild) hsite

theorem pairwise_sitesFrom {children : List Node} {i : Nat}
    (hnested : ∀ child ∈ children, child.WellNested)
    (horder : children.Pairwise fun a b => a.stop ≤ b.start)
    (hall : ∀ child ∈ children, ∀ address,
      (child.sitesAt address).Pairwise fun a b => a.Encloses b ∨ a.Precedes b) :
    (sitesFrom address i children).Pairwise fun a b => a.Encloses b ∨ a.Precedes b := by
  induction children generalizing i with
  | nil => exact List.Pairwise.nil
  | cons first rest ih =>
    rw [List.pairwise_cons] at horder
    rw [List.forall_mem_cons] at hnested hall
    rw [sitesFrom, List.pairwise_append]
    refine ⟨hall.1 _, ih hnested.2 horder.2 hall.2, fun a ha b hb => Or.inr ?_⟩
    -- a site below the first child, and one below a later child
    obtain ⟨j, child, hchild, hb⟩ := mem_sitesFrom.1 hb
    have hmem := List.mem_of_getElem? hchild
    have hleft := prefix_of_mem_sitesAt ha
    have hright := prefix_of_mem_sitesAt hb
    refine ⟨?_, ?_, ?_⟩
    · have hfirst := hnested.1.range_of_mem ha
      have hlater := (hnested.2 child hmem).range_of_mem hb
      have hbetween := horder.1 child hmem
      omega
    · exact not_prefix_of_ne (by omega) hleft hright
    · exact not_prefix_of_ne (by omega) hright hleft

theorem pairwise_sitesAt (h : node.WellNested) (address : Address) :
    (node.sitesAt address).Pairwise fun a b => a.Encloses b ∨ a.Precedes b := by
  induction h generalizing address with
  | @intro node inside inOrder children ih =>
    rw [sitesAt_eq, List.pairwise_cons]
    refine ⟨fun site hsite => Or.inl ?_, pairwise_sitesFrom children inOrder ih⟩
    obtain ⟨j, child, hchild, hsite⟩ := mem_sitesFrom.1 hsite
    have hmem := List.mem_of_getElem? hchild
    have hin := inside child hmem
    have hbelow := (children child hmem).range_of_mem hsite
    have habove := prefix_of_mem_sitesAt hsite
    refine ⟨(List.prefix_append _ _).trans habove, ?_, ?_, ?_⟩
    · rintro rfl
      have hlength := habove.length_le
      rw [List.length_append, List.length_singleton] at hlength
      omega
    · exact Nat.le_trans hin.1 hbelow.1
    · exact Nat.le_trans hbelow.2 hin.2

/-- **In a well-nested tree the outer site comes before the inner, and the left before the right.** -/
theorem pairwise_sites {root : Node} (h : root.WellNested) :
    root.sites.Pairwise fun a b => a.Encloses b ∨ a.Precedes b :=
  h.pairwise_sitesAt []

/-- Two sites of a well-nested tree are nested, or one ends before the other starts. -/
theorem compare {root : Node} (h : root.WellNested) {a b : Site} (ha : a ∈ root.sites)
    (hb : b ∈ root.sites) :
    a = b ∨ a.Encloses b ∨ b.Encloses a ∨ a.Precedes b ∨ b.Precedes a := by
  have hpair := h.pairwise_sites
  obtain ⟨before, behind, hsplit⟩ := List.append_of_mem ha
  rw [hsplit] at hpair hb
  obtain ⟨-, hbehind, hbefore⟩ := List.pairwise_append.1 hpair
  rcases List.mem_append.1 hb with hb | hb
  · rcases hbefore b hb a List.mem_cons_self with hab | hab
    · exact Or.inr (Or.inr (Or.inl hab))
    · exact Or.inr (Or.inr (Or.inr (Or.inr hab)))
  · rcases List.mem_cons.1 hb with rfl | hb
    · exact Or.inl rfl
    · rcases (List.pairwise_cons.1 hbehind).1 b hb with hab | hab
      · exact Or.inr (Or.inl hab)
      · exact Or.inr (Or.inr (Or.inr (Or.inl hab)))

end Node.WellNested

end ImportGuard
