import ImportGuard.Proofs.Usage.Reach

/-!
# Who mentions

A mention in the trace is made by a node that **selects** a name from a package: a selector on a
plain identifier, or a qualified type, with both of its parts there.  The mentions in the trace are
those of the selecting nodes that the walk gets to: each of these has a moment
(`Reached.exists_moment`), and there are no others (`exists_reached_of_mention`).
-/

namespace ImportGuard.Walk

/-- The node selects a name from a package, and these are its parts: a selector on a plain
identifier, or a qualified type. -/
def Selects (node package name : Node) : Prop :=
  node.kind = .selectorExpression ∧ node.child? .operand = some package ∧
      package.kind = .identifier ∧ node.child? .selected = some name ∨
    node.kind = .qualifiedType ∧ node.child? .package = some package ∧
      node.child? .name = some name

def useOf (source : List UInt8) (address : Address) (node package name : Node) : Use where
  address := address
  start := node.start
  stop := node.stop
  package := package.text source
  name := name.text source
  place := Place.ofOffset source name.start

theorem heading_of_selects (source : List UInt8) (address : Address) {node package name : Node}
    (h : Selects node package name) :
    heading source address .whole node = [.mention (useOf source address node package name)] := by
  unfold heading
  rcases h with ⟨hkind, hpackage, hidentifier, hname⟩ | ⟨hkind, hpackage, hname⟩
  · simp only [hkind, Trace.selectorMention, hpackage, hidentifier, if_true, hname]
    rfl
  · simp only [hkind, hpackage, hname]
    rfl

theorem Reached.manner_eq_of_selects {source : List UInt8} {root : Node} {address : Address}
    {manner : Manner} {node package name : Node} (h : Reached source root address manner node)
    (hselects : Selects node package name) : manner = .whole := by
  have hkind := hselects.imp And.left And.left
  refine h.manner_eq ?_ ?_
  · rcases hkind with hkind | hkind <;> simp [signatureManner, hkind]
  · rcases hkind with hkind | hkind <;> simp [memberManner, hkind, Kind.isParameter]

/-- A node that selects a name, if the walk gets to it, has its moment. -/
theorem Reached.exists_moment {source : List UInt8} {root : Node} {address : Address}
    {node package name : Node} (h : Reached source root address .whole node)
    (hselects : Selects node package name) :
    ∃ before after, trace source root =
      before ++ .mention (useOf source address node package name) :: after := by
  obtain ⟨before, hbefore⟩ := h.exists_after
  have hmention : .event (.mention (useOf source address node package name)) ∈
      items source address .whole node := by
    rw [items, heading_of_selects source address hselects]
    exact List.mem_append_left _ (List.mem_singleton_self _)
  obtain ⟨l, r, hitems⟩ := List.append_of_mem hmention
  obtain ⟨later, htrace⟩ := hbefore.exists_moment hitems
  exact ⟨_, later, htrace⟩

/-- What the walk mentions at a node is the use that the node makes. -/
theorem selects_of_mem_heading {source : List UInt8} {address : Address} {manner : Manner}
    {node : Node} {use : Use} (h : .mention use ∈ heading source address manner node) :
    manner = .whole ∧ ∃ package name, Selects node package name ∧
      use = useOf source address node package name := by
  unfold heading at h
  split at h
  · exact absurd h List.not_mem_nil
  · split at h
    · exact absurd h (by simp)
    · exact absurd h List.not_mem_nil
  · refine ⟨rfl, ?_⟩
    split at h
    · rename_i hkind
      cases hoperand : node.child? .operand with
      | none => simp [Trace.selectorMention, hoperand] at h
      | some package =>
        by_cases hidentifier : package.kind = .identifier
        · cases hname : node.child? .selected with
          | none => simp [Trace.selectorMention, Trace.mention, hoperand, hname] at h
          | some name =>
            refine ⟨package, name, Or.inl ⟨hkind, hoperand, hidentifier, hname⟩, ?_⟩
            simpa [Trace.selectorMention, Trace.mention, useOf, hoperand, hidentifier, hname]
              using h
        · simp [Trace.selectorMention, hoperand, hidentifier] at h
    · rename_i hkind
      cases hpackage : node.child? .package with
      | none => simp [Trace.mention, hpackage] at h
      | some package =>
        cases hname : node.child? .name with
        | none => simp [Trace.mention, hpackage, hname] at h
        | some name =>
          refine ⟨package, name, Or.inr ⟨hkind, hpackage, hname⟩, ?_⟩
          simpa [Trace.mention, useOf, hpackage, hname] using h
    · exact absurd h (by simp)
    · exact absurd h (by simp)
    · exact absurd h List.not_mem_nil

theorem mem_heading_of_mem_items {source : List UInt8} {address : Address} {manner : Manner}
    {node : Node} {use : Use} (h : .event (.mention use) ∈ items source address manner node) :
    .mention use ∈ heading source address manner node := by
  have hcontent : ¬ .event (.mention use) ∈ content source manner node := by
    intro hmem
    obtain ⟨names, heq⟩ := event_mem_content source hmem
    exact Event.noConfusion heq
  rcases List.mem_append.1 h with h | h
  · obtain ⟨e, he, heq⟩ := List.mem_map.1 h
    exact Item.event.inj heq ▸ he
  · split at h
    · simp only [List.cons_append, List.mem_cons, List.mem_append, List.not_mem_nil, or_false,
        Item.event.injEq, reduceCtorEq, false_or] at h
      exact absurd h hcontent
    · exact absurd h hcontent

/-- **Every mention is made by a node that the walk gets to.** -/
theorem exists_reached_of_mention {source : List UInt8} {root : Node} {use : Use}
    (h : .mention use ∈ trace source root) :
    ∃ address node package name, Reached source root address .whole node ∧
      Selects node package name ∧ use = useOf source address node package name := by
  obtain ⟨address, manner, node, hreached, hitem⟩ := exists_reached_of_mem_trace h
  obtain ⟨rfl, package, name, hselects, huse⟩ :=
    selects_of_mem_heading (mem_heading_of_mem_items hitem)
  exact ⟨address, node, package, name, hreached, hselects, huse⟩

end ImportGuard.Walk
