import ImportGuard.Proofs.Usage.Walk
import Mathlib.Data.List.Induction

/-!
# Where the walk gets to, and when

The walk goes through a tree by many ways: by role, by exclusion, through lists of parameters in a way
of their own.  `leavesOut` says which children of a node it **leaves out**, and `at?` follows an address
down the tree as long as no child on the way is left out.  The nodes that the walk gets to are those
that `at?` finds (`reached_iff`).

`ReachedAfter` is `Reached` with the events that have happened when the walk gets to a node.  Every
moment of a trace belongs to one such node (`exists_reachedAfter_of_trace_eq`), and the events of such
a node are a stretch of the trace (`ReachedAfter.exists_trace_eq`).
-/

namespace ImportGuard.Walk

/-! ### The children that are left out -/

/-- The child at an index is the first in a role. -/
def isFirst (children : List Node) (role : Role) (i : Nat) : Bool :=
  children.findIdx? (·.role = some role) = some i

/-- **The walk leaves out a child**, the one at index `i` of a node that it goes through in a
manner. -/
def leavesOut (manner : Manner) (node : Node) (i : Nat) (child : Node) : Bool :=
  match manner with
  | .parameters => !child.named
  | .parameter => !isFirst node.children .type i
  | .whole =>
    match node.kind with
    | .qualifiedType => true
    | .functionDeclaration | .methodDeclaration | .functionLiteral =>
      [.typeParameters, .receiver, .parameters, .result, .body].all fun role =>
        !isFirst node.children role i
    | .shortVarDeclaration => !isFirst node.children .right i
    | .rangeClause | .receiveStatement =>
      Trace.defines node.children && !isFirst node.children .right i
    | .varSpec | .constSpec => child.role = some .name
    | .typeParameterList => !child.named
    | .typeSwitchStatement => isFirst node.children .bound i
    | _ => false

/-- How the walk goes through a child that it does not leave out. -/
def mannerBelow (manner : Manner) (node child : Node) : Manner :=
  match manner with
  | .parameters => memberManner child
  | .parameter => .whole
  | .whole =>
    match node.kind with
    | .functionDeclaration | .methodDeclaration | .functionLiteral =>
      if child.role = some .body then .whole else signatureManner child
    | .typeParameterList => memberManner child
    | _ => .whole

section Parts

variable {children : List Node} {manner : Node → Manner} {i : Nat} {m : Manner} {child : Node}

theorem part_mem_parts_iff {p : Node → Bool} :
    .part i m child ∈ parts p manner 0 children ↔
      children[i]? = some child ∧ p child = true ∧ m = manner child := by
  unfold parts
  constructor
  · intro h
    obtain ⟨⟨found, j⟩, hfound, heq⟩ := List.mem_map.1 h
    obtain ⟨rfl, rfl, rfl⟩ := Item.part.inj heq
    obtain ⟨hmem, hp⟩ := List.mem_filter.1 hfound
    exact ⟨List.mem_zipIdx_iff_getElem?.1 hmem, hp, rfl⟩
  · rintro ⟨hchild, hp, rfl⟩
    exact List.mem_map.2 ⟨(child, i),
      List.mem_filter.2 ⟨List.mem_zipIdx_iff_getElem?.2 hchild, hp⟩, rfl⟩

theorem part_mem_firstPart_iff {role : Role} :
    .part i m child ∈ firstPart role manner 0 children ↔
      children[i]? = some child ∧ isFirst children role i = true ∧ m = manner child := by
  suffices hall : ∀ n, .part i m child ∈ firstPart role manner n children ↔
      ∃ j, i = n + j ∧ children[j]? = some child ∧
        children.findIdx? (·.role = some role) = some j ∧ m = manner child by
    rw [hall 0]
    simp [isFirst]
  induction children with
  | nil => simp [firstPart]
  | cons first rest ih =>
    intro n
    rw [firstPart_cons, List.findIdx?_cons]
    by_cases hrole : first.role = some role
    · rw [if_pos hrole, decide_eq_true hrole, if_pos rfl, List.mem_singleton]
      constructor
      · intro heq
        obtain ⟨rfl, rfl, rfl⟩ := Item.part.inj heq
        exact ⟨0, rfl, rfl, rfl, rfl⟩
      · rintro ⟨j, rfl, hchild, hj, rfl⟩
        obtain rfl := Option.some.inj hj
        obtain rfl : first = child := Option.some.inj hchild
        rfl
    · rw [if_neg hrole, decide_eq_false hrole, if_neg Bool.false_ne_true, ih]
      constructor
      · rintro ⟨j, rfl, hchild, hj, rfl⟩
        exact ⟨j + 1, by omega, hchild, by rw [hj]; rfl, rfl⟩
      · rintro ⟨j, rfl, hchild, hj, rfl⟩
        obtain ⟨k, hk, rfl⟩ := Option.map_eq_some_iff.1 hj
        exact ⟨k, by omega, hchild, hk, rfl⟩

theorem part_mem_members_iff {source : List UInt8} :
    .part i m child ∈ members source children ↔
      children[i]? = some child ∧ child.named = true ∧ m = memberManner child := by
  unfold members
  rw [List.mem_append, part_mem_parts_iff]
  simp

theorem part_mem_definition_iff {source : List UInt8} {node : Node} :
    .part i m child ∈ definition source node ↔
      node.children[i]? = some child ∧ isFirst node.children .right i = true ∧ m = .whole := by
  unfold definition
  rw [List.mem_append, part_mem_firstPart_iff]
  simp

theorem part_mem_switchItems_iff {names : List String} :
    .part i m child ∈ switchItems names false false 0 children ↔
      children[i]? = some child ∧ isFirst children .bound i = false ∧ m = .whole := by
  -- behind the bound name nothing more is left out
  suffices hall : ∀ boundSeen valueSeen n,
      .part i m child ∈ switchItems names boundSeen valueSeen n children ↔
        ∃ j, i = n + j ∧ children[j]? = some child ∧
          (boundSeen = true ∨ children.findIdx? (·.role = some .bound) ≠ some j) ∧ m = .whole by
    rw [hall false false 0]
    simp [isFirst]
  induction children with
  | nil => simp [switchItems]
  | cons first rest ih =>
    intro boundSeen valueSeen n
    have hhere : Item.part i m child = .part n .whole first ↔
        i = n ∧ m = .whole ∧ child = first := by
      rw [Item.part.injEq]
    have hrest : ∀ (P : Nat → Prop), (∃ j, i = n + j ∧ (first :: rest)[j]? = some child ∧ P j) ↔
        (i = n ∧ child = first ∧ P 0) ∨
          ∃ j, i = n + 1 + j ∧ rest[j]? = some child ∧ P (j + 1) := by
      intro P
      constructor
      · rintro ⟨j, rfl, hchild, hp⟩
        cases j with
        | zero => exact Or.inl ⟨rfl, (Option.some.inj hchild).symm, hp⟩
        | succ j => exact Or.inr ⟨j, by omega, hchild, hp⟩
      · rintro (⟨rfl, rfl, hp⟩ | ⟨j, rfl, hchild, hp⟩)
        · exact ⟨0, rfl, rfl, hp⟩
        · exact ⟨j + 1, by omega, hchild, hp⟩
    rw [hrest fun j => (boundSeen = true ∨
      (first :: rest).findIdx? (·.role = some .bound) ≠ some j) ∧ m = .whole, switchItems,
      List.findIdx?_cons]
    by_cases hbound : first.role = some .bound
    · cases boundSeen with
      | false => simp [hbound, ih]
      | true => simp [hbound, ih, hhere, and_comm]
    · by_cases hvalue : first.role = some .value ∧ valueSeen = false
      · simp [hvalue, ih, hhere, and_comm]
      · simp [hbound, hvalue, ih, hhere, and_comm]

theorem role_of_isFirst {role : Role} (hchild : children[i]? = some child)
    (h : isFirst children role i = true) : child.role = some role := by
  obtain ⟨hlt, hrole, _⟩ := List.findIdx?_eq_some_iff_getElem.1 (of_decide_eq_true h)
  rw [List.getElem?_eq_getElem hlt] at hchild
  exact Option.some.inj hchild ▸ of_decide_eq_true hrole

/-- The roles of the parts of a function that the walk goes through. -/
theorem mem_functionRoles_iff {role : Role} :
    (role, manner) ∈ functionRoles ↔
      role ∈ [.typeParameters, .receiver, .parameters, .result, .body] ∧
        manner = if role = .body then fun _ => .whole else signatureManner := by
  simp only [functionRoles, List.mem_cons, Prod.mk.injEq, List.not_mem_nil, or_false]
  constructor
  · rintro (⟨rfl, rfl⟩ | ⟨rfl, rfl⟩ | ⟨rfl, rfl⟩ | ⟨rfl, rfl⟩ | ⟨rfl, rfl⟩) <;> simp
  · rintro ⟨rfl | rfl | rfl | rfl | rfl, rfl⟩ <;> simp

theorem part_mem_functionRoles_iff :
    .part i m child ∈ (functionRoles.flatMap fun (role, manner) =>
        firstPart role manner 0 children) ↔
      children[i]? = some child ∧
        ([.typeParameters, .receiver, .parameters, .result, .body].all fun role =>
          !isFirst children role i) = false ∧
        m = if child.role = some .body then .whole else signatureManner child := by
  have hmanner : ∀ {role : Role}, child.role = some role →
      (if role = .body then fun _ => Manner.whole else signatureManner) child =
        if child.role = some .body then .whole else signatureManner child := by
    intro role hrole
    rw [hrole]
    by_cases hbody : role = .body
    · rw [if_pos hbody, if_pos (congrArg some hbody)]
    · rw [if_neg hbody, if_neg fun heq => hbody (Option.some.inj heq)]
  rw [List.mem_flatMap, List.all_eq_false]
  constructor
  · rintro ⟨⟨role, manner⟩, hpair, hpart⟩
    obtain ⟨hchild, hfirst, rfl⟩ := part_mem_firstPart_iff.1 hpart
    obtain ⟨hrole, rfl⟩ := mem_functionRoles_iff.1 hpair
    refine ⟨hchild, ⟨role, hrole, by simp [hfirst]⟩, hmanner (role_of_isFirst hchild hfirst)⟩
  · rintro ⟨hchild, ⟨role, hrole, hfirst⟩, rfl⟩
    have hfirst : isFirst children role i = true := by simpa using hfirst
    refine ⟨(role, _), mem_functionRoles_iff.2 ⟨hrole, rfl⟩, ?_⟩
    exact part_mem_firstPart_iff.2 ⟨hchild, hfirst, (hmanner (role_of_isFirst hchild hfirst)).symm⟩

end Parts

theorem part_mem_items_iff_content {source : List UInt8} {address : Address} {manner m : Manner}
    {node child : Node} {i : Nat} :
    .part i m child ∈ items source address manner node ↔
      .part i m child ∈ content source manner node := by
  have hheading : ¬ .part i m child ∈ (heading source address manner node).map Item.event := by
    intro h
    obtain ⟨_, _, heq⟩ := List.mem_map.1 h
    exact Item.noConfusion heq
  unfold items
  rw [List.mem_append, or_iff_right hheading]
  split
  · simp
  · exact Iff.rfl

/-- **The walk goes on to the children that it does not leave out**, and to no others. -/
theorem part_mem_items_iff {source : List UInt8} {address : Address} {manner m : Manner}
    {node child : Node} {i : Nat} :
    .part i m child ∈ items source address manner node ↔
      node.children[i]? = some child ∧ leavesOut manner node i child = false ∧
        m = mannerBelow manner node child := by
  rw [part_mem_items_iff_content]
  obtain ⟨kind, named, role, start, stop, children⟩ := node
  have hevery : .part i m child ∈ everyPart children ↔
      children[i]? = some child ∧ false = false ∧ m = .whole :=
    part_mem_parts_iff.trans (by simp)
  have hmembers : .part i m child ∈ members source children ↔
      children[i]? = some child ∧ (!child.named) = false ∧ m = memberManner child :=
    part_mem_members_iff.trans (by simp)
  have htype : .part i m child ∈ firstPart .type (fun _ => .whole) 0 children ↔
      children[i]? = some child ∧ (!isFirst children .type i) = false ∧ m = .whole :=
    part_mem_firstPart_iff.trans (by simp)
  have hdefinition : .part i m child ∈
        definition source ⟨kind, named, role, start, stop, children⟩ ↔
      children[i]? = some child ∧ (!isFirst children .right i) = false ∧ m = .whole :=
    part_mem_definition_iff.trans (by simp)
  have hdefining : .part i m child ∈ (if Trace.defines children then
        definition source ⟨kind, named, role, start, stop, children⟩ else everyPart children) ↔
      children[i]? = some child ∧
        (Trace.defines children && !isFirst children .right i) = false ∧ m = .whole := by
    split
    · rename_i hdefines
      rw [hdefinition, hdefines, Bool.true_and]
    · rename_i hdefines
      rw [hevery, eq_false_of_ne_true hdefines, Bool.false_and]
  have hspec : ∀ names, .part i m child ∈
        parts (fun child => !decide (child.role = some .name)) (fun _ => .whole) 0 children ++
          [.event (.declare names)] ↔
      children[i]? = some child ∧ decide (child.role = some .name) = false ∧ m = .whole := by
    intro names
    rw [List.mem_append, part_mem_parts_iff]
    simp
  cases manner with
  | parameters => exact hmembers
  | parameter => exact htype
  | whole =>
    cases kind with
    | qualifiedType => exact iff_of_false List.not_mem_nil fun h => Bool.noConfusion h.2.1
    | functionDeclaration => exact part_mem_functionRoles_iff
    | methodDeclaration => exact part_mem_functionRoles_iff
    | functionLiteral => exact part_mem_functionRoles_iff
    | shortVarDeclaration => exact hdefinition
    | rangeClause => exact hdefining
    | receiveStatement => exact hdefining
    | varSpec => exact hspec _
    | constSpec => exact hspec _
    | typeParameterList => exact hmembers
    | typeSwitchStatement => exact part_mem_switchItems_iff
    | _ => exact hevery

/-! ### The nodes that the walk gets to -/

/-- **The node at an address, and how the walk goes through it**, unless the address leads through a
child that is left out. -/
def at? (manner : Manner) (node : Node) : Address → Option (Manner × Node)
  | [] => some (manner, node)
  | i :: rest =>
    (node.children[i]?).bind fun child =>
      if leavesOut manner node i child then none else at? (mannerBelow manner node child) child rest

theorem at?_append (manner : Manner) (node : Node) (a b : Address) :
    at? manner node (a ++ b) = (at? manner node a).bind fun found => at? found.1 found.2 b := by
  induction a generalizing manner node with
  | nil => rfl
  | cons i a ih =>
    rw [List.cons_append, at?, at?]
    cases node.children[i]? with
    | none => rfl
    | some child =>
      rw [Option.bind_some, Option.bind_some]
      split
      · rfl
      · exact ih _ child

theorem at?_singleton {manner m : Manner} {node child : Node} {i : Nat} :
    at? manner node [i] = some (m, child) ↔
      node.children[i]? = some child ∧ leavesOut manner node i child = false ∧
        m = mannerBelow manner node child := by
  rw [at?]
  cases node.children[i]? with
  | none => simp
  | some found =>
    rw [Option.bind_some, at?]
    constructor
    · intro h
      split at h
      · exact absurd h (by simp)
      · rename_i hkept
        obtain ⟨rfl, rfl⟩ := Prod.mk.inj (Option.some.inj h)
        exact ⟨rfl, eq_false_of_ne_true hkept, rfl⟩
    · rintro ⟨hchild, hkept, rfl⟩
      obtain rfl := Option.some.inj hchild
      rw [hkept]
      rfl

/-- **The walk gets to a node exactly if no child on the way is left out.** -/
theorem reached_iff {source : List UInt8} {root node : Node} {address : Address}
    {manner : Manner} :
    Reached source root address manner node ↔ at? .whole root address = some (manner, node) := by
  constructor
  · intro h
    induction h with
    | root => rfl
    | part _ hpart ih =>
      rw [at?_append, ih, Option.bind_some]
      exact at?_singleton.2 (part_mem_items_iff.1 hpart)
  · intro h
    induction address using List.reverseRecOn generalizing manner node with
    | nil =>
      obtain ⟨rfl, rfl⟩ := Prod.mk.inj (Option.some.inj h)
      exact Reached.root
    | append_singleton address i ih =>
      rw [at?_append] at h
      obtain ⟨⟨m, parent⟩, hparent, hchild⟩ := Option.bind_eq_some_iff.1 h
      exact (ih hparent).part (part_mem_items_iff.2 (at?_singleton.1 hchild))

theorem get?_of_at? {manner m : Manner} {node found : Node} {address : Address}
    (h : at? manner node address = some (m, found)) : node.get? address = some found := by
  induction address generalizing manner node with
  | nil => exact congrArg (Option.map Prod.snd) h
  | cons i address ih =>
    rw [at?] at h
    obtain ⟨child, hchild, h⟩ := Option.bind_eq_some_iff.1 h
    split at h
    · exact absurd h (by simp)
    · rw [Node.get?, hchild]
      exact ih h

/-- Only lists of parameters and their declarations are gone through in a way of their own. -/
theorem Reached.manner_eq {source : List UInt8} {root node : Node} {address : Address}
    {manner : Manner} (h : Reached source root address manner node)
    (hsignature : signatureManner node = .whole) (hmember : memberManner node = .whole) :
    manner = .whole := by
  cases h with
  | root => rfl
  | part _ hpart =>
    rw [(part_mem_items_iff.1 hpart).2.2]
    unfold mannerBelow
    rw [hsignature, hmember, ite_self]
    split
    · rfl
    · rfl
    · split <;> rfl

/-! ### When the walk gets to a node -/

/-- **The walk gets to a node after some events.** -/
inductive ReachedAfter (source : List UInt8) (root : Node) :
    List Event → Address → Manner → Node → Prop
  | root : ReachedAfter source root [] [] .whole root
  | part {before : List Event} {address : Address} {manner m : Manner} {node child : Node}
      {i : Nat} {l r : List Item} : ReachedAfter source root before address manner node →
      items source address manner node = l ++ .part i m child :: r →
        ReachedAfter source root (before ++ l.flatMap (itemEvents source address))
          (address ++ [i]) m child

section Moments

variable {source : List UInt8} {root node : Node} {address : Address} {manner : Manner}
  {before : List Event}

theorem ReachedAfter.reached (h : ReachedAfter source root before address manner node) :
    Reached source root address manner node := by
  induction h with
  | root => exact Reached.root
  | part _ hitems ih =>
    refine ih.part ?_
    rw [hitems]
    exact List.mem_append_cons_self

theorem Reached.exists_after (h : Reached source root address manner node) :
    ∃ before, ReachedAfter source root before address manner node := by
  induction h with
  | root => exact ⟨[], ReachedAfter.root⟩
  | part _ hpart ih =>
    obtain ⟨before, hbefore⟩ := ih
    obtain ⟨l, r, hitems⟩ := List.append_of_mem hpart
    exact ⟨_, hbefore.part hitems⟩

/-- The events of a node that the walk gets to are a stretch of the trace. -/
theorem ReachedAfter.exists_trace_eq (h : ReachedAfter source root before address manner node) :
    ∃ after, trace source root = before ++ visit source address manner node ++ after := by
  induction h with
  | root => exact ⟨[], (List.append_nil _).symm⟩
  | @part before address manner m node child i l r _ hitems ih =>
    obtain ⟨after, hparent⟩ := ih
    rw [visit_eq, hitems, List.flatMap_append, List.flatMap_cons] at hparent
    refine ⟨r.flatMap (itemEvents source address) ++ after, ?_⟩
    rw [hparent]
    simp only [List.append_assoc]
    rfl

/-- An event of a node that the walk gets to has its moment. -/
theorem ReachedAfter.exists_moment (h : ReachedAfter source root before address manner node)
    {e : Event} {l r : List Item} (hitems : items source address manner node = l ++ .event e :: r) :
    ∃ later, trace source root = before ++ l.flatMap (itemEvents source address) ++ e :: later := by
  obtain ⟨after, htrace⟩ := h.exists_trace_eq
  refine ⟨r.flatMap (itemEvents source address) ++ after, ?_⟩
  rw [htrace, visit_eq, hitems, List.flatMap_append, List.flatMap_cons]
  simp only [List.append_assoc]
  rfl

/-- An event in the events of some items comes from one of them. -/
theorem exists_item_of_flatMap_eq {items : List Item} {e : Event} {earlier later : List Event}
    (h : items.flatMap (itemEvents source address) = earlier ++ e :: later) :
    ∃ l item r p q, items = l ++ item :: r ∧ itemEvents source address item = p ++ e :: q ∧
      earlier = l.flatMap (itemEvents source address) ++ p := by
  induction items generalizing earlier with
  | nil => exact absurd h (by simp)
  | cons first items ih =>
    rw [List.flatMap_cons] at h
    rcases List.append_eq_append_iff.1 h with ⟨rest, rfl, hrest⟩ | ⟨rest, hfirst, hrest⟩
    · obtain ⟨l, item, r, p, q, rfl, hitem, rfl⟩ := ih hrest
      refine ⟨first :: l, item, r, p, q, rfl, hitem, ?_⟩
      rw [List.flatMap_cons, List.append_assoc]
    · cases rest with
      | nil =>
        -- the events of the first item end just before
        rw [List.append_nil] at hfirst
        have hnext : items.flatMap (itemEvents source address) = [] ++ e :: later := hrest.symm
        obtain ⟨l, item, r, p, q, rfl, hitem, hp⟩ := ih hnext
        refine ⟨first :: l, item, r, p, q, rfl, hitem, ?_⟩
        rw [List.flatMap_cons, List.append_assoc, ← hp, List.append_nil, hfirst]
      | cons f rest =>
        obtain ⟨rfl, _⟩ := List.cons.inj hrest
        exact ⟨[], first, items, earlier, rest, rfl, hfirst, rfl⟩

/-- **Every moment of a trace is one of a node that the walk gets to.** -/
theorem exists_reachedAfter_of_trace_eq {e : Event} {earlier later : List Event}
    (h : trace source root = earlier ++ e :: later) :
    ∃ before address manner node l r, ReachedAfter source root before address manner node ∧
      items source address manner node = l ++ .event e :: r ∧
      earlier = before ++ l.flatMap (itemEvents source address) := by
  suffices hall : ∀ address manner node before earlier later,
      ReachedAfter source root before address manner node →
      visit source address manner node = earlier ++ e :: later →
      ∃ before' address' manner' node' l r,
        ReachedAfter source root before' address' manner' node' ∧
        items source address' manner' node' = l ++ .event e :: r ∧
        before ++ earlier = before' ++ l.flatMap (itemEvents source address') from
    hall [] .whole root [] earlier later ReachedAfter.root h
  intro address manner node
  induction address, manner, node using walk_induction source with
  | step address manner node ih =>
    intro before earlier later hreached hvisit
    rw [visit_eq] at hvisit
    obtain ⟨l, item, r, p, q, hitems, hitem, rfl⟩ := exists_item_of_flatMap_eq hvisit
    cases item with
    | event f =>
      rw [itemEvents, eq_comm, List.append_eq_singleton_iff] at hitem
      obtain ⟨rfl, heq⟩ | ⟨_, heq⟩ := hitem
      · obtain ⟨rfl, _⟩ := List.cons.inj heq
        exact ⟨before, address, manner, node, l, r, hreached, hitems, by rw [List.append_nil]⟩
      · exact absurd heq (by simp)
    | part i m child =>
      have hpart : .part i m child ∈ items source address manner node :=
        hitems ▸ List.mem_append_cons_self
      obtain ⟨before', address', manner', node', l', r', hreached', hitems', heq⟩ :=
        ih i m child hpart _ p q (hreached.part hitems) hitem
      refine ⟨before', address', manner', node', l', r', hreached', hitems', ?_⟩
      rw [← heq, List.append_assoc]

theorem exists_reached_of_mem_trace {e : Event} (h : e ∈ trace source root) :
    ∃ address manner node, Reached source root address manner node ∧
      .event e ∈ items source address manner node := by
  obtain ⟨earlier, later, htrace⟩ := List.append_of_mem h
  obtain ⟨_, address, manner, node, l, r, hreached, hitems, _⟩ :=
    exists_reachedAfter_of_trace_eq htrace
  refine ⟨address, manner, node, hreached.reached, ?_⟩
  rw [hitems]
  exact List.mem_append_cons_self

end Moments

end ImportGuard.Walk
