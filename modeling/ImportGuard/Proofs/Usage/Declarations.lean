import ImportGuard.Proofs.Usage.Nesting
import ImportGuard.Proofs.Usage.Reach
import Mathlib.Data.List.Infix

/-!
# Who declares, and in which scope

A node declares names as the walk goes through it: a specification its names, `:=` the identifiers on
its left, a list of parameters the names of its members, a type parameter its own names, and a type
switch the name that it binds.  `Declares` says so in terms of the node's children.  The declarations
in the trace are those of the nodes that the walk gets to (`exists_declares_of_trace_eq`,
`Reached.exists_declare`), and the scopes that are open at such a moment, the innermost first, are
those of **the nodes above the declaring one** that open a scope, to which a type switch adds its own
(`scopesAround`).
-/

namespace ImportGuard.Walk

/-! ### The names that a node declares -/

/-- **The names that are declared at a node** that the walk goes through in a manner: by a
specification, on the left of `:=`, in a list of parameters, for a type parameter, and by a type
switch with a value. -/
def declared (source : List UInt8) (manner : Manner) (node : Node) : List String :=
  match manner with
  | .parameters => Trace.parameterNames source node.children
  | .parameter => if node.kind = .typeParameterDeclaration then node.names source else []
  | .whole =>
    match node.kind with
    | .varSpec | .constSpec | .typeSpec | .typeAlias => node.names source
    | .shortVarDeclaration => Trace.boundNames source (node.child? .left)
    | .rangeClause | .receiveStatement =>
      if Trace.defines node.children then Trace.boundNames source (node.child? .left) else []
    | .typeParameterList => Trace.parameterNames source node.children
    | .typeSwitchStatement =>
      if (node.child? .value).isSome then Trace.boundNames source (node.child? .bound) else []
    | _ => []

/-- A child of the node in the role `name` has the text `name`. -/
def HasName (source : List UInt8) (node : Node) (name : String) : Prop :=
  ∃ part ∈ node.children, part.role = some .name ∧ part.text source = name

/-- The left side of `:=` is the identifier `name`, or a list with it. -/
def Binds (source : List UInt8) (left : Node) (name : String) : Prop :=
  left.kind = .identifier ∧ left.text source = name ∨
    left.kind ≠ .identifier ∧ ∃ part ∈ left.children, part.named = true ∧
      part.kind = .identifier ∧ part.text source = name

/-- A member of a list of parameters has the name. -/
def HasParameter (source : List UInt8) (list : Node) (name : String) : Prop :=
  ∃ member ∈ list.children, member.named = true ∧
    (member.kind = .parameterDeclaration ∨ member.kind = .variadicParameterDeclaration ∨
      member.kind = .typeParameterDeclaration) ∧ HasName source member name

/-- **A node declares a name when the walk goes through it in a manner.** -/
def Declares (source : List UInt8) (manner : Manner) (node : Node) (name : String) : Prop :=
  match manner with
  | .parameters => HasParameter source node name
  | .parameter => node.kind = .typeParameterDeclaration ∧ HasName source node name
  | .whole =>
    (node.kind = .varSpec ∨ node.kind = .constSpec ∨ node.kind = .typeSpec ∨
        node.kind = .typeAlias) ∧ HasName source node name ∨
      (node.kind = .shortVarDeclaration ∨
        (node.kind = .rangeClause ∨ node.kind = .receiveStatement) ∧
          ∃ mark ∈ node.children, mark.kind = .define) ∧
        (∃ left, node.child? .left = some left ∧ Binds source left name) ∨
      node.kind = .typeParameterList ∧ HasParameter source node name ∨
      node.kind = .typeSwitchStatement ∧ (∃ value ∈ node.children, value.role = some .value) ∧
        ∃ bound, node.child? .bound = some bound ∧ Binds source bound name

section Names

variable {source : List UInt8} {name : String}

theorem mem_names_iff {node : Node} : name ∈ node.names source ↔ HasName source node name := by
  simp [Node.names, Node.childrenIn, HasName, and_assoc]

theorem mem_boundNames_iff {left : Option Node} :
    name ∈ Trace.boundNames source left ↔ ∃ node, left = some node ∧ Binds source node name := by
  cases left with
  | none => simp [Trace.boundNames]
  | some node =>
    by_cases hkind : node.kind = .identifier
    · simp only [Trace.boundNames, hkind, if_true, List.mem_singleton, Option.some.injEq,
        exists_eq_left', Binds, ne_eq, not_true_eq_false, true_and, false_and, or_false]
      exact eq_comm
    · simp [Trace.boundNames, Binds, hkind, and_assoc]

theorem mem_parameterNames_iff {list : Node} :
    name ∈ Trace.parameterNames source list.children ↔ HasParameter source list name := by
  have hparameter : ∀ kind : Kind, kind.isParameter = true ↔ kind = .parameterDeclaration ∨
      kind = .variadicParameterDeclaration ∨ kind = .typeParameterDeclaration := by
    intro kind
    cases kind <;> simp [Kind.isParameter]
  simp [Trace.parameterNames, HasParameter, mem_names_iff, hparameter, and_assoc]

theorem defines_iff {children : List Node} :
    Trace.defines children = true ↔ ∃ mark ∈ children, mark.kind = .define := by
  simp [Trace.defines]

/-- **The names that are declared at a node are those that it declares.** -/
theorem mem_declared_iff {manner : Manner} {node : Node} :
    name ∈ declared source manner node ↔ Declares source manner node name := by
  have hite : ∀ {p : Prop} [Decidable p] {l : List String},
      (name ∈ if p then l else []) ↔ p ∧ name ∈ l := by
    intro p _ l
    split <;> simp [*]
  cases manner with
  | parameters => exact mem_parameterNames_iff
  | parameter => exact hite.trans (and_congr_right fun _ => mem_names_iff)
  | whole =>
    unfold declared Declares
    cases hkind : node.kind <;>
      simp [hite, mem_names_iff, mem_boundNames_iff, mem_parameterNames_iff, defines_iff,
        Node.child?]

end Names

/-- A type switch without a value declares nothing. -/
theorem isSome_value_of_event_mem {names : List String} {boundSeen valueSeen : Bool} {i : Nat}
    {children : List Node} {e : Event}
    (h : .event e ∈ switchItems names boundSeen valueSeen i children) :
    (children.find? (·.role = some .value)).isSome = true := by
  rw [List.find?_isSome]
  induction children generalizing boundSeen valueSeen i with
  | nil => exact absurd h List.not_mem_nil
  | cons child rest ih =>
    rw [switchItems] at h
    split at h
    · obtain ⟨found, hfound, hrole⟩ := ih h
      exact ⟨found, List.mem_cons_of_mem _ hfound, hrole⟩
    · split at h
      · rename_i hvalue
        exact ⟨child, List.mem_cons_self, decide_eq_true hvalue.1⟩
      · obtain ⟨found, hfound, hrole⟩ := ih ((List.mem_cons.1 h).resolve_left Item.noConfusion)
        exact ⟨found, List.mem_cons_of_mem _ hfound, hrole⟩

theorem eq_declared_of_mem_content {source : List UInt8} {manner : Manner} {node : Node}
    {names : List String} (h : .event (.declare names) ∈ content source manner node) :
    names = declared source manner node := by
  obtain ⟨kind, named, role, start, stop, children⟩ := node
  have hlast : ∀ {l : List Item} {names' : List String}, ¬ .event (.declare names) ∈ l →
      .event (.declare names) ∈ l ++ [.event (.declare names')] → names = names' := by
    intro l names' hl hmem
    have hevent := List.mem_singleton.1 ((List.mem_append.1 hmem).resolve_left hl)
    exact Event.declare.inj (Item.event.inj hevent)
  have hevery : ¬ .event (.declare names) ∈ everyPart children := not_event_mem_parts
  have htype : ¬ .event (.declare names) ∈ firstPart .type (fun _ => .whole) 0 children :=
    not_event_mem_firstPart
  have hdefinition : .event (.declare names) ∈
        definition source ⟨kind, named, role, start, stop, children⟩ →
      names = Trace.boundNames source (children.find? (·.role = some .left)) :=
    hlast not_event_mem_firstPart
  have hdefining : .event (.declare names) ∈ (if Trace.defines children then
        definition source ⟨kind, named, role, start, stop, children⟩ else everyPart children) →
      names = if Trace.defines children then
        Trace.boundNames source (children.find? (·.role = some .left)) else [] := by
    intro hmem
    split at hmem
    · rename_i hdefines
      rw [if_pos hdefines]
      exact hdefinition hmem
    · exact absurd hmem hevery
  cases manner with
  | parameters => exact hlast not_event_mem_parts h
  | parameter => exact absurd h htype
  | whole =>
    cases kind with
    | qualifiedType => exact absurd h List.not_mem_nil
    | functionDeclaration => exact absurd h not_event_mem_roles
    | methodDeclaration => exact absurd h not_event_mem_roles
    | functionLiteral => exact absurd h not_event_mem_roles
    | shortVarDeclaration => exact hdefinition h
    | rangeClause => exact hdefining h
    | receiveStatement => exact hdefining h
    | varSpec => exact hlast not_event_mem_parts h
    | constSpec => exact hlast not_event_mem_parts h
    | typeParameterList => exact hlast not_event_mem_parts h
    | typeSwitchStatement =>
      have hvalue := isSome_value_of_event_mem h
      exact (Event.declare.inj (event_mem_switchItems h)).trans (if_pos hvalue).symm
    | _ => exact absurd h hevery

theorem eq_declared_of_mem_heading {source : List UInt8} {address : Address} {manner : Manner}
    {node : Node} {names : List String}
    (h : .declare names ∈ heading source address manner node) :
    names = declared source manner node := by
  obtain ⟨kind, named, role, start, stop, children⟩ := node
  have hmention : ∀ {l : List Event}, (l = [] ∨ ∃ use, l = [.mention use] ∧ use.address = address) →
      ¬ .declare names ∈ l := by
    rintro l (rfl | ⟨use, rfl, _⟩) hmem
    · exact List.not_mem_nil hmem
    · exact Event.noConfusion (List.mem_singleton.1 hmem)
  cases manner with
  | parameters => exact absurd h List.not_mem_nil
  | parameter =>
    unfold heading at h
    unfold declared
    dsimp only at h ⊢
    split at h
    · rename_i hkind
      rw [if_pos hkind]
      exact Event.declare.inj (List.mem_singleton.1 h)
    · exact absurd h List.not_mem_nil
  | whole =>
    cases kind with
    | selectorExpression => exact absurd h (hmention (selectorMention_cases source address _))
    | qualifiedType => exact absurd h (hmention (mention_cases source address _ _ _))
    | typeSpec => exact Event.declare.inj (List.mem_singleton.1 h)
    | typeAlias => exact Event.declare.inj (List.mem_singleton.1 h)
    | _ => exact absurd h List.not_mem_nil

theorem declare_mem_switchItems {names : List String} {boundSeen : Bool} {i : Nat}
    {children : List Node} (h : (children.find? (·.role = some .value)).isSome = true) :
    .event (.declare names) ∈ switchItems names boundSeen false i children := by
  induction children generalizing boundSeen i with
  | nil => exact Bool.noConfusion h
  | cons child rest ih =>
    rw [List.find?_cons] at h
    rw [switchItems]
    by_cases hbound : child.role = some .bound ∧ boundSeen = false
    · rw [if_pos hbound]
      rw [hbound.1] at h
      exact ih h
    · rw [if_neg hbound]
      by_cases hvalue : child.role = some .value
      · rw [if_pos ⟨hvalue, rfl⟩]
        exact List.mem_cons_of_mem _ List.mem_cons_self
      · rw [if_neg fun h => hvalue h.1]
        rw [decide_eq_false hvalue] at h
        exact List.mem_cons_of_mem _ (ih h)

/-- What a node declares is declared by an event of the node. -/
theorem declare_mem_items {source : List UInt8} {address : Address} {manner : Manner} {node : Node}
    {name : String} (h : name ∈ declared source manner node) :
    .event (.declare (declared source manner node)) ∈ items source address manner node := by
  have hlast : ∀ {l : List Item} {names : List String},
      .event (.declare names) ∈ l ++ [.event (.declare names)] :=
    List.mem_append_right _ (List.mem_singleton_self _)
  obtain ⟨kind, named, role, start, stop, children⟩ := node
  cases manner with
  | parameters => exact mem_items_of_mem_content hlast
  | parameter =>
    by_cases hkind : kind = .typeParameterDeclaration
    · refine List.mem_append_left _ (List.mem_map_of_mem ?_)
      simp [heading, declared, hkind]
    · simp [declared, hkind] at h
  | whole =>
    have hdefining : ∀ {kind : Kind}, kind = .rangeClause ∨ kind = .receiveStatement →
        name ∈ declared source .whole ⟨kind, named, role, start, stop, children⟩ →
        .event (.declare (declared source .whole ⟨kind, named, role, start, stop, children⟩)) ∈
          content source .whole ⟨kind, named, role, start, stop, children⟩ := by
      intro kind hkind hmem
      by_cases hdefines : Trace.defines children = true
      · rcases hkind with rfl | rfl <;> simp [declared, content, definition, hdefines]
      · rcases hkind with rfl | rfl <;> simp [declared, hdefines] at hmem
    cases kind with
    | varSpec => exact mem_items_of_mem_content hlast
    | constSpec => exact mem_items_of_mem_content hlast
    | typeSpec => exact List.mem_append_left _ (List.mem_singleton_self _)
    | typeAlias => exact List.mem_append_left _ (List.mem_singleton_self _)
    | shortVarDeclaration => exact mem_items_of_mem_content hlast
    | rangeClause => exact mem_items_of_mem_content (hdefining (Or.inl rfl) h)
    | receiveStatement => exact mem_items_of_mem_content (hdefining (Or.inr rfl) h)
    | typeParameterList => exact mem_items_of_mem_content hlast
    | typeSwitchStatement =>
      refine mem_items_of_mem_content ?_
      by_cases hvalue : (children.find? (·.role = some .value)).isSome = true
      · simp only [declared, Node.child?, hvalue, if_true]
        exact declare_mem_switchItems hvalue
      · simp [declared, Node.child?, hvalue] at h
    | _ => exact absurd h List.not_mem_nil

/-! ### The scopes around a node -/

def opensAt (root : Node) (address : Address) : Bool :=
  (root.get? address).any (opensScope ·.kind)

/-- **The scopes of the nodes above an address**, the innermost first. -/
def scopesAbove (root : Node) (address : Address) : List Address :=
  address.inits.reverse.tail.filter (opensAt root)

/-- The scopes of the nodes above an address and of the node there. -/
def scopesAt (root : Node) (address : Address) : List Address :=
  address.inits.reverse.filter (opensAt root)

/-- **The scopes around what a node at an address declares**, the innermost first: those of the nodes
above it, and for a type switch its own. -/
def scopesAround (root : Node) (address : Address) (node : Node) : List Address :=
  if node.kind = .typeSwitchStatement then scopesAt root address else scopesAbove root address

theorem inits_reverse (address : Address) :
    address.inits.reverse = address :: address.inits.reverse.tail := by
  induction address using List.reverseRecOn with
  | nil => rfl
  | append_singleton address i _ => simp [List.inits_append]

theorem scopesAbove_concat (root : Node) (address : Address) (i : Nat) :
    scopesAbove root (address ++ [i]) = scopesAt root address := by
  simp [scopesAbove, scopesAt, List.inits_append]

theorem scopesAt_eq (root : Node) (address : Address) :
    scopesAt root address =
      if opensAt root address then address :: scopesAbove root address
      else scopesAbove root address := by
  unfold scopesAt scopesAbove
  rw [inits_reverse, List.filter_cons, List.tail_cons]

variable {source : List UInt8} {root node : Node} {address : Address} {manner : Manner}

/-- A node that opens a scope is gone through as a node in its own right. -/
theorem Reached.manner_eq_of_opensScope (h : Reached source root address manner node)
    (hopens : opensScope node.kind = true) : manner = .whole := by
  refine h.manner_eq ?_ ?_
  · unfold signatureManner
    split
    · rename_i hkind
      rcases hkind with hkind | hkind <;> simp [hkind, opensScope] at hopens
    · rfl
  · unfold memberManner
    cases hkind : node.kind <;> simp [hkind, opensScope, Kind.isParameter] at hopens ⊢

theorem Reached.scopesAt_eq (h : Reached source root address manner node) :
    scopesAt root address =
      if manner = .whole ∧ opensScope node.kind = true then address :: scopesAbove root address
      else scopesAbove root address := by
  have hopens : opensAt root address = opensScope node.kind := by
    rw [opensAt, get?_of_at? (reached_iff.1 h), Option.any_some]
  rw [Walk.scopesAt_eq, hopens]
  refine if_congr ⟨fun hkind => ⟨h.manner_eq_of_opensScope hkind, hkind⟩, And.right⟩ rfl rfl

/-- Items that only declare names themselves leave the scopes as they were. -/
theorem opened_flatMap {l : List Item} (h : ∀ e, .event e ∈ l → ∃ names, e = .declare names)
    (stack : List Address) : opened stack (l.flatMap (itemEvents source address)) = stack := by
  induction l with
  | nil => rfl
  | cons item l ih =>
    rw [List.flatMap_cons, opened_append]
    have hitem : opened stack (itemEvents source address item) = stack := by
      cases item with
      | event e =>
        obtain ⟨names, rfl⟩ := h e List.mem_cons_self
        rfl
      | part i m child => exact (nested_visit source _ m child).opened_eq stack
    rw [hitem]
    exact ih fun e he => h e (List.mem_cons_of_mem _ he)

/-- Behind the heading, a node opens its scope before the items of its content. -/
theorem body_eq_append {item : Item} {l r : List Item}
    (h : (if manner = .whole ∧ opensScope node.kind = true then
        .event (.enter address) :: content source manner node ++ [.event .leave]
      else content source manner node) = l ++ item :: r) :
    item = .event (.enter address) ∨ item = .event .leave ∨
      item ∈ content source manner node ∧ ∀ stack,
        opened stack (l.flatMap (itemEvents source address)) =
          if manner = .whole ∧ opensScope node.kind = true then address :: stack else stack := by
  have hinside : ∀ {l r : List Item}, content source manner node = l ++ item :: r →
      item ∈ content source manner node ∧
        ∀ stack, opened stack (l.flatMap (itemEvents source address)) = stack := by
    intro l r hcontent
    rw [hcontent]
    refine ⟨List.mem_append_cons_self, opened_flatMap fun e he => ?_⟩
    exact event_mem_content source (hcontent ▸ List.mem_append_left _ he)
  split at h
  · rename_i hopens
    cases l with
    | nil => exact Or.inl (List.cons.inj h).1.symm
    | cons first l =>
      obtain ⟨rfl, hmore⟩ := List.cons.inj h
      rcases List.append_eq_append_iff.1 hmore with ⟨rest, _, hrest⟩ | ⟨rest, hcontent, hrest⟩
      · rw [eq_comm, List.append_eq_singleton_iff] at hrest
        simp only [List.cons.injEq, reduceCtorEq, and_false, or_false] at hrest
        exact Or.inr (Or.inl hrest.2.1)
      · cases rest with
        | nil => exact Or.inr (Or.inl (List.cons.inj hrest).1)
        | cons second rest =>
          obtain ⟨rfl, _⟩ := List.cons.inj hrest
          obtain ⟨hitem, hopened⟩ := hinside hcontent
          refine Or.inr (Or.inr ⟨hitem, fun stack => ?_⟩)
          rw [if_pos hopens]
          exact hopened (address :: stack)
  · rename_i hopens
    obtain ⟨hitem, hopened⟩ := hinside h
    refine Or.inr (Or.inr ⟨hitem, fun stack => ?_⟩)
    rw [if_neg hopens]
    exact hopened stack

/-- **What is open when the walk comes to an item of a node**: the node has opened its scope before
the items of its content. -/
theorem items_eq_append {item : Item} {l r : List Item}
    (h : items source address manner node = l ++ item :: r) :
    (l = [] ∧ ∃ e ∈ heading source address manner node, item = .event e) ∨
      item = .event (.enter address) ∨ item = .event .leave ∨
      item ∈ content source manner node ∧ ∀ stack,
        opened stack (l.flatMap (itemEvents source address)) =
          if manner = .whole ∧ opensScope node.kind = true then address :: stack else stack := by
  cases hheading : heading source address manner node with
  | nil =>
    rw [items, hheading] at h
    exact Or.inr (body_eq_append h)
  | cons e events =>
    have hsingle : events = [] ∧ ∀ stack, opened stack [e] = stack := by
      rcases heading_cases source address manner node with hnil | ⟨names, hnames⟩ | ⟨use, huse, _⟩
      · exact absurd (hheading.symm.trans hnil) (by simp)
      · obtain ⟨rfl, rfl⟩ := List.cons.inj (hheading.symm.trans hnames)
        exact ⟨rfl, fun _ => rfl⟩
      · obtain ⟨rfl, rfl⟩ := List.cons.inj (hheading.symm.trans huse)
        exact ⟨rfl, fun _ => rfl⟩
    obtain ⟨rfl, hopened⟩ := hsingle
    rw [items, hheading] at h
    cases l with
    | nil => exact Or.inl ⟨rfl, e, List.mem_singleton_self e, (List.cons.inj h).1.symm⟩
    | cons first l =>
      obtain ⟨rfl, hbody⟩ := List.cons.inj h
      refine Or.inr ((body_eq_append hbody).imp_right (Or.imp_right (And.imp_right ?_)))
      intro hall stack
      rw [List.flatMap_cons, opened_append, ← hall stack]
      exact congrArg (opened · _) (hopened stack)

/-- **When the walk gets to a node, the scopes of the nodes above it are open.** -/
theorem ReachedAfter.opened_eq {before : List Event}
    (h : ReachedAfter source root before address manner node) :
    opened [] before = scopesAbove root address := by
  induction h with
  | root => rfl
  | @part before address manner m node child i l r hreached hitems ih =>
    rw [opened_append, ih, scopesAbove_concat, hreached.reached.scopesAt_eq]
    rcases items_eq_append hitems with ⟨_, e, _, he⟩ | he | he | ⟨_, hopened⟩
    · exact Item.noConfusion he
    · exact Item.noConfusion he
    · exact Item.noConfusion he
    · exact hopened _

/-! ### The moments of declarations -/

/-- Of the nodes that open a scope, only a type switch declares names inside it. -/
theorem kind_of_event_mem_content {e : Event} (h : .event e ∈ content source .whole node)
    (hopens : opensScope node.kind = true) : node.kind = .typeSwitchStatement := by
  obtain ⟨kind, named, role, start, stop, children⟩ := node
  have hevery : ¬ .event e ∈ everyPart children := not_event_mem_parts
  cases kind with
  | typeSwitchStatement => rfl
  | functionDeclaration => exact absurd h not_event_mem_roles
  | methodDeclaration => exact absurd h not_event_mem_roles
  | functionLiteral => exact absurd h not_event_mem_roles
  | _ => first | exact absurd h hevery | exact Bool.noConfusion hopens

theorem not_declare_mem_heading {names : List String} (hkind : node.kind = .typeSwitchStatement) :
    .declare names ∉ heading source address manner node := by
  cases manner <;> simp [heading, hkind]

/-- What a node declares at a moment, and what is open then. -/
theorem ReachedAfter.declare {before : List Event} {names : List String} {l r : List Item}
    (h : ReachedAfter source root before address manner node)
    (hitems : items source address manner node = l ++ .event (.declare names) :: r) :
    names = declared source manner node ∧
      opened [] (before ++ l.flatMap (itemEvents source address)) =
        scopesAround root address node := by
  have hopens := h.reached.scopesAt_eq
  rw [opened_append, h.opened_eq, scopesAround]
  rcases items_eq_append hitems with ⟨rfl, e, hmem, he⟩ | he | he | ⟨hmem, hopened⟩
  · obtain rfl := Item.event.inj he
    refine ⟨eq_declared_of_mem_heading hmem, (if_neg fun hkind => ?_).symm⟩
    exact not_declare_mem_heading hkind hmem
  · exact Event.noConfusion (Item.event.inj he)
  · exact Event.noConfusion (Item.event.inj he)
  · refine ⟨eq_declared_of_mem_content hmem, ?_⟩
    rw [hopened, ← hopens]
    split at hopens
    · rename_i hscope
      obtain ⟨rfl, hkind⟩ := hscope
      rw [if_pos (kind_of_event_mem_content hmem hkind)]
    · rw [hopens, ite_self]

/-- **Every declaration in the trace is one of a node that the walk gets to**, and is made in the
scopes around that node. -/
theorem exists_declares_of_trace_eq {earlier later : List Event} {names : List String}
    (h : trace source root = earlier ++ .declare names :: later) :
    ∃ address manner node, Reached source root address manner node ∧
      (∀ name, name ∈ names ↔ Declares source manner node name) ∧
      opened [] earlier = scopesAround root address node := by
  obtain ⟨before, address, manner, node, l, r, hreached, hitems, rfl⟩ :=
    exists_reachedAfter_of_trace_eq h
  obtain ⟨rfl, hopened⟩ := hreached.declare hitems
  exact ⟨address, manner, node, hreached.reached, fun name => mem_declared_iff, hopened⟩

/-- **What a node declares, if the walk gets to it, is declared in the trace**, in the scopes around
the node. -/
theorem Reached.exists_declare {name : String} (h : Reached source root address manner node)
    (hdeclares : Declares source manner node name) :
    ∃ earlier names later, trace source root = earlier ++ .declare names :: later ∧
      name ∈ names ∧ opened [] earlier = scopesAround root address node := by
  obtain ⟨before, hbefore⟩ := h.exists_after
  have hname : name ∈ declared source manner node := mem_declared_iff.2 hdeclares
  obtain ⟨l, r, hitems⟩ := List.append_of_mem (declare_mem_items hname)
  obtain ⟨later, htrace⟩ := hbefore.exists_moment hitems
  exact ⟨_, _, later, htrace, hname, (hbefore.declare hitems).2⟩

/-- **The scopes that open in the trace are those of the nodes that open one**, of those that the
walk gets to. -/
theorem enter_mem_trace_iff :
    .enter address ∈ trace source root ↔
      ∃ node, Reached source root address .whole node ∧ opensScope node.kind = true := by
  constructor
  · intro h
    obtain ⟨found, manner, node, hreached, hitem⟩ := exists_reached_of_mem_trace h
    have hheading : Event.enter address ∉ heading source found manner node := by
      rcases heading_cases source found manner node with hnil | ⟨names, hnames⟩ | ⟨use, huse, _⟩
      · simp [hnil]
      · simp [hnames]
      · simp [huse]
    have hcontent : .event (.enter address) ∉ content source manner node := by
      intro hmem
      obtain ⟨names, heq⟩ := event_mem_content source hmem
      exact Event.noConfusion heq
    rw [items, List.mem_append, List.mem_map] at hitem
    rcases hitem with ⟨e, he, heq⟩ | hitem
    · exact absurd (Item.event.inj heq ▸ he) hheading
    · split at hitem
      · rename_i hopens
        obtain ⟨rfl, hopens⟩ := hopens
        simp only [List.cons_append, List.mem_cons, List.mem_append, hcontent, List.not_mem_nil,
          Item.event.injEq, Event.enter.injEq, reduceCtorEq, or_false] at hitem
        exact ⟨node, hitem ▸ hreached, hopens⟩
      · exact absurd hitem hcontent
  · rintro ⟨node, hreached, hopens⟩
    have henter : .event (.enter address) ∈ items source address .whole node := by
      rw [items, if_pos ⟨rfl, hopens⟩]
      exact List.mem_append_cons_self
    obtain ⟨before, hbefore⟩ := hreached.exists_after
    obtain ⟨l, r, hitems⟩ := List.append_of_mem henter
    obtain ⟨later, htrace⟩ := hbefore.exists_moment hitems
    rw [htrace]
    exact List.mem_append_cons_self

end ImportGuard.Walk
