import ImportGuard.Proofs.Syntax.Sites
import ImportGuard.Usage.Event
import Mathlib.Data.List.Nodup

/-!
# The walk, one node at a time

The events of a tree come from a walk that leaves some children out, takes others out of order, and
goes through lists of parameters in a way of their own.  `items` says for one node **what the walk
does there**: events of the node itself, and ways through some of its children.  The events of a
node are those of its items, one after the other (`visit_eq`).

From then on nothing needs to know the walk by heart.  It goes through a child at most once
(`draws_items`), and the items of a node are a heading, then its content, with a scope around
the content if the node opens one.  `Reached` is the walk as a relation: the nodes that it gets to.
-/

namespace ImportGuard

/-- How the walk goes through a node. -/
inductive Manner where
  /-- As a node in its own right. -/
  | whole
  /-- As a list of parameters. -/
  | parameters
  /-- As a declaration in a list of parameters. -/
  | parameter
deriving DecidableEq, Repr

/-- A step of the walk at a node: an event of the node, or a way through the child at an index. -/
inductive Item where
  | event (e : Event)
  | part (i : Nat) (manner : Manner) (child : Node)
deriving Repr

def Item.index? : Item → Option Nat
  | .event _ => none
  | .part i _ _ => some i

namespace Walk

/-! ### What the walk does at a node -/

/-- Ways through the children that satisfy `p`, in order, where the first child has index `i`. -/
def parts (p : Node → Bool) (manner : Node → Manner) (i : Nat) (children : List Node) :
    List Item :=
  ((children.zipIdx i).filter (p ·.1)).map fun (child, j) => .part j (manner child) child

/-- The way through the first child in a role. -/
def firstPart (role : Role) (manner : Node → Manner) (i : Nat) (children : List Node) : List Item :=
  (((children.zipIdx i).find? (·.1.role = some role)).map fun (child, j) =>
    Item.part j (manner child) child).toList

/-- A part of a signature is a list of parameters or a type. -/
def signatureManner (node : Node) : Manner :=
  if node.kind = .parameterList ∨ node.kind = .typeParameterList then .parameters else .whole

/-- A member of a list of parameters is a declaration or anything else. -/
def memberManner (node : Node) : Manner :=
  if node.kind.isParameter then .parameter else .whole

def everyPart (children : List Node) : List Item :=
  parts (fun _ => true) (fun _ => .whole) 0 children

/-- Ways through the members of a list of parameters, and the declaration of their names. -/
def members (source : List UInt8) (children : List Node) : List Item :=
  parts (·.named) memberManner 0 children ++
    [.event (.declare (Trace.parameterNames source children))]

/-- The right side of `:=`, and the declaration of its left side. -/
def definition (source : List UInt8) (node : Node) : List Item :=
  firstPart .right (fun _ => .whole) 0 node.children ++
    [.event (.declare (Trace.boundNames source (node.child? .left)))]

/-- The parts of a type switch, as in `Trace.switchParts`. -/
def switchItems (names : List String) (boundSeen valueSeen : Bool) (i : Nat) :
    List Node → List Item
  | [] => []
  | child :: rest =>
    if child.role = some .bound ∧ boundSeen = false then
      switchItems names true valueSeen (i + 1) rest
    else if child.role = some .value ∧ valueSeen = false then
      .part i .whole child :: .event (.declare names) ::
        switchItems names boundSeen true (i + 1) rest
    else .part i .whole child :: switchItems names boundSeen valueSeen (i + 1) rest

/-- The parts of a function in the order in which the walk takes them. -/
def functionRoles : List (Role × (Node → Manner)) :=
  [(.typeParameters, signatureManner), (.receiver, signatureManner),
    (.parameters, signatureManner), (.result, signatureManner), (.body, fun _ => .whole)]

/-- What happens before anything else at a node: a selection is mentioned, a type becomes known to
its own definition, and a type parameter to its own constraint. -/
def heading (source : List UInt8) (address : Address) (manner : Manner) (node : Node) :
    List Event :=
  match manner with
  | .parameters => []
  | .parameter =>
    if node.kind = .typeParameterDeclaration then [.declare (node.names source)] else []
  | .whole =>
    match node.kind with
    | .selectorExpression => Trace.selectorMention source address node
    | .qualifiedType =>
      Trace.mention source address node (node.child? .package) (node.child? .name)
    | .typeSpec | .typeAlias => [.declare (node.names source)]
    | _ => []

/-- What the walk does inside the scope of a node, or in its place if it opens none. -/
def content (source : List UInt8) (manner : Manner) (node : Node) : List Item :=
  match manner with
  | .parameters => members source node.children
  | .parameter => firstPart .type (fun _ => .whole) 0 node.children
  | .whole =>
    match node.kind with
    | .qualifiedType => []
    | .functionDeclaration | .methodDeclaration | .functionLiteral =>
      functionRoles.flatMap fun (role, manner) => firstPart role manner 0 node.children
    | .shortVarDeclaration => definition source node
    | .rangeClause | .receiveStatement =>
      if Trace.defines node.children then definition source node else everyPart node.children
    | .varSpec | .constSpec =>
      parts (fun child => !decide (child.role = some .name)) (fun _ => .whole) 0 node.children ++
        [.event (.declare (node.names source))]
    | .typeParameterList => members source node.children
    | .typeSwitchStatement =>
      switchItems (Trace.boundNames source (node.child? .bound)) false false 0 node.children
    | _ => everyPart node.children

/-- **The nodes that open a scope.** -/
def opensScope : Kind → Bool
  | .functionDeclaration | .methodDeclaration | .functionLiteral | .typeSpec | .typeAlias
  | .typeSwitchStatement | .block | .ifStatement | .forStatement | .expressionSwitchStatement
  | .selectStatement | .expressionCase | .defaultCase | .typeCase | .communicationCase => true
  | _ => false

/-- **What the walk does at a node.** -/
def items (source : List UInt8) (address : Address) (manner : Manner) (node : Node) : List Item :=
  (heading source address manner node).map .event ++
    if manner = .whole ∧ opensScope node.kind then
      .event (.enter address) :: content source manner node ++ [.event .leave]
    else content source manner node

theorem mem_items_of_mem_content {source : List UInt8} {address : Address} {manner : Manner}
    {node : Node} {item : Item} (h : item ∈ content source manner node) :
    item ∈ items source address manner node := by
  unfold items
  refine List.mem_append_right _ ?_
  split
  · exact List.mem_append_left _ (List.mem_cons_of_mem _ h)
  · exact h

def visit (source : List UInt8) (address : Address) (manner : Manner) (node : Node) : List Event :=
  match manner with
  | .whole => Trace.ofNode source address node
  | .parameters =>
    Trace.parameterTypes source address 0 node.children ++
      [.declare (Trace.parameterNames source node.children)]
  | .parameter =>
    (if node.kind = .typeParameterDeclaration then [.declare (node.names source)] else []) ++
      Trace.firstIn source address .type 0 node.children

def itemEvents (source : List UInt8) (address : Address) : Item → List Event
  | .event e => [e]
  | .part i manner child => visit source (address ++ [i]) manner child

/-! ### The events of a node are those of its items -/

theorem parts_cons (p : Node → Bool) (manner : Node → Manner) (i : Nat) (child : Node)
    (rest : List Node) :
    parts p manner i (child :: rest) =
      (if p child then [.part i (manner child) child] else []) ++ parts p manner (i + 1) rest := by
  unfold parts
  rw [List.zipIdx_cons, List.filter_cons]
  split
  · rfl
  · rfl

theorem firstPart_cons (role : Role) (manner : Node → Manner) (i : Nat) (child : Node)
    (rest : List Node) :
    firstPart role manner i (child :: rest) =
      if child.role = some role then [.part i (manner child) child]
      else firstPart role manner (i + 1) rest := by
  unfold firstPart
  rw [List.zipIdx_cons, List.find?_cons]
  by_cases hrole : child.role = some role
  · rw [if_pos hrole, decide_eq_true hrole]
    rfl
  · rw [if_neg hrole, decide_eq_false hrole]

variable (source : List UInt8) (address : Address)

theorem ofChildren_eq (i : Nat) (children : List Node) :
    Trace.ofChildren source address i children =
      (parts (fun _ => true) (fun _ => .whole) i children).flatMap (itemEvents source address) := by
  induction children generalizing i with
  | nil => rfl
  | cons child rest ih =>
    rw [Trace.ofChildren, ih, parts_cons, if_pos rfl, List.singleton_append, List.flatMap_cons]
    rfl

theorem allButNames_eq (i : Nat) (children : List Node) :
    Trace.allButNames source address i children =
      (parts (fun child => !decide (child.role = some .name)) (fun _ => .whole) i
        children).flatMap (itemEvents source address) := by
  induction children generalizing i with
  | nil => rfl
  | cons child rest ih =>
    rw [Trace.allButNames, ih, parts_cons, List.flatMap_append]
    by_cases hrole : child.role = some .name
    · simp [hrole]
    · simp [hrole, itemEvents, visit]

theorem firstIn_eq (role : Role) (i : Nat) (children : List Node) :
    Trace.firstIn source address role i children =
      (firstPart role (fun _ => .whole) i children).flatMap (itemEvents source address) := by
  induction children generalizing i with
  | nil => rfl
  | cons child rest ih =>
    rw [Trace.firstIn, ih, firstPart_cons]
    split
    · rw [List.flatMap_singleton]
      rfl
    · rfl

theorem signaturePart_eq (role : Role) (i : Nat) (children : List Node) :
    Trace.signaturePart source address role i children =
      (firstPart role signatureManner i children).flatMap (itemEvents source address) := by
  induction children generalizing i with
  | nil => rfl
  | cons child rest ih =>
    obtain ⟨kind, named, role', start, stop, children⟩ := child
    rw [Trace.signaturePart, ih, firstPart_cons]
    split
    · rw [List.flatMap_singleton, itemEvents, signatureManner]
      split
      · rfl
      · rfl
    · rfl

theorem parameterTypes_eq (i : Nat) (children : List Node) :
    Trace.parameterTypes source address i children =
      (parts (·.named) memberManner i children).flatMap (itemEvents source address) := by
  induction children generalizing i with
  | nil => rfl
  | cons child rest ih =>
    obtain ⟨kind, named, role, start, stop, children⟩ := child
    rw [Trace.parameterTypes, ih, parts_cons, List.flatMap_append]
    congr 1
    by_cases hnamed : named = true
    · rw [if_pos hnamed, if_pos hnamed, List.flatMap_singleton]
      by_cases htype : kind = .typeParameterDeclaration
      · simp [itemEvents, memberManner, visit, htype, Kind.isParameter]
      · by_cases hparameter : kind.isParameter = true
        · simp [itemEvents, memberManner, visit, htype, hparameter]
        · simp [itemEvents, memberManner, visit, htype, hparameter]
    · rw [if_neg hnamed, if_neg hnamed]
      rfl

theorem switchParts_eq (names : List String) (boundSeen valueSeen : Bool) (i : Nat)
    (children : List Node) :
    Trace.switchParts source address names boundSeen valueSeen i children =
      (switchItems names boundSeen valueSeen i children).flatMap (itemEvents source address) := by
  induction children generalizing boundSeen valueSeen i with
  | nil => rfl
  | cons child rest ih =>
    rw [Trace.switchParts, switchItems, ih, ih, ih]
    split
    · rfl
    · split
      · simp [itemEvents, visit]
      · simp [itemEvents, visit]

theorem flatMap_event (events : List Event) :
    (events.map Item.event).flatMap (itemEvents source address) = events := by
  induction events with
  | nil => rfl
  | cons e events ih =>
    rw [List.map_cons, List.flatMap_cons, ih]
    rfl

/-- **The events of a node are those of its items.** -/
theorem visit_eq (manner : Manner) (node : Node) :
    visit source address manner node =
      (items source address manner node).flatMap (itemEvents source address) := by
  cases manner with
  | parameters =>
    simp [visit, items, heading, content, members, parameterTypes_eq, itemEvents]
  | parameter =>
    by_cases htype : node.kind = .typeParameterDeclaration
    · simp [visit, items, heading, content, firstIn_eq, itemEvents, htype]
    · simp [visit, items, heading, content, firstIn_eq, htype]
  | whole =>
    obtain ⟨kind, named, role, start, stop, children⟩ := node
    unfold visit items heading content
    cases kind <;>
      simp [Trace.ofNode, opensScope, itemEvents, flatMap_event, everyPart, functionRoles,
        definition, members, ofChildren_eq, signaturePart_eq, firstIn_eq, allButNames_eq,
        parameterTypes_eq, switchParts_eq, apply_ite (List.flatMap (itemEvents source address))]

/-! ### Children are gone through at most once -/

theorem indices_parts (p : Node → Bool) (manner : Node → Manner) (i : Nat)
    (children : List Node) :
    ((parts p manner i children).filterMap Item.index?).Sublist
      (List.range' i children.length) := by
  induction children generalizing i with
  | nil => exact List.Sublist.refl _
  | cons child rest ih =>
    rw [parts_cons, List.length_cons, List.range'_succ]
    split
    · exact (ih (i + 1)).cons_cons i
    · exact (ih (i + 1)).cons i

theorem indices_switchItems (names : List String) (boundSeen valueSeen : Bool) (i : Nat)
    (children : List Node) :
    ((switchItems names boundSeen valueSeen i children).filterMap Item.index?).Sublist
      (List.range' i children.length) := by
  induction children generalizing boundSeen valueSeen i with
  | nil => exact List.Sublist.refl _
  | cons child rest ih =>
    rw [switchItems, List.length_cons, List.range'_succ]
    split
    · exact (ih true valueSeen (i + 1)).cons i
    · split
      · exact (ih boundSeen true (i + 1)).cons_cons i
      · exact (ih boundSeen valueSeen (i + 1)).cons_cons i

theorem indices_firstPart (role : Role) (manner : Node → Manner) (i : Nat)
    (children : List Node) :
    ((firstPart role manner i children).filterMap Item.index?).Sublist
      (List.range' i children.length) := by
  induction children generalizing i with
  | nil => exact List.Sublist.refl _
  | cons child rest ih =>
    rw [firstPart_cons, List.length_cons, List.range'_succ]
    split
    · exact (List.nil_sublist _).cons_cons i
    · exact (ih (i + 1)).cons i

/-- Items that go through children of a list, and through none of them twice. -/
structure Draws (children : List Node) (l : List Item) : Prop where
  child : ∀ i manner child, .part i manner child ∈ l → children[i]? = some child
  once : (l.filterMap Item.index?).Nodup

variable {children : List Node} {l : List Item}

theorem draws_parts (p : Node → Bool) (manner : Node → Manner) :
    Draws children (parts p manner 0 children) where
  child i m child h := by
    obtain ⟨⟨found, j⟩, hfound, heq⟩ := List.mem_map.1 h
    simp only [Item.part.injEq] at heq
    obtain ⟨rfl, _, rfl⟩ := heq
    exact List.mem_zipIdx_iff_getElem?.1 (List.mem_of_mem_filter hfound)
  once := (indices_parts p manner 0 children).nodup List.nodup_range'

theorem mem_firstPart {role : Role} {manner : Node → Manner} {i : Nat} {m : Manner} {child : Node}
    (h : .part i m child ∈ firstPart role manner 0 children) :
    children[i]? = some child ∧ child.role = some role := by
  rw [firstPart, Option.mem_toList, Option.map_eq_some_iff] at h
  obtain ⟨⟨found, j⟩, hfound, heq⟩ := h
  simp only [Item.part.injEq] at heq
  obtain ⟨rfl, _, rfl⟩ := heq
  refine ⟨List.mem_zipIdx_iff_getElem?.1 (List.mem_of_find?_eq_some hfound), ?_⟩
  simpa using List.find?_some hfound

theorem draws_firstPart (role : Role) (manner : Node → Manner) :
    Draws children (firstPart role manner 0 children) where
  child _ _ _ h := (mem_firstPart h).1
  once := (indices_firstPart role manner 0 children).nodup List.nodup_range'

theorem draws_switchItems (names : List String) :
    Draws children (switchItems names false false 0 children) where
  child := by
    suffices hall : ∀ (boundSeen valueSeen : Bool) (n : Nat) (rest : List Node) (i : Nat)
        (m : Manner) (child : Node), rest = children.drop n →
        .part i m child ∈ switchItems names boundSeen valueSeen n rest →
          children[i]? = some child from
      fun i m child h => hall false false 0 children i m child rfl h
    intro boundSeen valueSeen n rest
    induction rest generalizing boundSeen valueSeen n with
    | nil => exact fun i m child _ h => absurd h (by simp [switchItems])
    | cons first rest ih =>
      intro i m child hdrop h
      have hfirst : children[n]? = some first := by
        rw [← List.head?_drop, ← hdrop]
        rfl
      have hrest : rest = children.drop (n + 1) := by
        rw [← List.tail_drop, ← hdrop]
        rfl
      have hhere : Item.part i m child = .part n .whole first → children[i]? = some child := by
        intro heq
        obtain ⟨rfl, _, rfl⟩ := Item.part.inj heq
        exact hfirst
      rw [switchItems] at h
      split at h
      · exact ih _ _ _ i m child hrest h
      · split at h
        · rcases List.mem_cons.1 h with h | h
          · exact hhere h
          · rcases List.mem_cons.1 h with h | h
            · exact absurd h (by simp)
            · exact ih _ _ _ i m child hrest h
        · rcases List.mem_cons.1 h with h | h
          · exact hhere h
          · exact ih _ _ _ i m child hrest h
  once := (indices_switchItems names false false 0 children).nodup List.nodup_range'

theorem draws_events (events : List Event) : Draws children (events.map .event) where
  child _ _ _ h := by
    obtain ⟨_, _, heq⟩ := List.mem_map.1 h
    exact Item.noConfusion heq
  once := by
    have hnone : (events.map Item.event).filterMap Item.index? = [] := by
      rw [List.filterMap_map]
      exact List.filterMap_eq_nil_iff.2 fun _ _ => rfl
    rw [hnone]
    exact List.nodup_nil

theorem Draws.append {m : List Item} (hl : Draws children l) (hm : Draws children m)
    (h : ∀ i a b x y, .part i a x ∈ l → .part i b y ∈ m → False) : Draws children (l ++ m) where
  child i manner child hmem := by
    rcases List.mem_append.1 hmem with hmem | hmem
    · exact hl.child i manner child hmem
    · exact hm.child i manner child hmem
  once := by
    have hpart : ∀ {i : Nat} {k : List Item}, i ∈ k.filterMap Item.index? →
        ∃ manner child, .part i manner child ∈ k := by
      intro i k hi
      obtain ⟨item, hitem, hindex⟩ := List.mem_filterMap.1 hi
      cases item with
      | event e => exact absurd hindex (by simp [Item.index?])
      | part j manner child =>
        obtain rfl : j = i := Option.some.inj hindex
        exact ⟨manner, child, hitem⟩
    rw [List.filterMap_append]
    refine List.Nodup.append hl.once hm.once fun i hi hi' => ?_
    obtain ⟨a, x, hx⟩ := hpart hi
    obtain ⟨b, y, hy⟩ := hpart hi'
    exact h i a b x y hx hy

theorem Draws.append_event (h : Draws children l) (e : Event) : Draws children (l ++ [.event e]) :=
  h.append (draws_events [e]) fun _ _ _ _ _ _ hy => by simp at hy

theorem draws_roles {roles : List (Role × (Node → Manner))} (h : (roles.map (·.1)).Nodup) :
    Draws children (roles.flatMap fun (role, manner) => firstPart role manner 0 children) := by
  induction roles with
  | nil => exact draws_events []
  | cons pair roles ih =>
    obtain ⟨role, manner⟩ := pair
    rw [List.map_cons, List.nodup_cons] at h
    rw [List.flatMap_cons]
    refine (draws_firstPart role manner).append (ih h.2) fun i a b x y hx hy => ?_
    obtain ⟨⟨other, manner'⟩, hother, hy⟩ := List.mem_flatMap.1 hy
    obtain ⟨hxi, hxrole⟩ := mem_firstPart hx
    obtain ⟨hyi, hyrole⟩ := mem_firstPart hy
    obtain rfl : x = y := Option.some.inj (hxi.symm.trans hyi)
    obtain rfl : role = other := Option.some.inj (hxrole.symm.trans hyrole)
    exact h.1 (List.mem_map.2 ⟨(role, manner'), hother, rfl⟩)

theorem draws_content (manner : Manner) (node : Node) :
    Draws node.children (content source manner node) := by
  have hdefinition : Draws node.children (definition source node) :=
    (draws_firstPart _ _).append_event _
  have hmembers : Draws node.children (members source node.children) :=
    (draws_parts _ _).append_event _
  unfold content
  split
  · exact hmembers
  · exact draws_firstPart _ _
  · split
    · exact draws_events []
    · exact draws_roles (by decide)
    · exact draws_roles (by decide)
    · exact draws_roles (by decide)
    · exact hdefinition
    · split
      · exact hdefinition
      · exact draws_parts _ _
    · split
      · exact hdefinition
      · exact draws_parts _ _
    · exact (draws_parts _ _).append_event _
    · exact (draws_parts _ _).append_event _
    · exact hmembers
    · exact draws_switchItems _
    · exact draws_parts _ _

/-- **The walk goes through children of a node only, and through none of them twice.** -/
theorem draws_items (manner : Manner) (node : Node) :
    Draws node.children (items source address manner node) := by
  have hcontent := draws_content source manner node
  have hevent : ∀ (events : List Event) i a x, .part i a x ∈ events.map Item.event → False := by
    intro events i a x hx
    obtain ⟨_, _, heq⟩ := List.mem_map.1 hx
    exact Item.noConfusion heq
  unfold items
  refine (draws_events _).append ?_ fun i a b x y hx _ => hevent _ i a x hx
  split
  · have henter : Draws node.children ([.event (.enter address)] ++ content source manner node) :=
      (draws_events [.enter address]).append hcontent fun i a b x y hx _ => hevent [_] i a x hx
    exact henter.append_event _
  · exact hcontent

/-! ### The events of a node itself -/

theorem mention_cases (node : Node) (package name : Option Node) :
    Trace.mention source address node package name = [] ∨
      ∃ use, Trace.mention source address node package name = [.mention use] ∧
        use.address = address := by
  unfold Trace.mention
  split
  · exact Or.inr ⟨_, rfl, rfl⟩
  · exact Or.inl rfl

theorem selectorMention_cases (node : Node) :
    Trace.selectorMention source address node = [] ∨
      ∃ use, Trace.selectorMention source address node = [.mention use] ∧
        use.address = address := by
  unfold Trace.selectorMention
  split
  · split
    · exact mention_cases source address node _ _
    · exact Or.inl rfl
  · exact Or.inl rfl

/-- The heading of a node is empty, declares names, or mentions the node; what it mentions opens no
scope. -/
theorem heading_cases (manner : Manner) (node : Node) :
    heading source address manner node = [] ∨
      (∃ names, heading source address manner node = [.declare names]) ∨
      ∃ use, heading source address manner node = [.mention use] ∧ use.address = address ∧
        opensScope node.kind = false := by
  unfold heading
  split
  · exact Or.inl rfl
  · split
    · exact Or.inr (Or.inl ⟨_, rfl⟩)
    · exact Or.inl rfl
  · split
    · rename_i hkind
      rcases selectorMention_cases source address node with h | ⟨use, h, haddress⟩
      · exact Or.inl h
      · exact Or.inr (Or.inr ⟨use, h, haddress, by rw [hkind]; decide⟩)
    · rename_i hkind
      rcases mention_cases source address node (node.child? .package) (node.child? .name) with
        h | ⟨use, h, haddress⟩
      · exact Or.inl h
      · exact Or.inr (Or.inr ⟨use, h, haddress, by rw [hkind]; decide⟩)
    · exact Or.inr (Or.inl ⟨_, rfl⟩)
    · exact Or.inr (Or.inl ⟨_, rfl⟩)
    · exact Or.inl rfl

theorem not_event_mem_parts {p : Node → Bool} {manner : Node → Manner} {i : Nat} {e : Event} :
    ¬ .event e ∈ parts p manner i children := by
  intro h
  obtain ⟨_, _, heq⟩ := List.mem_map.1 h
  exact Item.noConfusion heq

theorem not_event_mem_firstPart {role : Role} {manner : Node → Manner} {i : Nat} {e : Event} :
    ¬ .event e ∈ firstPart role manner i children := by
  intro h
  rw [firstPart, Option.mem_toList, Option.map_eq_some_iff] at h
  obtain ⟨_, _, heq⟩ := h
  exact Item.noConfusion heq

theorem not_event_mem_roles {roles : List (Role × (Node → Manner))} {e : Event} :
    ¬ .event e ∈ roles.flatMap fun (role, manner) => firstPart role manner 0 children := by
  intro h
  obtain ⟨_, _, hmem⟩ := List.mem_flatMap.1 h
  exact not_event_mem_firstPart hmem

theorem event_mem_switchItems {names : List String} {boundSeen valueSeen : Bool} {i : Nat}
    {e : Event} (h : .event e ∈ switchItems names boundSeen valueSeen i children) :
    e = .declare names := by
  induction children generalizing boundSeen valueSeen i with
  | nil => exact absurd h List.not_mem_nil
  | cons child rest ih =>
    rw [switchItems] at h
    split at h
    · exact ih h
    · split at h
      · simp only [List.mem_cons, reduceCtorEq, Item.event.injEq, false_or] at h
        rcases h with h | h
        · exact h
        · exact ih h
      · simp only [List.mem_cons, reduceCtorEq, false_or] at h
        exact ih h

/-- In the content of a node, all that the node does itself is declare names. -/
theorem event_mem_content {manner : Manner} {node : Node} {e : Event}
    (h : .event e ∈ content source manner node) : ∃ names, e = .declare names := by
  have hlast : ∀ {l : List Item} {names : List String}, ¬ .event e ∈ l →
      .event e ∈ l ++ [.event (.declare names)] → ∃ names, e = .declare names := by
    intro l names hl hmem
    rcases List.mem_append.1 hmem with hmem | hmem
    · exact absurd hmem hl
    · exact ⟨names, Item.event.inj (List.mem_singleton.1 hmem)⟩
  unfold content at h
  split at h
  · exact hlast not_event_mem_parts h
  · exact absurd h not_event_mem_firstPart
  · split at h
    · exact absurd h List.not_mem_nil
    · exact absurd h not_event_mem_roles
    · exact absurd h not_event_mem_roles
    · exact absurd h not_event_mem_roles
    · exact hlast not_event_mem_firstPart h
    · split at h
      · exact hlast not_event_mem_firstPart h
      · exact absurd h not_event_mem_parts
    · split at h
      · exact hlast not_event_mem_firstPart h
      · exact absurd h not_event_mem_parts
    · exact hlast not_event_mem_parts h
    · exact hlast not_event_mem_parts h
    · exact hlast not_event_mem_parts h
    · exact ⟨_, event_mem_switchItems h⟩
    · exact absurd h not_event_mem_parts

/-! ### The nodes that the walk gets to -/

/-- **The walk gets to a node at an address, in a manner**, from the root on. -/
inductive Reached (root : Node) : Address → Manner → Node → Prop
  | root : Reached root [] .whole root
  | part {address : Address} {manner m : Manner} {node child : Node} {i : Nat} :
      Reached root address manner node → .part i m child ∈ items source address manner node →
        Reached root (address ++ [i]) m child

/-- What holds of a node as soon as it holds of the children that the walk goes through holds of
every node. -/
theorem walk_induction {motive : Address → Manner → Node → Prop}
    (step : ∀ address manner node,
      (∀ i m child, .part i m child ∈ items source address manner node →
        motive (address ++ [i]) m child) → motive address manner node)
    (address : Address) (manner : Manner) (node : Node) : motive address manner node := by
  induction node using Node.induction generalizing address manner with
  | step node ih =>
    refine step address manner node fun i m child hpart => ?_
    have hchild := (draws_items source address manner node).child i m child hpart
    exact ih child (List.mem_of_getElem? hchild) (address ++ [i]) m

end Walk

end ImportGuard
