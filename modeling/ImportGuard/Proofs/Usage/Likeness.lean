import ImportGuard.Proofs.Usage.Visibility

/-!
# Trees that read alike

What the walk over a tree does depends on the kinds and roles of the nodes and on their texts, and
on nothing else.  Two trees, each over a text of its own, are **alike** if they have one shape and
corresponding nodes read alike (`Node.Like`, `Node.ReadsAs`).  Then their events correspond one to
one (`visit_like`), and so do the uses of every package (`visible_like`, `usesOf_like`): same
address, same package, same name.  Only where in the text a use stands may differ, and the relation
`U` between uses keeps track of that.

For one package it is enough that events agree about its name.  `Event.Like` asks of two
declarations only that both or neither declare it, so that it also relates walks over trees which
differ in names that have nothing to do with the package.
-/

namespace ImportGuard

/-! ### Trees of one shape -/

/-- **Two trees of one shape**, with `P` between corresponding nodes. -/
inductive Node.Like (P : Node → Node → Prop) : Node → Node → Prop
  | intro {a b : Node} (here : P a b) (children : List.Forall₂ (Like P) a.children b.children) :
      Like P a b

/-- Two nodes, each over a text of its own, that cannot be told apart by kind, role or text. -/
structure Node.ReadsAs (source source' : List UInt8) (a b : Node) : Prop where
  kind : a.kind = b.kind
  named : a.named = b.named
  role : a.role = b.role
  text : a.text source = b.text source'

theorem Node.Like.here {P : Node → Node → Prop} {a b : Node} (h : Node.Like P a b) : P a b := by
  cases h with
  | intro here _ => exact here

theorem Node.Like.children {P : Node → Node → Prop} {a b : Node} (h : Node.Like P a b) :
    List.Forall₂ (Node.Like P) a.children b.children := by
  cases h with
  | intro _ children => exact children

theorem forall₂_flatMap {α β γ δ : Type} {R : α → β → Prop} {S : γ → δ → Prop} {f : α → List γ}
    {g : β → List δ} {l : List α} {m : List β} (h : List.Forall₂ R l m)
    (hfg : ∀ a ∈ l, ∀ b, R a b → List.Forall₂ S (f a) (g b)) :
    List.Forall₂ S (l.flatMap f) (m.flatMap g) := by
  induction h with
  | nil => exact List.Forall₂.nil
  | @cons a b l m hab _ ih =>
    rw [List.flatMap_cons, List.flatMap_cons]
    apply List.rel_append (hfg a List.mem_cons_self b hab)
    apply ih
    intro c hc
    exact hfg c (List.mem_cons_of_mem a hc)

/-! ### Events that agree about a name -/

/-- Two events that are the same to one who asks about a name: scopes open and close at one
address, declarations both have the name or both do not, and uses are related by `U`. -/
def Event.Like (name : String) (U : Use → Use → Prop) : Event → Event → Prop
  | .enter a, .enter b => a = b
  | .leave, .leave => True
  | .declare names, .declare names' => name ∈ names ↔ name ∈ names'
  | .mention use, .mention use' => use.package = use'.package ∧ U use use'
  | _, _ => False

/-- Stacks of scopes that have a name in the same scopes. -/
def Scopes.Agree (name : String) (scopes scopes' : Scopes) : Prop :=
  List.Forall₂ (fun scope scope' => name ∈ scope ↔ name ∈ scope') scopes scopes'

theorem Scopes.Agree.refl (name : String) (scopes : Scopes) : scopes.Agree name scopes :=
  List.forall₂_same.2 fun _ _ => Iff.rfl

theorem Scopes.Agree.enter {name : String} {scopes scopes' : Scopes}
    (h : scopes.Agree name scopes') : Scopes.Agree name ([] :: scopes) ([] :: scopes') :=
  List.Forall₂.cons Iff.rfl h

theorem Scopes.Agree.leave {name : String} {scopes scopes' : Scopes}
    (h : scopes.Agree name scopes') : Scopes.Agree name scopes.tail scopes'.tail := by
  cases h with
  | nil => exact List.Forall₂.nil
  | cons _ hrest => exact hrest

theorem Scopes.Agree.declare {name : String} {scopes scopes' : Scopes}
    (h : scopes.Agree name scopes') {names names' : List String}
    (hnames : name ∈ names ↔ name ∈ names') :
    (scopes.declare names).Agree name (scopes'.declare names') := by
  cases h with
  | nil => exact List.Forall₂.cons hnames List.Forall₂.nil
  | cons hscope hrest =>
    refine List.Forall₂.cons ?_ hrest
    rw [List.mem_append, List.mem_append, hnames, hscope]

theorem Scopes.Agree.hides_eq {name : String} {scopes scopes' : Scopes}
    (h : scopes.Agree name scopes') : scopes.hides name = scopes'.hides name := by
  induction h with
  | nil => rfl
  | @cons scope scope' _ _ hscope _ ih =>
    have hhead : scope.contains name = scope'.contains name := by
      rw [Bool.eq_iff_iff, List.contains_iff_mem, List.contains_iff_mem, hscope]
    unfold hides at ih ⊢
    rw [List.any_cons, List.any_cons, hhead, ih]

variable {name : String} {U : Use → Use → Prop}

theorem Scopes.Agree.after {scopes scopes' : Scopes} {events events' : List Event}
    (h : scopes.Agree name scopes') (hevents : List.Forall₂ (Event.Like name U) events events') :
    (scopes.after events).Agree name (scopes'.after events') := by
  induction hevents generalizing scopes scopes' with
  | nil => exact h
  | @cons e e' _ _ he _ ih =>
    cases e <;> cases e' <;> try exact he.elim
    · exact ih h.enter
    · exact ih h.leave
    · exact ih (h.declare he)
    · exact ih h

/-- **Events that agree about a name have the same uses under it.** -/
theorem Usage.visible_like {scopes scopes' : Scopes} {events events' : List Event}
    (h : scopes.Agree name scopes') (hevents : List.Forall₂ (Event.Like name U) events events') :
    List.Forall₂ U (visible name scopes events) (visible name scopes' events') := by
  induction hevents generalizing scopes scopes' with
  | nil => exact List.Forall₂.nil
  | @cons e e' _ _ he _ ih =>
    cases e <;> cases e' <;> try exact he.elim
    · exact ih h.enter
    · exact ih h.leave
    · exact ih (h.declare he)
    · obtain ⟨hpackage, huse⟩ := he
      rw [visible, visible, hpackage, h.hides_eq]
      split
      · exact List.Forall₂.cons huse (ih h)
      · exact ih h

namespace Walk

/-! ### Children that read alike -/

section Children

variable {source source' : List UInt8} {P : Node → Node → Prop}
  (hP : ∀ a b, P a b → a.ReadsAs source source' b) {children children' : List Node}
  (h : List.Forall₂ (Node.Like P) children children')

include hP h

theorem find?_role_like (role : Role) :
    Option.Rel (Node.Like P) (children.find? (·.role = some role))
      (children'.find? (·.role = some role)) := by
  induction h with
  | nil => exact Option.Rel.none
  | @cons a b _ _ hab _ ih =>
    have hrole := (hP a b hab.here).role
    by_cases ha : a.role = some role
    · rw [List.find?_cons_of_pos (by simpa using ha),
        List.find?_cons_of_pos (by simpa [← hrole] using ha)]
      exact Option.Rel.some hab
    · rw [List.find?_cons_of_neg (by simpa using ha),
        List.find?_cons_of_neg (by simpa [← hrole] using ha)]
      exact ih

/-- Filtering by what can be read keeps children alike. -/
theorem filter_like {p : Node → Bool}
    (hp : ∀ a b : Node, a.kind = b.kind → a.named = b.named → a.role = b.role → p a = p b) :
    List.Forall₂ (Node.Like P) (children.filter p) (children'.filter p) := by
  induction h with
  | nil => exact List.Forall₂.nil
  | @cons a b _ _ hab _ ih =>
    have hreads := hP a b hab.here
    rw [List.filter_cons, List.filter_cons, hp a b hreads.kind hreads.named hreads.role]
    split
    · exact List.Forall₂.cons hab ih
    · exact ih

theorem map_text_like : children.map (·.text source) = children'.map (·.text source') := by
  induction h with
  | nil => rfl
  | @cons a b _ _ hab _ ih =>
    rw [List.map_cons, List.map_cons, (hP a b hab.here).text, ih]

theorem defines_like : Trace.defines children = Trace.defines children' := by
  unfold Trace.defines
  induction h with
  | nil => rfl
  | @cons a b _ _ hab _ ih =>
    rw [List.any_cons, List.any_cons, (hP a b hab.here).kind, ih]

end Children

section Nodes

variable {source source' : List UInt8} {P : Node → Node → Prop}
  (hP : ∀ a b, P a b → a.ReadsAs source source' b)

include hP

theorem names_like {a b : Node} (h : a.Like P b) : a.names source = b.names source' :=
  map_text_like hP (filter_like hP h.children fun _ _ _ _ hrole => by rw [hrole])

theorem boundNames_like {left left' : Option Node} (h : Option.Rel (Node.Like P) left left') :
    Trace.boundNames source left = Trace.boundNames source' left' := by
  cases h with
  | none => rfl
  | @some a b hab =>
    have hreads := hP a b hab.here
    unfold Trace.boundNames
    dsimp only
    rw [hreads.kind, hreads.text]
    split
    · rfl
    · apply map_text_like hP
      apply filter_like hP hab.children
      intro c d hkind hnamed _
      rw [hkind, hnamed]

theorem parameterNames_like {children children' : List Node}
    (h : List.Forall₂ (Node.Like P) children children') :
    Trace.parameterNames source children = Trace.parameterNames source' children' := by
  have hall : ∀ {members members' : List Node}, List.Forall₂ (Node.Like P) members members' →
      members.flatMap (·.names source) = members'.flatMap (·.names source') := by
    intro members members' hmembers
    induction hmembers with
    | nil => rfl
    | cons hab _ ih => rw [List.flatMap_cons, List.flatMap_cons, names_like hP hab, ih]
  apply hall
  apply filter_like hP h
  intro c d hkind hnamed _
  rw [hkind, hnamed]

/-! ### What the walk does at nodes that read alike -/

omit hP in
/-- Items that correspond: events that agree about a name, and ways through children that read
alike. -/
inductive LikeItem (P : Node → Node → Prop) (name : String) (U : Use → Use → Prop) :
    Item → Item → Prop
  | event {e e' : Event} : e.Like name U e' → LikeItem P name U (.event e) (.event e')
  | part {i : Nat} {manner : Manner} {child child' : Node} : child.Like P child' →
      LikeItem P name U (.part i manner child) (.part i manner child')

omit hP in
theorem LikeItem.declare {names names' : List String} (h : names = names') :
    List.Forall₂ (LikeItem P name U) [.event (.declare names)] [.event (.declare names')] := by
  rw [h]
  exact List.Forall₂.cons (.event Iff.rfl) List.Forall₂.nil

variable {children children' : List Node} (h : List.Forall₂ (Node.Like P) children children')

include h

theorem parts_like {p : Node → Bool} {manner : Node → Manner}
    (hp : ∀ a b : Node, a.kind = b.kind → a.named = b.named → a.role = b.role → p a = p b)
    (hmanner : ∀ a b : Node, a.kind = b.kind → manner a = manner b) (i : Nat) :
    List.Forall₂ (LikeItem P name U) (parts p manner i children) (parts p manner i children') := by
  induction h generalizing i with
  | nil => exact List.Forall₂.nil
  | @cons a b _ _ hab _ ih =>
    have hreads := hP a b hab.here
    rw [parts_cons, parts_cons, hp a b hreads.kind hreads.named hreads.role,
      hmanner a b hreads.kind]
    apply List.rel_append ?_ (ih (i + 1))
    split
    · exact List.Forall₂.cons (.part hab) List.Forall₂.nil
    · exact List.Forall₂.nil

theorem firstPart_like {manner : Node → Manner}
    (hmanner : ∀ a b : Node, a.kind = b.kind → manner a = manner b) (role : Role) (i : Nat) :
    List.Forall₂ (LikeItem P name U) (firstPart role manner i children)
      (firstPart role manner i children') := by
  induction h generalizing i with
  | nil => exact List.Forall₂.nil
  | @cons a b _ _ hab _ ih =>
    have hreads := hP a b hab.here
    rw [firstPart_cons, firstPart_cons, hreads.role, hmanner a b hreads.kind]
    split
    · exact List.Forall₂.cons (.part hab) List.Forall₂.nil
    · exact ih (i + 1)

omit hP h in
/-- Children of two type switches that correspond, apart from the first in the role `bound`; whether
that one has been met is said in front. -/
inductive SwitchLike (P : Node → Node → Prop) : Bool → List Node → List Node → Prop
  | nil {boundSeen : Bool} : SwitchLike P boundSeen [] []
  | bound {a b : Node} {l m : List Node} : a.role = some .bound → b.role = some .bound →
      SwitchLike P true l m → SwitchLike P false (a :: l) (b :: m)
  | part {boundSeen : Bool} {a b : Node} {l m : List Node} :
      (a.role = some .bound → boundSeen = true) → a.Like P b → SwitchLike P boundSeen l m →
        SwitchLike P boundSeen (a :: l) (b :: m)

theorem switchLike_of_forall₂ (boundSeen : Bool) : SwitchLike P boundSeen children children' := by
  induction h generalizing boundSeen with
  | nil => exact .nil
  | @cons a b _ _ hab _ ih =>
    by_cases hbound : a.role = some .bound ∧ boundSeen = false
    · obtain ⟨ha, rfl⟩ := hbound
      exact .bound ha ((hP a b hab.here).role ▸ ha) (ih true)
    · refine .part (fun ha => ?_) hab (ih boundSeen)
      exact eq_true_of_ne_false fun hseen => hbound ⟨ha, hseen⟩

omit h in
theorem switchItems_like {names names' : List String} (hnames : name ∈ names ↔ name ∈ names')
    {boundSeen : Bool} (hswitch : SwitchLike P boundSeen children children') (valueSeen : Bool)
    (i : Nat) :
    List.Forall₂ (LikeItem P name U) (switchItems names boundSeen valueSeen i children)
      (switchItems names' boundSeen valueSeen i children') := by
  induction hswitch generalizing valueSeen i with
  | nil => exact List.Forall₂.nil
  | bound ha hb _ ih =>
    rw [switchItems, switchItems, if_pos ⟨ha, rfl⟩, if_pos ⟨hb, rfl⟩]
    exact ih valueSeen (i + 1)
  | @part boundSeen a b _ _ hbound hab _ ih =>
    have hnot : ¬ (b.role = some .bound ∧ boundSeen = false) := by
      rintro ⟨hb, hseen⟩
      rw [hbound ((hP a b hab.here).role.trans hb)] at hseen
      exact Bool.noConfusion hseen
    rw [switchItems, switchItems, (hP a b hab.here).role, if_neg hnot, if_neg hnot]
    split
    · exact List.Forall₂.cons (.part hab)
        (List.Forall₂.cons (.event hnames) (ih true (i + 1)))
    · exact List.Forall₂.cons (.part hab) (ih valueSeen (i + 1))

theorem members_like :
    List.Forall₂ (LikeItem P name U) (members source children) (members source' children') := by
  apply List.rel_append
  · apply parts_like hP h
    · intro a b _ hnamed _
      exact hnamed
    · intro a b hkind
      unfold memberManner
      rw [hkind]
  · exact LikeItem.declare (parameterNames_like hP h)

omit h in
theorem definition_like {a b : Node} (hab : a.Like P b) :
    List.Forall₂ (LikeItem P name U) (definition source a) (definition source' b) := by
  apply List.rel_append
  · exact firstPart_like hP hab.children (fun _ _ _ => rfl) .right 0
  · exact LikeItem.declare (boundNames_like hP (find?_role_like hP hab.children .left))

omit hP h in
theorem signatureManner_eq {a b : Node} (h : a.kind = b.kind) :
    signatureManner a = signatureManner b := by
  unfold signatureManner
  rw [h]

omit h in
theorem content_like (manner : Manner) {a b : Node} (hab : a.Like P b) :
    List.Forall₂ (LikeItem P name U) (content source manner a) (content source' manner b) := by
  have hevery : List.Forall₂ (LikeItem P name U) (everyPart a.children) (everyPart b.children) :=
    parts_like hP hab.children (fun _ _ _ _ _ => rfl) (fun _ _ _ => rfl) 0
  have hroles : List.Forall₂ (LikeItem P name U)
      (functionRoles.flatMap fun pair => firstPart pair.1 pair.2 0 a.children)
      (functionRoles.flatMap fun pair => firstPart pair.1 pair.2 0 b.children) := by
    refine forall₂_flatMap (R := Eq) (List.forall₂_same.2 fun _ _ => rfl) ?_
    rintro ⟨role, manner⟩ hmem _ rfl
    apply firstPart_like hP hab.children
    intro c d hkind
    simp only [functionRoles, List.mem_cons, Prod.mk.injEq, List.not_mem_nil, or_false] at hmem
    rcases hmem with ⟨-, rfl⟩ | ⟨-, rfl⟩ | ⟨-, rfl⟩ | ⟨-, rfl⟩ | ⟨-, rfl⟩
    · exact signatureManner_eq hkind
    · exact signatureManner_eq hkind
    · exact signatureManner_eq hkind
    · exact signatureManner_eq hkind
    · rfl
  have hspec : List.Forall₂ (LikeItem P name U)
      (parts (fun child => !decide (child.role = some .name)) (fun _ => .whole) 0 a.children ++
        [.event (.declare (a.names source))])
      (parts (fun child => !decide (child.role = some .name)) (fun _ => .whole) 0 b.children ++
        [.event (.declare (b.names source'))]) := by
    apply List.rel_append
    · exact parts_like hP hab.children (fun _ _ _ _ hrole => by rw [hrole]) (fun _ _ _ => rfl) 0
    · exact LikeItem.declare (names_like hP hab)
  have hbound := boundNames_like hP (find?_role_like hP hab.children .bound)
  cases manner with
  | parameters => exact members_like hP hab.children
  | parameter =>
    show List.Forall₂ _ (firstPart .type (fun _ => .whole) 0 a.children)
      (firstPart .type (fun _ => .whole) 0 b.children)
    exact firstPart_like hP hab.children (fun _ _ _ => rfl) .type 0
  | whole =>
    unfold content
    dsimp only
    rw [(hP a b hab.here).kind, defines_like hP hab.children]
    split
    · exact List.Forall₂.nil
    · exact hroles
    · exact hroles
    · exact hroles
    · exact definition_like hP hab
    · split
      · exact definition_like hP hab
      · exact hevery
    · split
      · exact definition_like hP hab
      · exact hevery
    · exact hspec
    · exact hspec
    · exact members_like hP hab.children
    · apply switchItems_like hP ?_ (switchLike_of_forall₂ hP hab.children false)
      show name ∈ Trace.boundNames source (a.children.find? _) ↔
        name ∈ Trace.boundNames source' (b.children.find? _)
      rw [hbound]
    · exact hevery

omit hP h in
/-- Uses that two nodes make are related if the nodes and their parts are. -/
def RelatesUses (source source' : List UInt8) (P : Node → Node → Prop) (U : Use → Use → Prop) :
    Prop :=
  ∀ address {node node' package package' name name' : Node}, P node node' → P package package' →
    P name name' →
      U (useOf source address node package name) (useOf source' address node' package' name')

omit h in
theorem mention_like (hU : RelatesUses source source' P U) (address : Address) {a b : Node}
    (hab : P a b) {package package' found found' : Option Node}
    (hpackage : Option.Rel (Node.Like P) package package')
    (hfound : Option.Rel (Node.Like P) found found') :
    List.Forall₂ (Event.Like name U) (Trace.mention source address a package found)
      (Trace.mention source' address b package' found') := by
  cases hpackage with
  | none => exact List.Forall₂.nil
  | @some p p' hp =>
    cases hfound with
    | none => exact List.Forall₂.nil
    | @some n n' hn =>
      refine List.Forall₂.cons ⟨?_, ?_⟩ List.Forall₂.nil
      · exact (hP p p' hp.here).text
      · exact hU address hab hp.here hn.here

omit h in
theorem heading_like (hU : RelatesUses source source' P U) (address : Address) (manner : Manner)
    {a b : Node} (hab : a.Like P b) :
    List.Forall₂ (Event.Like name U) (heading source address manner a)
      (heading source' address manner b) := by
  have hnames : List.Forall₂ (Event.Like name U) [.declare (a.names source)]
      [.declare (b.names source')] := by
    rw [names_like hP hab]
    exact List.Forall₂.cons Iff.rfl List.Forall₂.nil
  have hchild := find?_role_like hP hab.children
  have hkind := (hP a b hab.here).kind
  unfold heading
  rw [hkind]
  split
  · exact List.Forall₂.nil
  · split
    · exact hnames
    · exact List.Forall₂.nil
  · split
    · have hoperand := hchild .operand
      unfold Trace.selectorMention Node.child?
      generalize a.children.find? (·.role = some .operand) = operand at hoperand ⊢
      generalize b.children.find? (·.role = some .operand) = operand' at hoperand ⊢
      cases hoperand with
      | none => exact List.Forall₂.nil
      | @some p p' hp =>
        dsimp only
        rw [(hP p p' hp.here).kind]
        split
        · exact mention_like hP hU address hab.here (.some hp) (hchild .selected)
        · exact List.Forall₂.nil
    · exact mention_like hP hU address hab.here (hchild .package) (hchild .name)
    · exact hnames
    · exact hnames
    · exact List.Forall₂.nil

omit h in
theorem items_like (hU : RelatesUses source source' P U) (address : Address) (manner : Manner)
    {a b : Node} (hab : a.Like P b) :
    List.Forall₂ (LikeItem P name U) (items source address manner a)
      (items source' address manner b) := by
  have hcontent : List.Forall₂ (LikeItem P name U) (content source manner a)
      (content source' manner b) := content_like hP manner hab
  unfold items
  apply List.rel_append
  · rw [List.forall₂_map_left_iff, List.forall₂_map_right_iff]
    exact (heading_like hP hU address manner hab).imp fun _ _ he => .event he
  · rw [(hP a b hab.here).kind]
    split
    · apply List.rel_append
      · exact List.Forall₂.cons (.event rfl) hcontent
      · exact List.Forall₂.cons (.event trivial) List.Forall₂.nil
    · exact hcontent

omit h in
/-- **The events of trees that read alike correspond.** -/
theorem visit_like (hU : RelatesUses source source' P U) (address : Address) (manner : Manner)
    {a b : Node} (hab : a.Like P b) :
    List.Forall₂ (Event.Like name U) (visit source address manner a)
      (visit source' address manner b) := by
  induction address, manner, a using walk_induction source generalizing b with
  | step address manner a ih =>
    rw [visit_eq, visit_eq]
    apply forall₂_flatMap (items_like hP hU address manner hab)
    intro item hitem item' hlike
    cases hlike with
    | event he => exact List.Forall₂.cons he List.Forall₂.nil
    | part hchild => exact ih _ _ _ hitem hchild

end Nodes

end Walk

/-! ### Files that read alike -/

namespace Usage

variable {source source' : List UInt8} {P : Node → Node → Prop}

theorem outermost_like (hP : ∀ a b, P a b → a.ReadsAs source source' b) (p : Kind → Bool)
    {a b : Node} (h : a.Like P b) :
    List.Forall₂ (Node.Like P) (a.outermost p) (b.outermost p) := by
  induction a using Node.induction generalizing b with
  | step a ih =>
    have hkind := (hP a b h.here).kind
    have hchildren := h.children
    obtain ⟨kind, named, role, start, stop, children⟩ := a
    obtain ⟨kind', named', role', start', stop', children'⟩ := b
    obtain rfl : kind = kind' := hkind
    rw [Node.outermost, Node.outermost, Node.outermostFrom_eq, Node.outermostFrom_eq]
    split
    · exact List.Forall₂.cons h List.Forall₂.nil
    · apply forall₂_flatMap hchildren
      intro c hc d hcd
      exact ih c hc hcd

theorem topLevelNames_like (hP : ∀ a b, P a b → a.ReadsAs source source' b) {a b : Node}
    (h : a.Like P b) : topLevelNames source a = topLevelNames source' b := by
  have hspecs : (a.outermost isSpec).flatMap (·.names source) =
      (b.outermost isSpec).flatMap (·.names source') := by
    rw [← List.forall₂_eq_eq_eq]
    apply forall₂_flatMap (outermost_like hP isSpec h)
    intro c _ d hcd
    rw [List.forall₂_eq_eq_eq]
    exact Walk.names_like hP hcd
  unfold topLevelNames
  rw [(hP a b h.here).kind, hspecs, Walk.names_like hP h]

/-- **Files that read alike have the same uses**, up to where they stand. -/
theorem usesOf_like (hP : ∀ a b, P a b → a.ReadsAs source source' b) {U : Use → Use → Prop}
    (hU : Walk.RelatesUses source source' P U) {root root' : Node} (h : root.Like P root')
    (name : String) : List.Forall₂ U (usesOf source root name) (usesOf source' root' name) := by
  have hscope : fileScope source root = fileScope source' root' := by
    unfold fileScope
    rw [← List.forall₂_eq_eq_eq]
    apply forall₂_flatMap h.children
    intro c _ d hcd
    rw [List.forall₂_eq_eq_eq]
    exact topLevelNames_like hP hcd
  unfold usesOf
  rw [hscope]
  apply visible_like (Scopes.Agree.refl name _)
  exact Walk.visit_like hP hU [] .whole h

end Usage

end ImportGuard
