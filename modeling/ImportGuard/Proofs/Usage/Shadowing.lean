import ImportGuard.Proofs.Usage.Likeness

/-!
# Names that hide, and what is recorded below an address

A name that an open scope has is hidden, and it stays hidden for as long as that scope is open.
The events of a node close only scopes that they open, so **where a name is hidden before a node,
nothing is recorded in the node** (`Nested.visible_eq_nil`).

Two trees that read alike are walked through with the same events as far as a package is
concerned.  What is recorded is then compared by `Usage.below`: at or below an address, which
selections are made where, whatever the texts around them.
-/

namespace ImportGuard

/-! ### A hidden name stays hidden -/

variable {name : String} {scopes : Scopes}

/-- In the course of nested events the scopes are those that the events have opened, and below them
the scopes from before, with more names perhaps, which still hide the name. -/
theorem Nested.exists_outer {A : Address → Prop} {events before after : List Event}
    (h : Nested A events) (heq : events = before ++ after) (hhides : scopes.hides name = true) :
    ∃ inner outer, scopes.after before = inner ++ outer ∧
      inner.length = (opened [] before).length ∧ outer.hides name = true := by
  induction before using List.reverseRecOn generalizing after with
  | nil => exact ⟨[], scopes, rfl, rfl, hhides⟩
  | append_singleton before e ih =>
    rw [List.append_assoc] at heq
    obtain ⟨inner, outer, hafter, hlength, houter⟩ := ih heq
    rw [Scopes.after_append, opened_append, hafter]
    cases e with
    | enter a => exact ⟨[] :: inner, outer, rfl, congrArg (· + 1) hlength, houter⟩
    | leave =>
      have hopen := h.opened_ne_nil heq
      cases inner with
      | nil => exact absurd (List.eq_nil_of_length_eq_zero hlength.symm) hopen
      | cons scope inner =>
        refine ⟨inner, outer, rfl, ?_, houter⟩
        show inner.length = (opened [] before).tail.length
        rw [List.length_tail, ← hlength, List.length_cons, Nat.add_sub_cancel]
    | declare names =>
      cases inner with
      | nil =>
        refine ⟨[], outer.declare names, rfl, hlength, ?_⟩
        exact Scopes.hides_declare_iff.2 (Or.inr houter)
      | cons scope inner => exact ⟨(names ++ scope) :: inner, outer, rfl, hlength, houter⟩
    | mention use => exact ⟨inner, outer, rfl, hlength, houter⟩

theorem Nested.hides_after {A : Address → Prop} {events before after : List Event}
    (h : Nested A events) (heq : events = before ++ after) (hhides : scopes.hides name = true) :
    (scopes.after before).hides name = true := by
  obtain ⟨inner, outer, hafter, -, houter⟩ := h.exists_outer heq hhides
  rw [Scopes.hides_iff] at houter ⊢
  obtain ⟨scope, hscope, hname⟩ := houter
  rw [hafter]
  exact ⟨scope, List.mem_append_right inner hscope, hname⟩

/-- **Where a name is hidden before nested events, nothing is used under it in them.** -/
theorem Nested.visible_eq_nil {A : Address → Prop} {events : List Event} (h : Nested A events)
    (hhides : scopes.hides name = true) : Usage.visible name scopes events = [] := by
  rw [List.eq_nil_iff_forall_not_mem]
  intro use hmem
  obtain ⟨before, after, heq, -, hopen⟩ := Usage.mem_visible_iff.1 hmem
  rw [h.hides_after heq hhides] at hopen
  exact Bool.noConfusion hopen

namespace Usage

theorem visible_append (qualifier : String) (scopes : Scopes) (l m : List Event) :
    visible qualifier scopes (l ++ m) =
      visible qualifier scopes l ++ visible qualifier (scopes.after l) m := by
  induction l generalizing scopes with
  | nil => rfl
  | cons e l ih =>
    rw [List.cons_append, visible_cons, visible_cons, ih, ← Scopes.after_append,
      List.append_assoc]
    rfl

/-- The scope around events that only they see. -/
theorem visible_scope (qualifier : String) (scopes : Scopes) (address : Address)
    (events : List Event) :
    visible qualifier scopes (.enter address :: events ++ [.leave]) =
      visible qualifier ([] :: scopes) events := by
  show visible qualifier ([] :: scopes) (events ++ [.leave]) = _
  rw [visible_append]
  exact List.append_nil _

theorem mention_mem_of_mem_visible {events : List Event} {use : Use}
    (h : use ∈ visible name scopes events) : .mention use ∈ events := by
  obtain ⟨before, after, rfl, -⟩ := mem_visible_iff.1 h
  exact List.mem_append_right before List.mem_cons_self

end Usage

/-! ### What is recorded below an address -/

/-- What a use selects and where, apart from the text that it stands in. -/
def Use.selection (use : Use) : Address × String × String :=
  (use.address, use.package, use.name)

namespace Usage

/-- The selections among some uses that are made at or below an address. -/
def below (address : Address) (uses : List Use) : List (Address × String × String) :=
  (uses.filter fun use => address.isPrefixOf use.address).map Use.selection

/-- **What is recorded of a package** at or below `path` in a node, when the walk goes through the
node at `address` with some scopes open. -/
def recorded (qualifier : String) (scopes : Scopes) (source : List UInt8) (address : Address)
    (node : Node) (path : Address) : List (Address × String × String) :=
  below (address ++ path) (visible qualifier scopes (Trace.ofNode source address node))

/-- What is left out somewhere is missed exactly if there is something to leave out. -/
theorem ite_nil_eq_iff {hidden : Prop} [Decidable hidden] (l : List (Address × String × String)) :
    (if hidden then [] else l) = l ↔ (hidden → l = []) := by
  split
  · rename_i hhidden
    exact ⟨fun heq _ => heq.symm, fun heq => (heq hhidden).symm⟩
  · rename_i hnot
    exact ⟨fun _ hhidden => absurd hhidden hnot, fun _ => rfl⟩

theorem below_append (address : Address) (l m : List Use) :
    below address (l ++ m) = below address l ++ below address m := by
  unfold below
  rw [List.filter_append, List.map_append]

theorem below_eq_nil {address : Address} {uses : List Use}
    (h : ∀ use ∈ uses, ¬ address <+: use.address) : below address uses = [] := by
  unfold below
  rw [List.map_eq_nil_iff, List.filter_eq_nil_iff]
  intro use hmem
  rw [List.isPrefixOf_iff_prefix]
  exact h use hmem

theorem below_eq_map {address : Address} {uses : List Use}
    (h : ∀ use ∈ uses, address <+: use.address) : below address uses = uses.map Use.selection := by
  unfold below
  rw [List.filter_eq_self.2]
  intro use hmem
  rw [List.isPrefixOf_iff_prefix]
  exact h use hmem

theorem below_like {uses uses' : List Use}
    (h : List.Forall₂ (fun use use' => use.selection = use'.selection) uses uses')
    (address : Address) : below address uses = below address uses' := by
  unfold below
  induction h with
  | nil => rfl
  | @cons use use' _ _ hselection _ ih =>
    have haddress : use.address = use'.address := congrArg Prod.fst hselection
    rw [List.filter_cons, List.filter_cons, haddress]
    split
    · rw [List.map_cons, List.map_cons, hselection, ih]
    · exact ih

end Usage

namespace Walk

variable {source source' : List UInt8}

/-- The trees, each over its own text, read alike. -/
abbrev Alike (source source' : List UInt8) (a b : Node) : Prop :=
  a.Like (Node.ReadsAs source source') b

/-- One node over two texts. -/
theorem alike_self {node : Node} (htext : node.text source = node.text source')
    (hchildren : ∀ child ∈ node.children, Alike source source' child child) :
    Alike source source' node node :=
  .intro ⟨rfl, rfl, rfl, htext⟩ (List.forall₂_same.2 hchildren)

theorem relatesUses_selection :
    RelatesUses source source' (Node.ReadsAs source source') fun use use' =>
      use.selection = use'.selection := by
  intro address node node' package package' found found' _ hpackage hfound
  simp only [Use.selection, useOf, hpackage.text, hfound.text]

/-- **The events of trees that read alike agree**, and make the same selections. -/
theorem visit_alike {a b : Node} (h : Alike source source' a b) (address : Address)
    (manner : Manner) :
    List.Forall₂ (Event.Like name fun use use' => use.selection = use'.selection)
      (visit source address manner a) (visit source' address manner b) :=
  visit_like (fun _ _ hreads => hreads) relatesUses_selection address manner h

theorem flatMap_alike {address : Address} {l m : List Item}
    (h : List.Forall₂ (LikeItem (Node.ReadsAs source source') name fun use use' =>
      use.selection = use'.selection) l m) :
    List.Forall₂ (Event.Like name fun use use' => use.selection = use'.selection)
      (l.flatMap (itemEvents source address)) (m.flatMap (itemEvents source' address)) := by
  apply forall₂_flatMap h
  intro item _ item' hlike
  cases hlike with
  | event he => exact List.Forall₂.cons he List.Forall₂.nil
  | part hchild => exact visit_alike hchild _ _

/-- A mention in items that only declare names themselves is made below a child that they go
through. -/
theorem exists_index_of_mention {address : Address} {l : List Item} {use : Use}
    (hevents : ∀ e, .event e ∈ l → ∃ names, e = .declare names)
    (h : .mention use ∈ l.flatMap (itemEvents source address)) :
    ∃ i ∈ l.filterMap Item.index?, address ++ [i] <+: use.address := by
  obtain ⟨item, hitem, hmention⟩ := List.mem_flatMap.1 h
  cases item with
  | event e =>
    obtain ⟨names, rfl⟩ := hevents e hitem
    exact absurd hmention (by simp [itemEvents])
  | part i manner child =>
    refine ⟨i, List.mem_filterMap.2 ⟨_, hitem, rfl⟩, ?_⟩
    exact (nested_visit source (address ++ [i]) manner child).inside _ hmention _ rfl

theorem prefix_child {address a : Address} {i : Nat} {rest : Address}
    (h : address ++ i :: rest <+: a) : address ++ [i] <+: a := by
  refine List.IsPrefix.trans ⟨rest, ?_⟩ h
  rw [List.append_assoc]
  rfl

/-- Below one child, nothing is recorded in another. -/
theorem below_visit_eq_nil {address : Address} {i j : Nat} (h : i ≠ j) (rest : Address)
    (manner : Manner) (child : Node) (scopes : Scopes) :
    Usage.below (address ++ i :: rest)
      (Usage.visible name scopes (visit source (address ++ [j]) manner child)) = [] := by
  apply Usage.below_eq_nil
  intro use huse hprefix
  have hbelow : address ++ [j] <+: use.address :=
    (nested_visit source (address ++ [j]) manner child).inside _
      (Usage.mention_mem_of_mem_visible huse) _ rfl
  exact not_prefix_of_ne h (prefix_child hprefix) hbelow List.prefix_rfl

/-- Below a child that items do not go through, nothing is recorded in them. -/
theorem below_items_eq_nil {address : Address} {l : List Item} {i : Nat} (rest : Address)
    (hevents : ∀ e, .event e ∈ l → ∃ names, e = .declare names)
    (hi : i ∉ l.filterMap Item.index?) (scopes : Scopes) :
    Usage.below (address ++ i :: rest)
      (Usage.visible name scopes (l.flatMap (itemEvents source address))) = [] := by
  apply Usage.below_eq_nil
  intro use huse hprefix
  obtain ⟨j, hj, hbelow⟩ :=
    exists_index_of_mention hevents (Usage.mention_mem_of_mem_visible huse)
  exact not_prefix_of_ne (fun hij : i = j => hi (hij ▸ hj)) (prefix_child hprefix) hbelow
    List.prefix_rfl

/-- **Below a child that items go through once**, what is recorded is what is used in the child,
with the scopes that are open after the items before it. -/
theorem below_items_part {address : Address} {l r : List Item} {i : Nat} {manner : Manner}
    {child : Node} (rest : Address)
    (hevents : ∀ e, .event e ∈ l ++ .part i manner child :: r → ∃ names, e = .declare names)
    (honce : ((l ++ .part i manner child :: r).filterMap Item.index?).Nodup) (scopes : Scopes) :
    Usage.below (address ++ i :: rest) (Usage.visible name scopes
        ((l ++ .part i manner child :: r).flatMap (itemEvents source address))) =
      Usage.below (address ++ i :: rest) (Usage.visible name
        (scopes.after (l.flatMap (itemEvents source address)))
        (visit source (address ++ [i]) manner child)) := by
  have hindices : (l ++ .part i manner child :: r).filterMap Item.index? =
      l.filterMap Item.index? ++ i :: r.filterMap Item.index? := List.filterMap_append
  rw [hindices, List.nodup_middle, List.nodup_cons, List.mem_append, not_or] at honce
  have hl : ∀ e, .event e ∈ l → ∃ names, e = .declare names :=
    fun e he => hevents e (List.mem_append_left _ he)
  have hr : ∀ e, .event e ∈ r → ∃ names, e = .declare names :=
    fun e he => hevents e (List.mem_append_right l (List.mem_cons_of_mem _ he))
  rw [List.flatMap_append, List.flatMap_cons, Usage.visible_append, Usage.visible_append,
    Usage.below_append, Usage.below_append, below_items_eq_nil rest hl honce.1.1,
    below_items_eq_nil rest hr honce.1.2, List.nil_append, List.append_nil]
  rfl

end Walk

end ImportGuard
