import ImportGuard.Proofs.Usage.Walk

/-!
# Scopes in a trace are nested as nodes are

Reading the events of a tree from the left, the scopes that are open form a stack (`opened`).  The
trace of a tree is **nested** (`Nested`): no node opens a scope twice or is mentioned twice, every
scope that opens closes again, and at a mention the scopes still open, of those opened so far, are
exactly those of nodes *above* the mentioned one (`nested_trace`).

So whether a scope is open, which is a matter of what has happened, comes down to one address being
the start of another.  The proof puts a nested list together from nested lists about nodes apart
from each other (`Nested.append`) and puts a scope around one (`Nested.scope`).
-/

namespace ImportGuard

/-- The node that an event opens a scope for, or mentions. -/
def Event.site? : Event → Option Address
  | .enter address => some address
  | .mention use => some use.address
  | .leave | .declare _ => none

/-- **The scopes that are open after some events**, the innermost first, with `stack` open before.
-/
def opened (stack : List Address) : List Event → List Address
  | [] => stack
  | .enter address :: events => opened (address :: stack) events
  | .leave :: events => opened stack.tail events
  | .declare _ :: events => opened stack events
  | .mention _ :: events => opened stack events

theorem opened_append (stack : List Address) (l m : List Event) :
    opened stack (l ++ m) = opened (opened stack l) m := by
  induction l generalizing stack with
  | nil => rfl
  | cons e l ih =>
    cases e with
    | enter address => exact ih (address :: stack)
    | leave => exact ih stack.tail
    | declare names => exact ih stack
    | mention use => exact ih stack

/-- A scope that is open was open before or has been opened. -/
theorem mem_of_mem_opened {stack : List Address} {events : List Event} {a : Address}
    (h : a ∈ opened stack events) : a ∈ stack ∨ .enter a ∈ events := by
  induction events generalizing stack with
  | nil => exact Or.inl h
  | cons e events ih =>
    cases e with
    | enter address =>
      rcases ih h with h | h
      · rcases List.mem_cons.1 h with rfl | h
        · exact Or.inr List.mem_cons_self
        · exact Or.inl h
      · exact Or.inr (List.mem_cons_of_mem _ h)
    | leave => exact (ih h).imp List.mem_of_mem_tail (List.mem_cons_of_mem _)
    | declare names => exact (ih h).imp_right (List.mem_cons_of_mem _)
    | mention use => exact (ih h).imp_right (List.mem_cons_of_mem _)

/-- **The events are about nodes in `A`, and their scopes are nested as the nodes are.** -/
structure Nested (A : Address → Prop) (events : List Event) : Prop where
  inside : ∀ e ∈ events, ∀ a, e.site? = some a → A a
  once : (events.filterMap Event.site?).Nodup
  settled : opened [] events = []
  framed : ∀ before after, events = before ++ after → ∀ stack,
    opened stack before = opened [] before ++ stack
  moment : ∀ before use after, events = before ++ .mention use :: after →
    ∀ a, .enter a ∈ before → (a ∈ opened [] before ↔ a <+: use.address)

namespace Nested

variable {A B : Address → Prop} {l m : List Event}

theorem opened_eq (h : Nested A l) (stack : List Address) : opened stack l = stack := by
  rw [h.framed l [] (List.append_nil l).symm stack, h.settled]
  rfl

theorem enter_inside (h : Nested A l) {a : Address} (ha : .enter a ∈ l) : A a :=
  h.inside _ ha a rfl

/-- A scope that closes has been opened by the events. -/
theorem opened_ne_nil (h : Nested A l) {before after : List Event}
    (heq : l = before ++ .leave :: after) : opened [] before ≠ [] := by
  intro hnil
  have hframed := h.framed (before ++ [.leave]) after (by rw [heq, List.append_assoc]; rfl) [[]]
  rw [opened_append, opened_append, h.framed before _ heq [[]], hnil] at hframed
  exact absurd hframed (by simp [opened])

theorem mono (h : Nested A l) (hAB : ∀ a, A a → B a) : Nested B l :=
  { h with inside := fun e he a ha => hAB a (h.inside e he a ha) }

theorem nil : Nested A [] where
  inside _ he := absurd he List.not_mem_nil
  once := List.nodup_nil
  settled := rfl
  framed before after h stack := by
    obtain ⟨rfl, _⟩ := List.nil_eq_append_iff.1 h
    rfl
  moment before use after h := by
    obtain ⟨_, h⟩ := List.nil_eq_append_iff.1 h
    exact absurd h (by simp)

/-- A single event that neither opens nor closes a scope. -/
theorem single {e : Event} (hopened : ∀ stack, opened stack [e] = stack)
    (hinside : ∀ a, e.site? = some a → A a) : Nested A [e] where
  inside f hf a ha := by
    rw [List.mem_singleton.1 hf] at ha
    exact hinside a ha
  once := by
    rw [List.filterMap_cons, List.filterMap_nil]
    cases e.site? with
    | none => exact List.nodup_nil
    | some a => exact List.nodup_singleton a
  settled := hopened []
  framed before after h stack := by
    cases before with
    | nil => rfl
    | cons f rest =>
      rw [List.cons_append, List.cons.injEq, List.nil_eq_append_iff] at h
      obtain ⟨rfl, rfl, _⟩ := h
      rw [hopened, hopened]
      rfl
  moment before use after h a ha := by
    cases before with
    | nil => exact absurd ha List.not_mem_nil
    | cons f rest =>
      rw [List.cons_append, List.cons.injEq, List.nil_eq_append_iff] at h
      exact absurd h.2.2 (by simp)

theorem declare (names : List String) : Nested A [.declare names] :=
  single (fun _ => rfl) fun _ h => absurd h (by simp [Event.site?])

theorem mention {use : Use} (h : A use.address) : Nested A [.mention use] :=
  single (fun _ => rfl) fun a ha => by
    rw [Event.site?, Option.some.injEq] at ha
    exact ha ▸ h

/-- **What is nested about nodes apart from each other is nested together**: the two lists are about
different nodes, and no scope of the first is one of a node above those of the second. -/
theorem append (hl : Nested A l) (hm : Nested B m) (hdistinct : ∀ a, A a → ¬ B a)
    (hapart : ∀ a b, .enter a ∈ l → B b → ¬ a <+: b) :
    Nested (fun a => A a ∨ B a) (l ++ m) where
  inside e he a ha := by
    rcases List.mem_append.1 he with he | he
    · exact Or.inl (hl.inside e he a ha)
    · exact Or.inr (hm.inside e he a ha)
  once := by
    rw [List.filterMap_append]
    refine List.Nodup.append hl.once hm.once fun a ha hb => ?_
    obtain ⟨e, he, hsite⟩ := List.mem_filterMap.1 ha
    obtain ⟨f, hf, hsite'⟩ := List.mem_filterMap.1 hb
    exact hdistinct a (hl.inside e he a hsite) (hm.inside f hf a hsite')
  settled := by
    rw [opened_append, hl.settled, hm.settled]
  framed before after h stack := by
    rcases List.append_eq_append_iff.1 h with ⟨rest, rfl, hrest⟩ | ⟨rest, hrest, _⟩
    · rw [opened_append, opened_append, hl.opened_eq, hl.opened_eq]
      exact hm.framed rest after hrest stack
    · exact hl.framed before rest hrest stack
  moment before use after h a ha := by
    rcases List.append_eq_append_iff.1 h with ⟨rest, rfl, hrest⟩ | ⟨rest, hrest, hmore⟩
    · -- the mention is in the second list, and the scopes of the first are closed by then
      rw [opened_append, hl.opened_eq]
      rcases List.mem_append.1 ha with ha | ha
      · have huse : B use.address := by
          refine hm.inside (.mention use) ?_ _ rfl
          rw [hrest]
          exact List.mem_append_cons_self
        have hno : ¬ a <+: use.address := hapart a _ ha huse
        refine ⟨fun hopen => ?_, fun hprefix => absurd hprefix hno⟩
        rcases mem_of_mem_opened hopen with hnil | hrest'
        · exact absurd hnil List.not_mem_nil
        · have hB : B a := hm.enter_inside (hrest ▸ List.mem_append_left _ hrest')
          exact absurd hB (hdistinct a (hl.enter_inside ha))
      · exact hm.moment rest use after hrest a ha
    · cases rest with
      | nil =>
        -- the first list ends just before the mention
        rw [List.append_nil] at hrest
        subst hrest
        have hfirst : m = [] ++ .mention use :: after := hmore.symm
        have huse : B use.address :=
          hm.inside (.mention use) (hfirst ▸ List.mem_cons_self) _ rfl
        rw [hl.settled]
        refine ⟨fun hopen => absurd hopen List.not_mem_nil, fun hprefix => ?_⟩
        exact absurd hprefix (hapart a _ ha huse)
      | cons e rest =>
        rw [List.cons_append, List.cons.injEq] at hmore
        obtain ⟨rfl, _⟩ := hmore
        exact hl.moment before use rest hrest a ha

theorem declare_cons (h : Nested A l) (names : List String) : Nested A (.declare names :: l) := by
  have hdeclare : Nested (fun _ => False) [.declare names] := declare names
  have happend := hdeclare.append h (fun _ hfalse => hfalse.elim) fun a b ha => absurd ha (by simp)
  exact happend.mono fun a ha => ha.elim False.elim id

/-- **A scope of a node around what is nested strictly below the node.** -/
theorem scope {c : Address} (h : Nested A l) (hbelow : ∀ a, A a → c <+: a ∧ a ≠ c) :
    Nested (fun a => c <+: a) (.enter c :: l ++ [.leave]) where
  inside e he a ha := by
    rw [List.cons_append, List.mem_cons, List.mem_append, List.mem_singleton] at he
    rcases he with rfl | he | rfl
    · rw [Event.site?, Option.some.injEq] at ha
      exact ha ▸ List.prefix_rfl
    · exact (hbelow a (h.inside e he a ha)).1
    · exact absurd ha (by simp [Event.site?])
  once := by
    have hsites : (Event.enter c :: l ++ [Event.leave]).filterMap Event.site? =
        c :: l.filterMap Event.site? := by
      simp [Event.site?, List.filterMap_append]
    rw [hsites, List.nodup_cons]
    refine ⟨fun hc => ?_, h.once⟩
    obtain ⟨e, he, hsite⟩ := List.mem_filterMap.1 hc
    exact (hbelow c (h.inside e he c hsite)).2 rfl
  settled := by
    show opened [c] (l ++ [.leave]) = []
    rw [opened_append, h.opened_eq]
    rfl
  framed before after heq stack := by
    cases before with
    | nil => rfl
    | cons e rest =>
      rw [List.cons_append, List.cons_append, List.cons.injEq] at heq
      obtain ⟨rfl, heq⟩ := heq
      show opened (c :: stack) rest = opened [c] rest ++ stack
      rcases List.append_eq_append_iff.1 heq with ⟨more, rfl, hmore⟩ | ⟨more, hmore, _⟩
      · rw [opened_append, opened_append, h.opened_eq, h.opened_eq]
        cases more with
        | nil => rfl
        | cons f more =>
          rw [List.cons_append, List.cons.injEq, List.nil_eq_append_iff] at hmore
          obtain ⟨rfl, rfl, _⟩ := hmore
          rfl
      · rw [h.framed rest more hmore, h.framed rest more hmore [c], List.append_assoc]
        rfl
  moment before use after heq a ha := by
    cases before with
    | nil => exact absurd ha List.not_mem_nil
    | cons e rest =>
      rw [List.cons_append, List.cons_append, List.cons.injEq] at heq
      obtain ⟨rfl, heq⟩ := heq
      obtain ⟨more, hmore⟩ : ∃ more, l = rest ++ .mention use :: more := by
        rcases List.append_eq_append_iff.1 heq with ⟨more, _, hmore⟩ | ⟨more, hmore, hlast⟩
        · rw [eq_comm, List.append_eq_singleton_iff] at hmore
          simp at hmore
        · cases more with
          | nil => simp at hlast
          | cons f more =>
            rw [List.cons_append, List.cons.injEq] at hlast
            exact ⟨more, hlast.1 ▸ hmore⟩
      show a ∈ opened [c] rest ↔ _
      rw [h.framed rest _ hmore [c], List.mem_append, List.mem_singleton]
      have huse : A use.address := by
        refine h.inside (.mention use) ?_ _ rfl
        rw [hmore]
        exact List.mem_append_cons_self
      rcases List.mem_cons.1 ha with hc | ha
      · obtain rfl := Event.enter.inj hc
        exact ⟨fun _ => (hbelow _ huse).1, fun _ => Or.inr rfl⟩
      · have hA : A a := h.enter_inside (hmore ▸ List.mem_append_left _ ha)
        rw [← h.moment rest use more hmore a ha]
        exact or_iff_left (hbelow a hA).2

end Nested

/-! ### The walk -/

namespace Walk

variable (source : List UInt8)

/-- Items that only declare names themselves, and whose ways through children are nested, are
nested. -/
theorem nested_items {address : Address} {l : List Item}
    (honce : (l.filterMap Item.index?).Nodup)
    (hevents : ∀ e, .event e ∈ l → ∃ names, e = .declare names)
    (hparts : ∀ i manner child, .part i manner child ∈ l →
      Nested (fun a => address ++ [i] <+: a) (visit source (address ++ [i]) manner child)) :
    Nested (fun a => ∃ i ∈ l.filterMap Item.index?, address ++ [i] <+: a)
      (l.flatMap (itemEvents source address)) := by
  induction l with
  | nil => exact Nested.nil
  | cons item l ih =>
    have hrest := fun honce => ih honce (fun e he => hevents e (List.mem_cons_of_mem _ he))
      fun i manner child h => hparts i manner child (List.mem_cons_of_mem _ h)
    rw [List.flatMap_cons]
    cases item with
    | event e =>
      obtain ⟨names, rfl⟩ := hevents e List.mem_cons_self
      exact (hrest honce).declare_cons names
    | part i manner child =>
      have hindices : (Item.part i manner child :: l).filterMap Item.index? =
          i :: l.filterMap Item.index? := rfl
      rw [hindices] at honce ⊢
      rw [List.nodup_cons] at honce
      have hfirst := hparts i manner child List.mem_cons_self
      have hapart : ∀ a b, address ++ [i] <+: a →
          (∃ j ∈ l.filterMap Item.index?, address ++ [j] <+: b) → ¬ a <+: b := by
        rintro a b ha ⟨j, hj, hb⟩
        exact not_prefix_of_ne (fun hij : i = j => honce.1 (hij ▸ hj)) ha hb
      have hboth := hfirst.append (hrest honce.2)
        (fun a ha hb => hapart a a ha hb List.prefix_rfl)
        fun a b ha hb => hapart a b (hfirst.enter_inside ha) hb
      refine hboth.mono fun a ha => ?_
      rcases ha with ha | ⟨j, hj, ha⟩
      · exact ⟨i, List.mem_cons_self, ha⟩
      · exact ⟨j, List.mem_cons_of_mem _ hj, ha⟩

/-- **The events of a node are nested.** -/
theorem nested_visit (address : Address) (manner : Manner) (node : Node) :
    Nested (fun a => address <+: a) (visit source address manner node) := by
  induction address, manner, node using walk_induction source with
  | step address manner node ih =>
    have hbelow : ∀ a, (∃ i ∈ (content source manner node).filterMap Item.index?,
        address ++ [i] <+: a) → address <+: a ∧ a ≠ address := by
      rintro a ⟨i, _, ha⟩
      refine ⟨(List.prefix_append _ _).trans ha, fun heq => ?_⟩
      have hlength := ha.length_le
      rw [heq, List.length_append, List.length_singleton] at hlength
      omega
    have hcontent : Nested (fun a => ∃ i ∈ (content source manner node).filterMap Item.index?,
        address ++ [i] <+: a)
        ((content source manner node).flatMap (itemEvents source address)) := by
      refine nested_items source (draws_content source manner node).once
        (fun e he => event_mem_content source he) fun i m child h => ?_
      exact ih i m child (mem_items_of_mem_content h)
    -- with its scope, if there is one
    have hbody : Nested (fun a => address <+: a)
        ((if manner = .whole ∧ opensScope node.kind then
          .event (.enter address) :: content source manner node ++ [.event .leave]
        else content source manner node).flatMap (itemEvents source address)) := by
      split
      · rw [List.cons_append, List.flatMap_cons, List.flatMap_append]
        exact hcontent.scope hbelow
      · exact hcontent.mono fun a ha => (hbelow a ha).1
    rw [visit_eq, items, List.flatMap_append, flatMap_event]
    rcases heading_cases source address manner node with h | ⟨names, h⟩ | ⟨use, h, haddress, hkind⟩
    · rw [h]
      exact hbody
    · rw [h]
      exact hbody.declare_cons names
    · rw [h, if_neg (by simp [hkind])]
      have hmention : Nested (fun a => a = address) [.mention use] := Nested.mention haddress
      refine (hmention.append hcontent (fun a ha hb => (hbelow a hb).2 ha) fun a b ha => ?_).mono
        fun a ha => ?_
      · exact absurd ha (by simp)
      · rcases ha with rfl | ha
        · exact List.prefix_rfl
        · exact (hbelow a ha).1

/-- **The trace of a tree is nested.** -/
theorem nested_trace (root : Node) : Nested (fun _ => True) (trace source root) :=
  (nested_visit source [] .whole root).mono fun _ _ => trivial

end Walk

end ImportGuard
