import ImportGuard.Proofs.Usage.Shadowing

/-!
# The variable of a type switch

A type switch declares its variable once, in its own scope, when the switched value has been gone
through.  The variable is meant for the statements of the clauses.  It is visible in all that
stands behind the value, though, **the lists of types of the clauses included**
(`recorded_typeSwitch`): where it has the name of a package, nothing is recorded of the package
there.  In the initializer and in the value it hides nothing.

Two type switches are compared that read alike apart from the variable (`SameSwitch`), and the
second one's variable is not named after the package.
-/

namespace ImportGuard

namespace Usage

def switchNames (source : List UInt8) (node : Node) : List String :=
  Trace.boundNames source (node.child? .bound)

/-- Whether the child of a type switch at an index stands behind the switched value. -/
def behindValue (node : Node) (i : Nat) : Bool :=
  (node.children.findIdx? (·.role = some .value)).any (· < i)

/-- The indices of the types that a clause lists, which are those before its colon. -/
def typeList (clause : Node) : List Nat :=
  ((clause.children.takeWhile (·.kind ≠ .other ":")).zipIdx.filter
    (·.1.role = some .type)).map (·.2)

/-- **Two type switches that read alike, apart from the variable.** -/
structure SameSwitch (source source' : List UInt8) (node node' : Node) : Prop where
  kind : node.kind = .typeSwitchStatement
  kind' : node'.kind = .typeSwitchStatement
  children : Walk.SwitchLike (Node.ReadsAs source source') false node.children node'.children

theorem ofNode_typeSwitch {node : Node} (h : node.kind = .typeSwitchStatement)
    (source : List UInt8) (address : Address) :
    Trace.ofNode source address node =
      .enter address :: (Walk.switchItems (switchNames source node) false false 0
        node.children).flatMap (Walk.itemEvents source address) ++ [.leave] := by
  have hvisit := Walk.visit_eq source address .whole node
  have hitems : Walk.items source address .whole node =
      .event (.enter address) :: Walk.switchItems (switchNames source node) false false 0
        node.children ++ [.event .leave] := by
    unfold Walk.items Walk.heading Walk.content
    rw [h]
    rfl
  rw [hitems, List.cons_append, List.flatMap_cons, List.flatMap_append] at hvisit
  exact hvisit

variable {source source' : List UInt8} {address : Address} {names names' : List String}

theorem nested_switchItems (names : List String) (boundSeen valueSeen : Bool) (i : Nat)
    (children : List Node) :
    Nested (fun a => ∃ j ∈ (Walk.switchItems names boundSeen valueSeen i children).filterMap
        Item.index?, address ++ [j] <+: a)
      ((Walk.switchItems names boundSeen valueSeen i children).flatMap
        (Walk.itemEvents source address)) := by
  apply Walk.nested_items
  · exact (Walk.indices_switchItems names boundSeen valueSeen i children).nodup List.nodup_range'
  · exact fun e he => ⟨names, Walk.event_mem_switchItems he⟩
  · exact fun j manner child _ => Walk.nested_visit source (address ++ [j]) manner child

/-- Below a child that comes earlier, nothing is recorded in the parts from an index on. -/
theorem below_switchItems_eq_nil {boundSeen valueSeen : Bool} {i n : Nat} (h : i < n)
    (children : List Node) (name : String) (scopes : Scopes) (rest : Address) :
    below (address ++ i :: rest) (visible name scopes
      ((Walk.switchItems names boundSeen valueSeen n children).flatMap
        (Walk.itemEvents source address))) = [] := by
  apply Walk.below_items_eq_nil rest fun e he => ⟨names, Walk.event_mem_switchItems he⟩
  intro hmem
  have hrange := (Walk.indices_switchItems names boundSeen valueSeen n children).subset hmem
  rw [List.mem_range'_1] at hrange
  omega

section Parts

variable {child : Node} {boundSeen : Bool}

theorem switchItems_bound (h : child.role = some .bound) (names : List String) (valueSeen : Bool)
    (i : Nat) (l : List Node) :
    Walk.switchItems names false valueSeen i (child :: l) =
      Walk.switchItems names true valueSeen (i + 1) l :=
  if_pos ⟨h, rfl⟩

theorem switchItems_value (h : child.role = some .value) (names : List String) (boundSeen : Bool)
    (i : Nat) (l : List Node) :
    Walk.switchItems names boundSeen false i (child :: l) =
      .part i .whole child :: .event (.declare names) ::
        Walk.switchItems names boundSeen true (i + 1) l := by
  rw [Walk.switchItems, if_neg (by rw [h]; exact fun hand => absurd hand.1 (by decide)),
    if_pos ⟨h, rfl⟩]

theorem switchItems_part (hbound : child.role = some .bound → boundSeen = true)
    (hvalue : child.role ≠ some .value) (names : List String) (valueSeen : Bool) (i : Nat)
    (l : List Node) :
    Walk.switchItems names boundSeen valueSeen i (child :: l) =
      .part i .whole child :: Walk.switchItems names boundSeen valueSeen (i + 1) l := by
  have hnot : ¬ (child.role = some .bound ∧ boundSeen = false) := by
    rintro ⟨hrole, hseen⟩
    rw [hbound hrole] at hseen
    exact Bool.noConfusion hseen
  rw [Walk.switchItems, if_neg hnot, if_neg fun hand => hvalue hand.1]

theorem any_findIdx?_cons (h : child.role ≠ some .value) (l : List Node) (n i : Nat) :
    ((child :: l).findIdx? (·.role = some .value)).any (n + · < i) =
      (l.findIdx? (·.role = some .value)).any (n + 1 + · < i) := by
  rw [List.findIdx?_cons, decide_eq_false h, if_neg Bool.false_ne_true, Option.any_map]
  congr 1
  funext v
  show decide (n + (v + 1) < i) = decide (n + 1 + v < i)
  rw [decide_eq_decide]
  omega

end Parts

/-- **Where the variable has the name of the package**, nothing is recorded behind the value, and
all is as with another variable up to it. -/
theorem below_switch {boundSeen : Bool} {l m : List Node}
    (h : Walk.SwitchLike (Node.ReadsAs source source') boundSeen l m) {name : String}
    (hname : name ∈ names) {scopes scopes' : Scopes} (hscopes : scopes.Agree name scopes')
    (n i : Nat) (rest : Address) :
    below (address ++ i :: rest) (visible name scopes
        ((Walk.switchItems names boundSeen false n l).flatMap (Walk.itemEvents source address))) =
      if (l.findIdx? (·.role = some .value)).any (n + · < i) then []
      else below (address ++ i :: rest) (visible name scopes'
        ((Walk.switchItems names' boundSeen false n m).flatMap
          (Walk.itemEvents source' address))) := by
  induction h generalizing n scopes scopes' with
  | nil => rfl
  | @bound a b l m ha hb _ ih =>
    rw [switchItems_bound ha, switchItems_bound hb, any_findIdx?_cons (by rw [ha]; decide)]
    exact ih hscopes (n + 1)
  | @part boundSeen a b l m hbound hab _ ih =>
    have hrole : a.role = b.role := hab.here.role
    have hbound' : b.role = some .bound → boundSeen = true := fun hb => hbound (hrole.trans hb)
    have hvisits : List.Forall₂ (Event.Like name _) _ _ :=
      Walk.visit_alike hab (address ++ [n]) .whole
    have hhere := below_like (visible_like hscopes hvisits) (address ++ i :: rest)
    by_cases hvalue : a.role = some .value
    · -- the variable is declared here, and hides the name in all that follows
      have hhidden : visible name (scopes.after (Walk.visit source (address ++ [n]) .whole a))
          ([.declare names] ++ (Walk.switchItems names boundSeen true (n + 1) l).flatMap
            (Walk.itemEvents source address)) = [] :=
        (nested_switchItems names boundSeen true (n + 1) l).visible_eq_nil
          (Scopes.hides_declare_iff.2 (Or.inl hname))
      have hfirst : ((a :: l).findIdx? (·.role = some .value)).any (n + · < i) =
          decide (n < i) := by
        rw [List.findIdx?_cons, decide_eq_true hvalue]
        rfl
      rw [switchItems_value hvalue, switchItems_value (hrole ▸ hvalue), hfirst,
        List.flatMap_cons, List.flatMap_cons, List.flatMap_cons, List.flatMap_cons,
        Walk.itemEvents, Walk.itemEvents, Walk.itemEvents, Walk.itemEvents, visible_append,
        hhidden, List.append_nil, visible_append, below_append]
      by_cases hi : n < i
      · rw [if_pos (decide_eq_true hi), Walk.below_visit_eq_nil (Nat.ne_of_gt hi)]
      · have hlater : below (address ++ i :: rest) (visible name
            (scopes'.after (Walk.visit source' (address ++ [n]) .whole b))
            ([.declare names'] ++ (Walk.switchItems names' boundSeen true (n + 1) m).flatMap
              (Walk.itemEvents source' address))) = [] :=
          below_switchItems_eq_nil (by omega) m name _ rest
        rw [if_neg (by simpa using hi), hhere, hlater, List.append_nil]
    · have hvalue' : b.role ≠ some .value := fun hb => hvalue (hrole.trans hb)
      have hrest := ih (hscopes.after hvisits) (n + 1)
      rw [switchItems_part hbound hvalue, switchItems_part hbound' hvalue',
        any_findIdx?_cons hvalue, List.flatMap_cons, List.flatMap_cons, visible_append,
        visible_append, below_append, below_append, Walk.itemEvents, Walk.itemEvents, hrest, hhere]
      split
      · rename_i hbehind
        have hne : i ≠ n := by
          rw [Option.any_eq_true] at hbehind
          obtain ⟨v, -, hv⟩ := hbehind
          have := of_decide_eq_true hv
          omega
        rw [Walk.below_visit_eq_nil hne]
        rfl
      · rfl

/-- What is recorded below a part of a type switch depends on the variable behind the value only. -/
theorem SameSwitch.recorded_eq_ite {node node' : Node} (h : SameSwitch source source' node node')
    {name : String} (hfresh : name ∉ switchNames source' node') (scopes : Scopes)
    (address : Address) (i : Nat) (rest : Address) :
    recorded name scopes source address node (i :: rest) =
      if name ∈ switchNames source node ∧ behindValue node i then []
      else recorded name scopes source' address node' (i :: rest) := by
  have hstart : Scopes.Agree name ([] :: scopes) ([] :: scopes) := Scopes.Agree.refl _ _
  unfold recorded
  rw [ofNode_typeSwitch h.kind, ofNode_typeSwitch h.kind', visible_scope, visible_scope]
  by_cases hname : name ∈ switchNames source node
  · rw [below_switch h.children hname hstart]
    simp only [Nat.zero_add, hname, true_and]
    rfl
  · rw [if_neg fun hand => hname hand.1]
    have hnames : name ∈ switchNames source node ↔ name ∈ switchNames source' node' :=
      iff_of_false hname hfresh
    apply below_like
    apply visible_like hstart
    apply Walk.flatMap_alike
    exact Walk.switchItems_like (fun _ _ hreads => hreads) hnames h.children false 0

/-- **The variable of a type switch is visible in all that stands behind the switched value.**  Take
two type switches, each over a text of its own, that read alike apart from the variable, and a
package that the second one's variable is not named after.  With any scopes open, the two record the
same about the package everywhere, except that the first records nothing behind the value if its
variable has the package's name.  So they agree on all parts up to the value, the initializer among
them; and they agree on the lists of types of the clauses exactly if there is nothing to hide. -/
theorem recorded_typeSwitch {source source' : List UInt8} {node node' : Node}
    (h : SameSwitch source source' node node') {qualifier : String}
    (hfresh : qualifier ∉ switchNames source' node') (scopes : Scopes) (address : Address) :
    let found := recorded qualifier scopes source address node
    let fresh := recorded qualifier scopes source' address node'
    let listed := fun i j => ∃ clause, node.children[i]? = some clause ∧
      clause.kind = .typeCase ∧ j ∈ typeList clause
    (∀ i rest, found (i :: rest) =
        if qualifier ∈ switchNames source node ∧ behindValue node i then []
        else fresh (i :: rest)) ∧
      (∀ i rest, behindValue node i = false → found (i :: rest) = fresh (i :: rest)) ∧
      ((∀ i j, listed i j → found [i, j] = fresh [i, j]) ↔
        (qualifier ∈ switchNames source node →
          ∀ i j, listed i j → behindValue node i → fresh [i, j] = [])) := by
  intro found fresh listed
  have hall : ∀ i rest, found (i :: rest) =
      if qualifier ∈ switchNames source node ∧ behindValue node i then []
      else fresh (i :: rest) :=
    fun i rest => h.recorded_eq_ite hfresh scopes address i rest
  refine ⟨hall, fun i rest hbehind => ?_, ?_⟩
  · rw [hall, if_neg fun hand => by simp [hbehind] at hand]
  · have hone : ∀ i j, found [i, j] = fresh [i, j] ↔
        (qualifier ∈ switchNames source node ∧ behindValue node i → fresh [i, j] = []) := by
      intro i j
      rw [hall, ite_nil_eq_iff]
    constructor
    · intro hsame hname i j hlisted hbehind
      exact (hone i j).1 (hsame i j hlisted) ⟨hname, hbehind⟩
    · intro hnone i j hlisted
      exact (hone i j).2 fun hand => hnone hand.1 i j hlisted hand.2

/-- The variable is named after the package of a type in a clause. -/
def hidingSwitchText : List UInt8 :=
  "switch fmt := v.(type) { case fmt.Stringer: }".toList.map fun c => c.val.toUInt8

def freshSwitchText : List UInt8 :=
  "switch val := v.(type) { case fmt.Stringer: }".toList.map fun c => c.val.toUInt8

def listedType : Node :=
  ⟨.qualifiedType, true, some .type, 30, 42,
    [⟨.packageIdentifier, true, some .package, 30, 33, []⟩,
      ⟨.other "type_identifier", true, some .name, 34, 42, []⟩]⟩

def typeClause : Node :=
  ⟨.typeCase, true, none, 25, 43, [listedType, ⟨.other ":", false, none, 42, 43, []⟩]⟩

def hidingSwitch : Node :=
  ⟨.typeSwitchStatement, true, none, 0, 45,
    [⟨.other "expression_list", true, some .bound, 7, 10, [⟨.identifier, true, none, 7, 10, []⟩]⟩,
      ⟨.identifier, true, some .value, 14, 15, []⟩, typeClause]⟩

theorem recorded_typeSwitch_listed :
    SameSwitch hidingSwitchText freshSwitchText hidingSwitch hidingSwitch ∧
      switchNames hidingSwitchText hidingSwitch = ["fmt"] ∧
      switchNames freshSwitchText hidingSwitch = ["val"] ∧
      typeList typeClause = [0] ∧
      recorded "fmt" [] hidingSwitchText [] hidingSwitch [2, 0] = [] ∧
      recorded "fmt" [] freshSwitchText [] hidingSwitch [2, 0] =
        [([2, 0], "fmt", "Stringer")] := by
  have htype : Walk.Alike hidingSwitchText freshSwitchText listedType listedType := by
    refine Walk.alike_self (by decide +kernel) ?_
    intro child hchild
    rcases List.mem_pair.1 hchild with rfl | rfl
    · exact Walk.alike_self (by decide +kernel) (List.forall_mem_nil _)
    · exact Walk.alike_self (by decide +kernel) (List.forall_mem_nil _)
  have hclause : Walk.Alike hidingSwitchText freshSwitchText typeClause typeClause := by
    refine Walk.alike_self (by decide +kernel) ?_
    intro child hchild
    rcases List.mem_pair.1 hchild with rfl | rfl
    · exact htype
    · exact Walk.alike_self (by decide +kernel) (List.forall_mem_nil _)
  have hsame : SameSwitch hidingSwitchText freshSwitchText hidingSwitch hidingSwitch := by
    refine ⟨rfl, rfl, .bound rfl rfl (.part (fun _ => rfl) ?_ (.part (fun _ => rfl) hclause .nil))⟩
    exact Walk.alike_self (by decide +kernel) (List.forall_mem_nil _)
  have hnames : switchNames hidingSwitchText hidingSwitch = ["fmt"] := by decide +kernel
  have hfresh : switchNames freshSwitchText hidingSwitch = ["val"] := by decide +kernel
  have hnot : "fmt" ∉ switchNames freshSwitchText hidingSwitch := by
    rw [hfresh]
    decide
  refine ⟨hsame, hnames, hfresh, by decide, ?_, by decide +kernel⟩
  rw [(recorded_typeSwitch hsame hnot [] []).1 2 [0]]
  exact if_pos ⟨by rw [hnames]; decide, by decide⟩

end Usage

end ImportGuard
