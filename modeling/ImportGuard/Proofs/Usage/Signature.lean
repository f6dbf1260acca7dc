import ImportGuard.Proofs.Usage.Shadowing

/-!
# The names of a signature

The receiver, the parameters and the result of a function are walked through one after the other, in
one scope, and each list declares its names when it has been gone through.  The names are meant for
the body.  They are visible earlier, though: **the names of the receiver hide a package in the
parameters and in the result, and the names of the parameters hide it in the result**, and nothing
else in a signature is hidden (`recordedIn_signature`).

Two functions are compared whose signatures are the same up to the names of ordinary parameters
(`SameSignature`), the second of which has none that is the package's.  Along the walk through both,
either the scopes agree about the package or the first function's hide it (`Scopes.Shadowed`).
-/

namespace ImportGuard

def Kind.isFunction : Kind → Bool
  | functionDeclaration | methodDeclaration | functionLiteral => true
  | _ => false

/-- Scopes that hide a name if `hidden` holds, and otherwise agree about it with other scopes. -/
structure Scopes.Shadowed (name : String) (hidden : Prop) (scopes scopes' : Scopes) : Prop where
  hides : hidden → scopes.hides name = true
  agree : ¬ hidden → scopes.Agree name scopes'

namespace Usage

/-! ### Signatures that differ in names -/

/-- A declaration of ordinary parameters: not of type parameters. -/
def isOrdinary (node : Node) : Bool :=
  node.named && node.kind.isParameter && node.kind ≠ .typeParameterDeclaration

def ordinaryNames (source : List UInt8) (members : List Node) : List String :=
  (members.filter isOrdinary).flatMap (·.names source)

/-- The names that a part of a signature has for the function's body. -/
def partNames (source : List UInt8) (part : Node) : List String :=
  if Walk.signatureManner part = .parameters then ordinaryNames source part.children else []

/-- The names that the part of a function in a role has for the body. -/
def signatureNames (source : List UInt8) (node : Node) (role : Role) : List String :=
  (node.child? role).elim [] (partNames source)

/-- **What is recorded of a package in the part of a function in a role.** -/
def recordedIn (qualifier : String) (scopes : Scopes) (source : List UInt8) (address : Address)
    (node : Node) (role : Role) : List (Address × String × String) :=
  (node.children.findIdx? (·.role = some role)).elim [] fun i =>
    recorded qualifier scopes source address node [i]

variable (source source' : List UInt8)

/-- Two declarations of ordinary parameters that read alike, apart from the parameters' names. -/
structure Renamed (a b : Node) : Prop where
  kind : a.kind = b.kind
  named : a.named = b.named
  ordinary : isOrdinary a = true
  children : List.Forall₂ (fun c d => c.role = some .name ∧ d.role = some .name ∨
    Walk.Alike source source' c d) a.children b.children

/-- Two parts of signatures that read alike, apart from the names of ordinary parameters. -/
inductive SamePart (a b : Node) : Prop
  | alike : Walk.Alike source source' a b → SamePart a b
  | list : a.kind = b.kind → Walk.signatureManner a = .parameters →
      List.Forall₂ (fun c d => Walk.Alike source source' c d ∨ Renamed source source' c d)
        a.children b.children → SamePart a b

/-- **Two functions with the same signature up to the names of ordinary parameters.**  Their names
and their bodies may differ. -/
structure SameSignature (node node' : Node) : Prop where
  isFunction : node.kind.isFunction = true
  isFunction' : node'.kind.isFunction = true
  children : List.Forall₂ (fun a b => a.role = b.role ∧
    (a.role = some .typeParameters → Walk.Alike source source' a b) ∧
    (a.role = some .receiver ∨ a.role = some .parameters ∨ a.role = some .result →
      SamePart source source' a b)) node.children node'.children

variable {source source'}

/-! ### Lists of parameters -/

/-- The walk through a declaration of ordinary parameters meets the type only. -/
theorem Renamed.visit_like {a b : Node} (h : Renamed source source' a b) (name : String)
    (address : Address) :
    List.Forall₂ (Event.Like name fun use use' => use.selection = use'.selection)
      (Walk.visit source address .parameter a) (Walk.visit source' address .parameter b) := by
  have hkind : a.kind ≠ .typeParameterDeclaration := by
    have ha := h.ordinary
    simp only [isOrdinary, Bool.and_eq_true, decide_eq_true_eq] at ha
    exact ha.2
  have htype : ∀ (cs ds : List Node) (i : Nat),
      List.Forall₂ (fun c d => c.role = some .name ∧ d.role = some .name ∨
        Walk.Alike source source' c d) cs ds →
      List.Forall₂ (Event.Like name fun use use' => use.selection = use'.selection)
        (Trace.firstIn source address .type i cs) (Trace.firstIn source' address .type i ds) := by
    intro cs ds i hchildren
    induction hchildren generalizing i with
    | nil => exact List.Forall₂.nil
    | @cons c d _ _ hcd _ ih =>
      rw [Trace.firstIn, Trace.firstIn]
      rcases hcd with ⟨hc, hd⟩ | hcd
      · rw [if_neg (by rw [hc]; decide), if_neg (by rw [hd]; decide)]
        exact ih (i + 1)
      · rw [hcd.here.role]
        split
        · exact Walk.visit_alike hcd (address ++ [i]) .whole
        · exact ih (i + 1)
  unfold Walk.visit
  dsimp only
  rw [if_neg hkind, if_neg (h.kind ▸ hkind)]
  exact htype a.children b.children 0 h.children

section Lists

variable {cs ds : List Node} (h : List.Forall₂ (fun c d => Walk.Alike source source' c d ∨
  Renamed source source' c d) cs ds)

include h

/-- Lists of parameters that differ in names of ordinary parameters are gone through alike, up to
the declaration of the names. -/
theorem parameterTypes_like (name : String) (address : Address) (i : Nat) :
    List.Forall₂ (Event.Like name fun use use' => use.selection = use'.selection)
      (Trace.parameterTypes source address i cs) (Trace.parameterTypes source' address i ds) := by
  rw [Walk.parameterTypes_eq, Walk.parameterTypes_eq]
  induction h generalizing i with
  | nil => exact List.Forall₂.nil
  | @cons c d _ _ hcd _ ih =>
    have hkind : c.kind = d.kind := hcd.elim (·.here.kind) (·.kind)
    have hnamed : c.named = d.named := hcd.elim (·.here.named) (·.named)
    rw [Walk.parts_cons, Walk.parts_cons, List.flatMap_append, List.flatMap_append, hnamed]
    apply List.rel_append ?_ (ih (i + 1))
    split
    · rw [List.flatMap_singleton, List.flatMap_singleton]
      have hmanner : Walk.memberManner c = Walk.memberManner d := by
        unfold Walk.memberManner
        rw [hkind]
      show List.Forall₂ _ (Walk.visit source (address ++ [i]) (Walk.memberManner c) c)
        (Walk.visit source' (address ++ [i]) (Walk.memberManner d) d)
      rw [← hmanner]
      rcases hcd with hcd | hcd
      · exact Walk.visit_alike hcd (address ++ [i]) _
      · have hparameter : Walk.memberManner c = .parameter := by
          have hc := hcd.ordinary
          simp only [isOrdinary, Bool.and_eq_true] at hc
          unfold Walk.memberManner
          rw [if_pos hc.1.2]
        rw [hparameter]
        exact hcd.visit_like name (address ++ [i])
    · exact List.Forall₂.nil

omit h in
theorem mem_ordinaryNames_cons {name : String} {c : Node} :
    name ∈ ordinaryNames source (c :: cs) ↔
      isOrdinary c = true ∧ name ∈ c.names source ∨ name ∈ ordinaryNames source cs := by
  unfold ordinaryNames
  rw [List.filter_cons]
  split
  · rename_i hc
    rw [List.flatMap_cons, List.mem_append, and_iff_right hc]
  · rename_i hc
    rw [or_iff_right fun hand => hc hand.1]

omit h in
theorem mem_parameterNames_cons {name : String} {c : Node} :
    name ∈ Trace.parameterNames source (c :: cs) ↔
      (c.named && c.kind.isParameter) = true ∧ name ∈ c.names source ∨
        name ∈ Trace.parameterNames source cs := by
  unfold Trace.parameterNames
  rw [List.filter_cons]
  split
  · rename_i hc
    rw [List.flatMap_cons, List.mem_append, and_iff_right hc]
  · rename_i hc
    rw [or_iff_right fun hand => hc hand.1]

/-- Where the second list has no ordinary parameter of a name, the first declares the name if one of
its ordinary parameters has it or the second list declares it. -/
theorem mem_parameterNames_iff {name : String} (hfresh : name ∉ ordinaryNames source' ds) :
    name ∈ Trace.parameterNames source cs ↔
      name ∈ ordinaryNames source cs ∨ name ∈ Trace.parameterNames source' ds := by
  induction h with
  | nil => simp [Trace.parameterNames, ordinaryNames]
  | @cons c d cs ds hcd _ ih =>
    have hkind : c.kind = d.kind := hcd.elim (·.here.kind) (·.kind)
    have hnamed : c.named = d.named := hcd.elim (·.here.named) (·.named)
    have hordinary : isOrdinary c = isOrdinary d := by
      unfold isOrdinary
      rw [hkind, hnamed]
    rw [mem_ordinaryNames_cons, not_or] at hfresh
    rw [mem_parameterNames_cons, mem_parameterNames_cons, mem_ordinaryNames_cons, ih hfresh.2,
      hordinary, hkind, hnamed]
    by_cases hd : isOrdinary d = true
    · have hparameter : (d.named && d.kind.isParameter) = true := by
        unfold isOrdinary at hd
        rw [Bool.and_eq_true] at hd
        exact hd.1
      have hnot : name ∉ d.names source' := fun hname => hfresh.1 ⟨hd, hname⟩
      rw [and_iff_right hparameter, and_iff_right hparameter, and_iff_right hd, or_iff_right hnot,
        or_assoc]
    · -- what is not ordinary has the same names in both lists
      have halike : Walk.Alike source source' c d :=
        hcd.resolve_right fun hrenamed => hd (hordinary ▸ hrenamed.ordinary)
      have hnames : c.names source = d.names source' := Walk.names_like (fun _ _ h => h) halike
      rw [hnames, or_iff_right fun hand : isOrdinary d = true ∧ _ => hd hand.1, or_left_comm]

end Lists

/-! ### Parts of signatures -/

theorem SamePart.signatureManner_eq {a b : Node} (h : SamePart source source' a b) :
    Walk.signatureManner a = Walk.signatureManner b := by
  cases h with
  | alike halike => exact Walk.signatureManner_eq halike.here.kind
  | list hkind _ _ => exact Walk.signatureManner_eq hkind

/-- A part is a list of parameters, or its only names are those of the walk through it. -/
theorem SamePart.cases {a b : Node} (h : SamePart source source' a b) :
    Walk.signatureManner a = .whole ∧ Walk.Alike source source' a b ∨
      Walk.signatureManner a = .parameters ∧
        List.Forall₂ (fun c d => Walk.Alike source source' c d ∨ Renamed source source' c d)
          a.children b.children := by
  cases h with
  | list _ hmanner hchildren => exact Or.inr ⟨hmanner, hchildren⟩
  | alike halike =>
    by_cases hlist : a.kind = .parameterList ∨ a.kind = .typeParameterList
    · refine Or.inr ⟨if_pos hlist, halike.children.imp fun _ _ hcd => Or.inl hcd⟩
    · exact Or.inl ⟨if_neg hlist, halike⟩

variable {name : String} {scopes scopes' : Scopes} {hidden : Prop}

/-- Where scopes agree, a part of a signature is gone through with the same uses. -/
theorem SamePart.visible_like {a b : Node} (h : SamePart source source' a b) (address : Address)
    (hscopes : scopes.Agree name scopes') :
    List.Forall₂ (fun use use' => use.selection = use'.selection)
      (visible name scopes (Walk.visit source address (Walk.signatureManner a) a))
      (visible name scopes' (Walk.visit source' address (Walk.signatureManner b) b)) := by
  rw [← h.signatureManner_eq]
  rcases h.cases with ⟨hmanner, halike⟩ | ⟨hmanner, hchildren⟩
  · rw [hmanner]
    exact Usage.visible_like hscopes (Walk.visit_alike halike address .whole)
  · rw [hmanner]
    have hdeclares : ∀ (scopes : Scopes) (names : List String),
        visible name scopes [.declare names] = [] := fun _ _ => rfl
    show List.Forall₂ _ (visible name scopes (_ ++ [.declare _]))
      (visible name scopes' (_ ++ [.declare _]))
    rw [visible_append, visible_append, hdeclares, hdeclares, List.append_nil, List.append_nil]
    exact Usage.visible_like hscopes (parameterTypes_like hchildren name address 0)

/-- **What a part of a signature does to the scopes**: they come to hide the names of the part. -/
theorem SamePart.shadowed {a b : Node} (h : SamePart source source' a b) (address : Address)
    (hfresh : name ∉ partNames source' b) (hscopes : scopes.Shadowed name hidden scopes') :
    (scopes.after (Walk.visit source address (Walk.signatureManner a) a)).Shadowed name
      (hidden ∨ name ∈ partNames source a)
      (scopes'.after (Walk.visit source' address (Walk.signatureManner b) b)) := by
  have hmanners := h.signatureManner_eq
  unfold partNames at hfresh ⊢
  rw [← hmanners] at hfresh ⊢
  have hstay : hidden → (scopes.after (Walk.visit source address
      (Walk.signatureManner a) a)).hides name = true := by
    intro hhidden
    exact (Walk.nested_visit source address _ a).hides_after (List.append_nil _).symm
      (hscopes.hides hhidden)
  rcases h.cases with ⟨hmanner, halike⟩ | ⟨hmanner, hchildren⟩
  · rw [hmanner] at hstay ⊢
    constructor
    · rintro (hhidden | hname)
      · exact hstay hhidden
      · exact absurd hname List.not_mem_nil
    · intro hnot
      exact (hscopes.agree fun hhidden => hnot (Or.inl hhidden)).after
        (Walk.visit_alike halike address .whole)
  · rw [hmanner, if_pos rfl] at hfresh
    rw [hmanner] at hstay ⊢
    have hafter : ∀ (scopes : Scopes) (source : List UInt8) (part : Node),
        scopes.after (Walk.visit source address .parameters part) =
          (scopes.after (Trace.parameterTypes source address 0 part.children)).declare
            (Trace.parameterNames source part.children) :=
      fun scopes source part => Scopes.after_append scopes _ [.declare _]
    have hnames := mem_parameterNames_iff hchildren hfresh
    rw [if_pos rfl]
    constructor
    · rintro (hhidden | hname)
      · exact hstay hhidden
      · rw [hafter]
        exact Scopes.hides_declare_iff.2 (Or.inl (hnames.2 (Or.inl hname)))
    · intro hnot
      rw [not_or] at hnot
      rw [hafter, hafter]
      apply Scopes.Agree.declare
      · exact (hscopes.agree hnot.1).after (parameterTypes_like hchildren name address 0)
      · rw [hnames, or_iff_right hnot.2]

/-! ### The parts of a function, one after the other -/

def roleItems (node : Node) (roles : List (Role × (Node → Manner))) : List Item :=
  roles.flatMap fun (role, manner) => Walk.firstPart role manner 0 node.children

def roleEvents (source : List UInt8) (address : Address) (node : Node)
    (roles : List (Role × (Node → Manner))) : List Event :=
  (roleItems node roles).flatMap (Walk.itemEvents source address)

theorem roleItems_append (node : Node) (l m : List (Role × (Node → Manner))) :
    roleItems node (l ++ m) = roleItems node l ++ roleItems node m :=
  List.flatMap_append

theorem roleItems_cons (node : Node) (role : Role) (manner : Node → Manner)
    (l : List (Role × (Node → Manner))) :
    roleItems node ((role, manner) :: l) =
      Walk.firstPart role manner 0 node.children ++ roleItems node l :=
  List.flatMap_cons

theorem roleEvents_append (source : List UInt8) (address : Address) (node : Node)
    (l m : List (Role × (Node → Manner))) :
    roleEvents source address node (l ++ m) =
      roleEvents source address node l ++ roleEvents source address node m := by
  unfold roleEvents
  rw [roleItems_append, List.flatMap_append]

theorem after_roleEvents_concat (source : List UInt8) (address : Address) (node : Node)
    (scopes : Scopes) (l : List (Role × (Node → Manner))) (role : Role) (manner : Node → Manner) :
    scopes.after (roleEvents source address node (l ++ [(role, manner)])) =
      (scopes.after (roleEvents source address node l)).after
        (roleEvents source address node [(role, manner)]) := by
  rw [roleEvents_append, Scopes.after_append]

theorem event_mem_roleItems {node : Node} {roles : List (Role × (Node → Manner))} {e : Event}
    (h : .event e ∈ roleItems node roles) : ∃ names, e = .declare names := by
  exact absurd h Walk.not_event_mem_roles

theorem ofNode_function {node : Node} (h : node.kind.isFunction = true) (source : List UInt8)
    (address : Address) :
    Trace.ofNode source address node =
      .enter address :: roleEvents source address node Walk.functionRoles ++ [.leave] := by
  have hvisit := Walk.visit_eq source address .whole node
  have hitems : Walk.items source address .whole node =
      .event (.enter address) :: roleItems node Walk.functionRoles ++ [.event .leave] := by
    unfold Walk.items Walk.heading Walk.content
    cases hkind : node.kind <;> simp [hkind, Kind.isFunction] at h <;>
      simp [Walk.opensScope, roleItems]
  rw [hitems, List.cons_append, List.flatMap_cons, List.flatMap_append] at hvisit
  exact hvisit

theorem firstPart_cases (role : Role) (manner : Node → Manner) (i : Nat) (children : List Node) :
    children.findIdx? (·.role = some role) = none ∧
        Walk.firstPart role manner i children = [] ∨
      ∃ j child, children.findIdx? (·.role = some role) = some j ∧
        Walk.firstPart role manner i children = [.part (i + j) (manner child) child] := by
  induction children generalizing i with
  | nil => exact Or.inl ⟨rfl, rfl⟩
  | cons child rest ih =>
    rw [List.findIdx?_cons, Walk.firstPart_cons]
    by_cases hrole : child.role = some role
    · rw [if_pos hrole, decide_eq_true hrole]
      exact Or.inr ⟨0, child, rfl, rfl⟩
    · rw [if_neg hrole, decide_eq_false hrole]
      rcases ih (i + 1) with ⟨hindex, hpart⟩ | ⟨j, found, hindex, hpart⟩
      · exact Or.inl ⟨by rw [hindex]; rfl, hpart⟩
      · refine Or.inr ⟨j + 1, found, by rw [hindex]; rfl, ?_⟩
        rw [hpart, Nat.add_assoc, Nat.add_comm 1 j]

/-- **What is recorded in a part of a function** is what is used in the part's events, with the
scopes that are open after the parts before it. -/
theorem recordedIn_eq {node : Node} (hfunction : node.kind.isFunction = true)
    (source : List UInt8) (name : String) (scopes : Scopes) (address : Address) {role : Role}
    {manner : Node → Manner} {before after : List (Role × (Node → Manner))}
    (hroles : Walk.functionRoles = before ++ (role, manner) :: after) :
    recordedIn name scopes source address node role =
      (visible name (Scopes.after ([] :: scopes) (roleEvents source address node before))
        (roleEvents source address node [(role, manner)])).map Use.selection := by
  unfold recordedIn roleEvents
  rw [roleItems_cons, show roleItems node [] = [] from rfl, List.append_nil]
  rcases firstPart_cases role manner 0 node.children with
    ⟨hindex, hpart⟩ | ⟨i, child, hindex, hpart⟩
  · rw [hindex, hpart]
    rfl
  · rw [Nat.zero_add] at hpart
    have hitems : roleItems node Walk.functionRoles =
        roleItems node before ++ .part i (manner child) child :: roleItems node after := by
      rw [hroles, roleItems_append, roleItems_cons, hpart]
      rfl
    have honce : ((roleItems node Walk.functionRoles).filterMap Item.index?).Nodup :=
      (Walk.draws_roles (by decide)).once
    rw [hindex, hpart, Option.elim_some, recorded, ofNode_function hfunction, visible_scope,
      roleEvents, hitems, Walk.below_items_part [] (fun e he => event_mem_roleItems (hitems ▸ he))
      (hitems ▸ honce), List.flatMap_singleton]
    apply below_eq_map
    intro use hmem
    exact (Walk.nested_visit source (address ++ [i]) _ child).inside _
      (mention_mem_of_mem_visible hmem) _ rfl

/-! ### Two functions with one signature -/

/-- Of children that correspond and have equal roles, the first in a role correspond. -/
theorem firstPart_forall₂ {Q : Node → Node → Prop} {cs ds : List Node}
    (h : List.Forall₂ (fun a b => a.role = b.role ∧ Q a b) cs ds) (role : Role)
    (manner : Node → Manner) (i : Nat) :
    cs.find? (·.role = some role) = none ∧ Walk.firstPart role manner i cs = [] ∧
        Walk.firstPart role manner i ds = [] ∨
      ∃ j a b, a.role = some role ∧ Q a b ∧ cs.find? (·.role = some role) = some a ∧
        ds.find? (·.role = some role) = some b ∧
        Walk.firstPart role manner i cs = [.part j (manner a) a] ∧
        Walk.firstPart role manner i ds = [.part j (manner b) b] := by
  induction h generalizing i with
  | nil => exact Or.inl ⟨rfl, rfl, rfl⟩
  | @cons a b _ _ hab _ ih =>
    rw [List.find?_cons, List.find?_cons, Walk.firstPart_cons, Walk.firstPart_cons, ← hab.1]
    by_cases hrole : a.role = some role
    · rw [if_pos hrole, if_pos hrole, decide_eq_true hrole]
      exact Or.inr ⟨i, a, b, hrole, hab.2, rfl, rfl, rfl, rfl⟩
    · rw [if_neg hrole, if_neg hrole, decide_eq_false hrole]
      exact ih (i + 1)

theorem roleEvents_of_nil {node : Node} {role : Role} {manner : Node → Manner}
    (h : Walk.firstPart role manner 0 node.children = []) (source : List UInt8)
    (address : Address) : roleEvents source address node [(role, manner)] = [] := by
  unfold roleEvents
  rw [roleItems_cons, h]
  rfl

theorem roleEvents_of_part {node part : Node} {role : Role} {manner : Node → Manner} {i : Nat}
    (h : Walk.firstPart role manner 0 node.children = [.part i (manner part) part])
    (source : List UInt8) (address : Address) :
    roleEvents source address node [(role, manner)] =
      Walk.visit source (address ++ [i]) (manner part) part := by
  unfold roleEvents
  rw [roleItems_cons, h]
  exact List.append_nil _

section Same

variable {node node' : Node} (h : SameSignature source source' node node')

include h

/-- The type parameters of both functions are gone through alike. -/
theorem SameSignature.typeParameters_like (name : String) (address : Address) :
    List.Forall₂ (Event.Like name fun use use' => use.selection = use'.selection)
      (roleEvents source address node [(.typeParameters, Walk.signatureManner)])
      (roleEvents source' address node' [(.typeParameters, Walk.signatureManner)]) := by
  rcases firstPart_forall₂ h.children .typeParameters Walk.signatureManner 0 with
    ⟨-, hpart, hpart'⟩ | ⟨i, a, b, hrole, ⟨halike, -⟩, -, -, hpart, hpart'⟩
  · rw [roleEvents_of_nil hpart, roleEvents_of_nil hpart']
    exact List.Forall₂.nil
  · rw [roleEvents_of_part hpart, roleEvents_of_part hpart',
      Walk.signatureManner_eq (halike hrole).here.kind]
    exact Walk.visit_alike (halike hrole) (address ++ [i]) _

/-- **One part of the walk through both signatures.**  Nothing is used in the part where the name is
hidden, and the same where the scopes agree; from then on the names of the part hide as well. -/
theorem SameSignature.part {role : Role}
    (hrole : role = .receiver ∨ role = .parameters ∨ role = .result) (address : Address)
    (hscopes : scopes.Shadowed name hidden scopes') :
    (hidden → visible name scopes
        (roleEvents source address node [(role, Walk.signatureManner)]) = []) ∧
      (¬ hidden → List.Forall₂ (fun use use' => use.selection = use'.selection)
        (visible name scopes (roleEvents source address node [(role, Walk.signatureManner)]))
        (visible name scopes'
          (roleEvents source' address node' [(role, Walk.signatureManner)]))) ∧
      (name ∉ signatureNames source' node' role →
        (scopes.after (roleEvents source address node [(role, Walk.signatureManner)])).Shadowed
          name (hidden ∨ name ∈ signatureNames source node role)
          (scopes'.after
            (roleEvents source' address node' [(role, Walk.signatureManner)]))) := by
  unfold signatureNames Node.child?
  rcases firstPart_forall₂ h.children role Walk.signatureManner 0 with
    ⟨hfind, hpart, hpart'⟩ | ⟨i, a, b, harole, ⟨-, hsame⟩, hfind, hfind', hpart, hpart'⟩
  · rw [roleEvents_of_nil hpart, roleEvents_of_nil hpart', hfind]
    refine ⟨fun _ => rfl, fun _ => List.Forall₂.nil, fun _ => ?_⟩
    have hnone : (hidden ∨ name ∈ ([] : List String)) ↔ hidden := or_iff_left List.not_mem_nil
    exact ⟨fun hhidden => hscopes.hides (hnone.1 hhidden),
      fun hnot => hscopes.agree fun hhidden => hnot (hnone.2 hhidden)⟩
  · have hsame : SamePart source source' a b := by
      apply hsame
      rw [harole]
      rcases hrole with rfl | rfl | rfl
      · exact Or.inl rfl
      · exact Or.inr (Or.inl rfl)
      · exact Or.inr (Or.inr rfl)
    rw [roleEvents_of_part hpart, roleEvents_of_part hpart', hfind, hfind']
    refine ⟨fun hhidden => ?_, fun hnot => ?_, fun hfresh => ?_⟩
    · exact (Walk.nested_visit source (address ++ [i]) _ a).visible_eq_nil
        (hscopes.hides hhidden)
    · exact hsame.visible_like (address ++ [i]) (hscopes.agree hnot)
    · exact hsame.shadowed (address ++ [i]) hfresh hscopes

/-- What is recorded in a part depends on whether the name is hidden before it. -/
theorem SameSignature.recordedIn_eq_ite [Decidable hidden] {role : Role}
    (hrole : role = .receiver ∨ role = .parameters ∨ role = .result) (address : Address)
    {before after : List (Role × (Node → Manner))}
    (hroles : Walk.functionRoles = before ++ (role, Walk.signatureManner) :: after)
    (hscopes : (Scopes.after ([] :: scopes) (roleEvents source address node before)).Shadowed name
      hidden (Scopes.after ([] :: scopes) (roleEvents source' address node' before))) :
    recordedIn name scopes source address node role =
      if hidden then [] else recordedIn name scopes source' address node' role := by
  obtain ⟨hnone, hsame, -⟩ := h.part hrole address hscopes
  rw [recordedIn_eq h.isFunction source name scopes address hroles,
    recordedIn_eq h.isFunction' source' name scopes address hroles]
  split
  · rename_i hhidden
    rw [hnone hhidden]
    rfl
  · rename_i hnot
    rw [← List.forall₂_eq_eq_eq, List.forall₂_map_left_iff, List.forall₂_map_right_iff]
    exact hsame hnot

end Same

/-- **The names of a signature are visible in the rest of the signature.**  Take two functions, of
any sort and each over a text of its own, with the same signature up to the names of ordinary
parameters, and a package that no receiver and no parameter of the second is named after.  With any
scopes open, the two record the same about the package in their type parameters and receivers.  In
the parameters the first records nothing if its receiver has the package's name, and in the result
nothing if its receiver or one of its parameters has it; otherwise both record the same there.

So names are of no concern to a signature exactly if the ones that come too early have nothing to
hide. -/
theorem recordedIn_signature {source source' : List UInt8} {node node' : Node}
    (h : SameSignature source source' node node') {qualifier : String}
    (hreceiver : qualifier ∉ signatureNames source' node' .receiver)
    (hparameters : qualifier ∉ signatureNames source' node' .parameters) (scopes : Scopes)
    (address : Address) :
    let found := recordedIn qualifier scopes source address node
    let fresh := recordedIn qualifier scopes source' address node'
    let names := signatureNames source node
    found .typeParameters = fresh .typeParameters ∧
      found .receiver = fresh .receiver ∧
      found .parameters = (if qualifier ∈ names .receiver then [] else fresh .parameters) ∧
      found .result =
        (if qualifier ∈ names .receiver ∨ qualifier ∈ names .parameters then []
        else fresh .result) ∧
      (found .receiver = fresh .receiver ∧ found .parameters = fresh .parameters ∧
          found .result = fresh .result ↔
        (qualifier ∈ names .receiver → fresh .parameters = []) ∧
        (qualifier ∈ names .receiver ∨ qualifier ∈ names .parameters → fresh .result = [])) := by
  intro found fresh names
  -- the scopes of the two walks agree at first, and then the names of the parts come in
  have htypes := h.typeParameters_like qualifier address
  have hstart : Scopes.Agree qualifier ([] :: scopes) ([] :: scopes) := Scopes.Agree.refl _ _
  have hfirst : Scopes.Shadowed qualifier False
      (Scopes.after ([] :: scopes) (roleEvents source address node [_]))
      (Scopes.after ([] :: scopes) (roleEvents source' address node' [_])) :=
    ⟨False.elim, fun _ => hstart.after htypes⟩
  have hsecond := (h.part (Or.inl rfl) address hfirst).2.2 hreceiver
  rw [false_or, ← after_roleEvents_concat, ← after_roleEvents_concat] at hsecond
  have hthird := (h.part (Or.inr (Or.inl rfl)) address hsecond).2.2 hparameters
  rw [← after_roleEvents_concat, ← after_roleEvents_concat] at hthird
  have htype : found .typeParameters = fresh .typeParameters := by
    have hroles : Walk.functionRoles = [] ++ (.typeParameters, Walk.signatureManner) :: _ := rfl
    show recordedIn _ _ _ _ _ _ = recordedIn _ _ _ _ _ _
    rw [recordedIn_eq h.isFunction source qualifier scopes address hroles,
      recordedIn_eq h.isFunction' source' qualifier scopes address hroles,
      ← List.forall₂_eq_eq_eq, List.forall₂_map_left_iff, List.forall₂_map_right_iff]
    exact visible_like hstart htypes
  have hreceivers : found .receiver = fresh .receiver :=
    (h.recordedIn_eq_ite (Or.inl rfl) address rfl hfirst).trans (if_neg not_false)
  have hinParameters := h.recordedIn_eq_ite (Or.inr (Or.inl rfl)) address rfl hsecond
  have hinResult := h.recordedIn_eq_ite (Or.inr (Or.inr rfl)) address rfl hthird
  refine ⟨htype, hreceivers, hinParameters, hinResult, ?_⟩
  rw [and_iff_right hreceivers, show found .parameters = _ from hinParameters,
    show found .result = _ from hinResult, ite_nil_eq_iff, ite_nil_eq_iff]

/-- A parameter is named after the package of the result's type. -/
def hidingText : List UInt8 :=
  "func f(fmt int) fmt.Stringer {}".toList.map fun c => c.val.toUInt8

def freshText : List UInt8 :=
  "func f(arg int) fmt.Stringer {}".toList.map fun c => c.val.toUInt8

def parameterPart : Node :=
  ⟨.parameterList, true, some .parameters, 6, 15,
    [⟨.parameterDeclaration, true, none, 7, 14,
      [⟨.identifier, true, some .name, 7, 10, []⟩,
        ⟨.other "type_identifier", true, some .type, 11, 14, []⟩]⟩]⟩

def resultPart : Node :=
  ⟨.qualifiedType, true, some .result, 16, 28,
    [⟨.packageIdentifier, true, some .package, 16, 19, []⟩,
      ⟨.other "type_identifier", true, some .name, 20, 28, []⟩]⟩

def hidingFunction : Node :=
  ⟨.functionDeclaration, true, none, 0, 31,
    [⟨.identifier, true, some .name, 5, 6, []⟩, parameterPart, resultPart,
      ⟨.block, true, some .body, 29, 31, []⟩]⟩

theorem recordedIn_signature_parameter :
    SameSignature hidingText freshText hidingFunction hidingFunction ∧
      signatureNames hidingText hidingFunction .parameters = ["fmt"] ∧
      signatureNames freshText hidingFunction .parameters = ["arg"] ∧
      recordedIn "fmt" [] hidingText [] hidingFunction .result = [] ∧
      recordedIn "fmt" [] freshText [] hidingFunction .result = [([2], "fmt", "Stringer")] := by
  have hparameters : SamePart hidingText freshText parameterPart parameterPart := by
    refine .list rfl rfl (.cons (Or.inr ⟨rfl, rfl, rfl, ?_⟩) .nil)
    refine .cons (Or.inl ⟨rfl, rfl⟩) (.cons (Or.inr (Walk.alike_self ?_ ?_)) .nil)
    · decide +kernel
    · exact List.forall_mem_nil _
  have hresult : SamePart hidingText freshText resultPart resultPart := by
    refine .alike (Walk.alike_self (by decide +kernel) ?_)
    intro child hchild
    rcases List.mem_pair.1 hchild with rfl | rfl
    · exact Walk.alike_self (by decide +kernel) (List.forall_mem_nil _)
    · exact Walk.alike_self (by decide +kernel) (List.forall_mem_nil _)
  have hsame : SameSignature hidingText freshText hidingFunction hidingFunction := by
    refine ⟨rfl, rfl, .cons ⟨rfl, ?_, ?_⟩ (.cons ⟨rfl, ?_, fun _ => hparameters⟩
      (.cons ⟨rfl, ?_, fun _ => hresult⟩ (.cons ⟨rfl, ?_, ?_⟩ .nil)))⟩
    · exact fun hrole => absurd hrole (by decide)
    · exact fun hrole => absurd hrole (by decide)
    · exact fun hrole => absurd hrole (by decide)
    · exact fun hrole => absurd hrole (by decide)
    · exact fun hrole => absurd hrole (by decide)
    · exact fun hrole => absurd hrole (by decide)
  have hnames : signatureNames hidingText hidingFunction .parameters = ["fmt"] := by decide +kernel
  have hfresh : signatureNames freshText hidingFunction .parameters = ["arg"] := by decide +kernel
  have hnoReceiver : "fmt" ∉ signatureNames freshText hidingFunction .receiver := by decide
  have hnoParameter : "fmt" ∉ signatureNames freshText hidingFunction .parameters := by
    rw [hfresh]
    decide
  refine ⟨hsame, hnames, hfresh, ?_, by decide +kernel⟩
  have hinResult := (recordedIn_signature hsame hnoReceiver hnoParameter [] []).2.2.2.1
  rw [if_pos (Or.inr (by rw [hnames]; decide))] at hinResult
  exact hinResult

end Usage

end ImportGuard
