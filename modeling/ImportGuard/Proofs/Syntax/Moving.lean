import ImportGuard.Proofs.Syntax.Sites

/-!
# Moving a tree

Writing bytes in front of a text moves every node of a tree over it by their number, and changes
nothing else: `Node.moved` moves a tree, the sites of a moved tree are the moved sites
(`sites_moved`), and a node has the bytes that it had (`bytes_moved`).
-/

namespace ImportGuard

namespace Node

mutual

/-- **The tree with every range moved by `k` bytes.** -/
def moved (k : Nat) : Node → Node
  | ⟨kind, named, role, start, stop, children⟩ =>
    ⟨kind, named, role, start + k, stop + k, movedAll k children⟩

def movedAll (k : Nat) : List Node → List Node
  | [] => []
  | child :: rest => child.moved k :: movedAll k rest

end

theorem movedAll_eq (k : Nat) (children : List Node) :
    movedAll k children = children.map (moved k) := by
  induction children with
  | nil => rfl
  | cons child rest ih => rw [movedAll, ih, List.map_cons]

@[simp] theorem kind_moved (k : Nat) (node : Node) : (node.moved k).kind = node.kind := by
  cases node; rfl

@[simp] theorem named_moved (k : Nat) (node : Node) : (node.moved k).named = node.named := by
  cases node; rfl

@[simp] theorem role_moved (k : Nat) (node : Node) : (node.moved k).role = node.role := by
  cases node; rfl

@[simp] theorem start_moved (k : Nat) (node : Node) : (node.moved k).start = node.start + k := by
  cases node; rfl

@[simp] theorem stop_moved (k : Nat) (node : Node) : (node.moved k).stop = node.stop + k := by
  cases node; rfl

@[simp] theorem children_moved (k : Nat) (node : Node) :
    (node.moved k).children = node.children.map (moved k) := by
  obtain ⟨kind, named, role, start, stop, children⟩ := node
  exact movedAll_eq k children

/-! ### Texts -/

/-- **A moved node has the bytes that it had.** -/
theorem bytes_moved (front source : List UInt8) (node : Node) :
    (node.moved front.length).bytes (front ++ source) = node.bytes source := by
  have hdrop : (front ++ source).drop (node.start + front.length) = source.drop node.start := by
    rw [Nat.add_comm, List.drop_append]
    simp
  unfold bytes
  rw [start_moved, stop_moved, hdrop, Nat.add_sub_add_right]

theorem text_moved (front source : List UInt8) (node : Node) :
    (node.moved front.length).text (front ++ source) = node.text source := by
  unfold text
  rw [bytes_moved]

/-! ### Children and sites -/

theorem child?_moved (k : Nat) (node : Node) (role : Role) :
    (node.moved k).child? role = (node.child? role).map (moved k) := by
  unfold child?
  rw [children_moved, List.find?_map]
  simp only [Function.comp_def, role_moved]

end Node

def Site.moved (k : Nat) (site : Site) : Site :=
  { site with node := site.node.moved k }

namespace Node

theorem sitesFrom_moved {k : Nat} {children : List Node}
    (h : ∀ child ∈ children, ∀ address,
      (child.moved k).sitesAt address = (child.sitesAt address).map (Site.moved k))
    (address : Address) (i : Nat) :
    sitesFrom address i (children.map (moved k)) =
      (sitesFrom address i children).map (Site.moved k) := by
  induction children generalizing i with
  | nil => rfl
  | cons child rest ih =>
    rw [List.forall_mem_cons] at h
    rw [List.map_cons, sitesFrom, sitesFrom, List.map_append, h.1, ih h.2]

theorem sitesAt_moved (k : Nat) (node : Node) (address : Address) :
    (node.moved k).sitesAt address = (node.sitesAt address).map (Site.moved k) := by
  induction node using Node.induction generalizing address with
  | step node ih =>
    rw [sitesAt_eq, sitesAt_eq, List.map_cons, children_moved, sitesFrom_moved ih]
    rfl

/-- **The sites of a moved tree are the moved sites.** -/
theorem sites_moved (k : Nat) (root : Node) :
    (root.moved k).sites = root.sites.map (Site.moved k) :=
  sitesAt_moved k root []

theorem childSites_moved (k : Nat) (node : Node) (address : Address) :
    (node.moved k).childSites address = (node.childSites address).map (Site.moved k) := by
  unfold childSites
  rw [children_moved, List.zipIdx_map, List.map_map, List.map_map]
  rfl

end Node

end ImportGuard
