import ImportGuard.Proofs.Usage.Visibility

/-!
# What a scan covers

The nodes that the walk gets to are those that `Walk.at?` finds (`Walk.reached_iff`): it misses none,
and by `Nested.once` it meets none twice.  So a scan files each selecting node at most once, whatever
is ignored; and if nothing is ignored and the qualifier is declared nowhere (`declaredNames`), it files
**exactly the selections from the qualifier that are in no part that is left out** (`scan_covers`).
-/

namespace ImportGuard

namespace Walk

/-! ### The selections of a tree -/

def selection? (node : Node) : Option (Node × Node) :=
  match node.kind with
  | .selectorExpression =>
    ((node.child? .operand).filter (·.kind = .identifier)).bind fun package =>
      (node.child? .selected).map fun name => (package, name)
  | .qualifiedType =>
    (node.child? .package).bind fun package => (node.child? .name).map fun name => (package, name)
  | _ => none

theorem selection?_eq_some_iff {node package name : Node} :
    selection? node = some (package, name) ↔ Selects node package name := by
  obtain ⟨kind, named, role, start, stop, children⟩ := node
  unfold selection? Selects
  cases kind with
  | selectorExpression =>
    simp [Option.bind_eq_some_iff, Option.filter_eq_some_iff, and_assoc, and_left_comm]
  | qualifiedType => simp [Option.bind_eq_some_iff]
  | _ => simp

/-- The use that the node at a site makes of a qualifier, if the walk does not leave it out. -/
def useAt? (source : List UInt8) (root : Node) (qualifier : String) (site : Site) : Option Use :=
  (selection? site.node).bind fun parts =>
    if parts.1.text source = qualifier ∧ (at? .whole root site.address).isSome then
      some (useOf source site.address site.node parts.1 parts.2)
    else none

/-- **The selections from a qualifier in a tree**, one for each node that makes one and is in no part
that is left out. -/
def selections (source : List UInt8) (root : Node) (qualifier : String) : List Use :=
  root.sites.filterMap (useAt? source root qualifier)

section Selections

variable {source : List UInt8} {root : Node} {qualifier : String}

theorem useAt?_eq_some_iff {site : Site} {use : Use} :
    useAt? source root qualifier site = some use ↔
      ∃ package name, Selects site.node package name ∧ package.text source = qualifier ∧
        (at? .whole root site.address).isSome = true ∧
        use = useOf source site.address site.node package name := by
  unfold useAt?
  rw [Option.bind_eq_some_iff]
  constructor
  · rintro ⟨⟨package, name⟩, hselection, h⟩
    rw [Option.ite_none_right_eq_some] at h
    exact ⟨package, name, selection?_eq_some_iff.1 hselection, h.1.1, h.1.2,
      (Option.some.inj h.2).symm⟩
  · rintro ⟨package, name, hselects, hpackage, hat, rfl⟩
    exact ⟨(package, name), selection?_eq_some_iff.2 hselects, if_pos ⟨hpackage, hat⟩⟩

/-- **The selections of a tree are what its trace mentions.** -/
theorem mem_selections_iff {use : Use} :
    use ∈ selections source root qualifier ↔
      .mention use ∈ trace source root ∧ use.package = qualifier := by
  unfold selections
  rw [List.mem_filterMap]
  constructor
  · rintro ⟨site, hsite, huse⟩
    obtain ⟨package, name, hselects, hpackage, hat, rfl⟩ := useAt?_eq_some_iff.1 huse
    refine ⟨?_, hpackage⟩
    obtain ⟨⟨manner, node⟩, hat⟩ := Option.isSome_iff_exists.1 hat
    have hnode : some node = some site.node :=
      (get?_of_at? hat).symm.trans (Node.mem_sites.1 hsite)
    obtain rfl := Option.some.inj hnode
    have hreached : Reached source root site.address manner site.node := reached_iff.2 hat
    obtain rfl := hreached.manner_eq_of_selects hselects
    obtain ⟨before, after, htrace⟩ := hreached.exists_moment hselects
    rw [htrace]
    exact List.mem_append_cons_self
  · rintro ⟨hmention, rfl⟩
    obtain ⟨address, node, package, name, hreached, hselects, rfl⟩ :=
      exists_reached_of_mention hmention
    have hat := reached_iff.1 hreached
    refine ⟨⟨address, node⟩, Node.mem_sites.2 (get?_of_at? hat), ?_⟩
    exact useAt?_eq_some_iff.2 ⟨package, name, hselects, rfl, by rw [hat]; rfl, rfl⟩

theorem nodup_selections : (selections source root qualifier).Nodup := by
  refine List.Pairwise.filterMap _ (fun a b hne use huse use' huse' heq => ?_)
    (Node.pairwise_ne_sitesAt [] root)
  obtain ⟨_, _, _, _, _, rfl⟩ := useAt?_eq_some_iff.1 huse
  obtain ⟨_, _, _, _, _, rfl⟩ := useAt?_eq_some_iff.1 huse'
  exact hne (congrArg Use.address heq)

end Selections

end Walk

namespace Usage

/-! ### What a scan files -/

/-- **The names that a file declares anywhere**: at its top level, and at the nodes that the walk gets
to. -/
def declaredNames (source : List UInt8) (root : Node) : List String :=
  fileScope source root ++ root.sites.flatMap fun site =>
    (Walk.at? .whole root site.address).elim [] fun found => Walk.declared source found.1 found.2

theorem not_mem_of_declare {source : List UInt8} {root : Node} {qualifier : String}
    (h : qualifier ∉ declaredNames source root) {names : List String}
    (hdeclare : .declare names ∈ trace source root) : qualifier ∉ names := by
  obtain ⟨earlier, later, htrace⟩ := List.append_of_mem hdeclare
  obtain ⟨address, manner, node, hreached, hnames, _⟩ := Walk.exists_declares_of_trace_eq htrace
  have hat := Walk.reached_iff.1 hreached
  intro hmem
  refine h (List.mem_append_right _ (List.mem_flatMap.2 ⟨⟨address, node⟩, ?_, ?_⟩))
  · exact Node.mem_sites.2 (Walk.get?_of_at? hat)
  · rw [show (⟨address, node⟩ : Site).address = address from rfl, hat]
    exact Walk.mem_declared_iff.2 ((hnames _).1 hmem)

/-- A name that no scope has and that is never declared stays visible. -/
theorem hides_after_of_not_declared {qualifier : String} {scopes : Scopes} {events : List Event}
    (hscopes : scopes.hides qualifier = false)
    (h : ∀ names, .declare names ∈ events → qualifier ∉ names) :
    (scopes.after events).hides qualifier = false := by
  induction events generalizing scopes with
  | nil => exact hscopes
  | cons e events ih =>
    have hrest : ∀ names, .declare names ∈ events → qualifier ∉ names :=
      fun names hmem => h names (List.mem_cons_of_mem _ hmem)
    cases e with
    | enter address => exact ih hscopes hrest
    | mention use => exact ih hscopes hrest
    | leave =>
      refine ih ?_ hrest
      cases scopes with
      | nil => rfl
      | cons scope outer => exact (Bool.or_eq_false_iff.1 hscopes).2
    | declare names =>
      refine ih (eq_false_of_ne_true fun hhides => ?_) hrest
      rcases Scopes.hides_declare_iff.1 hhides with hmem | hbefore
      · exact h names List.mem_cons_self hmem
      · exact Bool.eq_false_iff.1 hscopes hbefore

/-- The uses in a stretch of events are met at different nodes, as the events are. -/
theorem addresses_visible_sublist (qualifier : String) (scopes : Scopes) (events : List Event) :
    ((visible qualifier scopes events).map (·.address)).Sublist
      (events.filterMap Event.site?) := by
  induction events generalizing scopes with
  | nil => exact List.Sublist.refl _
  | cons e events ih =>
    cases e with
    | enter address => exact (ih _).cons address
    | leave => exact ih _
    | declare names => exact ih _
    | mention use =>
      rw [visible]
      split
      · exact (ih _).cons_cons use.address
      · exact (ih _).cons use.address

theorem nodup_addresses_usesOf (source : List UInt8) (root : Node) (qualifier : String) :
    ((usesOf source root qualifier).map (·.address)).Nodup :=
  (addresses_visible_sublist qualifier _ _).nodup (Walk.nested_trace source root).once

/-- **A qualifier that is declared nowhere is used by all selections from it.** -/
theorem perm_usesOf_selections {source : List UInt8} {root : Node} {qualifier : String}
    (h : qualifier ∉ declaredNames source root) :
    (usesOf source root qualifier).Perm (Walk.selections source root qualifier) := by
  have hnodup : (usesOf source root qualifier).Nodup :=
    List.Nodup.of_map _ (nodup_addresses_usesOf source root qualifier)
  rw [List.perm_ext_iff_of_nodup hnodup Walk.nodup_selections]
  intro use
  rw [Walk.mem_selections_iff]
  refine ⟨mention_of_mem_usesOf, fun ⟨hmention, hpackage⟩ => mem_visible_iff.2 ?_⟩
  obtain ⟨before, after, htrace⟩ := List.append_of_mem hmention
  refine ⟨before, after, htrace, hpackage, hides_after_of_not_declared ?_ fun names hnames => ?_⟩
  · have htop : qualifier ∉ fileScope source root :=
      fun hmem => h (List.mem_append_left _ hmem)
    simpa [Scopes.hides] using htop
  · exact not_mem_of_declare h (htrace ▸ List.mem_append_left _ hnames)

/-- Asking about each member of a list in turn keeps some of them, and all if the answer is always
yes. -/
theorem exists_run_filterAuxM {σ α : Type} (p : α → StateM σ Bool) (l acc : List α) (state : σ) :
    ∃ kept, ((l.filterAuxM p acc).run state).1 = kept.reverse ++ acc ∧ kept.Sublist l ∧
      ((∀ a state, ((p a).run state).1 = true) → kept = l) := by
  induction l generalizing acc state with
  | nil => exact ⟨[], rfl, List.Sublist.refl _, fun _ => rfl⟩
  | cons a l ih =>
    have hstep : ((a :: l).filterAuxM p acc).run state =
        (l.filterAuxM p (cond ((p a).run state).1 (a :: acc) acc)).run ((p a).run state).2 := rfl
    rw [hstep]
    cases hanswer : ((p a).run state).1 with
    | true =>
      obtain ⟨kept, hrun, hsub, hall⟩ := ih (a :: acc) ((p a).run state).2
      refine ⟨a :: kept, ?_, hsub.cons_cons a, fun h => congrArg (a :: ·) (hall h)⟩
      rw [List.reverse_cons, List.append_assoc, List.singleton_append]
      exact hrun
    | false =>
      obtain ⟨kept, hrun, hsub, _⟩ := ih acc ((p a).run state).2
      refine ⟨kept, hrun, hsub.cons a, fun h => ?_⟩
      exact Bool.noConfusion ((h a state).symm.trans hanswer)

/-- A scan files some of the uses, and all if none is ignored. -/
theorem exists_run_scan {σ : Type} (source : List UInt8) (root : Node) {qualifier : String}
    (hqualifier : qualifier ≠ "") {mode : ImportMode} (hmode : mode = .named ∨ mode = .guessed)
    (ignored : Use → StateM σ Bool) (state : σ) :
    ∃ kept, ((scan source root (some qualifier) mode ignored).run state).1 = index kept ∧
      kept.Sublist (usesOf source root qualifier) ∧
      ((∀ use state, ((ignored use).run state).1 = false) →
        kept = usesOf source root qualifier) := by
  have hname := scanName_eq_some hqualifier hmode
  obtain ⟨kept, hrun, hsub, hall⟩ := exists_run_filterAuxM (fun use => not <$> ignored use)
    (usesOf source root qualifier) [] state
  refine ⟨kept, ?_, hsub, fun h => hall fun use state => ?_⟩
  · have hkept : (((usesOf source root qualifier).filterAuxM
        (fun use => not <$> ignored use) []).run state).1.reverse = kept := by
      rw [hrun, List.append_nil, List.reverse_reverse]
    rw [scan_eq, hname, Option.elim_some]
    exact congrArg index hkept
  · have hanswer : ((not <$> ignored use).run state).1 = !((ignored use).run state).1 := rfl
    rw [hanswer, h]
    rfl

/-- **A scan misses nothing and repeats nothing.**  Whatever is ignored, what it files comes from
selecting nodes of the tree, each of them once.  If the qualifier is declared nowhere and no use is
ignored, it files exactly one place for every selection from the qualifier that is in no part that
the walk leaves out: the start of the selected name, under the name. -/
theorem scan_covers {σ : Type} (source : List UInt8) (root : Node) {qualifier : String}
    (hqualifier : qualifier ≠ "") {mode : ImportMode} (hmode : mode = .named ∨ mode = .guessed)
    (ignored : Use → StateM σ Bool) (state : σ) :
    let filed := entries ((scan source root (some qualifier) mode ignored).run state).1
    (∃ kept : List Use, filed.Perm (kept.map entryOf) ∧ (kept.map (·.address)).Nodup ∧
      ∀ use ∈ kept, ∃ node package name, ⟨use.address, node⟩ ∈ root.sites ∧
        Walk.Selects node package name ∧ package.text source = qualifier ∧
        use = Walk.useOf source use.address node package name) ∧
    (qualifier ∉ declaredNames source root →
      (∀ use state, ((ignored use).run state).1 = false) →
        filed.Perm ((Walk.selections source root qualifier).map entryOf)) := by
  intro filed
  obtain ⟨kept, hrun, hsub, hall⟩ :=
    exists_run_scan source root hqualifier hmode ignored state
  have hfiled : filed.Perm (kept.map entryOf) := by
    show (entries ((scan source root (some qualifier) mode ignored).run state).1).Perm _
    rw [hrun]
    exact perm_entries_index kept
  refine ⟨⟨kept, hfiled, ?_, fun use huse => ?_⟩, fun hundeclared hnone => ?_⟩
  · exact (hsub.map _).nodup (nodup_addresses_usesOf source root qualifier)
  · obtain ⟨hmention, rfl⟩ := mention_of_mem_usesOf (hsub.subset huse)
    obtain ⟨address, node, package, name, hreached, hselects, rfl⟩ :=
      Walk.exists_reached_of_mention hmention
    refine ⟨node, package, name, Node.mem_sites.2 ?_, hselects, rfl, rfl⟩
    exact Walk.get?_of_at? (Walk.reached_iff.1 hreached)
  · rw [hall hnone] at hfiled
    exact hfiled.trans ((perm_usesOf_selections hundeclared).map entryOf)

def assignedSource : List UInt8 := "fmt.Old,x:=fmt.New".toList.map fun c => c.val.toUInt8

/-- A selection from `fmt` on the right of `:=`, and one on the left, which is left out. -/
def assignedRoot : Node :=
  ⟨.sourceFile, true, none, 0, 18,
    [⟨.shortVarDeclaration, true, none, 0, 18,
      [⟨.other "expression_list", true, some .left, 0, 9,
          [⟨.selectorExpression, true, none, 0, 7,
              [⟨.identifier, true, some .operand, 0, 3, []⟩,
                ⟨.other "field_identifier", true, some .selected, 4, 7, []⟩]⟩,
            ⟨.identifier, true, none, 8, 9, []⟩]⟩,
        ⟨.define, false, none, 9, 11, []⟩,
        ⟨.selectorExpression, true, some .right, 11, 18,
          [⟨.identifier, true, some .operand, 11, 14, []⟩,
            ⟨.other "field_identifier", true, some .selected, 15, 18, []⟩]⟩]⟩]⟩

theorem scan_covers_assigned :
    declaredNames assignedSource assignedRoot = ["x"] ∧
      (entries ((scan assignedSource assignedRoot (some "fmt") .named fun _ =>
        (pure false : StateM Nat Bool)).run 0).1).Perm [("New", ⟨15, 1, 16⟩)] := by
  have hdeclared : declaredNames assignedSource assignedRoot = ["x"] := by decide +kernel
  have hselections : (Walk.selections assignedSource assignedRoot "fmt").map entryOf =
      [("New", ⟨15, 1, 16⟩)] := by decide +kernel
  have hundeclared : "fmt" ∉ declaredNames assignedSource assignedRoot := by
    rw [hdeclared]
    decide
  have h := (scan_covers assignedSource assignedRoot (by decide : "fmt" ≠ "") (Or.inl rfl)
    (fun _ => (pure false : StateM Nat Bool)) 0).2 hundeclared fun _ _ => rfl
  rw [hselections] at h
  exact ⟨hdeclared, h⟩

end Usage

end ImportGuard
