import ImportGuard.Proofs.Analysis.Output
import ImportGuard.Proofs.Comment.Partition

/-!
# Directives on the way to a use

Whether a use is suppressed is asked at the start of the name that it selects.  In a well-nested tree
that offset lies strictly inside the use: behind its start, because the operand comes first, and
before its end, because the name has a character.  So the nodes around the offset, both ends included,
are **the use, the nodes above it, and nodes inside it** (`prefix_or_encloses_of_covers`); a node
beside the use is not among them, though its end counts.

Hence a use is suppressed by the directives on the way from the root to it, and by those on an anchor
inside it that the offset touches (`isIgnored_iff_on_way`).  The latter need an anchor inside a
selection, and without one the former are all.
-/

namespace ImportGuard

/-! ### Nodes around an offset -/

namespace Node

/-- The node puts an operand before a name, and these are its parts: a selector expression, or a
qualified type. -/
def Qualifies (node operand name : Node) : Prop :=
  node.kind = .selectorExpression ∧ node.child? .operand = some operand ∧
      node.child? .selected = some name ∨
    node.kind = .qualifiedType ∧ node.child? .package = some operand ∧
      node.child? .name = some name

theorem mem_of_child? {node child : Node} {role : Role} (h : node.child? role = some child) :
    child ∈ node.children :=
  List.mem_of_find?_eq_some h

theorem Qualifies.mem_children {node operand name : Node} (h : node.Qualifies operand name) :
    operand ∈ node.children ∧ name ∈ node.children := by
  rcases h with ⟨-, hoperand, hname⟩ | ⟨-, hoperand, hname⟩
  · exact ⟨mem_of_child? hoperand, mem_of_child? hname⟩
  · exact ⟨mem_of_child? hoperand, mem_of_child? hname⟩

namespace WellNested

variable {root : Node} {use site : Site} {offset : Nat}

/-- **Around an offset strictly inside a node there are nodes above it and inside it only.** -/
theorem prefix_or_encloses_of_covers (h : root.WellNested) (huse : use ∈ root.sites)
    (hsite : site ∈ root.sites) (hstart : use.node.start < offset) (hstop : offset < use.node.stop)
    (hcovers : CommentMap.covers offset site = true) :
    site.address <+: use.address ∨ use.Encloses site := by
  rw [CommentMap.covers_iff] at hcovers
  rcases h.compare huse hsite with rfl | hinside | habove | hleft | hright
  · exact Or.inl List.prefix_rfl
  · exact Or.inr hinside
  · exact Or.inl habove.above
  · have hgap := hleft.stop_le
    omega
  · have hgap := hright.stop_le
    omega

/-- A node covers what the nodes below it cover. -/
theorem covers_of_prefix (h : root.WellNested) (huse : use ∈ root.sites)
    (hsite : site ∈ root.sites) (habove : site.address <+: use.address)
    (hcovers : CommentMap.covers offset use = true) : CommentMap.covers offset site = true := by
  rw [CommentMap.covers_iff] at hcovers ⊢
  rcases h.compare hsite huse with rfl | hencl | hbelow | hprec | hprec
  · exact hcovers
  · have hstart := hencl.start_le
    have hstop := hencl.stop_le
    omega
  · exact absurd (hbelow.above.eq_of_length_le habove.length_le) hbelow.ne
  · exact absurd habove hprec.not_above
  · exact absurd habove hprec.not_below

end WellNested

end Node

/-! ### What an inquiry answers -/

theorem Register.consulted_arrange (map : CommentMap) (address : Address) (offset : Nat) :
    consulted map.arrange address offset = consulted map address offset := by
  unfold consulted CommentMap.enclosing
  rw [CommentMap.groupsAt_arrange, CommentMap.arrange_arrange]

theorem Register.isIgnored_ofFile (register : Register) (file : SourceFile) (address : Address)
    (offset : Nat) (findings : List Finding) :
    ((register.isIgnored (CommentMap.ofFile file) address offset).run findings).1 =
      file.suppresses address offset := by
  rw [register.reports_isIgnored, ← consulted_arrange, file.any_consulted]

theorem SourceFile.suppresses_iff {file : SourceFile} {address : Address} {offset : Nat} :
    file.suppresses address offset = true ↔
      ∃ site group, (CommentMap.ofFile file).Attaches group site ∧ group.ignores = true ∧
        (site.address = address ∨ CommentMap.covers offset site = true) := by
  rw [suppresses, List.any_eq_true]
  constructor
  · rintro ⟨entry, hentry, h⟩
    rw [Bool.and_eq_true, Bool.or_eq_true, decide_eq_true_eq, List.any_eq_true] at h
    obtain ⟨hreach, group, hgroup, hignores⟩ := h
    exact ⟨entry.site, group, ⟨entry, hentry, rfl, hgroup⟩, hignores, hreach⟩
  · rintro ⟨_, group, ⟨entry, hentry, rfl, hgroup⟩, hignores, hreach⟩
    refine ⟨entry, hentry, ?_⟩
    rw [Bool.and_eq_true, Bool.or_eq_true, decide_eq_true_eq, List.any_eq_true]
    exact ⟨hreach, group, hgroup, hignores⟩

/-- A well-formed `ignore` is attached to the node at an address or to one above it. -/
def SourceFile.IgnoresOnWay (file : SourceFile) (address : Address) : Prop :=
  ∃ site group, site.address <+: address ∧ (CommentMap.ofFile file).Attaches group site ∧
    group.ignores = true

/-- A well-formed `ignore` is attached to an anchor inside a node that covers an offset. -/
def SourceFile.IgnoresInside (file : SourceFile) (use : Site) (offset : Nat) : Prop :=
  ∃ site ∈ CommentMap.anchorsOf file.root, use.Encloses site ∧
    CommentMap.covers offset site = true ∧
      ∃ group, (CommentMap.ofFile file).Attaches group site ∧ group.ignores = true

theorem CommentMap.Attaches.mem_sites {file : SourceFile} {group : CommentGroup} {site : Site}
    (h : (ofFile file).Attaches group site) : site ∈ file.root.sites := by
  obtain ⟨entry, hentry, rfl, -⟩ := h
  exact site_mem_sites hentry

theorem CommentMap.Attaches.mem_anchorsOf {file : SourceFile} {group : CommentGroup}
    {use site : Site} (h : (ofFile file).Attaches group site) (hinside : use.Encloses site) :
    site ∈ anchorsOf file.root := by
  obtain ⟨entry, hentry, rfl, -⟩ := h
  rcases site_eq_root_or_mem hentry with hroot | hanchor
  · rw [hroot] at hinside
    exact absurd (List.prefix_nil.1 hinside.above) hinside.ne
  · exact hanchor

/-- **Strictly inside a node, the directives on its way count, and those inside it.** -/
theorem SourceFile.suppresses_iff_on_way {file : SourceFile} (hnested : file.root.WellNested)
    {use : Site} (huse : use ∈ file.root.sites) {offset : Nat} (hstart : use.node.start < offset)
    (hstop : offset < use.node.stop) :
    file.suppresses use.address offset = true ↔
      file.IgnoresOnWay use.address ∨ file.IgnoresInside use offset := by
  rw [suppresses_iff]
  constructor
  · rintro ⟨site, group, hattaches, hignores, heq | hcovers⟩
    · exact Or.inl ⟨site, group, heq ▸ List.prefix_rfl, hattaches, hignores⟩
    · rcases hnested.prefix_or_encloses_of_covers huse hattaches.mem_sites hstart hstop hcovers
        with habove | hinside
      · exact Or.inl ⟨site, group, habove, hattaches, hignores⟩
      · exact Or.inr ⟨site, hattaches.mem_anchorsOf hinside, hinside, hcovers, group, hattaches,
          hignores⟩
  · rintro (⟨site, group, habove, hattaches, hignores⟩ |
      ⟨site, -, -, hcovers, group, hattaches, hignores⟩)
    · have huseCovers : CommentMap.covers offset use = true :=
        CommentMap.covers_iff.2 ⟨Nat.le_of_lt hstart, Nat.le_of_lt hstop⟩
      exact ⟨site, group, hattaches, hignores,
        Or.inr (hnested.covers_of_prefix huse hattaches.mem_sites habove huseCovers)⟩
    · exact ⟨site, group, hattaches, hignores, Or.inr hcovers⟩

/-- **A use is suppressed by the directives on its way**, those attached to it and to the nodes above
it, and by those attached to an anchor inside it that the start of the name touches.  If no anchor is
inside it, only the former count.  A node that is neither above nor inside it never covers the start
of the name. -/
theorem isIgnored_iff_on_way (register : Register) (findings : List Finding) {file : SourceFile}
    {use : Site} {operand name : Node} (hnested : file.root.WellNested)
    (huse : use ∈ file.root.sites) (hparts : use.node.Qualifies operand name)
    (hoperand : operand.start < operand.stop) (hname : name.start < name.stop)
    (horder : operand.stop ≤ name.start) :
    let ignored :=
      ((register.isIgnored (CommentMap.ofFile file) use.address name.start).run findings).1
    (ignored = true ↔ file.IgnoresOnWay use.address ∨ file.IgnoresInside use name.start) ∧
      ((∀ site ∈ CommentMap.anchorsOf file.root, ¬ use.Encloses site) →
        (ignored = true ↔ file.IgnoresOnWay use.address)) ∧
      ∀ site ∈ file.root.sites, CommentMap.covers name.start site = true →
        site.address <+: use.address ∨ use.Encloses site := by
  intro ignored
  have hinside : use.node.WellNested := hnested.of_mem huse
  obtain ⟨hmemOperand, hmemName⟩ := hparts.mem_children
  have hstart : use.node.start < name.start := by
    have hin := hinside.inside hmemOperand
    omega
  have hstop : name.start < use.node.stop := by
    have hin := hinside.inside hmemName
    omega
  have hexact : ignored = true ↔
      file.IgnoresOnWay use.address ∨ file.IgnoresInside use name.start := by
    show (Prod.fst _) = true ↔ _
    rw [register.isIgnored_ofFile]
    exact SourceFile.suppresses_iff_on_way hnested huse hstart hstop
  refine ⟨hexact, fun hnone => ?_, fun site hsite hcovers => ?_⟩
  · rw [hexact]
    refine ⟨fun h => h.resolve_right ?_, Or.inl⟩
    rintro ⟨site, hanchor, hencl, -⟩
    exact hnone site hanchor hencl
  · exact hnested.prefix_or_encloses_of_covers huse hsite hstart hstop hcovers

/-! ### A selection with an anchor inside and without -/

def pickSource : List UInt8 :=
  "import \"fmt\"\nfmt{}X //faillint:ignore why\n".toList.map fun c => c.val.toUInt8

def pickOperand : Node := ⟨.identifier, true, some .operand, 13, 16, []⟩

def pickName : Node := ⟨.other "field_identifier", true, some .selected, 18, 19, []⟩

/-- A selection with a node of a kind between its parts. -/
def pickUse (kind : Kind) : Node :=
  ⟨.selectorExpression, true, none, 13, 19,
    [pickOperand, ⟨kind, true, none, 16, 18, []⟩, pickName]⟩

def pickStatement : Node :=
  ⟨.statement "expression", true, none, 13, 19, [pickUse (.other ".")]⟩

/-- An import, a node, and an `ignore` behind the node. -/
def pickFile (second : Node) : SourceFile :=
  SourceFile.ofTree "x.go" pickSource
    ⟨.sourceFile, true, none, 0, 42,
      [⟨.importDeclaration, true, none, 0, 12,
          [⟨.importSpec, true, none, 7, 12,
            [⟨.other "interpreted_string_literal", true, some .path, 7, 12, []⟩]⟩]⟩,
        second, ⟨.comment, true, none, 20, 41, []⟩]⟩ false

def pickGroup : CommentGroup :=
  ⟨0, ⟨"//faillint:ignore why", ⟨20, 2, 8⟩, ⟨41, 2, 29⟩⟩, []⟩

/-- The `ignore` belongs to the statement that the selection is in. -/
theorem isIgnored_iff_on_way_statement :
    (pickFile pickStatement).root.WellNested ∧
      ⟨[1, 0], pickUse (.other ".")⟩ ∈ (pickFile pickStatement).root.sites ∧
      (pickUse (.other ".")).Qualifies pickOperand pickName ∧
      pickOperand.start < pickOperand.stop ∧ pickName.start < pickName.stop ∧
      pickOperand.stop ≤ pickName.start ∧
      (((Register.ofFile (pickFile pickStatement)).isIgnored
        (CommentMap.ofFile (pickFile pickStatement)) [1, 0] pickName.start).run []).1 = true := by
  have hnested : (pickFile pickStatement).root.WellNested := by decide
  have huse : ⟨[1, 0], pickUse (.other ".")⟩ ∈ (pickFile pickStatement).root.sites :=
    Node.mem_sites.2 rfl
  have hparts : (pickUse (.other ".")).Qualifies pickOperand pickName := Or.inl ⟨rfl, rfl, rfl⟩
  have hcomments : (pickFile pickStatement).comments = [pickGroup] := by decide +kernel
  have hattaches : (CommentMap.ofFile (pickFile pickStatement)).Attaches pickGroup
      ⟨[1], pickStatement⟩ :=
    CommentMap.attaches_iff.2 ⟨hcomments ▸ List.mem_singleton_self _, rfl⟩
  obtain ⟨-, honWay, -⟩ := isIgnored_iff_on_way (Register.ofFile (pickFile pickStatement)) [] hnested
    huse hparts (by decide) (by decide) (by decide)
  refine ⟨hnested, huse, hparts, by decide, by decide, by decide, (honWay ?_).2 ?_⟩
  · intro site hsite hencl
    have hnone : ∀ site ∈ CommentMap.anchorsOf (pickFile pickStatement).root,
        ¬ [1, 0] <+: site.address := by decide
    exact hnone site hsite hencl.above
  · exact ⟨_, pickGroup, by decide, hattaches, by decide +kernel⟩

/-- **An anchor inside the use can suppress it**: the `ignore` belongs to the block between the operand
and the name, which ends where the name starts. -/
theorem not_isIgnored_iff_on_way_block :
    (pickFile (pickUse .block)).root.WellNested ∧
      ⟨[1], pickUse .block⟩ ∈ (pickFile (pickUse .block)).root.sites ∧
      (pickUse .block).Qualifies pickOperand pickName ∧
      pickOperand.children = [] ∧ pickName.children = [] ∧
      pickOperand.start < pickOperand.stop ∧ pickName.start < pickName.stop ∧
      pickOperand.stop < pickName.start ∧
      ¬ ((((Register.ofFile (pickFile (pickUse .block))).isIgnored
          (CommentMap.ofFile (pickFile (pickUse .block))) [1] pickName.start).run []).1 = true ↔
        (pickFile (pickUse .block)).IgnoresOnWay [1]) := by
  have hnested : (pickFile (pickUse .block)).root.WellNested := by decide
  have huse : ⟨[1], pickUse .block⟩ ∈ (pickFile (pickUse .block)).root.sites :=
    Node.mem_sites.2 rfl
  have hcomments : (pickFile (pickUse .block)).comments = [pickGroup] := by decide +kernel
  have hattaches : (CommentMap.ofFile (pickFile (pickUse .block))).Attaches pickGroup
      ⟨[1, 1], ⟨.block, true, none, 16, 18, []⟩⟩ :=
    CommentMap.attaches_iff.2 ⟨hcomments ▸ List.mem_singleton_self _, rfl⟩
  refine ⟨hnested, huse, Or.inl ⟨rfl, rfl, rfl⟩, rfl, rfl, by decide, by decide, by decide, ?_⟩
  rw [Register.isIgnored_ofFile, SourceFile.suppresses_iff]
  intro hiff
  obtain ⟨site, group, habove, hother, -⟩ := hiff.1 ⟨_, pickGroup, hattaches, by decide +kernel, Or.inr rfl⟩
  obtain ⟨hgroup, rfl⟩ := CommentMap.attaches_iff.1 hother
  obtain rfl := List.mem_singleton.1 (hcomments ▸ hgroup)
  rw [(CommentMap.attaches_iff.1 hattaches).2] at habove
  exact absurd habove (by decide)

end ImportGuard
