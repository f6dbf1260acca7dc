import ImportGuard.Proofs.Usage.Declarations
import ImportGuard.Proofs.Usage.Filing
import ImportGuard.Proofs.Usage.Mentions
import Mathlib.Data.List.Forall2

/-!
# Lexical visibility

A mention of a name is a use of a package if no open scope has the name.  Which scopes are open, and
what they have, is a matter of everything the walk has done so far.  **The stack of scopes computes
a plain relation** (`mem_usesOf_iff`): a mention counts exactly if its name is not declared at the
top level, and no earlier declaration of the name is owned by a node above the mentioned one.  The
owner of a declaration is the node whose scope is the innermost open at that moment, or the file.

`Mirrors` is the invariant of a run: each open scope has a name exactly if a declaration of it is
owned by the node that opened the scope.  Each event preserves it (`Mirrors.enter` to
`Mirrors.declare`), so every part of a nested list of events does (`mirrors_of_nested`).  That the
owner's scope is still open is then turned into the owner being above by `Nested.moment`.
-/

namespace ImportGuard

/-! ### Scopes after some events -/

def Scopes.after (scopes : Scopes) : List Event → Scopes
  | [] => scopes
  | .enter _ :: events => Scopes.after ([] :: scopes) events
  | .leave :: events => Scopes.after scopes.tail events
  | .declare names :: events => Scopes.after (scopes.declare names) events
  | .mention _ :: events => Scopes.after scopes events

theorem Scopes.after_append (scopes : Scopes) (l m : List Event) :
    scopes.after (l ++ m) = (scopes.after l).after m := by
  induction l generalizing scopes with
  | nil => rfl
  | cons e l ih =>
    cases e with
    | enter address => exact ih ([] :: scopes)
    | leave => exact ih scopes.tail
    | declare names => exact ih (scopes.declare names)
    | mention use => exact ih scopes

theorem Scopes.hides_iff {scopes : Scopes} {name : String} :
    scopes.hides name = true ↔ ∃ scope ∈ scopes, name ∈ scope := by
  simp [hides]

theorem Scopes.hides_declare_iff {scopes : Scopes} {name : String} {names : List String} :
    (scopes.declare names).hides name = true ↔ name ∈ names ∨ scopes.hides name = true := by
  cases scopes with
  | nil => simp [declare, hides]
  | cons scope outer => simp [declare, hides, or_assoc]

/-- The use that an event is, if no open scope has the name asked about. -/
def Usage.counted (qualifier : String) (scopes : Scopes) : Event → List Use
  | .mention use =>
    if use.package = qualifier ∧ scopes.hides qualifier = false then [use] else []
  | _ => []

theorem Usage.visible_cons (qualifier : String) (scopes : Scopes) (e : Event)
    (events : List Event) :
    visible qualifier scopes (e :: events) =
      counted qualifier scopes e ++ visible qualifier (scopes.after [e]) events := by
  cases e with
  | enter address => rfl
  | leave => rfl
  | declare names => rfl
  | mention use =>
    rw [visible, counted]
    split
    · rfl
    · rfl

theorem Usage.mem_counted_iff {qualifier : String} {scopes : Scopes} {e : Event} {use : Use} :
    use ∈ counted qualifier scopes e ↔
      e = .mention use ∧ use.package = qualifier ∧ scopes.hides qualifier = false := by
  cases e with
  | enter address => simp [counted]
  | leave => simp [counted]
  | declare names => simp [counted]
  | mention found =>
    rw [counted, Event.mention.injEq]
    split
    · rename_i h
      rw [List.mem_singleton]
      exact ⟨fun heq => ⟨heq.symm, heq ▸ h⟩, fun heq => heq.1.symm⟩
    · rename_i h
      refine ⟨fun hmem => absurd hmem List.not_mem_nil, fun heq => absurd ?_ h⟩
      exact heq.1 ▸ heq.2

/-- **A mention counts at a moment at which no open scope has its name.** -/
theorem Usage.mem_visible_iff {qualifier : String} {scopes : Scopes} {events : List Event}
    {use : Use} :
    use ∈ visible qualifier scopes events ↔
      ∃ before after, events = before ++ .mention use :: after ∧ use.package = qualifier ∧
        (scopes.after before).hides qualifier = false := by
  induction events generalizing scopes with
  | nil => simp [visible]
  | cons e events ih =>
    rw [visible_cons, List.mem_append, mem_counted_iff, ih]
    constructor
    · rintro (⟨rfl, hpackage, hopen⟩ | ⟨before, after, rfl, hpackage, hopen⟩)
      · exact ⟨[], events, rfl, hpackage, hopen⟩
      · refine ⟨e :: before, after, rfl, hpackage, ?_⟩
        rw [← Scopes.after_append] at hopen
        exact hopen
    · rintro ⟨before, after, heq, hpackage, hopen⟩
      cases before with
      | nil =>
        obtain ⟨rfl, _⟩ := List.cons.inj heq
        exact Or.inl ⟨rfl, hpackage, hopen⟩
      | cons f before =>
        obtain ⟨rfl, rfl⟩ := List.cons.inj heq
        refine Or.inr ⟨before, after, rfl, hpackage, ?_⟩
        rw [← Scopes.after_append]
        exact hopen

/-! ### Declarations and their owners -/

/-- Some event declares `name` while the scope of `owner` is the innermost; `none` is the file. -/
def DeclaredIn (name : String) (events : List Event) (owner : Option Address) : Prop :=
  ∃ before names after, events = before ++ .declare names :: after ∧ name ∈ names ∧
    (opened [] before).head? = owner

theorem declaredIn_nil {name : String} {owner : Option Address} : ¬ DeclaredIn name [] owner := by
  rintro ⟨before, names, after, h, _⟩
  exact absurd h (by simp)

theorem declaredIn_concat {name : String} {events : List Event} {e : Event}
    {owner : Option Address} :
    DeclaredIn name (events ++ [e]) owner ↔
      DeclaredIn name events owner ∨
        ∃ names, e = .declare names ∧ name ∈ names ∧ (opened [] events).head? = owner := by
  constructor
  · rintro ⟨before, names, after, heq, hname, howner⟩
    rcases List.append_eq_append_iff.1 heq with ⟨rest, rfl, hrest⟩ | ⟨rest, rfl, hrest⟩
    · rw [eq_comm, List.append_eq_singleton_iff] at hrest
      simp only [reduceCtorEq, and_false, or_false, List.cons.injEq] at hrest
      obtain ⟨rfl, rfl, rfl⟩ := hrest
      rw [List.append_nil] at howner
      exact Or.inr ⟨names, rfl, hname, howner⟩
    · cases rest with
      | nil =>
        obtain ⟨rfl, _⟩ := List.cons.inj hrest
        rw [List.append_nil]
        exact Or.inr ⟨names, rfl, hname, howner⟩
      | cons f rest =>
        obtain ⟨rfl, _⟩ := List.cons.inj hrest
        exact Or.inl ⟨before, names, rest, rfl, hname, howner⟩
  · rintro (⟨before, names, after, rfl, hname, howner⟩ | ⟨names, rfl, hname, howner⟩)
    · exact ⟨before, names, after ++ [e], by simp, hname, howner⟩
    · exact ⟨events, names, [], rfl, hname, howner⟩

/-- The owner of a declaration has opened its scope before. -/
theorem DeclaredIn.enter_mem {name : String} {events : List Event} {a : Address}
    (h : DeclaredIn name events (some a)) : .enter a ∈ events := by
  obtain ⟨before, names, after, rfl, _, howner⟩ := h
  rcases mem_of_mem_opened (List.mem_of_head? howner) with hnil | hmem
  · exact absurd hnil List.not_mem_nil
  · exact List.mem_append_left _ hmem

/-! ### The invariant of a run -/

/-- **Each open scope has the name exactly if a declaration of it is owned by the node that opened
the scope**; the last scope is that of the file, which starts out with some names. -/
structure Mirrors (name : String) (file : List String) (events : List Event) (scopes : Scopes) :
    Prop where
  distinct : (opened [] events).Nodup
  scopes_eq : ∃ inner bottom, scopes = inner ++ [bottom] ∧
    List.Forall₂ (fun scope a => name ∈ scope ↔ DeclaredIn name events (some a)) inner
      (opened [] events) ∧
    (name ∈ bottom ↔ name ∈ file ∨ DeclaredIn name events none)

theorem mirrors_nil (name : String) (file : List String) : Mirrors name file [] [file] where
  distinct := List.nodup_nil
  scopes_eq := by
    refine ⟨[], file, rfl, List.Forall₂.nil, ?_⟩
    rw [or_iff_left declaredIn_nil]

/-- An event that declares nothing leaves the declarations as they are. -/
theorem declaredIn_concat_of_not_declare {name : String} {events : List Event} {e : Event}
    {owner : Option Address} (h : ∀ names, e ≠ .declare names) :
    DeclaredIn name (events ++ [e]) owner ↔ DeclaredIn name events owner := by
  rw [declaredIn_concat, or_iff_left]
  rintro ⟨names, he, _⟩
  exact h names he

namespace Mirrors

variable {name : String} {file : List String} {events : List Event} {scopes : Scopes}

theorem enter (h : Mirrors name file events scopes) {a : Address} (hnew : .enter a ∉ events) :
    Mirrors name file (events ++ [.enter a]) (scopes.after [.enter a]) := by
  obtain ⟨inner, bottom, rfl, hinner, hbottom⟩ := h.scopes_eq
  have hopened : opened [] (events ++ [.enter a]) = a :: opened [] events := opened_append _ _ _
  have hsame : ∀ owner, DeclaredIn name (events ++ [.enter a]) owner ↔
      DeclaredIn name events owner :=
    fun _ => declaredIn_concat_of_not_declare fun _ => Event.noConfusion
  constructor
  · rw [hopened, List.nodup_cons]
    refine ⟨fun hmem => ?_, h.distinct⟩
    rcases mem_of_mem_opened hmem with hnil | hmem
    · exact absurd hnil List.not_mem_nil
    · exact hnew hmem
  · refine ⟨[] :: inner, bottom, rfl, ?_, ?_⟩
    · rw [hopened]
      simp only [hsame]
      refine List.Forall₂.cons ?_ hinner
      exact ⟨fun hmem => absurd hmem List.not_mem_nil, fun hd => absurd hd.enter_mem hnew⟩
    · rw [hsame]
      exact hbottom

theorem leave (h : Mirrors name file events scopes) (hopen : opened [] events ≠ []) :
    Mirrors name file (events ++ [.leave]) (scopes.after [.leave]) := by
  obtain ⟨inner, bottom, rfl, hinner, hbottom⟩ := h.scopes_eq
  have hopened : opened [] (events ++ [.leave]) = (opened [] events).tail := opened_append _ _ _
  have hsame : ∀ owner, DeclaredIn name (events ++ [.leave]) owner ↔
      DeclaredIn name events owner :=
    fun _ => declaredIn_concat_of_not_declare fun _ => Event.noConfusion
  refine ⟨hopened ▸ h.distinct.tail, inner.tail, bottom, ?_, ?_, ?_⟩
  · show (inner ++ [bottom]).tail = _
    cases inner with
    | nil => exact absurd (List.forall₂_nil_left_iff.1 hinner) hopen
    | cons scope inner => rfl
  · rw [hopened]
    simp only [hsame]
    generalize opened [] events = stack at hinner ⊢
    cases hinner with
    | nil => exact List.Forall₂.nil
    | cons _ hrest => exact hrest
  · rw [hsame]
    exact hbottom

theorem mention (h : Mirrors name file events scopes) (use : Use) :
    Mirrors name file (events ++ [.mention use]) (scopes.after [.mention use]) := by
  have hopened : opened [] (events ++ [.mention use]) = opened [] events := opened_append _ _ _
  have hsame : ∀ owner, DeclaredIn name (events ++ [.mention use]) owner ↔
      DeclaredIn name events owner :=
    fun _ => declaredIn_concat_of_not_declare fun _ => Event.noConfusion
  constructor
  · exact hopened ▸ h.distinct
  · rw [hopened]
    simp only [hsame]
    exact h.scopes_eq

theorem declare (h : Mirrors name file events scopes) (names : List String) :
    Mirrors name file (events ++ [.declare names]) (scopes.after [.declare names]) := by
  have hopened : opened [] (events ++ [.declare names]) = opened [] events := opened_append _ _ _
  have hnow : ∀ owner, DeclaredIn name (events ++ [.declare names]) owner ↔
      DeclaredIn name events owner ∨ name ∈ names ∧ (opened [] events).head? = owner := by
    intro owner
    rw [declaredIn_concat]
    simp
  obtain ⟨inner, bottom, rfl, hinner, hbottom⟩ := h.scopes_eq
  have hdistinct := h.distinct
  refine ⟨hopened ▸ hdistinct, ?_⟩
  rw [hopened]
  simp only [hnow]
  cases hstack : opened [] events with
  | nil =>
    -- the declaration is owned by the file
    rw [hstack] at hinner
    obtain rfl := List.forall₂_nil_right_iff.1 hinner
    refine ⟨[], names ++ bottom, rfl, List.Forall₂.nil, ?_⟩
    rw [List.mem_append, hbottom, List.head?_nil, and_iff_left rfl, or_comm, or_assoc]
  | cons a stack =>
    rw [hstack] at hinner hdistinct
    cases hinner with
    | cons hscope hrest =>
      rename_i scope inner
      refine ⟨(names ++ scope) :: inner, bottom, rfl, List.Forall₂.cons ?_ ?_, ?_⟩
      · rw [List.mem_append, hscope, List.head?_cons, and_iff_left rfl, or_comm]
      · -- the scopes further out belong to other nodes
        have hother : ∀ b ∈ stack, ¬ (a :: stack).head? = some b := by
          intro b hb heq
          obtain rfl := Option.some.inj heq
          exact (List.nodup_cons.1 hdistinct).1 hb
        refine (List.forall₂_iff_get.2 ⟨hrest.length_eq, fun i hi hi' => ?_⟩)
        have hget := (List.forall₂_iff_get.1 hrest).2 i hi hi'
        rw [hget, or_iff_left]
        exact fun hand => hother _ (List.get_mem _ _) hand.2
      · rw [hbottom]
        simp

end Mirrors

/-- **Every part of a run over nested events preserves the invariant.** -/
theorem mirrors_of_nested {A : Address → Prop} {events before after : List Event}
    (h : Nested A events) (heq : events = before ++ after) (name : String) (file : List String) :
    Mirrors name file before (Scopes.after [file] before) := by
  induction before using List.reverseRecOn generalizing after with
  | nil => exact mirrors_nil name file
  | append_singleton before e ih =>
    rw [List.append_assoc] at heq
    have hbefore := ih heq
    rw [Scopes.after_append]
    cases e with
    | enter a =>
      refine hbefore.enter fun hmem => ?_
      have honce := h.once
      rw [heq, List.filterMap_append, List.nodup_append'] at honce
      exact honce.2.2 (List.mem_filterMap.2 ⟨.enter a, hmem, rfl⟩)
        (List.mem_filterMap.2 ⟨.enter a, List.mem_cons_self, rfl⟩)
    | leave => exact hbefore.leave (h.opened_ne_nil heq)
    | declare names => exact hbefore.declare names
    | mention use => exact hbefore.mention use

/-! ### What hides a mention -/

theorem Mirrors.hides_iff {name : String} {file : List String} {events : List Event}
    {scopes : Scopes} (h : Mirrors name file events scopes) :
    scopes.hides name = true ↔
      name ∈ file ∨ DeclaredIn name events none ∨
        ∃ a ∈ opened [] events, DeclaredIn name events (some a) := by
  obtain ⟨inner, bottom, rfl, hinner, hbottom⟩ := h.scopes_eq
  have hscopes : (∃ scope ∈ inner, name ∈ scope) ↔
      ∃ a ∈ opened [] events, DeclaredIn name events (some a) := by
    clear h
    generalize opened [] events = stack at hinner ⊢
    induction hinner with
    | nil => simp
    | cons hscope _ ih =>
      simp only [List.mem_cons, exists_eq_or_imp]
      exact or_congr hscope ih
  rw [Scopes.hides_iff, ← or_assoc, ← hbottom, ← hscopes]
  simp only [List.mem_append, List.mem_singleton, or_and_right, exists_or, exists_eq_left]
  exact or_comm

/-- **A name is hidden at a mention exactly if the file starts out with it, or an earlier
declaration of it is owned by the file or by a node above the mentioned one.** -/
theorem hides_iff_of_moment {A : Address → Prop} {events before after : List Event} {use : Use}
    (h : Nested A events) (heq : events = before ++ .mention use :: after) (name : String)
    (file : List String) :
    (Scopes.after [file] before).hides name = true ↔
      name ∈ file ∨ ∃ owner, DeclaredIn name before owner ∧
        ∀ a, owner = some a → a <+: use.address := by
  rw [(mirrors_of_nested h heq name file).hides_iff]
  refine or_congr_right ⟨?_, ?_⟩
  · rintro (hfile | ⟨a, hopen, ha⟩)
    · exact ⟨none, hfile, fun _ hnone => absurd hnone (by simp)⟩
    · refine ⟨some a, ha, fun b hb => ?_⟩
      obtain rfl := Option.some.inj hb
      exact (h.moment before use after heq a ha.enter_mem).1 hopen
  · rintro ⟨owner, howner, habove⟩
    cases owner with
    | none => exact Or.inl howner
    | some a =>
      exact Or.inr ⟨a, (h.moment before use after heq a howner.enter_mem).2 (habove a rfl), howner⟩

/-- A mention has one moment. -/
theorem Nested.before_eq {A : Address → Prop} {events before before' after after' : List Event}
    {use : Use} (h : Nested A events) (heq : events = before ++ .mention use :: after)
    (heq' : events = before' ++ .mention use :: after') : before = before' := by
  -- behind the first moment of a mention its node does not come up again
  have hlast : ∀ {b a rest : List Event}, events = b ++ .mention use :: a →
      .mention use :: a = rest ++ .mention use :: after' ∨
        .mention use :: a = rest ++ .mention use :: after → rest = [] := by
    intro b a rest hb hrest
    cases rest with
    | nil => rfl
    | cons f rest =>
      have hmem : .mention use ∈ a := by
        rcases hrest with hrest | hrest
        · rw [(List.cons.inj hrest).2]
          exact List.mem_append_cons_self
        · rw [(List.cons.inj hrest).2]
          exact List.mem_append_cons_self
      have honce := h.once
      rw [hb, List.filterMap_append, List.nodup_append', List.filterMap_cons_some
        (show Event.site? (.mention use) = some use.address from rfl), List.nodup_cons] at honce
      exact (honce.2.1.1 (List.mem_filterMap.2 ⟨.mention use, hmem, rfl⟩)).elim
  rcases List.append_eq_append_iff.1 (heq.symm.trans heq') with
    ⟨rest, hb, hrest⟩ | ⟨rest, hb, hrest⟩
  · rw [hb, hlast heq (Or.inl hrest), List.append_nil]
  · rw [hb, hlast heq' (Or.inr hrest), List.append_nil]

/-! ### The names of the top level -/

/-- The second node is an outermost one in the first of those that satisfy `p`. -/
inductive Outermost (p : Kind → Prop) : Node → Node → Prop
  | here {node : Node} : p node.kind → Outermost p node node
  | deeper {node child found : Node} : ¬ p node.kind → child ∈ node.children →
      Outermost p child found → Outermost p node found

theorem Node.outermostFrom_eq (p : Kind → Bool) (children : List Node) :
    outermostFrom p children = children.flatMap (outermost p) := by
  induction children with
  | nil => rfl
  | cons child rest ih => rw [outermostFrom, ih, List.flatMap_cons]

theorem Node.mem_outermost {p : Kind → Bool} {node found : Node}
    (h : Outermost (p · = true) node found) : found ∈ node.outermost p := by
  induction h with
  | @here node hp =>
    obtain ⟨kind, named, role, start, stop, children⟩ := node
    rw [outermost, if_pos hp]
    exact List.mem_singleton_self _
  | @deeper node child found hp hchild _ ih =>
    obtain ⟨kind, named, role, start, stop, children⟩ := node
    rw [outermost, if_neg hp, outermostFrom_eq]
    exact List.mem_flatMap.2 ⟨child, hchild, ih⟩

theorem Node.outermost_of_mem {p : Kind → Bool} {node found : Node}
    (h : found ∈ node.outermost p) : Outermost (p · = true) node found := by
  induction node using Node.induction with
  | step node ih =>
    obtain ⟨kind, named, role, start, stop, children⟩ := node
    rw [outermost] at h
    split at h
    · rename_i hp
      rw [List.mem_singleton.1 h]
      exact .here hp
    · rename_i hp
      rw [outermostFrom_eq] at h
      obtain ⟨child, hchild, hfound⟩ := List.mem_flatMap.1 h
      exact .deeper hp hchild (ih child hchild hfound)

namespace Usage

def IsSpec (kind : Kind) : Prop :=
  kind = .varSpec ∨ kind = .constSpec ∨ kind = .typeSpec ∨ kind = .typeAlias

theorem isSpec_iff {kind : Kind} : isSpec kind = true ↔ IsSpec kind := by
  cases kind <;> simp [isSpec, IsSpec]

/-- **A name of the top level**: of a function declared there, or of an outermost specification in a
declaration of variables, constants or types there. -/
def DeclaredAtTop (source : List UInt8) (root : Node) (name : String) : Prop :=
  ∃ child ∈ root.children,
    child.kind = .functionDeclaration ∧ Walk.HasName source child name ∨
      (child.kind = .varDeclaration ∨ child.kind = .constDeclaration ∨
        child.kind = .typeDeclaration) ∧
        ∃ spec, Outermost IsSpec child spec ∧ Walk.HasName source spec name

theorem mem_fileScope_iff {source : List UInt8} {root : Node} {name : String} :
    name ∈ fileScope source root ↔ DeclaredAtTop source root name := by
  rw [fileScope, List.mem_flatMap]
  refine exists_congr fun child => and_congr_right fun _ => ?_
  have hspecs : name ∈ (child.outermost isSpec).flatMap (·.names source) ↔
      ∃ spec, Outermost IsSpec child spec ∧ Walk.HasName source spec name := by
    have hspec : IsSpec = (isSpec · = true) := funext fun _ => propext isSpec_iff.symm
    rw [List.mem_flatMap, hspec]
    exact exists_congr fun spec =>
      and_congr ⟨Node.outermost_of_mem, Node.mem_outermost⟩ Walk.mem_names_iff
  unfold topLevelNames
  split
  · rename_i hkind
    simp [hkind, Walk.mem_names_iff]
  · rename_i hkind
    simp [hkind, hspecs]
  · rename_i hkind
    simp [hkind, hspecs]
  · rename_i hkind
    simp [hkind, hspecs]
  · rename_i hfunction hvar hconst htype
    refine ⟨fun hmem => absurd hmem List.not_mem_nil, ?_⟩
    rintro (⟨hkind, _⟩ | ⟨hkind | hkind | hkind, _⟩)
    · exact (hfunction hkind).elim
    · exact (hvar hkind).elim
    · exact (hconst hkind).elim
    · exact (htype hkind).elim

/-! ### Uses -/

/-- A scan without exceptions files all uses. -/
theorem scan_without_exceptions (source : List UInt8) (root : Node) {qualifier : String}
    (hqualifier : qualifier ≠ "") {mode : ImportMode} (hmode : mode = .named ∨ mode = .guessed) :
    Id.run (scan source root (some qualifier) mode fun _ => pure false) =
      index (usesOf source root qualifier) := by
  have hname := scanName_eq_some hqualifier hmode
  have hall : (usesOf source root qualifier).filter (fun _ => !false) =
      usesOf source root qualifier := List.filter_eq_self.2 fun _ _ => rfl
  rw [scan_pure, hname, Option.elim_some, hall]
  rfl

/-- A use stands at a moment of the trace. -/
theorem mention_of_mem_usesOf {source : List UInt8} {root : Node} {qualifier : String}
    {use : Use} (h : use ∈ usesOf source root qualifier) :
    .mention use ∈ trace source root ∧ use.package = qualifier := by
  obtain ⟨before, after, htrace, hpackage, _⟩ := mem_visible_iff.1 h
  refine ⟨?_, hpackage⟩
  rw [htrace]
  exact List.mem_append_cons_self

/-- Whether a mention counts is settled at its only moment. -/
theorem mem_usesOf_iff_of_moment {source : List UInt8} {root : Node} {use : Use}
    {before after : List Event} (htrace : trace source root = before ++ .mention use :: after)
    {qualifier : String} (hpackage : use.package = qualifier) :
    use ∈ usesOf source root qualifier ↔
      ¬ DeclaredAtTop source root qualifier ∧
        ¬ ∃ owner, DeclaredIn qualifier before owner ∧
          ∀ a, owner = some a → a <+: use.address := by
  have hnested := Walk.nested_trace source root
  have hmoment : use ∈ usesOf source root qualifier ↔
      (Scopes.after [fileScope source root] before).hides qualifier = false := by
    rw [usesOf, mem_visible_iff]
    constructor
    · rintro ⟨before', after', htrace', _, hopen⟩
      rw [hnested.before_eq htrace htrace']
      exact hopen
    · exact fun hopen => ⟨before, after, htrace, hpackage, hopen⟩
  rw [hmoment, ← Bool.not_eq_true,
    hides_iff_of_moment hnested htrace qualifier (fileScope source root), not_or,
    mem_fileScope_iff]

/-- **Lexical visibility is what the stack of scopes computes.**  A scan without exceptions files
the uses of a qualifier, and each of them is made by a node that the walk gets to.  Conversely take
a node that the walk gets to and that selects a name from a package with the text `qualifier`.  It
has its moment in the trace, and it is one of the uses if and only if `qualifier` is no name of the
top level, and no declaration of `qualifier` before that moment is owned by the file or by a node
above it: whenever names with `qualifier` among them were declared, the innermost open scope was
that of a node whose address does not start the address of the selecting node.

What is declared in the trace, and into which scopes, is a matter of the tree.  The declarations are
those of the nodes that the walk gets to: a node declares what `Walk.Declares` says, in the scopes of
the nodes above it that open one, to which a type switch adds its own.  The scopes that open are
those of the nodes with a kind in `Walk.opensScope` that the walk gets to. -/
theorem mem_usesOf_iff (source : List UInt8) (root : Node) {qualifier : String}
    (hqualifier : qualifier ≠ "") :
    (∀ mode, mode = .named ∨ mode = .guessed →
      Id.run (scan source root (some qualifier) mode fun _ => pure false) =
        index (usesOf source root qualifier)) ∧
    (∀ use ∈ usesOf source root qualifier, ∃ address node package name,
      Walk.Reached source root address .whole node ∧ Walk.Selects node package name ∧
        package.text source = qualifier ∧ use = Walk.useOf source address node package name) ∧
    (∀ address node package name, Walk.Reached source root address .whole node →
      Walk.Selects node package name → package.text source = qualifier →
      (∃ before after, trace source root =
        before ++ .mention (Walk.useOf source address node package name) :: after) ∧
      ∀ before after, trace source root =
          before ++ .mention (Walk.useOf source address node package name) :: after →
        (Walk.useOf source address node package name ∈ usesOf source root qualifier ↔
          ¬ DeclaredAtTop source root qualifier ∧
            ∀ earlier names later, before = earlier ++ .declare names :: later →
              qualifier ∈ names →
                ∃ owner, (opened [] earlier).head? = some owner ∧ ¬ owner <+: address)) ∧
    (∀ earlier names later, trace source root = earlier ++ .declare names :: later →
      ∃ address manner node, Walk.Reached source root address manner node ∧
        (∀ name, name ∈ names ↔ Walk.Declares source manner node name) ∧
        opened [] earlier = Walk.scopesAround root address node) ∧
    (∀ address manner node name, Walk.Reached source root address manner node →
      Walk.Declares source manner node name →
      ∃ earlier names later, trace source root = earlier ++ .declare names :: later ∧
        name ∈ names ∧ opened [] earlier = Walk.scopesAround root address node) ∧
    ∀ address, .enter address ∈ trace source root ↔
      ∃ node, Walk.Reached source root address .whole node ∧
        Walk.opensScope node.kind = true := by
  refine ⟨fun mode hmode => scan_without_exceptions source root hqualifier hmode,
    fun use huse => ?_, ?_, fun _ _ _ => Walk.exists_declares_of_trace_eq,
    fun _ _ _ _ => Walk.Reached.exists_declare, fun _ => Walk.enter_mem_trace_iff⟩
  · obtain ⟨hmention, rfl⟩ := mention_of_mem_usesOf huse
    obtain ⟨address, node, package, name, hreached, hselects, rfl⟩ :=
      Walk.exists_reached_of_mention hmention
    exact ⟨address, node, package, name, hreached, hselects, rfl, rfl⟩
  intro address node package name hreached hselects hpackage
  refine ⟨hreached.exists_moment hselects, fun before after htrace => ?_⟩
  rw [mem_usesOf_iff_of_moment htrace hpackage]
  refine and_congr_right fun _ => ⟨fun hnone earlier names later hbefore hname => ?_, ?_⟩
  · cases howner : (opened [] earlier).head? with
    | none =>
      refine absurd ⟨none, ⟨earlier, names, later, hbefore, hname, howner⟩, ?_⟩ hnone
      exact fun _ hsome => absurd hsome (by simp)
    | some owner =>
      refine ⟨owner, rfl, fun habove => hnone ⟨some owner, ?_, fun a ha => ?_⟩⟩
      · exact ⟨earlier, names, later, hbefore, hname, howner⟩
      · obtain rfl := Option.some.inj ha
        exact habove
  · rintro hall ⟨owner, ⟨earlier, names, later, hbefore, hname, howner⟩, habove⟩
    obtain ⟨found, hfound, hnot⟩ := hall earlier names later hbefore hname
    exact hnot (habove found (howner.symm.trans hfound))

def shadowSource : List UInt8 := "f(fmt T){fmt.New}fmt.Old".toList.map fun c => c.val.toUInt8

def insidePackage : Node := ⟨.identifier, true, some .operand, 9, 12, []⟩

def insideName : Node := ⟨.other "field_identifier", true, some .selected, 13, 16, []⟩

def insideSelector : Node :=
  ⟨.selectorExpression, true, none, 9, 16, [insidePackage, insideName]⟩

def outsidePackage : Node := ⟨.identifier, true, some .operand, 17, 20, []⟩

def outsideName : Node := ⟨.other "field_identifier", true, some .selected, 21, 24, []⟩

def outsideSelector : Node :=
  ⟨.selectorExpression, true, none, 17, 24, [outsidePackage, outsideName]⟩

def shadowParameters : Node :=
  ⟨.parameterList, true, some .parameters, 1, 8,
    [⟨.parameterDeclaration, true, none, 2, 7,
      [⟨.identifier, true, some .name, 2, 5, []⟩,
        ⟨.other "type_identifier", true, some .type, 6, 7, []⟩]⟩]⟩

/-- A function with a parameter `fmt` and a selection from `fmt` in its body, and another selection
behind the function. -/
def shadowRoot : Node :=
  ⟨.sourceFile, true, none, 0, 24,
    [⟨.functionDeclaration, true, none, 0, 17,
        [⟨.identifier, true, some .name, 0, 1, []⟩, shadowParameters,
          ⟨.block, true, some .body, 8, 17, [insideSelector]⟩]⟩,
      outsideSelector]⟩

/-- The parameter hides the package in the body of its function, and there only. -/
theorem mem_usesOf_iff_shadow :
    trace shadowSource shadowRoot = [.enter [0], .declare ["fmt"], .enter [0, 2],
        .mention (Walk.useOf shadowSource [0, 2, 0] insideSelector insidePackage insideName),
        .leave, .leave,
        .mention (Walk.useOf shadowSource [1] outsideSelector outsidePackage outsideName)] ∧
      Walk.Declares shadowSource .parameters shadowParameters "fmt" ∧
      Walk.useOf shadowSource [0, 2, 0] insideSelector insidePackage insideName ∉
        usesOf shadowSource shadowRoot "fmt" ∧
      Walk.useOf shadowSource [1] outsideSelector outsidePackage outsideName ∈
        usesOf shadowSource shadowRoot "fmt" := by
  have htrace : trace shadowSource shadowRoot = [.enter [0], .declare ["fmt"], .enter [0, 2]] ++
      .mention (Walk.useOf shadowSource [0, 2, 0] insideSelector insidePackage insideName) ::
        ([.leave, .leave] ++ .mention
          (Walk.useOf shadowSource [1] outsideSelector outsidePackage outsideName) :: []) := by
    decide +kernel
  have hmem : "fmt" ∈ Walk.declared shadowSource .parameters shadowParameters := by
    decide +kernel
  have h := mem_usesOf_iff shadowSource shadowRoot (by decide : "fmt" ≠ "")
  have hinside := (h.2.2.1 [0, 2, 0] insideSelector insidePackage insideName
    (Walk.reached_iff.2 rfl) (Or.inl ⟨rfl, rfl, rfl, rfl⟩) (by decide +kernel)).2 _ _ htrace
  have houtside := (h.2.2.1 [1] outsideSelector outsidePackage outsideName
    (Walk.reached_iff.2 rfl) (Or.inl ⟨rfl, rfl, rfl, rfl⟩) (by decide +kernel)).2 _ _
    (htrace.trans (List.append_assoc _ (_ :: _) _).symm)
  refine ⟨htrace, Walk.mem_declared_iff.1 hmem, fun hused => ?_, houtside.2 ⟨?_, ?_⟩⟩
  · -- the declaration is owned by the function, which is above the selection in its body
    obtain ⟨owner, howner, hnot⟩ :=
      (hinside.1 hused).2 [.enter [0]] ["fmt"] [.enter [0, 2]] rfl List.mem_cons_self
    obtain rfl := Option.some.inj howner
    exact hnot (by decide)
  · rw [← mem_fileScope_iff]
    decide +kernel
  · intro earlier names later hbefore hname
    refine ⟨[0], ?_, by decide⟩
    cases earlier with
    | nil => exact absurd (List.cons.inj hbefore).1 Event.noConfusion
    | cons e rest =>
      obtain ⟨rfl, hrest⟩ := List.cons.inj hbefore
      cases rest with
      | nil => rfl
      | cons f rest =>
        have hmore : [.enter [0, 2], .mention _, .leave, .leave] =
            rest ++ .declare names :: later := (List.cons.inj hrest).2
        have hlater : .declare names ∈ rest ++ .declare names :: later :=
          List.mem_append_cons_self
        rw [← hmore] at hlater
        simp at hlater

end Usage

end ImportGuard
