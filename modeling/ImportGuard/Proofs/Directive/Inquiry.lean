import ImportGuard.Directive
import ImportGuard.Usage.Scope

/-!
# Inquiries have no memory

An inquiry runs on the findings made so far, and these decide which faults are reported anew.  They
decide nothing else: `Reports inquiry raw answer` says that the inquiry gives `answer` and **puts
forward** the findings `raw`, *whatever* has been found before.  What was found before only decides
which of the faults in `raw` are new (`Finding.record`).

The notion is closed under sequencing (`Reports.bind`), so each inquiry about a file gets one lemma,
`reports_search` up to `reports_isIgnored`, that names its answer and what it puts forward, both as
plain functions of the comments.  An inquiry stops at the first comment that settles it, so it puts
forward the faults of the comments up to that one (`upTo`).
-/

namespace ImportGuard

/-! ### Putting findings forward -/

/-- Records a finding.  A fault that has been reported at its offset is not recorded again. -/
def Finding.record (findings : List Finding) (finding : Finding) : List Finding :=
  if finding.cause.isFault && findings.any fun f =>
      f.cause = finding.cause && f.position.offset = finding.position.offset then findings
  else findings ++ [finding]

/-- The inquiry gives `answer` and puts `raw` forward, whatever has been found before. -/
def Reports {α : Type} (inquiry : Inquiry α) (raw : List Finding) (answer : α) : Prop :=
  ∀ findings, inquiry.run findings = (answer, raw.foldl Finding.record findings)

theorem reports_pure {α : Type} (a : α) : Reports (pure a) [] a :=
  fun _ => rfl

theorem Reports.bind {α β : Type} {inquiry : Inquiry α} {k : α → Inquiry β}
    {raw raw' : List Finding} {a : α} {b : β} (h : Reports inquiry raw a)
    (hk : Reports (k a) raw' b) : Reports (inquiry >>= k) (raw ++ raw') b := by
  intro findings
  rw [StateT.run_bind, h findings, List.foldl_append]
  exact hk _

theorem Reports.map {α β : Type} {inquiry : Inquiry α} {raw : List Finding} {a : α}
    (h : Reports inquiry raw a) (f : α → β) : Reports (f <$> inquiry) raw (f a) := by
  intro findings
  rw [StateT.run_map, h findings]
  rfl

/-- Putting something forward first, under a condition only. -/
theorem Reports.after {β : Type} {act : Inquiry Unit} {rest : Inquiry β}
    {raw raw' : List Finding} {b : β} (c : Prop) [Decidable c] (h : Reports act raw ())
    (hrest : Reports rest raw' b) :
    Reports (if c then act >>= fun _ => rest else rest) ((if c then raw else []) ++ raw') b := by
  by_cases hc : c
  · rw [if_pos hc, if_pos hc]
    exact h.bind hrest
  · rw [if_neg hc, if_neg hc]
    exact hrest

theorem reports_forM {α : Type} {act : α → Inquiry Unit} {raw : α → List Finding}
    (h : ∀ a, Reports (act a) (raw a) ()) (l : List α) :
    Reports (l.forM act) (l.flatMap raw) () := by
  induction l with
  | nil => exact reports_pure ()
  | cons a l ih => exact (h a).bind ih

theorem reports_mapM {α β : Type} {ask : α → Inquiry β} {raw : α → List Finding}
    {answer : α → β} (h : ∀ a, Reports (ask a) (raw a) (answer a)) (l : List α) :
    Reports (l.mapM ask) (l.flatMap raw) (l.map answer) := by
  induction l with
  | nil => exact reports_pure []
  | cons a l ih =>
    rw [List.mapM_cons, List.flatMap_cons, List.map_cons]
    apply (h a).bind
    have hrest := ih.bind (k := fun rest => pure (answer a :: rest)) (reports_pure _)
    rw [List.append_nil] at hrest
    exact hrest

theorem reports_filterAuxM {α : Type} {ask : α → Inquiry Bool} {raw : α → List Finding}
    {answer : α → Bool} (h : ∀ a, Reports (ask a) (raw a) (answer a)) (l acc : List α) :
    Reports (l.filterAuxM ask acc) (l.flatMap raw) ((l.filter answer).reverse ++ acc) := by
  induction l generalizing acc with
  | nil => exact reports_pure acc
  | cons a l ih =>
    have hrest := (h a).bind (k := fun b => l.filterAuxM ask (cond b (a :: acc) acc)) (ih _)
    cases ha : answer a with
    | true => simpa [List.filterAuxM, ha] using hrest
    | false => simpa [List.filterAuxM, ha] using hrest

theorem reports_filterM {α : Type} {ask : α → Inquiry Bool} {raw : α → List Finding}
    {answer : α → Bool} (h : ∀ a, Reports (ask a) (raw a) (answer a)) (l : List α) :
    Reports (l.filterM ask) (l.flatMap raw) (l.filter answer) := by
  have haux := (reports_filterAuxM h l []).bind (k := fun kept => pure kept.reverse)
    (reports_pure _)
  rw [List.append_nil, List.append_nil, List.reverse_reverse] at haux
  exact haux

/-- Findings that are no faults are recorded as they are. -/
theorem foldl_record_of_not_isFault {raw : List Finding}
    (h : ∀ f ∈ raw, f.cause.isFault = false) (findings : List Finding) :
    raw.foldl Finding.record findings = findings ++ raw := by
  induction raw generalizing findings with
  | nil => simp
  | cons f raw ih =>
    have hf : Finding.record findings f = findings ++ [f] := by
      simp [Finding.record, h f (by simp)]
    rw [List.foldl_cons, hf, ih fun g hg => h g (List.mem_cons_of_mem f hg)]
    simp

theorem reports_modify {raw : List Finding} (h : ∀ f ∈ raw, f.cause.isFault = false) :
    Reports (modify (· ++ raw)) raw () := by
  intro findings
  rw [foldl_record_of_not_isFault h]
  rfl

/-- The members of a list up to the first that satisfies `p`, that one included. -/
def upTo {α : Type} (p : α → Bool) : List α → List α
  | [] => []
  | a :: l => if p a then [a] else a :: upTo p l

theorem upTo_subset {α : Type} {p : α → Bool} {l : List α} {a : α} (h : a ∈ upTo p l) :
    a ∈ l := by
  induction l with
  | nil => exact h
  | cons b l ih =>
    by_cases hb : p b
    · rw [upTo, if_pos hb, List.mem_singleton] at h
      exact h ▸ List.mem_cons_self
    · rw [upTo, if_neg hb] at h
      rcases List.mem_cons.1 h with rfl | hl
      · exact List.mem_cons_self
      · exact List.mem_cons_of_mem b (ih hl)

/-- A member is reached exactly if none before it satisfies `p`. -/
theorem mem_upTo_iff {α : Type} {p : α → Bool} {l : List α} {a : α} :
    a ∈ upTo p l ↔ ∃ before after, l = before ++ a :: after ∧ ∀ b ∈ before, p b = false := by
  induction l with
  | nil => simp [upTo]
  | cons c l ih =>
    constructor
    · intro h
      by_cases hc : p c = true
      · rw [upTo, if_pos hc, List.mem_singleton] at h
        exact ⟨[], l, by rw [h]; rfl, fun _ hb => absurd hb List.not_mem_nil⟩
      · rw [upTo, if_neg hc] at h
        rcases List.mem_cons.1 h with rfl | h
        · exact ⟨[], l, rfl, fun _ hb => absurd hb List.not_mem_nil⟩
        · obtain ⟨before, after, rfl, hbefore⟩ := ih.1 h
          refine ⟨c :: before, after, rfl, ?_⟩
          intro b hb
          rcases List.mem_cons.1 hb with rfl | hb
          · exact eq_false_of_ne_true hc
          · exact hbefore b hb
    · rintro ⟨before, after, hsplit, hbefore⟩
      cases before with
      | nil =>
        obtain ⟨rfl, rfl⟩ := List.cons.inj hsplit
        rw [upTo]
        split <;> exact List.mem_cons_self
      | cons b before =>
        obtain ⟨rfl, rfl⟩ := List.cons.inj hsplit
        have hc : ¬ p c = true := by
          rw [hbefore c List.mem_cons_self]
          exact Bool.false_ne_true
        rw [upTo, if_neg hc]
        apply List.mem_cons_of_mem
        apply ih.2
        exact ⟨before, after, rfl, fun b hb => hbefore b (List.mem_cons_of_mem c hb)⟩

theorem upTo_append {α : Type} (p : α → Bool) (l₁ l₂ : List α) :
    upTo p (l₁ ++ l₂) = if l₁.any p then upTo p l₁ else l₁ ++ upTo p l₂ := by
  induction l₁ with
  | nil => rfl
  | cons a l ih =>
    by_cases ha : p a
    · simp [upTo, ha]
    · rw [List.cons_append, upTo, if_neg ha, upTo, if_neg ha, ih, List.any_cons,
        eq_false_of_ne_true ha, Bool.false_or]
      split <;> rfl

theorem upTo_eq_self {α : Type} {p : α → Bool} {l : List α} (h : l.any p = false) :
    upTo p l = l := by
  have := upTo_append p l []
  rw [h] at this
  simpa [upTo] using this

/-! ### What a comment says -/

namespace Comment

/-- Whether a comment is a well-formed directive with an option. -/
def carries (option : String) (comment : Comment) : Bool :=
  (Directive.parse? comment.text).any fun directive =>
    directive.option = option && directive.isWellFormed

end Comment

def CommentGroup.ignores (group : CommentGroup) : Bool :=
  group.comments.any (Comment.carries Directive.ignore)

namespace Register

/-- The faults of a directive comment, for an inquiry about an option in a group that documents the
package or not. -/
def faultsOf (register : Register) (isDoc : Bool) (option : String) (comment : Comment) :
    List Finding :=
  match Directive.parse? comment.text with
  | none => []
  | some directive =>
    let position := Position.ofPlace register.filename comment.start
    (if directive.isRecognized && directive.reason = "" then [⟨position, .missingReason⟩]
      else []) ++
    (if directive.option = Directive.fileIgnore && option = Directive.ignore && !isDoc then
      [⟨position, .misplacedFileIgnore⟩] else [])

/-- The faults that an inquiry about an option meets in a group. -/
def faultsIn (register : Register) (option : String) (group : CommentGroup) : List Finding :=
  (upTo (Comment.carries option) group.comments).flatMap
    (register.faultsOf (register.isDoc group) option)

theorem isFault_of_mem_faultsOf {register : Register} {isDoc : Bool} {option : String}
    {comment : Comment} {f : Finding} (h : f ∈ register.faultsOf isDoc option comment) :
    f.cause.isFault = true := by
  unfold faultsOf at h
  split at h
  · exact absurd h (by simp)
  · rcases List.mem_append.1 h with h | h
    · split at h
      · rw [List.mem_singleton.1 h]
        rfl
      · exact absurd h (by simp)
    · split at h
      · rw [List.mem_singleton.1 h]
        rfl
      · exact absurd h (by simp)

theorem isFault_of_mem_faultsIn {register : Register} {option : String} {group : CommentGroup}
    {f : Finding} (h : f ∈ register.faultsIn option group) : f.cause.isFault = true := by
  obtain ⟨comment, _, hf⟩ := List.mem_flatMap.1 h
  exact isFault_of_mem_faultsOf hf

/-! ### The inquiries, one by one -/

theorem reports_reportOnce (register : Register) (place : Place) (fault : Cause)
    (h : fault.isFault = true) :
    Reports (register.reportOnce place fault)
      [⟨Position.ofPlace register.filename place, fault⟩] () := by
  intro findings
  simp only [List.foldl_cons, List.foldl_nil, Finding.record, h, Bool.true_and]
  rfl

/-- **A search answers whether a comment carries the option**, and puts forward the faults up to the
first that does. -/
theorem reports_search (register : Register) (isDoc : Bool) (option : String)
    (comments : List Comment) :
    Reports (register.search isDoc option comments)
      ((upTo (Comment.carries option) comments).flatMap (register.faultsOf isDoc option))
      (comments.any (Comment.carries option)) := by
  induction comments with
  | nil => exact reports_pure false
  | cons comment rest ih =>
    cases hp : Directive.parse? comment.text with
    | none =>
      have hcarries : comment.carries option = false := by simp [Comment.carries, hp]
      have hfaults : register.faultsOf isDoc option comment = [] := by simp [faultsOf, hp]
      simpa [search, upTo, hp, hcarries, hfaults] using ih
    | some directive =>
      have hcarries : comment.carries option =
          (decide (directive.option = option) && directive.isWellFormed) := by
        simp [Comment.carries, hp]
      -- the search goes on only behind a comment that does not carry the option
      have hlast : Reports
          (if (decide (directive.option = option) && directive.isWellFormed) = true then pure true
            else register.search isDoc option rest)
          (if comment.carries option then []
            else (upTo (Comment.carries option) rest).flatMap (register.faultsOf isDoc option))
          ((comment :: rest).any (Comment.carries option)) := by
        rw [List.any_cons, hcarries]
        by_cases hc : (decide (directive.option = option) && directive.isWellFormed) = true
        · simp only [hc, if_true, Bool.true_or]
          exact reports_pure true
        · simp only [hc, Bool.false_or]
          exact ih
      have hmisplaced := (register.reports_reportOnce comment.start .misplacedFileIgnore rfl).after
        ((decide (directive.option = Directive.fileIgnore) &&
          decide (option = Directive.ignore) && !isDoc) = true) hlast
      have hmissing := (register.reports_reportOnce comment.start .missingReason rfl).after
        ((directive.isRecognized && decide (directive.reason = "")) = true) hmisplaced
      have hraw : (upTo (Comment.carries option) (comment :: rest)).flatMap
            (register.faultsOf isDoc option) =
          register.faultsOf isDoc option comment ++
            (if comment.carries option then []
              else (upTo (Comment.carries option) rest).flatMap
                (register.faultsOf isDoc option)) := by
        rw [upTo]
        split <;> simp
      rw [hraw]
      simpa only [search, faultsOf, hp, List.append_assoc] using hmissing

theorem reports_hasDirective (register : Register) (group : CommentGroup) (option : String) :
    Reports (register.hasDirective group option) (register.faultsIn option group)
      (group.comments.any (Comment.carries option)) :=
  reports_search register (register.isDoc group) option group.comments

/-- Several groups are asked in turn, up to the first that has an `ignore`. -/
theorem reports_anyIgnores (register : Register) (groups : List CommentGroup) :
    Reports (register.anyIgnores groups)
      ((upTo CommentGroup.ignores groups).flatMap (register.faultsIn Directive.ignore))
      (groups.any CommentGroup.ignores) := by
  induction groups with
  | nil => exact reports_pure false
  | cons group rest ih =>
    have hgroup := register.reports_hasDirective group Directive.ignore
    cases hg : group.ignores with
    | true =>
      rw [show group.comments.any (Comment.carries Directive.ignore) = true from hg] at hgroup
      have := hgroup.bind (k := fun found => if found then pure true
        else register.anyIgnores rest) (reports_pure true)
      simpa [anyIgnores, upTo, hg] using this
    | false =>
      rw [show group.comments.any (Comment.carries Directive.ignore) = false from hg] at hgroup
      have := hgroup.bind (k := fun found => if found then pure true
        else register.anyIgnores rest) ih
      simpa [anyIgnores, upTo, hg] using this

/-- The groups that may suppress a finding at a node and an offset, in the order in which they are
asked: those of the node, then those of the nodes around the offset. -/
def consulted (map : CommentMap) (address : Address) (offset : Nat) : List CommentGroup :=
  map.groupsAt address ++ (map.enclosing offset).1.flatMap (·.groups)

/-- The faults that an inquiry about a node and an offset meets. -/
def faultsAt (register : Register) (map : CommentMap) (address : Address) (offset : Nat) :
    List Finding :=
  (upTo CommentGroup.ignores (consulted map address offset)).flatMap
    (register.faultsIn Directive.ignore)

theorem isFault_of_mem_faultsAt {register : Register} {map : CommentMap} {address : Address}
    {offset : Nat} {f : Finding} (h : f ∈ register.faultsAt map address offset) :
    f.cause.isFault = true := by
  obtain ⟨group, _, hf⟩ := List.mem_flatMap.1 h
  exact isFault_of_mem_faultsIn hf

/-- **Whether a node is ignored at an offset depends on the comments alone.** -/
theorem reports_isIgnored (register : Register) (map : CommentMap) (address : Address)
    (offset : Nat) :
    Reports (register.isIgnored map address offset) (register.faultsAt map address offset)
      ((consulted map address offset).any CommentGroup.ignores) := by
  have hown := register.reports_anyIgnores (map.groupsAt address)
  have haround := register.reports_anyIgnores ((map.enclosing offset).1.flatMap (·.groups))
  rw [faultsAt, consulted, List.any_append, upTo_append]
  cases ho : (map.groupsAt address).any CommentGroup.ignores with
  | true =>
    rw [ho] at hown
    have := hown.bind (k := fun found => if found then pure true
      else register.anyIgnores ((map.enclosing offset).1.flatMap (·.groups))) (reports_pure true)
    simpa [isIgnored] using this
  | false =>
    rw [ho, upTo_eq_self ho] at hown
    have := hown.bind (k := fun found => if found then pure true
      else register.anyIgnores ((map.enclosing offset).1.flatMap (·.groups))) haround
    simpa [isIgnored] using this

/-- The faults that asking whether the file is suppressed meets. -/
def fileFaults (register : Register) : List Finding :=
  match register.doc with
  | none => []
  | some group => register.faultsIn Directive.fileIgnore group

/-- Whether the package's documentation has a well-formed `file-ignore`. -/
def docIgnores (register : Register) : Bool :=
  register.doc.any fun group => group.comments.any (Comment.carries Directive.fileIgnore)

theorem reports_fileIsIgnored (register : Register) :
    Reports register.fileIsIgnored register.fileFaults register.docIgnores := by
  unfold fileIsIgnored fileFaults docIgnores
  cases register.doc with
  | none => exact reports_pure false
  | some group => exact register.reports_hasDirective group Directive.fileIgnore

theorem isFault_of_mem_fileFaults {register : Register} {f : Finding}
    (h : f ∈ register.fileFaults) : f.cause.isFault = true := by
  unfold fileFaults at h
  split at h
  · exact absurd h (by simp)
  · exact isFault_of_mem_faultsIn h

end Register

end ImportGuard
