import ImportGuard.Proofs.Analysis.Suppression
import ImportGuard.Proofs.Comment.Partition

/-!
# A session of queries

One register serves all queries about a file.  The queries look at the same groups again and
again, each stops as soon as it is settled, and a fault is reported to whoever meets it first.  Yet
**a session is the sum of its queries** (`session_of_alone`): every answer is the one that the
query gets alone, and what the session reports is what some query of it reports alone, each
fault once.

The groups of a file are told apart by their numbers, and an offset of a file has one place
(`CommentGroup.OneFile`).  For such groups recording keeps everything that is put forward
(`Finding.mem_foldl_record_iff`), so it only remains to say what a query puts forward, and
`reports_hasDirective` and its like have said that.
-/

namespace ImportGuard

/-! ### Groups of one file -/

/-- The groups are of one file: a number belongs to one group, and an offset has one place. -/
structure CommentGroup.OneFile (groups : List CommentGroup) : Prop where
  number_inj : ∀ a ∈ groups, ∀ b ∈ groups, a.number = b.number → a = b
  place_inj : ∀ a ∈ groups, ∀ b ∈ groups, ∀ c ∈ a.comments, ∀ d ∈ b.comments,
    c.start.offset = d.start.offset → c.start = d.start

theorem CommentGroup.eq_of_number_eq {source : List UInt8} {number : Nat} {comments : List Comment}
    {a b : CommentGroup} (ha : a ∈ gather source number comments)
    (hb : b ∈ gather source number comments) (h : a.number = b.number) : a = b := by
  induction number, comments using gather.induct source with
  | case1 number => simp [gather] at ha
  | case2 number first more parts ih =>
    rw [gather] at ha hb
    rcases List.mem_cons.1 ha with rfl | ha
    · rcases List.mem_cons.1 hb with rfl | hb
      · rfl
      · have hlater := le_number_of_mem_gather hb
        dsimp only at h
        omega
    · rcases List.mem_cons.1 hb with rfl | hb
      · have hlater := le_number_of_mem_gather ha
        dsimp only at h
        omega
      · exact ih ha hb

/-- **The groups of a tree are of one file.** -/
theorem CommentGroup.oneFile_ofTree (source : List UInt8) (root : Node) :
    OneFile (ofTree source root) where
  number_inj _ ha _ hb h := eq_of_number_eq ha hb h
  place_inj a ha b hb c hc d hd h := by
    rw [start_of_mem_ofTree ha hc, start_of_mem_ofTree hb hd, h]

/-! ### Queries -/

/-- A query about suppression. -/
inductive Query where
  /-- Does a group, if there is one, have a well-formed directive with an option? -/
  | directive (group : Option CommentGroup) (option : String)
  /-- Does the package's documentation suppress the file? -/
  | file
  /-- Does an `ignore` cover the node at an address, at an offset? -/
  | usage (map : CommentMap) (address : Address) (offset : Nat)

namespace Query

def ask (register : Register) : Query → Inquiry Bool
  | directive none _ => pure false
  | directive (some group) option => register.hasDirective group option
  | file => register.fileIsIgnored
  | usage map address offset => register.isIgnored map address offset

/-- The answer to a query, and what is reported, when nothing has been asked before. -/
def alone (register : Register) (query : Query) : Bool × List Finding :=
  (query.ask register).run []

def groups (register : Register) : Query → List CommentGroup
  | directive group _ => group.toList
  | file => register.doc.toList
  | usage map _ _ => map.entries.flatMap (·.groups)

def faults (register : Register) : Query → List Finding
  | directive group option => group.elim [] (register.faultsIn option)
  | file => register.fileFaults
  | usage map address offset => register.faultsAt map address offset

/-- The answer to a query, whatever has been asked before. -/
def answer (register : Register) : Query → Bool
  | directive group option => group.any fun group => group.comments.any (Comment.carries option)
  | file => register.docIgnores
  | usage map address offset =>
    (Register.consulted map address offset).any CommentGroup.ignores

theorem reports_ask (register : Register) (query : Query) :
    Reports (query.ask register) (query.faults register) (query.answer register) := by
  cases query with
  | directive group option =>
    cases group with
    | none => exact reports_pure false
    | some group => exact register.reports_hasDirective group option
  | file => exact register.reports_fileIsIgnored
  | usage map address offset => exact register.reports_isIgnored map address offset

end Query

/-- The answers to queries that are put to a register one after the other, and all that is
reported. -/
def Register.session (register : Register) (queries : List Query) :
    List Bool × List Finding :=
  (queries.mapM (Query.ask register)).run []

/-! ### What queries put forward -/

theorem CommentMap.mem_entries_of_mem_consulted {map : CommentMap} {address : Address}
    {offset : Nat} {group : CommentGroup} (h : group ∈ Register.consulted map address offset) :
    group ∈ map.entries.flatMap (·.groups) := by
  have hat : ∀ address, group ∈ map.groupsAt address → group ∈ map.entries.flatMap (·.groups) := by
    intro address hgroup
    obtain ⟨entry, hentry, -, hmem⟩ := exists_entry_of_mem_groupsAt hgroup
    exact List.mem_flatMap.2 ⟨entry, hentry, hmem⟩
  rcases List.mem_append.1 h with hown | haround
  · exact hat address hown
  · obtain ⟨entry, hentry, hmem⟩ := List.mem_flatMap.1 haround
    obtain ⟨site, -, rfl⟩ := List.mem_map.1 hentry
    apply hat site.address
    rw [← groupsAt_arrange]
    exact hmem

/-- What a query puts forward it meets in a group that it speaks of. -/
theorem Query.exists_group_of_mem_faults {register : Register} {query : Query}
    {f : Finding} (h : f ∈ query.faults register) :
    ∃ group ∈ query.groups register, ∃ option, f ∈ register.faultsIn option group := by
  cases query with
  | directive group option =>
    cases group with
    | none => exact absurd h List.not_mem_nil
    | some group => exact ⟨group, List.mem_singleton_self group, option, h⟩
  | file =>
    cases hdoc : register.doc with
    | none => simp [faults, Register.fileFaults, hdoc] at h
    | some group =>
      refine ⟨group, by simp [groups, hdoc], Directive.fileIgnore, ?_⟩
      simpa [faults, Register.fileFaults, hdoc] using h
  | usage map address offset =>
    obtain ⟨group, hgroup, hf⟩ := List.mem_flatMap.1 h
    exact ⟨group, CommentMap.mem_entries_of_mem_consulted (upTo_subset hgroup),
      Directive.ignore, hf⟩

/-- **In groups of one file, faults that repeat each other are one.** -/
theorem Register.eq_of_repeats_of_oneFile {groups : List CommentGroup}
    (hfile : CommentGroup.OneFile groups) {register : Register} {a b : CommentGroup}
    (ha : a ∈ groups) (hb : b ∈ groups) {option option' : String} {f g : Finding}
    (hf : f ∈ register.faultsIn option a) (hg : g ∈ register.faultsIn option' b)
    (h : f.Repeats g) : f = g := by
  obtain ⟨c, hc, hfc⟩ := position_of_mem_faultsIn hf
  obtain ⟨d, hd, hgd⟩ := position_of_mem_faultsIn hg
  obtain ⟨hcause, hoffset⟩ := h
  have hplace : c.start = d.start := by
    apply hfile.place_inj a ha b hb c hc d hd
    rw [hfc, hgd] at hoffset
    simp only [Position.ofPlace] at hoffset
    omega
  obtain ⟨position, cause⟩ := f
  obtain ⟨position', cause'⟩ := g
  dsimp only at hfc hgd hcause
  rw [hfc, hgd, hplace, hcause]

/-- A group documents the package exactly if it is the group that the register has for that. -/
theorem Register.isDoc_iff {groups : List CommentGroup} (hfile : CommentGroup.OneFile groups)
    {register : Register} (hdoc : ∀ doc, register.doc = some doc → doc ∈ groups)
    {group : CommentGroup} (hgroup : group ∈ groups) :
    register.isDoc group = true ↔ register.doc = some group := by
  unfold isDoc
  cases hd : register.doc with
  | none => simp
  | some doc =>
    simp only [Option.any_some, decide_eq_true_eq, Option.some.injEq]
    constructor
    · intro hnumber
      exact hfile.number_inj doc (hdoc doc hd) group hgroup hnumber
    · intro heq
      rw [heq]

/-! ### What is met in a group -/

theorem mem_faultsOf_iff {register : Register} {isDoc : Bool} {option : String}
    {comment : Comment} {f : Finding} :
    f ∈ register.faultsOf isDoc option comment ↔
      ∃ directive, Directive.parse? comment.text = some directive ∧
        (directive.isRecognized = true ∧ directive.reason = "" ∧
            f = ⟨Position.ofPlace register.filename comment.start, .missingReason⟩ ∨
          directive.option = Directive.fileIgnore ∧ option = Directive.ignore ∧ isDoc = false ∧
            f = ⟨Position.ofPlace register.filename comment.start, .misplacedFileIgnore⟩) := by
  unfold Register.faultsOf
  cases Directive.parse? comment.text with
  | none => simp
  | some directive =>
    rw [List.mem_append, List.mem_ite_nil_right, List.mem_ite_nil_right]
    simp [and_assoc]

/-- **What is met in a group**: the faults of the comments up to the first that has the option in
good order. -/
theorem mem_faultsIn_iff {register : Register} {option : String} {group : CommentGroup}
    {f : Finding} :
    f ∈ register.faultsIn option group ↔
      ∃ before comment after, group.comments = before ++ comment :: after ∧
        (∀ earlier ∈ before, earlier.carries option = false) ∧
        f ∈ register.faultsOf (register.isDoc group) option comment := by
  unfold Register.faultsIn
  rw [List.mem_flatMap]
  constructor
  · rintro ⟨comment, hcomment, hf⟩
    obtain ⟨before, after, hsplit, hbefore⟩ := mem_upTo_iff.1 hcomment
    exact ⟨before, comment, after, hsplit, hbefore, hf⟩
  · rintro ⟨before, comment, after, hsplit, hbefore, hf⟩
    exact ⟨comment, mem_upTo_iff.2 ⟨before, after, hsplit, hbefore⟩, hf⟩

/-! ### Sessions -/

/-- The words of a fault tell its cause. -/
theorem Cause.eq_of_message_eq {c d : Cause} (hc : c.isFault = true) (hd : d.isFault = true)
    (h : c.message = d.message) : c = d := by
  have hinitial := initial_eq_of_message_eq h
  cases c with
  | package path suggestion => exact absurd hc (by simp [isFault])
  | declaration name path suggestion => exact absurd hc (by simp [isFault])
  | missingReason =>
    cases d with
    | missingReason => rfl
    | misplacedFileIgnore => exact absurd hinitial (by decide)
    | package path suggestion => exact absurd hd (by simp [isFault])
    | declaration name path suggestion => exact absurd hd (by simp [isFault])
  | misplacedFileIgnore =>
    cases d with
    | misplacedFileIgnore => rfl
    | missingReason => exact absurd hinitial (by decide)
    | package path suggestion => exact absurd hd (by simp [isFault])
    | declaration name path suggestion => exact absurd hd (by simp [isFault])

/-- A query alone reports what it puts forward, each fault once. -/
theorem Query.alone_eq (register : Register) (query : Query) :
    query.alone register =
      (query.answer register, (query.faults register).foldl Finding.record []) :=
  reports_ask register query []

theorem Register.session_eq (register : Register) (queries : List Query) :
    register.session queries =
      (queries.map (Query.answer register),
        (queries.flatMap (Query.faults register)).foldl Finding.record []) :=
  reports_mapM (Query.reports_ask register) queries []

theorem Query.isFault_of_mem_faults {register : Register} {query : Query} {f : Finding}
    (h : f ∈ query.faults register) : f.cause.isFault = true := by
  obtain ⟨group, -, option, hf⟩ := exists_group_of_mem_faults h
  exact Register.isFault_of_mem_faultsIn hf

section Session

variable {groups : List CommentGroup} {register : Register} {queries : List Query}

/-- Of queries about groups of one file, what is put forward is reported. -/
theorem Register.mem_session_iff (hfile : CommentGroup.OneFile groups)
    (hqueries : ∀ query ∈ queries, ∀ group ∈ query.groups register, group ∈ groups)
    {f : Finding} :
    f ∈ (register.session queries).2 ↔ ∃ query ∈ queries, f ∈ query.faults register := by
  have hone : ∀ f ∈ queries.flatMap (Query.faults register),
      ∀ g ∈ queries.flatMap (Query.faults register),
        g.cause.isFault = true → f.Repeats g → f = g := by
    intro f hf g hg _ hsame
    obtain ⟨p, hp, hf⟩ := List.mem_flatMap.1 hf
    obtain ⟨q, hq, hg⟩ := List.mem_flatMap.1 hg
    obtain ⟨a, ha, option, hf⟩ := Query.exists_group_of_mem_faults hf
    obtain ⟨b, hb, option', hg⟩ := Query.exists_group_of_mem_faults hg
    exact eq_of_repeats_of_oneFile hfile (hqueries p hp a ha) (hqueries q hq b hb) hf hg hsame
  rw [session_eq, ← List.mem_flatMap]
  constructor
  · intro hf
    exact (Finding.mem_of_mem_foldl_record hf).resolve_left List.not_mem_nil
  · intro hf
    obtain ⟨query, -, hmem⟩ := List.mem_flatMap.1 hf
    exact (Finding.mem_foldl_record_iff hone (Query.isFault_of_mem_faults hmem)).2 hf

theorem Query.mem_alone_iff (hfile : CommentGroup.OneFile groups) {query : Query}
    (hquery : ∀ group ∈ query.groups register, group ∈ groups) {f : Finding} :
    f ∈ (query.alone register).2 ↔ f ∈ query.faults register := by
  have hsession : (register.session [query]).2 = (query.alone register).2 := by
    rw [Register.session_eq, alone_eq, List.flatMap_singleton]
  rw [← hsession, Register.mem_session_iff hfile (List.forall_mem_singleton.2 hquery)]
  simp

/-- No fault is reported twice in a session. -/
theorem Register.pairwise_session (register : Register) (queries : List Query) :
    (register.session queries).2.Pairwise fun f g =>
      ¬ (f.position.offset = g.position.offset ∧ f.message = g.message) := by
  have hfaults : ∀ f ∈ (register.session queries).2, f.cause.isFault = true := by
    intro f hf
    rw [session_eq] at hf
    obtain ⟨query, -, hmem⟩ := List.mem_flatMap.1
      ((Finding.mem_of_mem_foldl_record hf).resolve_left List.not_mem_nil)
    exact Query.isFault_of_mem_faults hmem
  have hpair : (register.session queries).2.Pairwise fun f g =>
      g.cause.isFault = true → ¬ f.Repeats g := by
    rw [session_eq]
    exact Finding.pairwise_foldl_record List.Pairwise.nil
  refine hpair.imp_of_mem ?_
  intro f g hf hg hnew hsame
  apply hnew (hfaults g hg)
  exact ⟨Cause.eq_of_message_eq (hfaults f hf) (hfaults g hg) hsame.2, hsame.1⟩

/-- **A session is the sum of its queries.**  Put any queries, about groups of one file, to one
register one after the other.  Each gets the answer that it gets alone.  No two reports of the
session have one offset and one text, and the reports are those that some query makes alone.
Asking a group for an option, alone, reports on the comments up to the first that is a well-formed
directive with the option, and on all of them if none is: every recognised directive without a
reason; and, if the option is `ignore` and the group does not document the package, every
`file-ignore` as misplaced. -/
theorem Register.session_of_alone (hfile : CommentGroup.OneFile groups)
    (hdoc : ∀ doc, register.doc = some doc → doc ∈ groups)
    (hqueries : ∀ query ∈ queries, ∀ group ∈ query.groups register, group ∈ groups) :
    (register.session queries).1 = queries.map (fun query => (query.alone register).1) ∧
      ((register.session queries).2.Pairwise fun f g =>
        ¬ (f.position.offset = g.position.offset ∧ f.message = g.message)) ∧
      (∀ f, f ∈ (register.session queries).2 ↔
        ∃ query ∈ queries, f ∈ (query.alone register).2) ∧
      ∀ group ∈ groups, ∀ option f,
        f ∈ ((Query.directive (some group) option).alone register).2 ↔
          ∃ before comment after directive, group.comments = before ++ comment :: after ∧
            (∀ earlier ∈ before, earlier.carries option = false) ∧
            Directive.parse? comment.text = some directive ∧
            (directive.isRecognized = true ∧ directive.reason = "" ∧
                f = ⟨Position.ofPlace register.filename comment.start, .missingReason⟩ ∨
              directive.option = Directive.fileIgnore ∧ option = Directive.ignore ∧
                register.doc ≠ some group ∧
                f = ⟨Position.ofPlace register.filename comment.start, .misplacedFileIgnore⟩) := by
  refine ⟨?_, register.pairwise_session queries, ?_, ?_⟩
  · rw [session_eq]
    apply List.map_congr_left
    intro query _
    rw [Query.alone_eq]
  · intro f
    rw [mem_session_iff hfile hqueries]
    constructor
    · rintro ⟨query, hquery, hf⟩
      exact ⟨query, hquery,
        (Query.mem_alone_iff hfile (hqueries query hquery)).2 hf⟩
    · rintro ⟨query, hquery, hf⟩
      exact ⟨query, hquery,
        (Query.mem_alone_iff hfile (hqueries query hquery)).1 hf⟩
  · intro group hgroup option f
    have hnot : register.isDoc group = false ↔ register.doc ≠ some group := by
      rw [ne_eq, ← isDoc_iff hfile hdoc hgroup, Bool.not_eq_true]
    have hspeaks : ∀ other ∈ (Query.directive (some group) option).groups register,
        other ∈ groups := by
      intro other hother
      rw [List.mem_singleton.1 hother]
      exact hgroup
    rw [Query.mem_alone_iff hfile hspeaks]
    show f ∈ register.faultsIn option group ↔ _
    simp only [mem_faultsIn_iff, mem_faultsOf_iff, hnot, exists_and_left]

end Session

/-- A directive without a reason above the package clause, and two directives below it. -/
def sessionSource : List UInt8 :=
  "//faillint:file-ignore\npackage p\n\n//faillint:ignore\n//faillint:file-ignore x".toList.map
    fun c => c.val.toUInt8

def sessionRoot : Node :=
  ⟨.sourceFile, true, none, 0, 76,
    [⟨.comment, true, none, 0, 22, []⟩, ⟨.packageClause, true, none, 23, 32, []⟩,
      ⟨.comment, true, none, 34, 51, []⟩, ⟨.comment, true, none, 52, 76, []⟩]⟩

def sessionDoc : CommentGroup :=
  ⟨0, ⟨"//faillint:file-ignore", ⟨0, 1, 1⟩, ⟨22, 1, 23⟩⟩, []⟩

def sessionGroup : CommentGroup :=
  ⟨1, ⟨"//faillint:ignore", ⟨34, 4, 1⟩, ⟨51, 4, 18⟩⟩,
    [⟨"//faillint:file-ignore x", ⟨52, 5, 1⟩, ⟨76, 5, 25⟩⟩]⟩

def sessionRegister : Register := ⟨"a.go", some sessionDoc⟩

/-- Queries that come back to the same groups. -/
def sessionQueries : List Query :=
  [.file, .directive (some sessionGroup) "ignore", .directive (some sessionDoc) "ignore",
    .directive none "ignore", .directive (some sessionGroup) "file-ignore",
    .usage { entries := [⟨⟨[], sessionRoot⟩, [sessionDoc, sessionGroup]⟩] } [] 40, .file]

theorem Register.session_of_alone_repeated :
    CommentGroup.OneFile [sessionDoc, sessionGroup] ∧
      (sessionRegister.session sessionQueries).1 =
        sessionQueries.map (fun query => (query.alone sessionRegister).1) ∧
      sessionRegister.session sessionQueries =
        ([false, false, false, false, true, false, false],
          [⟨⟨"a.go", 0, 1, 1⟩, .missingReason⟩, ⟨⟨"a.go", 34, 4, 1⟩, .missingReason⟩,
            ⟨⟨"a.go", 52, 5, 1⟩, .misplacedFileIgnore⟩]) := by
  have htree : [sessionDoc, sessionGroup] = CommentGroup.ofTree sessionSource sessionRoot := by
    rw [CommentGroup.ofTree_eq_gather sessionSource (by decide)]
    decide +kernel
  have hfile : CommentGroup.OneFile [sessionDoc, sessionGroup] := by
    rw [htree]
    exact CommentGroup.oneFile_ofTree sessionSource sessionRoot
  have hdoc : ∀ doc, sessionRegister.doc = some doc → doc ∈ [sessionDoc, sessionGroup] := by
    intro doc hdoc
    obtain rfl : sessionDoc = doc := Option.some.inj hdoc
    exact List.mem_cons_self
  have hqueries : ∀ query ∈ sessionQueries,
      ∀ group ∈ query.groups sessionRegister, group ∈ [sessionDoc, sessionGroup] := by
    decide
  exact ⟨hfile, (session_of_alone hfile hdoc hqueries).1, by decide +kernel⟩

end ImportGuard
