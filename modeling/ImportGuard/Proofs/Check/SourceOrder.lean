import ImportGuard.Proofs.Check.Unreadable
import ImportGuard.Proofs.Position
import ImportGuard.Proofs.Usage.Visibility

/-!
# Findings come in source order

Positions are compared by file name and offset, while they are equal only if all of them is, lines and
columns included.  Two positions with one name and offset but different lines are neither equal nor
before each other, so the comparisons fit together on a set of positions **exactly if name and offset
tell its members apart** (`totallyOrdered_iff`).

In one text they do, and more: a greater offset has a greater line, or the same line and a greater column
(`lexBefore_ofOffset`, by induction over the bytes).  The positions of a check are made from places in the
files that it reads, and these have different names, so the comparisons are those of a total order there
(`totallyOrdered_stemsFrom`), and sorting by offset is sorting by what is printed.
-/

namespace ImportGuard

/-! ### Places in a text -/

namespace Place

/-- The place is on an earlier line, or on the same line in an earlier column. -/
def LexBefore (a b : Place) : Prop :=
  a.line < b.line ∨ a.line = b.line ∧ a.column < b.column

theorem walk_nil (line column count : Nat) : walk line column count [] = (line, column + count) := by
  cases count with
  | zero => rfl
  | succ count => rfl

/-- Going on from a line and a column leads behind them. -/
theorem walk_succ_after (line column count : Nat) (bytes : List UInt8) :
    line < (walk line column (count + 1) bytes).1 ∨
      line = (walk line column (count + 1) bytes).1 ∧
        column < (walk line column (count + 1) bytes).2 := by
  rw [walk_fst, walk_snd]
  split
  · omega
  · omega

/-- A longer way leads further. -/
theorem walk_lex {i j : Nat} (h : i < j) (line column : Nat) (bytes : List UInt8) :
    (walk line column i bytes).1 < (walk line column j bytes).1 ∨
      (walk line column i bytes).1 = (walk line column j bytes).1 ∧
        (walk line column i bytes).2 < (walk line column j bytes).2 := by
  induction bytes generalizing line column i j with
  | nil =>
    rw [walk_nil, walk_nil]
    exact Or.inr ⟨rfl, Nat.add_lt_add_left h column⟩
  | cons b rest ih =>
    obtain ⟨j, rfl⟩ := Nat.exists_eq_succ_of_ne_zero (Nat.ne_zero_of_lt h)
    cases i with
    | zero => exact walk_succ_after line column j (b :: rest)
    | succ i =>
      have hij : i < j := Nat.lt_of_succ_lt_succ h
      -- both ways take the byte, and it brings both to the same line and column
      by_cases hb : b = lineFeed
      · simp only [walk, hb, if_true]
        exact ih hij (line + 1) 1
      · simp only [walk, hb, if_false]
        exact ih hij line (column + 1)

/-- **A greater offset is printed behind a smaller one.** -/
theorem lexBefore_ofOffset (source : List UInt8) {i j : Nat} (h : i < j) :
    (ofOffset source i).LexBefore (ofOffset source j) :=
  walk_lex h 1 1 source

/-- The column counts the bytes since the last line feed. -/
theorem column_ofOffset_eq {source : List UInt8} {i : Nat} (h : i ≤ source.length) :
    (ofOffset source i).column =
      ((source.take i).reverse.takeWhile (· != lineFeed)).length + 1 := by
  have hle := (List.takeWhile_prefix (l := (source.take i).reverse) (· != lineFeed)).length_le
  have hlength : (source.take i).length = i := List.length_take_of_le h
  rw [List.length_reverse, hlength] at hle
  rw [column_ofOffset]
  simp only [lineStart, hlength]
  omega

end Place

/-! ### Comparisons of positions -/

namespace Position

/-- On the positions that satisfy `S`, the comparisons are those of one total order. -/
structure TotallyOrdered (S : Position → Prop) : Prop where
  refl : ∀ p, S p → p.beforeOrSame p = true
  antisymm : ∀ p q, S p → S q → p.beforeOrSame q = true → q.beforeOrSame p = true → p = q
  trans : ∀ p q r, S p → S q → S r →
    p.beforeOrSame q = true → q.beforeOrSame r = true → p.beforeOrSame r = true
  total : ∀ p q, S p → S q → p.beforeOrSame q = true ∨ q.beforeOrSame p = true
  before_iff : ∀ p q, S p → S q → (p.before q = true ↔ p.beforeOrSame q = true ∧ p ≠ q)
  after_iff : ∀ p q, S p → S q → (p.after q = true ↔ q.before p = true)
  afterOrLevel_iff : ∀ p q, S p → S q → (p.afterOrLevel q = true ↔ q.beforeOrSame p = true)

theorem before_iff_lex {p q : Position} :
    p.before q = true ↔
      p.filename < q.filename ∨ p.filename = q.filename ∧ p.offset < q.offset := by
  simp [before]

theorem not_before_of_level {p q : Position} (hname : p.filename = q.filename)
    (hoffset : p.offset = q.offset) : p.before q = false := by
  rw [← Bool.not_eq_true, before_iff_lex, hname, hoffset]
  rintro (hlt | ⟨_, hlt⟩)
  · exact String.lt_irrefl _ hlt
  · omega

theorem before_irrefl (p : Position) : p.before p = false :=
  not_before_of_level rfl rfl

theorem before_trans {p q r : Position} (hpq : p.before q = true) (hqr : q.before r = true) :
    p.before r = true := by
  rw [before_iff_lex] at *
  rcases hpq with hpq | ⟨hpq, hoffset⟩
  · rcases hqr with hqr | ⟨hqr, _⟩
    · exact Or.inl (String.lt_trans hpq hqr)
    · exact Or.inl (hqr ▸ hpq)
  · rcases hqr with hqr | ⟨hqr, hoffset'⟩
    · exact Or.inl (hpq ▸ hqr)
    · exact Or.inr ⟨hpq.trans hqr, Int.lt_trans hoffset hoffset'⟩

/-- Of two positions one is before the other, or they are at one offset of one file. -/
theorem before_trichotomy (p q : Position) :
    p.before q = true ∨ q.before p = true ∨ p.filename = q.filename ∧ p.offset = q.offset := by
  rw [before_iff_lex, before_iff_lex]
  by_cases hlt : p.filename < q.filename
  · exact Or.inl (Or.inl hlt)
  · by_cases hgt : q.filename < p.filename
    · exact Or.inr (Or.inl (Or.inl hgt))
    · have heq : p.filename = q.filename := String.le_antisymm hgt hlt
      rcases Int.lt_trichotomy p.offset q.offset with hoff | hoff | hoff
      · exact Or.inl (Or.inr ⟨heq, hoff⟩)
      · exact Or.inr (Or.inr ⟨heq, hoff⟩)
      · exact Or.inr (Or.inl (Or.inr ⟨heq.symm, hoff⟩))

theorem beforeOrSame_iff {p q : Position} :
    p.beforeOrSame q = true ↔ p.before q = true ∨ p = q := by
  simp [beforeOrSame]

theorem not_before_of_before {p q : Position} (h : p.before q = true) : q.before p = false := by
  rw [← Bool.not_eq_true]
  intro hqp
  exact absurd (before_trans h hqp) (by simp [before_irrefl])

/-- The name of the file and the offset tell the positions that satisfy `S` apart. -/
def Determined (S : Position → Prop) : Prop :=
  ∀ p q, S p → S q → p.filename = q.filename → p.offset = q.offset → p = q

section Determined

variable {S : Position → Prop} {p q : Position}

theorem Determined.trichotomy (h : Determined S) (hp : S p) (hq : S q) :
    p.before q = true ∨ q.before p = true ∨ p = q := by
  rcases before_trichotomy p q with hpq | hqp | ⟨hname, hoffset⟩
  · exact Or.inl hpq
  · exact Or.inr (Or.inl hqp)
  · exact Or.inr (Or.inr (h p q hp hq hname hoffset))

theorem Determined.not_before_iff_beforeOrSame (h : Determined S) (hp : S p) (hq : S q) :
    p.before q = false ↔ q.beforeOrSame p = true := by
  rw [beforeOrSame_iff]
  constructor
  · intro hpq
    rcases h.trichotomy hp hq with hbefore | hafter | rfl
    · exact absurd hbefore (by simp [hpq])
    · exact Or.inl hafter
    · exact Or.inr rfl
  · rintro (hqp | rfl)
    · exact not_before_of_before hqp
    · exact before_irrefl q

theorem before_iff_ne : p.before q = true ↔ p.beforeOrSame q = true ∧ p ≠ q := by
  rw [beforeOrSame_iff]
  constructor
  · intro hpq
    refine ⟨Or.inl hpq, ?_⟩
    rintro rfl
    rw [before_irrefl] at hpq
    exact Bool.noConfusion hpq
  · rintro ⟨hpq | heq, hne⟩
    · exact hpq
    · exact absurd heq hne

theorem beforeOrSame_trans {r : Position} (hpq : p.beforeOrSame q = true)
    (hqr : q.beforeOrSame r = true) : p.beforeOrSame r = true := by
  rw [beforeOrSame_iff] at *
  rcases hpq with hpq | rfl
  · rcases hqr with hqr | rfl
    · exact Or.inl (before_trans hpq hqr)
    · exact Or.inl hpq
  · exact hqr

theorem Determined.totallyOrdered (h : Determined S) : TotallyOrdered S where
  refl p _ := beforeOrSame_iff.2 (Or.inr rfl)
  antisymm p q hp hq hpq hqp := by
    rcases beforeOrSame_iff.1 hpq with hpq | heq
    · rw [← h.not_before_iff_beforeOrSame hp hq, hpq] at hqp
      exact Bool.noConfusion hqp
    · exact heq
  trans p q r _ _ _ := beforeOrSame_trans
  total p q hp hq := by
    rw [beforeOrSame_iff, beforeOrSame_iff]
    rcases h.trichotomy hp hq with hpq | hqp | heq
    · exact Or.inl (Or.inl hpq)
    · exact Or.inr (Or.inl hqp)
    · exact Or.inl (Or.inr heq)
  before_iff p q _ _ := before_iff_ne
  after_iff p q hp hq := by
    rw [after, Bool.and_eq_true, Bool.not_eq_true', bne_iff_ne,
      h.not_before_iff_beforeOrSame hp hq, ne_comm, before_iff_ne]
  afterOrLevel_iff p q hp hq := by
    rw [afterOrLevel, Bool.not_eq_true', h.not_before_iff_beforeOrSame hp hq]

/-- **The comparisons are those of a total order exactly where the name of the file and the offset
tell positions apart.** -/
theorem totallyOrdered_iff : TotallyOrdered S ↔ Determined S := by
  refine ⟨fun h p q hp hq hname hoffset => ?_, Determined.totallyOrdered⟩
  rcases h.total p q hp hq with hpq | hqp
  · rw [beforeOrSame_iff, not_before_of_level hname hoffset] at hpq
    exact hpq.resolve_left (by simp)
  · rw [beforeOrSame_iff, not_before_of_level hname.symm hoffset.symm] at hqp
    exact (hqp.resolve_left (by simp)).symm

end Determined

/-- The position is printed before another, or as it is: by file name, then line, then column. -/
def PrintsBefore (p q : Position) : Prop :=
  p.filename < q.filename ∨ p.filename = q.filename ∧
    (p.line < q.line ∨ p.line = q.line ∧ p.column ≤ q.column)

/-- In one text, a position that is not before another is printed behind it. -/
theorem printsBefore_ofOffset (filename : String) (source : List UInt8) {i j : Nat} (h : i ≤ j) :
    (ofPlace filename (Place.ofOffset source i)).PrintsBefore
      (ofPlace filename (Place.ofOffset source j)) := by
  refine Or.inr ⟨rfl, ?_⟩
  simp only [ofPlace, Int.ofNat_lt, Int.ofNat_inj, Int.ofNat_le]
  rcases Nat.lt_or_eq_of_le h with hlt | rfl
  · exact (Place.lexBefore_ofOffset source hlt).imp_right (And.imp_right Nat.le_of_lt)
  · exact Or.inr ⟨rfl, Nat.le_refl _⟩

end Position

/-! ### Where findings are -/

theorem SourceFile.exists_offset_of_mem_importsOf {source : List UInt8} {root : Node}
    {spec : Import} (h : spec ∈ importsOf source root) :
    ∃ offset, spec.pathStart = Place.ofOffset source offset := by
  obtain ⟨site, _, hspec⟩ := List.mem_filterMap.1 h
  obtain ⟨path, _, rfl⟩ := Option.map_eq_some_iff.1 hspec
  exact ⟨path.start, rfl⟩

theorem Usage.exists_offset_of_mem_usesOf {source : List UInt8} {root : Node} {name : String}
    {use : Use} (h : use ∈ usesOf source root name) :
    ∃ offset, use.place = Place.ofOffset source offset := by
  obtain ⟨_, _, _, selected, _, _, rfl⟩ :=
    Walk.exists_reached_of_mention (mention_of_mem_usesOf h).1
  exact ⟨selected.start, rfl⟩

/-- **Every finding in a file that was read is at the place of an offset of it.** -/
theorem Analyzer.exists_offset_of_mem_findings {analyzer : Analyzer} {filename : String}
    {source : List UInt8} {root : Node} {broken : Bool} {f : Finding}
    (h : f ∈ (analyzer.checkFile (SourceFile.ofTree filename source root broken)).findings) :
    ∃ offset, f.position = Position.ofPlace filename (Place.ofOffset source offset) := by
  cases hfault : f.cause.isFault with
  | false =>
    obtain ⟨rule, _, spec, hspec, _, hdue⟩ := exists_due_of_mem_findings h hfault
    rcases cause_of_mem_due hdue with rfl | ⟨_, name, use, huse, hposition⟩
    · obtain ⟨offset, hoffset⟩ :=
        SourceFile.exists_offset_of_mem_importsOf (List.mem_of_mem_filter hspec)
      exact ⟨offset, congrArg (Position.ofPlace filename) hoffset⟩
    · obtain ⟨offset, hoffset⟩ := Usage.exists_offset_of_mem_usesOf (List.mem_of_mem_filter huse)
      exact ⟨offset, hposition.trans (congrArg (Position.ofPlace filename) hoffset)⟩
  | true => exact exists_offset_of_fault (mem_output_of_mem_findings h) hfault

namespace Workspace

variable {workspace : Workspace} {checker : Checker} {patterns : List String} {found : Packages}

/-- The position of an offset in one of the files that a check of packages reads. -/
def StemsFrom (workspace : Workspace) (parse : Parser) (found : Packages) (position : Position) :
    Prop :=
  ∃ path ∈ found.reading, ∃ file, workspace.sourceAt? parse path = some file ∧
    ∃ offset, position = file.positionOf (Place.ofOffset file.source offset)

theorem stemsFrom_of_mem_findingsAt {path : Path} (hpath : path ∈ found.reading) {f : Finding}
    (h : f ∈ workspace.findingsAt checker path) :
    workspace.StemsFrom checker.parse found f.position := by
  obtain ⟨file, hsource, hf⟩ := exists_file_of_mem_findingsAt h
  obtain ⟨content, _, rfl⟩ := exists_eq_read_of_sourceAt? hsource
  exact ⟨path, hpath, _, hsource, Analyzer.exists_offset_of_mem_findings hf⟩

/-- **Two positions of a check are in one file if they have its name.** -/
theorem exists_source_of_stemsFrom {parse : Parser} (hw : workspace.WellFormed)
    (hs : found.Sound workspace) {p q : Position} (hp : workspace.StemsFrom parse found p) (hq : workspace.StemsFrom parse found q)
    (hname : p.filename = q.filename) :
    ∃ source, ∃ i j, p = Position.ofPlace p.filename (Place.ofOffset source i) ∧
      q = Position.ofPlace p.filename (Place.ofOffset source j) := by
  obtain ⟨path, hpath, file, hfile, i, rfl⟩ := hp
  obtain ⟨path', hpath', file', hfile', j, rfl⟩ := hq
  have hsame : path = path' := by
    obtain ⟨content, _, rfl⟩ := exists_eq_read_of_sourceAt? hfile
    obtain ⟨content', _, rfl⟩ := exists_eq_read_of_sourceAt? hfile'
    exact List.inj_on_of_nodup_map (hs.nodup_map_render hw) hpath hpath' hname
  subst hsame
  obtain rfl : file = file' := Option.some.inj (hfile.symm.trans hfile')
  exact ⟨file.source, i, j, rfl, rfl⟩

/-- **The comparisons are those of a total order on the positions of a check.** -/
theorem totallyOrdered_stemsFrom (parse : Parser) (hw : workspace.WellFormed) (hs : found.Sound workspace) :
    Position.TotallyOrdered (workspace.StemsFrom parse found) := by
  rw [Position.totallyOrdered_iff]
  intro p q hp hq hname hoffset
  obtain ⟨source, i, j, hpi, hqj⟩ := exists_source_of_stemsFrom hw hs hp hq hname
  have hij : i = j := by
    rw [hpi, hqj] at hoffset
    exact Int.ofNat.inj hoffset
  rw [hpi, hqj, hij]

/-- Positions of a check that are in order are printed in order. -/
theorem printsBefore_of_stemsFrom {parse : Parser} (hw : workspace.WellFormed)
    (hs : found.Sound workspace) {p q : Position} (hp : workspace.StemsFrom parse found p) (hq : workspace.StemsFrom parse found q)
    (h : (!q.before p) = true) : p.PrintsBefore q := by
  rcases Position.not_before_iff.1 h with hlt | ⟨hname, hoffset⟩
  · exact Or.inl hlt
  · obtain ⟨source, i, j, hpi, hqj⟩ := exists_source_of_stemsFrom hw hs hp hq hname
    rw [hpi, hqj] at hoffset ⊢
    exact Position.printsBefore_ofOffset _ source (Int.ofNat_le.1 hoffset)

/-- The findings of a check of packages in the order in which they are reported. -/
def reported (workspace : Workspace) (checker : Checker) (found : Packages) : List Finding :=
  (found.foldl (fun report package => workspace.checkPackage checker report package.2) {}).findings

theorem reported_eq (workspace : Workspace) (checker : Checker) (found : Packages) :
    workspace.reported checker found =
      found.reading.flatMap (workspace.findingsAt checker) := by
  rw [reported, (foldl_checkPackage workspace checker found {}).1]
  rfl

/-- **Findings at one position keep their order.** -/
theorem filter_position_sort (findings : List Finding) (p : Position) :
    (Finding.sort findings).filter (·.position = p) = findings.filter (·.position = p) := by
  have hlevel : (findings.filter (·.position = p)).Pairwise fun a b =>
      Finding.notAfter a b = true := by
    refine List.pairwise_of_forall_mem_list fun a ha b hb => ?_
    have hap : a.position = p := by simpa using List.of_mem_filter ha
    have hbp : b.position = p := by simpa using List.of_mem_filter hb
    rw [Finding.notAfter, hap, hbp, Position.before_irrefl]
    rfl
  rw [Finding.filter_sort]
  exact List.mergeSort_of_pairwise hlevel

/-- **Printed order is source order.**  In every text, of two offsets the greater has the greater line,
or the same line and the greater column; the line counts the line feeds before the offset, and the column
the bytes since the last of them.  A check of the packages that a search finds succeeds.  On the positions
in the files that it reads, among which are those of its findings, the comparisons are those of one total
order.  The findings come by file name, then line, then column, they are those that were reported, and
those at one position come in the order in which they were reported. -/
theorem check_in_source_order (hw : workspace.WellFormed) (checker : Checker)
    (patterns : List String) {found : Packages}
    (hfound : workspace.packages checker.excluded patterns = .ok found) :
    (∀ (source : List UInt8) (i j : Nat), i < j → j ≤ source.length →
      (Place.ofOffset source i).LexBefore (Place.ofOffset source j)) ∧
    (∀ (source : List UInt8) (i : Nat), i ≤ source.length →
      (Place.ofOffset source i).line = (source.take i).count lineFeed + 1 ∧
      (Place.ofOffset source i).column =
        ((source.take i).reverse.takeWhile (· != lineFeed)).length + 1) ∧
    Position.TotallyOrdered (workspace.StemsFrom checker.parse found) ∧
    ∃ report, (workspace.check checker patterns).1 = .ok report ∧
      (∀ f ∈ report.findings, workspace.StemsFrom checker.parse found f.position) ∧
      report.findings.Pairwise (fun f g => f.position.PrintsBefore g.position) ∧
      report.findings.Perm (workspace.reported checker found) ∧
      ∀ p, report.findings.filter (·.position = p) =
        (workspace.reported checker found).filter (·.position = p) := by
  have hs := sound_packages hw hfound
  have hfindings : (workspace.checkPackages checker found).findings =
      Finding.sort (workspace.reported checker found) := by
    rw [findings_checkPackages, reported_eq]
  have hperm : (workspace.checkPackages checker found).findings.Perm
      (workspace.reported checker found) := by
    rw [hfindings]
    exact List.mergeSort_perm _ _
  have hstems : ∀ f ∈ (workspace.checkPackages checker found).findings,
      workspace.StemsFrom checker.parse found f.position := by
    intro f hf
    rw [hperm.mem_iff, reported_eq] at hf
    obtain ⟨path, hpath, hf⟩ := List.mem_flatMap.1 hf
    exact stemsFrom_of_mem_findingsAt hpath hf
  refine ⟨fun source i j hij _ => Place.lexBefore_ofOffset source hij,
    fun source i hi => ⟨Place.line_ofOffset source i, Place.column_ofOffset_eq hi⟩,
    totallyOrdered_stemsFrom checker.parse hw hs, workspace.checkPackages checker found, ?_, hstems, ?_, hperm,
    fun p => ?_⟩
  · exact check_fst_of_packages checker hfound
  · have hsorted : (workspace.checkPackages checker found).findings.Pairwise fun f g =>
        Finding.notAfter f g = true := by
      rw [hfindings]
      exact Finding.pairwise_sort _
    exact hsorted.imp_of_mem fun hf hg hfg =>
      printsBefore_of_stemsFrom hw hs (hstems _ hf) (hstems _ hg) hfg
  · rw [hfindings, filter_position_sort]

/-- A file with two blank imports. -/
def blankWorkspace : Workspace :=
  ({} : Workspace).addFile (Path.ofString "a/x.go")
    (.ok ("import _ \"os\"\nimport _ \"fmt\"\n".toList.map fun c => c.val.toUInt8))

def blankImport (start stop : Nat) : Node :=
  ⟨.importDeclaration, true, none, start, stop,
    [⟨.importSpec, true, none, start + 7, stop,
      [⟨.other "blank_identifier", true, some .name, start + 7, start + 8, []⟩,
        ⟨.other "interpreted_string_literal", true, some .path, start + 9, stop, []⟩]⟩]⟩

/-- A checker with a parser that knows one tree. -/
def blankChecker : Checker where
  parse _ := (⟨.sourceFile, true, none, 0, 29, [blankImport 0 13, blankImport 14 28]⟩, false)
  analyzer := .ofPolicy "fmt,os" false
  excluded := []

/-- The rule about the second import comes first, so its finding is reported first and printed
last. -/
theorem check_in_source_order_blank :
    blankWorkspace.WellFormed ∧
    blankWorkspace.packages blankChecker.excluded ["/a/x.go"] =
      .ok [(⟨.slash, ["a"]⟩, [⟨.slash, ["a", "x.go"]⟩])] ∧
    (blankWorkspace.reported blankChecker
        [(⟨.slash, ["a"]⟩, [⟨.slash, ["a", "x.go"]⟩])]).map
          (fun f => (f.position.line, f.position.column)) = [(2, 10), (1, 10)] ∧
    ∃ report, (blankWorkspace.check blankChecker ["/a/x.go"]).1 = .ok report ∧
      report.findings.length = 2 ∧
      report.findings.Pairwise (fun f g => f.position.PrintsBefore g.position) := by
  have hw : blankWorkspace.WellFormed := (wellFormed_empty []).addFile (by decide) _
  have hfound : blankWorkspace.packages blankChecker.excluded ["/a/x.go"] =
      .ok [(⟨.slash, ["a"]⟩, [⟨.slash, ["a", "x.go"]⟩])] := rfl
  have hreported : (blankWorkspace.reported blankChecker
      [(⟨.slash, ["a"]⟩, [⟨.slash, ["a", "x.go"]⟩])]).map
        (fun f => (f.position.line, f.position.column)) = [(2, 10), (1, 10)] := by
    decide +kernel
  obtain ⟨-, -, -, report, hreport, -, hsorted, hperm, -⟩ :=
    check_in_source_order hw blankChecker ["/a/x.go"] hfound
  have hlength := congrArg List.length hreported
  rw [List.length_map, ← hperm.length_eq] at hlength
  exact ⟨hw, hfound, hreported, report, hreport, hlength, hsorted⟩

end Workspace

end ImportGuard
