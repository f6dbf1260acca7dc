import ImportGuard.Proofs.Comment.Partition

/-!
# Which node a comment group belongs to

A group lies between two anchors: the one that ends last before it (`EndsLast`) and the one that
starts first behind it (`StartsFirst`), where of several the outermost counts.  Both are stated here
without the list of anchors being in any order.  In a well-nested tree the outer anchor comes first in
the list and the left before the right, so the two scans of the list find just these two
(`endsLast_lastBefore`, `startsFirst_firstBehind`).

The main statement puts the rule together: **every group is attached to one node, the root or an
anchor, and to the one that the rule names** (`ofFile_partition`).
-/

namespace ImportGuard.CommentMap

/-! ### The anchors around a group -/

/-- The site of a list whose key comes first, the outermost of those that share it, and none if the
list has no sites. -/
def Foremost (before : Nat → Nat → Prop) (key : Site → Nat) (sites : List Site) :
    Option Site → Prop
  | none => sites = []
  | some found => found ∈ sites ∧ ∀ site ∈ sites,
      before (key found) (key site) ∨ key found = key site ∧ found.address <+: site.address

/-- The anchor that ends last, of those that end at or before an offset. -/
def EndsLast (anchors : List Site) (offset : Nat) : Option Site → Prop :=
  Foremost (· > ·) (·.node.stop) (anchors.filter (·.node.stop ≤ offset))

/-- The anchor that starts first, of those that start at or behind an offset. -/
def StartsFirst (anchors : List Site) (offset : Nat) : Option Site → Prop :=
  Foremost (· < ·) (·.node.start) (anchors.filter (offset ≤ ·.node.start))

/-- There is no other foremost site. -/
theorem Foremost.iff_eq {before : Nat → Nat → Prop} {key : Site → Nat} {sites : List Site}
    (hasymm : ∀ {m n}, before m n → ¬ before n m)
    (haddress : ∀ a ∈ sites, ∀ b ∈ sites, a.address = b.address → a = b) {p q : Option Site}
    (hq : Foremost before key sites q) : Foremost before key sites p ↔ p = q := by
  refine ⟨fun hp => ?_, fun heq => heq ▸ hq⟩
  cases p with
  | none =>
    cases q with
    | none => rfl
    | some b =>
      have hempty : sites = [] := hp
      exact absurd hq.1 (hempty ▸ List.not_mem_nil)
  | some a =>
    cases q with
    | none =>
      have hempty : sites = [] := hq
      exact absurd hp.1 (hempty ▸ List.not_mem_nil)
    | some b =>
      -- each is ahead of the other or around it, and both can only be around
      rcases hp.2 b hq.1, hq.2 a hp.1 with ⟨hab | ⟨hab, habove⟩, hba | ⟨hba, hbelow⟩⟩
      · exact absurd hba (hasymm hab)
      · rw [hba] at hab
        exact absurd hab (hasymm hab)
      · rw [hab] at hba
        exact absurd hba (hasymm hba)
      · rw [haddress a hp.1 b hq.1 (habove.eq_of_length_le hbelow.length_le)]

section Scans

variable {anchors : List Site} {offset : Nat}

theorem endsLast_none : EndsLast anchors offset none ↔ ∀ a ∈ anchors, offset < a.node.stop := by
  simp [EndsLast, Foremost]

theorem endsLast_some {p : Site} :
    EndsLast anchors offset (some p) ↔
      (p ∈ anchors ∧ p.node.stop ≤ offset) ∧ ∀ a ∈ anchors, a.node.stop ≤ offset →
        a.node.stop < p.node.stop ∨ p.node.stop = a.node.stop ∧ p.address <+: a.address := by
  simp [EndsLast, Foremost]

theorem startsFirst_none :
    StartsFirst anchors offset none ↔ ∀ a ∈ anchors, a.node.start < offset := by
  simp [StartsFirst, Foremost]

theorem startsFirst_some {n : Site} :
    StartsFirst anchors offset (some n) ↔
      (n ∈ anchors ∧ offset ≤ n.node.start) ∧ ∀ a ∈ anchors, offset ≤ a.node.start →
        n.node.start < a.node.start ∨ n.node.start = a.node.start ∧ n.address <+: a.address := by
  simp [StartsFirst, Foremost]

/-- One more anchor that ends behind the offset changes nothing. -/
theorem EndsLast.concat_of_lt {best : Option Site} {last : Site}
    (h : EndsLast anchors offset best) (hlt : offset < last.node.stop) :
    EndsLast (anchors ++ [last]) offset best := by
  unfold EndsLast at *
  rwa [List.filter_append, List.filter_singleton, decide_eq_false (by omega), cond_false,
    List.append_nil]

/-- One more anchor that ends later than all before the offset takes the lead. -/
theorem endsLast_concat_self {last : Site} (hstop : last.node.stop ≤ offset)
    (hlater : ∀ a ∈ anchors, a.node.stop ≤ offset → a.node.stop < last.node.stop) :
    EndsLast (anchors ++ [last]) offset (some last) := by
  have hmem : last ∈ anchors ++ [last] := List.mem_append_right _ (List.mem_singleton_self last)
  refine endsLast_some.2 ⟨⟨hmem, hstop⟩, fun a ha hend => ?_⟩
  rcases List.mem_append.1 ha with ha | ha
  · exact Or.inl (hlater a ha hend)
  · rw [List.mem_singleton.1 ha]
    exact Or.inr ⟨rfl, List.prefix_rfl⟩

/-- One more anchor does not take the lead if it ends earlier, or together and inside. -/
theorem EndsLast.concat {found last : Site} (h : EndsLast anchors offset (some found))
    (hlast : last.node.stop < found.node.stop ∨
      found.node.stop = last.node.stop ∧ found.address <+: last.address) :
    EndsLast (anchors ++ [last]) offset (some found) := by
  obtain ⟨⟨hmem, hstop⟩, hbest⟩ := endsLast_some.1 h
  refine endsLast_some.2 ⟨⟨List.mem_append_left _ hmem, hstop⟩, fun a ha hend => ?_⟩
  rcases List.mem_append.1 ha with ha | ha
  · exact hbest a ha hend
  · rw [List.mem_singleton.1 ha]
    exact hlast

variable (hpair : anchors.Pairwise fun a b => a.Encloses b ∨ a.Precedes b)
  (hfull : ∀ a ∈ anchors, a.node.start < a.node.stop)

include hpair hfull

/-- **The scan for the anchor before an offset finds the one that ends last.** -/
theorem endsLast_lastBefore (offset : Nat) :
    EndsLast anchors offset (lastBefore offset anchors) := by
  induction anchors using List.reverseRecOn with
  | nil => exact endsLast_none.2 fun _ h => absurd h List.not_mem_nil
  | append_singleton anchors last ih =>
    obtain ⟨hearlier, -, hlast⟩ := List.pairwise_append.1 hpair
    rw [List.forall_mem_append, List.forall_mem_singleton] at hfull
    have hbest := ih hearlier hfull.1
    rw [lastBefore_concat]
    by_cases hstop : last.node.stop ≤ offset
    · rw [if_pos hstop]
      cases hfound : lastBefore offset anchors with
      | none =>
        rw [hfound, endsLast_none] at hbest
        refine endsLast_concat_self hstop fun a ha hend => ?_
        have hbehind := hbest a ha
        omega
      | some found =>
        rw [hfound] at hbest
        obtain ⟨⟨hmem, -⟩, hmost⟩ := endsLast_some.1 hbest
        show EndsLast _ offset (if found.node.stop < last.node.stop then some last else some found)
        by_cases hlater : found.node.stop < last.node.stop
        · rw [if_pos hlater]
          refine endsLast_concat_self hstop fun a ha hend => ?_
          have hle := hmost a ha hend
          omega
        · rw [if_neg hlater]
          apply hbest.concat
          -- two that end together are nested, and the outer one comes first
          rcases hlast found hmem last (List.mem_singleton_self last) with hencl | hprec
          · rcases Nat.lt_or_eq_of_le hencl.stop_le with hlt | heq
            · exact Or.inl hlt
            · exact Or.inr ⟨heq.symm, hencl.above⟩
          · have hleft := hprec.stop_le
            omega
    · rw [if_neg hstop]
      exact hbest.concat_of_lt (by omega)

/-- **The scan for the anchor behind a group finds the one that starts first.** -/
theorem startsFirst_firstBehind {group : CommentGroup}
    (hgroup : group.start.offset < group.stop.offset) :
    StartsFirst anchors group.stop.offset (firstBehind group anchors) := by
  have hbehind : ∀ a ∈ anchors, group.stop.offset ≤ a.node.start →
      (decide (group.start.offset < a.node.stop) &&
        decide (group.stop.offset ≤ a.node.start)) = true := by
    intro a ha hstart
    have hnonempty := hfull a ha
    rw [Bool.and_eq_true, decide_eq_true_eq, decide_eq_true_eq]
    omega
  cases hfound : firstBehind group anchors with
  | none =>
    refine startsFirst_none.2 fun a ha => ?_
    have hnot := List.find?_eq_none.1 hfound a ha
    by_contra hstart
    exact hnot (hbehind a ha (by omega))
  | some site =>
    obtain ⟨hsite, before, behind, rfl, hnone⟩ := List.find?_eq_some_iff_append.1 hfound
    rw [Bool.and_eq_true, decide_eq_true_eq, decide_eq_true_eq] at hsite
    have hmem : site ∈ before ++ site :: behind :=
      List.mem_append_right _ List.mem_cons_self
    refine startsFirst_some.2 ⟨⟨hmem, hsite.2⟩, fun a ha hstart => ?_⟩
    obtain ⟨-, hlater, -⟩ := List.pairwise_append.1 hpair
    have hhit := hbehind a ha hstart
    rcases List.mem_append.1 ha with ha | ha
    · have hmiss := hnone a ha
      rw [hhit] at hmiss
      exact absurd hmiss (by decide)
    · rcases List.mem_cons.1 ha with rfl | ha
      · exact Or.inr ⟨rfl, List.prefix_rfl⟩
      · rcases (List.pairwise_cons.1 hlater).1 a ha with hencl | hprec
        · rcases Nat.lt_or_eq_of_le hencl.start_le with hlt | heq
          · exact Or.inl hlt
          · exact Or.inr ⟨heq, hencl.above⟩
        · have hle := hprec.stop_le
          have hnonempty := hfull site hmem
          omega

end Scans

/-! ### The rule -/

/-- The group belongs to the anchor before it: that ends on the group's first line, or nothing is
behind the group, or it ends on the line above and an empty line separates the group from what is
behind. -/
def Stays (source : List UInt8) (group : CommentGroup) (previous : Site) (next : Option Site) :
    Prop :=
  (Place.ofOffset source previous.node.stop).line = group.start.line ∨ next = none ∨
    (Place.ofOffset source previous.node.stop).line + 1 = group.start.line ∧
      ∀ site ∈ next, group.stop.line + 2 ≤ (Place.ofOffset source site.node.start).line

theorem staysAbove_iff {source : List UInt8} {group : CommentGroup} {previous : Site}
    {next : Option Site} :
    staysAbove group (Place.ofOffset source previous.node.stop).line
        (next.map fun site => (Place.ofOffset source site.node.start).line) = true ↔
      Stays source group previous next := by
  unfold staysAbove Stays
  cases next with
  | none => simp
  | some site => simp [Nat.succ_le_iff]

theorem homeOf_eq_root {file : SourceFile} {anchors : List Site} {group : CommentGroup}
    {clause : Node} (hclause : SourceFile.packageClause? file.root = some clause)
    (hstop : group.stop.offset ≤ clause.start) :
    homeOf file anchors group = ⟨[], file.root⟩ := by
  simp only [homeOf, hclause, hstop, if_true]

theorem homeOf_eq_anchorOf {file : SourceFile} {anchors : List Site} {group : CommentGroup}
    (h : ∀ clause, SourceFile.packageClause? file.root = some clause →
      clause.start < group.stop.offset) :
    homeOf file anchors group = (anchorOf file.source anchors group).getD ⟨[], file.root⟩ := by
  unfold homeOf
  split
  · rfl
  · rename_i clause hclause
    have hbehind := h clause hclause
    rw [if_neg (by omega)]

theorem anchorOf_of_stays {source : List UInt8} {anchors : List Site} {group : CommentGroup}
    {previous : Site} (hprevious : lastBefore group.start.offset anchors = some previous)
    (hstays : Stays source group previous (firstBehind group anchors)) :
    anchorOf source anchors group = some previous := by
  simp only [anchorOf, hprevious, staysAbove_iff.2 hstays, if_true]

theorem anchorOf_of_not_stays {source : List UInt8} {anchors : List Site} {group : CommentGroup}
    (h : ∀ previous, lastBefore group.start.offset anchors = some previous →
      ¬ Stays source group previous (firstBehind group anchors)) :
    anchorOf source anchors group = firstBehind group anchors := by
  unfold anchorOf
  cases hprevious : lastBefore group.start.offset anchors with
  | none => rfl
  | some previous =>
    have hleaves := h previous hprevious
    rw [← staysAbove_iff] at hleaves
    exact if_neg hleaves

section Nested

variable {root : Node} (hnested : root.WellNested)
  (hfull : ∀ site ∈ root.sites, site.node.start < site.node.stop)

theorem eq_of_mem_anchorsOf {p : Site → Bool} {a b : Site} (ha : a ∈ (anchorsOf root).filter p)
    (hb : b ∈ (anchorsOf root).filter p) (h : a.address = b.address) : a = b :=
  Node.eq_of_address_eq ((anchorsOf_sublist root).subset (List.mem_of_mem_filter ha))
    ((anchorsOf_sublist root).subset (List.mem_of_mem_filter hb)) h

include hnested hfull

theorem endsLast_iff {offset : Nat} {found : Option Site} :
    EndsLast (anchorsOf root) offset found ↔ found = lastBefore offset (anchorsOf root) := by
  have hscan := endsLast_lastBefore (hnested.pairwise_sites.sublist (anchorsOf_sublist root))
    (fun a ha => hfull a ((anchorsOf_sublist root).subset ha)) offset
  exact hscan.iff_eq Nat.lt_asymm fun a ha b hb => eq_of_mem_anchorsOf ha hb

theorem startsFirst_iff {group : CommentGroup} (hgroup : group.start.offset < group.stop.offset)
    {found : Option Site} :
    StartsFirst (anchorsOf root) group.stop.offset found ↔
      found = firstBehind group (anchorsOf root) := by
  have hscan := startsFirst_firstBehind (hnested.pairwise_sites.sublist (anchorsOf_sublist root))
    (fun a ha => hfull a ((anchorsOf_sublist root).subset ha)) hgroup
  exact hscan.iff_eq Nat.lt_asymm fun a ha b hb => eq_of_mem_anchorsOf ha hb

end Nested

/-- **A comment map is a partition by the rule of association.**  In the map of a file that was read
each group is attached to one node, which is the root or an anchor; no group is lost or there twice,
and the groups of a node are in source order.  A group that ends at or before the package clause is
attached to the root.  For any other group of a well-nested tree without empty nodes there are one
anchor before it and one behind it, if any: it is attached to the former if it stays there, otherwise
to the latter, and to the root if there is none. -/
theorem ofFile_partition (filename : String) (source : List UInt8) (root : Node) (broken : Bool) :
    let file := SourceFile.ofTree filename source root broken
    let map := ofFile file
    (file.comments.Nodup ∧ (map.entries.flatMap (·.groups)).Perm file.comments ∧
        ∀ group ∈ file.comments, ∃! site, map.Attaches group site) ∧
      (∀ entry ∈ map.entries, (entry.site = ⟨[], root⟩ ∨ entry.site ∈ anchorsOf root) ∧
        entry.groups.Pairwise fun a b => a.start.offset ≤ b.start.offset) ∧
      (∀ group ∈ file.comments, ∀ clause, SourceFile.packageClause? root = some clause →
        group.stop.offset ≤ clause.start → map.Attaches group ⟨[], root⟩) ∧
      (root.WellNested → (∀ site ∈ root.sites, site.node.start < site.node.stop) →
        ∀ group ∈ file.comments,
          (∀ clause, SourceFile.packageClause? root = some clause →
            clause.start < group.stop.offset) →
          ∃ previous next,
            (∀ p, EndsLast (anchorsOf root) group.start.offset p ↔ p = previous) ∧
            (∀ n, StartsFirst (anchorsOf root) group.stop.offset n ↔ n = next) ∧
            (∀ p, previous = some p → Stays source group p next → map.Attaches group p) ∧
            ((∀ p, previous = some p → ¬ Stays source group p next) →
              map.Attaches group (next.getD ⟨[], root⟩))) := by
  intro file map
  have hnodup : file.comments.Nodup := CommentGroup.nodup_ofTree source root
  refine ⟨⟨hnodup, perm_comments hnodup, ?_⟩, ?_, ?_, ?_⟩
  · intro group hgroup
    refine ⟨_, attaches_iff.2 ⟨hgroup, rfl⟩, fun site hsite => ?_⟩
    exact (attaches_iff.1 hsite).2.symm
  · intro entry hentry
    exact ⟨site_eq_root_or_mem hentry,
      (CommentGroup.pairwise_ofTree source root).sublist (groups_sublist hentry)⟩
  · intro group hgroup clause hclause hstop
    exact attaches_iff.2 ⟨hgroup, homeOf_eq_root hclause hstop⟩
  · intro hnested hfull group hgroup hbehind
    have hrange : group.start.offset < group.stop.offset :=
      CommentGroup.start_lt_stop hfull hgroup
    have hhome : homeOf file (anchorsOf root) group =
        (anchorOf source (anchorsOf root) group).getD ⟨[], root⟩ := homeOf_eq_anchorOf hbehind
    refine ⟨lastBefore group.start.offset (anchorsOf root), firstBehind group (anchorsOf root),
      fun p => endsLast_iff hnested hfull, fun n => startsFirst_iff hnested hfull hrange, ?_, ?_⟩
    · intro p hp hstays
      refine attaches_iff.2 ⟨hgroup, hhome.trans ?_⟩
      rw [anchorOf_of_stays hp hstays]
      rfl
    · intro hleaves
      refine attaches_iff.2 ⟨hgroup, hhome.trans ?_⟩
      rw [anchorOf_of_not_stays hleaves]

/-- Two declarations, and comments on and below the line of the first and above the second. -/
def gapSource : List UInt8 :=
  "//a\npackage p\nvar x //b\n//c\n\n//d\nvar y".toList.map fun c => c.val.toUInt8

def gapDeclaration (start : Nat) : Node :=
  ⟨.varDeclaration, true, none, start, start + 5,
    [⟨.varSpec, true, none, start + 4, start + 5, []⟩]⟩

def gapRoot : Node :=
  ⟨.sourceFile, true, none, 0, 38,
    [⟨.comment, true, none, 0, 3, []⟩,
      ⟨.packageClause, true, none, 4, 13, [⟨.packageIdentifier, true, none, 12, 13, []⟩]⟩,
      gapDeclaration 14, ⟨.comment, true, none, 20, 23, []⟩, ⟨.comment, true, none, 24, 27, []⟩,
      ⟨.comment, true, none, 29, 32, []⟩, gapDeclaration 33]⟩

def gapGroup (number : Nat) (text : String) (start line column : Nat) : CommentGroup :=
  ⟨number, ⟨text, ⟨start, line, column⟩, ⟨start + 3, line, column + 3⟩⟩, []⟩

def gapFile : SourceFile :=
  SourceFile.ofTree "a.go" gapSource gapRoot false

/-- The comment below the first declaration belongs to that, the declaration and not the specification
that ends with it; the one above the second declaration belongs to the second. -/
theorem ofFile_partition_gap :
    gapRoot.WellNested ∧ (∀ site ∈ gapRoot.sites, site.node.start < site.node.stop) ∧
      (ofFile gapFile).Attaches (gapGroup 0 "//a" 0 1 1) ⟨[], gapRoot⟩ ∧
      (ofFile gapFile).Attaches (gapGroup 2 "//c" 24 4 1) ⟨[2], gapDeclaration 14⟩ ∧
      (ofFile gapFile).Attaches (gapGroup 3 "//d" 29 6 1) ⟨[6], gapDeclaration 33⟩ := by
  have hnested : gapRoot.WellNested := by decide
  have hfull : ∀ site ∈ gapRoot.sites, site.node.start < site.node.stop := by decide
  have hcomments : gapFile.comments = [gapGroup 0 "//a" 0 1 1, gapGroup 1 "//b" 20 3 7,
      gapGroup 2 "//c" 24 4 1, gapGroup 3 "//d" 29 6 1] :=
    (CommentGroup.ofTree_eq_gather gapSource (by decide)).trans (by decide +kernel)
  have hend : (Place.ofOffset gapSource (gapDeclaration 14).stop).line = 3 := by decide
  have hbegin : (Place.ofOffset gapSource (gapDeclaration 33).start).line = 7 := by decide
  have hfirst : ⟨[2], gapDeclaration 14⟩ ∈ anchorsOf gapRoot := List.mem_of_getElem? (i := 0) rfl
  have hsecond : ⟨[6], gapDeclaration 33⟩ ∈ anchorsOf gapRoot := List.mem_of_getElem? (i := 2) rfl
  obtain ⟨-, -, htop, hrule⟩ := ofFile_partition "a.go" gapSource gapRoot false
  refine ⟨hnested, hfull, htop _ (by rw [← gapFile, hcomments]; simp) _ rfl (by decide), ?_, ?_⟩
  · obtain ⟨previous, next, hprevious, hnext, hstays, -⟩ := hrule hnested hfull
      (gapGroup 2 "//c" 24 4 1) (by rw [← gapFile, hcomments]; simp)
      (fun clause h => Option.some.inj h ▸ by decide)
    obtain rfl := (hprevious _).1 (endsLast_some.2 ⟨⟨hfirst, by decide⟩, by decide⟩)
    obtain rfl := (hnext _).1 (startsFirst_some.2 ⟨⟨hsecond, by decide⟩, by decide⟩)
    refine hstays _ rfl (Or.inr (Or.inr ⟨congrArg (· + 1) hend, fun site hsite => ?_⟩))
    obtain rfl := Option.some.inj hsite
    exact hbegin ▸ by decide
  · obtain ⟨previous, next, hprevious, hnext, -, hleaves⟩ := hrule hnested hfull
      (gapGroup 3 "//d" 29 6 1) (by rw [← gapFile, hcomments]; simp)
      (fun clause h => Option.some.inj h ▸ by decide)
    obtain rfl := (hprevious _).1 (endsLast_some.2 ⟨⟨hfirst, by decide⟩, by decide⟩)
    obtain rfl := (hnext _).1 (startsFirst_some.2 ⟨⟨hsecond, by decide⟩, by decide⟩)
    refine hleaves fun p hp => ?_
    obtain rfl := Option.some.inj hp
    rintro (hline | hnone | ⟨hline, -⟩)
    · exact absurd (hend.symm.trans hline) (by decide)
    · exact absurd hnone (by simp)
    · rw [hend] at hline
      exact absurd hline (by decide)

end ImportGuard.CommentMap
