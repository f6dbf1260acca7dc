import ImportGuard.Proofs.Policy.Composition
import ImportGuard.Proofs.Text.Pieces

/-!
# Writing and reading policies

A rule is **well formed** if its parts have the shapes that the reader can take.  The reader gives
well-formed rules only (`wellFormed_of_takeRule`), and takes back what a well-formed rule is written
as (`takeRule_format`).  No brace is left open by it, so rules with commas between them are read one
by one (`rulesOf_intercalate`), and the well-formed lists of rules are exactly those that survive
being written and read (`parsePolicy_formatPolicy_iff`).
-/

namespace ImportGuard

namespace Policy

/-! ### Names -/

def isNameChar (c : Char) : Bool :=
  isWord c || c = '-'

theorem isListChar_iff {c : Char} : isListChar c = true ↔ isNameChar c = true ∨ c = ',' := by
  simp [isListChar, isNameChar]
  tauto

theorem toList_intercalate_names (listing : Listing) :
    (",".intercalate listing.names).toList = listing.inside := by
  have hid : String.toList ∘ String.ofList = id := funext fun _ => String.toList_ofList
  rw [String.toList_intercalate, Listing.names, List.map_map, hid, List.map_id, Pieces.splitOn_eq]
  exact List.intercalate_splitOn ','

/-- The characters of a name are those between the braces, less the commas. -/
theorem isNameChar_of_mem_names {listing : Listing} (h : IsInside listing.inside) {name : String}
    (hname : name ∈ listing.names) : ∀ c ∈ name.toList, isNameChar c = true := by
  intro c hc
  obtain ⟨part, hpart, rfl⟩ := List.mem_map.1 hname
  rw [String.toList_ofList] at hc
  obtain ⟨hmem, hcomma⟩ := Pieces.mem_of_mem_splitOn hpart hc
  exact (isListChar_iff.1 (h.2 c hmem)).resolve_right hcomma

/-- Reading gives back the names that were written. -/
theorem names_intercalate {declarations : List String} (hne : declarations ≠ [])
    (h : ∀ name ∈ declarations, ∀ c ∈ name.toList, isNameChar c = true) (dotted : Bool) :
    Listing.names ⟨dotted, (",".intercalate declarations).toList⟩ = declarations := by
  rw [Listing.names, String.toList_intercalate]
  refine Pieces.map_splitOn_intercalate hne fun name hname hcomma => ?_
  exact absurd (h name hname ',' hcomma) (by decide)

/-! ### Well-formed rules -/

/-- The shape of a suggestion: an import path, possibly with a list of declarations behind it. -/
inductive IsSuggestion : List Char → Prop
  | plain {path : List Char} : IsPath path → IsSuggestion path
  | listed {path : List Char} (listing : Listing) :
      IsPath path → IsInside listing.inside → IsSuggestion (path ++ listing.text)

/-- A rule whose parts have the shapes that a policy text can give them. -/
structure WellFormed (rule : Rule) : Prop where
  importPath : IsPath rule.importPath.toList
  declarations : rule.declarations = [] ∨
    (∀ name ∈ rule.declarations, ∀ c ∈ name.toList, isNameChar c = true) ∧
      ",".intercalate rule.declarations ≠ ""
  suggestion : rule.suggestion = "" ∨ IsSuggestion rule.suggestion.toList

theorem isSuggestion_iff {text : List Char} :
    IsSuggestion text ↔ ∃ path, ∃ listing : Option Listing, IsPath path ∧
      (∀ l ∈ listing, IsInside l.inside) ∧ text = path ++ (listing.map Listing.text).getD [] := by
  constructor
  · intro h
    cases h with
    | plain hpath => exact ⟨text, none, hpath, by simp, by simp⟩
    | listed listing hpath hinside => exact ⟨_, some listing, hpath, by simpa using hinside, rfl⟩
  · rintro ⟨path, listing, hpath, hlisting, rfl⟩
    cases listing with
    | none => simpa using IsSuggestion.plain hpath
    | some listing => exact IsSuggestion.listed listing hpath (hlisting listing rfl)

theorem isSuggestion_takeSuggestion (text : List Char) :
    (takeSuggestion text).1 = [] ∨ IsSuggestion (takeSuggestion text).1 := by
  unfold takeSuggestion
  split
  · rename_i text
    cases htarget : takeTarget text with
    | none => exact Or.inl rfl
    | some taken =>
      obtain ⟨⟨path, listing⟩, rest⟩ := taken
      obtain ⟨_, hpath, hlisting⟩ := shape_of_takeTarget htarget
      exact Or.inr (isSuggestion_iff.2 ⟨path, listing, hpath, hlisting, rfl⟩)
  · exact Or.inl rfl

/-- **A rule that is read is well formed.** -/
theorem wellFormed_of_takeRule {text rest : List Char} {rule : Rule}
    (h : takeRule text = some (rule, rest)) : WellFormed rule := by
  cases htarget : takeTarget text with
  | none => simp [takeRule, htarget] at h
  | some taken =>
    obtain ⟨⟨path, listing⟩, more⟩ := taken
    obtain ⟨_, hpath, hlisting⟩ := shape_of_takeTarget htarget
    rw [takeRule_of_takeTarget htarget] at h
    cases h
    refine ⟨by simpa using hpath, ?_, ?_⟩
    · cases listing with
      | none => exact Or.inl rfl
      | some listing =>
        have hinside := hlisting listing rfl
        refine Or.inr ⟨fun name hname => isNameChar_of_mem_names hinside hname, fun hempty => ?_⟩
        have hnil := congrArg String.toList hempty
        exact hinside.1 ((toList_intercalate_names listing).symm.trans hnil)
    · rcases isSuggestion_takeSuggestion more with hnone | hsome
      · exact Or.inl (by simp [hnone])
      · exact Or.inr (by simpa using hsome)

/-! ### Reading a rule that was written -/

/-- A path with a list behind it is taken whole before a text that continues neither. -/
theorem takeTarget_append {path : List Char} {listing : Option Listing} (hpath : IsPath path)
    (hlisting : ∀ l ∈ listing, IsInside l.inside) (rest : List Char)
    (hrest : ∀ c ∈ rest.head?, isPathChar c = false ∧ c ≠ '{') :
    takeTarget (path ++ (listing.map Listing.text).getD [] ++ rest) =
      some ((path, listing), rest) := by
  rw [List.append_assoc]
  cases listing with
  | none =>
    have hstop : EndsPath rest ∧ takeListing rest = none := by
      cases rest with
      | nil => exact ⟨by simp [EndsPath], rfl⟩
      | cons c rest =>
        obtain ⟨hc, hopen⟩ := hrest c rfl
        refine ⟨endsPath_cons hc rest, ?_⟩
        have hdot : c ≠ '.' := by
          rintro rfl
          exact absurd hc (by decide)
        simp [takeListing, hopen, hdot]
    rw [Option.map_none, Option.getD_none, List.nil_append,
      takeTarget_of_takePath (takePath_append hpath hstop.1), hstop.2]
    rfl
  | some listing =>
    rw [Option.map_some, Option.getD_some,
      takeTarget_of_takePath (takePath_append hpath (endsPath_text listing rest)),
      takeListing_eq_some_iff.2 ⟨rfl, hlisting listing rfl⟩]
    rfl

theorem takeSuggestion_of_isSuggestion {text : List Char} (h : IsSuggestion text) :
    takeSuggestion ('=' :: text) = (text, []) := by
  obtain ⟨path, listing, hpath, hlisting, rfl⟩ := isSuggestion_iff.1 h
  have htaken := takeTarget_append hpath hlisting [] (by simp)
  rw [List.append_nil] at htaken
  simp only [takeSuggestion, htaken]

def listingOf (declarations : List String) : Option Listing :=
  if declarations.isEmpty then none else some ⟨true, (",".intercalate declarations).toList⟩

theorem toList_format (rule : Rule) :
    rule.format.toList =
      rule.importPath.toList ++ ((listingOf rule.declarations).map Listing.text).getD [] ++
        (if rule.suggestion = "" then [] else '=' :: rule.suggestion.toList) := by
  unfold Rule.format Rule.formatDeclarations listingOf
  rw [String.toList_append, String.toList_append]
  congr 1
  · congr 1
    split
    · rfl
    · simp [Listing.text, String.toList_append]
  · split
    · rfl
    · rw [String.toList_append]
      rfl

theorem isInside_listingOf {rule : Rule} (h : WellFormed rule) :
    ∀ l ∈ listingOf rule.declarations, IsInside l.inside := by
  rintro l hl
  unfold listingOf at hl
  split at hl
  · exact absurd hl (by simp)
  · rename_i hne
    obtain rfl := Option.some.inj hl
    obtain ⟨hnames, hjoin⟩ := h.declarations.resolve_left (by simpa using hne)
    refine ⟨fun hnil => hjoin (String.toList_inj.1 hnil), ?_⟩
    intro c hc
    rw [String.toList_intercalate] at hc
    refine Pieces.forall_mem_intercalate (P := fun c => isListChar c = true) (by simp [isListChar]) ?_ c hc
    intro part hpart d hd
    obtain ⟨name, hname, rfl⟩ := List.mem_map.1 hpart
    exact isListChar_iff.2 (Or.inl (hnames name hname d hd))

theorem names_listingOf {rule : Rule} (h : WellFormed rule) :
    ((listingOf rule.declarations).map Listing.names).getD [] = rule.declarations := by
  unfold listingOf
  split
  · rename_i hnil
    exact (List.isEmpty_iff.1 hnil).symm
  · rename_i hne
    have hne : rule.declarations ≠ [] := by simpa using hne
    exact names_intercalate hne (h.declarations.resolve_left hne).1 true

/-- **A well-formed rule is read back from what it is written as.** -/
theorem takeRule_format {rule : Rule} (h : WellFormed rule) :
    takeRule rule.format.toList = some (rule, []) := by
  have hrest : ∀ c ∈ (if rule.suggestion = "" then [] else '=' :: rule.suggestion.toList).head?,
      isPathChar c = false ∧ c ≠ '{' := by
    split
    · simp
    · simp only [List.head?_cons, Option.mem_def, Option.some.injEq]
      rintro c rfl
      decide
  have htaken : takeSuggestion (if rule.suggestion = "" then []
      else '=' :: rule.suggestion.toList) = (rule.suggestion.toList, []) := by
    split
    · rename_i hnone
      rw [hnone]
      rfl
    · rename_i hsome
      exact takeSuggestion_of_isSuggestion (h.suggestion.resolve_left hsome)
  rw [toList_format, takeRule_of_takeTarget
    (takeTarget_append h.importPath (isInside_listingOf h) _ hrest), htaken, names_listingOf h,
    String.ofList_toList, String.ofList_toList]

/-! ### What a written rule leaves behind -/

theorem closed_append {first second : List Char} (h : Closed first) (h' : Closed second) :
    Closed (first ++ second) := by
  unfold Closed at *
  rw [List.filter_append, List.getLast?_append]
  cases hlast : (second.filter isBrace).getLast? with
  | none => exact h
  | some c =>
    rw [hlast] at h'
    exact h'

theorem closed_of_isPathChar {text : List Char} (h : ∀ c ∈ text, isPathChar c = true) :
    Closed text := by
  have hnone : text.filter isBrace = [] := by
    rw [List.filter_eq_nil_iff]
    intro c hc hbrace
    have hpath := h c hc
    rcases Bool.or_eq_true _ _ ▸ hbrace with hopen | hclose
    · rw [of_decide_eq_true hopen] at hpath
      exact absurd hpath (by decide)
    · rw [of_decide_eq_true hclose] at hpath
      exact absurd hpath (by decide)
  simp [Closed, hnone]

theorem closed_text (listing : Listing) : Closed listing.text := by
  intro hlast
  rw [Listing.text, List.filter_append, List.getLast?_append] at hlast
  exact absurd hlast (by simp [isBrace])

theorem closed_getD_text (listing : Option Listing) :
    Closed ((listing.map Listing.text).getD []) := by
  cases listing with
  | none => decide
  | some listing => exact closed_text listing

theorem closed_format {rule : Rule} (h : WellFormed rule) : Closed rule.format.toList := by
  rw [toList_format]
  refine closed_append (closed_append (closed_of_isPathChar h.importPath.pathChars)
    (closed_getD_text _)) ?_
  split
  · decide
  · rename_i hsome
    obtain ⟨path, listing, hpath, -, htext⟩ :=
      isSuggestion_iff.1 (h.suggestion.resolve_left hsome)
    rw [htext, ← List.singleton_append]
    exact closed_append (by decide)
      (closed_append (closed_of_isPathChar hpath.pathChars) (closed_getD_text listing))

/-! ### White space -/

theorem range_of_isWord {c : Char} (h : isWord c = true) : 0x30 ≤ c.toNat ∧ c.toNat ≤ 0x7A := by
  have hcases : (decide (c.val ≥ 'A'.val ∧ c.val ≤ 'Z'.val) ||
      decide (c.val ≥ 'a'.val) && decide (c.val ≤ 'z'.val) ||
      decide (c.val ≥ '0'.val) && decide (c.val ≤ '9'.val) || decide (c = '_')) = true := h
  simp only [Bool.or_eq_true, Bool.and_eq_true, decide_eq_true_eq, ge_iff_le,
    UInt32.le_iff_toNat_le] at hcases
  rcases hcases with hrange | rfl
  · simp only [Char.reduceVal, UInt32.reduceToNat, Char.toNat_val] at hrange
    omega
  · decide

theorem isBlank_of_isWord {c : Char} (h : isWord c = true) : isBlank c = false := by
  have hrange := range_of_isWord h
  simp only [isBlank, blankRanges, List.any_cons, List.any_nil, Bool.or_false, Bool.or_eq_false_iff,
    Bool.and_eq_false_iff, decide_eq_false_iff_not]
  omega

theorem isBlank_of_isPathChar {c : Char} (h : isPathChar c = true) : isBlank c = false := by
  simp only [isPathChar, Bool.or_eq_true, decide_eq_true_eq] at h
  rcases h with ((hword | rfl) | rfl) | rfl
  · exact isBlank_of_isWord hword
  · decide
  · decide
  · decide

theorem isBlank_of_isListChar {c : Char} (h : isListChar c = true) : isBlank c = false := by
  simp only [isListChar, Bool.or_eq_true, decide_eq_true_eq] at h
  rcases h with (hword | rfl) | rfl
  · exact isBlank_of_isWord hword
  · decide
  · decide

theorem isBlank_of_mem_target {path : List Char} {listing : Option Listing} (hpath : IsPath path)
    (hlisting : ∀ l ∈ listing, IsInside l.inside) :
    ∀ c ∈ path ++ (listing.map Listing.text).getD [], isBlank c = false := by
  intro c hc
  rcases List.mem_append.1 hc with hc | hc
  · exact isBlank_of_isPathChar (hpath.pathChars c hc)
  · cases listing with
    | none => exact absurd hc (by simp)
    | some listing =>
      obtain ⟨dotted, inside⟩ := listing
      have hcases : c = '.' ∨ c = '{' ∨ c ∈ inside ∨ c = '}' := by
        cases dotted with
        | true => simpa [Listing.text] using hc
        | false => exact Or.inr (by simpa [Listing.text] using hc)
      rcases hcases with rfl | rfl | hmem | rfl
      · decide
      · decide
      · exact isBlank_of_isListChar ((hlisting _ rfl).2 c hmem)
      · decide

theorem isBlank_of_mem_format {rule : Rule} (h : WellFormed rule) :
    ∀ c ∈ rule.format.toList, isBlank c = false := by
  intro c hc
  rw [toList_format] at hc
  rcases List.mem_append.1 hc with hc | hc
  · exact isBlank_of_mem_target h.importPath (isInside_listingOf h) c hc
  · split at hc
    · exact absurd hc (by simp)
    · rename_i hsome
      obtain ⟨path, listing, hpath, hlisting, htext⟩ :=
        isSuggestion_iff.1 (h.suggestion.resolve_left hsome)
      rcases List.mem_cons.1 hc with rfl | hc
      · decide
      · exact isBlank_of_mem_target hpath hlisting c (htext ▸ hc)

/-! ### Reading rules that were written -/

theorem rulesOf_intercalate {rules : List Rule} (h : ∀ rule ∈ rules, WellFormed rule) :
    rulesOf ([','].intercalate (rules.map fun rule => rule.format.toList)) = rules := by
  induction rules with
  | nil => exact rulesOf_nil
  | cons rule rules ih =>
    have hrule := h rule List.mem_cons_self
    have hrules := ih fun r hr => h r (List.mem_cons_of_mem rule hr)
    have hone : rulesOf rule.format.toList = [rule] := by
      rw [rulesOf_of_takeRule (takeRule_format hrule), rulesOf_nil]
    cases rules with
    | nil => simpa using hone
    | cons next rules =>
      rw [List.map_cons] at hrules
      rw [List.map_cons, List.map_cons, List.intercalate_cons_cons, List.append_assoc,
        List.singleton_append, rulesOf_append_comma (closed_format hrule), hone, hrules]
      rfl

end Policy

theorem parsePolicy_formatPolicy {rules : List Rule} (h : ∀ rule ∈ rules, Policy.WellFormed rule) :
    parsePolicy (formatPolicy rules) = rules := by
  have htext : (formatPolicy rules).toList =
      [','].intercalate (rules.map fun rule => rule.format.toList) := by
    rw [formatPolicy, String.toList_intercalate, List.map_map]
    rfl
  have hvisible : ∀ c ∈ (formatPolicy rules).toList, isBlank c = false := by
    rw [htext]
    refine Pieces.forall_mem_intercalate ?_ ?_
    · intro c hc
      rw [List.mem_singleton.1 hc]
      decide
    · intro part hpart
      obtain ⟨rule, hrule, rfl⟩ := List.mem_map.1 hpart
      exact Policy.isBlank_of_mem_format (h rule hrule)
  have hkept : (withoutBlanks (formatPolicy rules)).toList = (formatPolicy rules).toList := by
    rw [withoutBlanks, String.toList_ofList, List.filter_eq_self]
    intro c hc
    simp [hvisible c hc]
  rw [parsePolicy, hkept, htext, Policy.rulesOf_intercalate h]

theorem wellFormed_of_mem_parsePolicy {text : String} {rule : Rule} (h : rule ∈ parsePolicy text) :
    Policy.WellFormed rule :=
  Policy.forall_mem_rulesOf (fun _ _ _ htaken => Policy.wellFormed_of_takeRule htaken) _ rule h

/-- **Policy texts and well-formed rules correspond.**  Every rule of a policy is well formed; a list
of rules survives being written and read exactly if its rules are.  So a policy that was read is
stable, and the lists that can be read are the well-formed ones. -/
theorem parsePolicy_formatPolicy_iff :
    (∀ text, ∀ rule ∈ parsePolicy text, Policy.WellFormed rule) ∧
      (∀ rules, parsePolicy (formatPolicy rules) = rules ↔
        ∀ rule ∈ rules, Policy.WellFormed rule) ∧
      (∀ text, parsePolicy (formatPolicy (parsePolicy text)) = parsePolicy text) ∧
      ∀ rules, (∃ text, parsePolicy text = rules) ↔ ∀ rule ∈ rules, Policy.WellFormed rule := by
  have hread : ∀ text, ∀ rule ∈ parsePolicy text, Policy.WellFormed rule :=
    fun _ _ hrule => wellFormed_of_mem_parsePolicy hrule
  refine ⟨hread, fun rules => ⟨fun h => ?_, parsePolicy_formatPolicy⟩,
    fun text => parsePolicy_formatPolicy (hread text), fun rules => ⟨?_, fun h => ?_⟩⟩
  · rw [← h]
    exact hread _
  · rintro ⟨text, rfl⟩
    exact hread text
  · exact ⟨formatPolicy rules, parsePolicy_formatPolicy h⟩

/-- Empty names are fine as long as a comma stands between them; a single empty name would be written
as an empty list, which is none. -/
theorem parsePolicy_formatPolicy_iff_emptyNames :
    parsePolicy (formatPolicy [⟨"a.b", ["", ""], "c/d\x7b,-\x7d"⟩]) =
        [⟨"a.b", ["", ""], "c/d\x7b,-\x7d"⟩] ∧
      parsePolicy (formatPolicy [⟨"os", [""], ""⟩]) ≠ [⟨"os", [""], ""⟩] := by
  constructor
  · refine (parsePolicy_formatPolicy_iff.2.1 _).2 fun rule hrule => ?_
    rw [List.mem_singleton.1 hrule]
    refine ⟨⟨by decide, by simp [Policy.isPathChar, Policy.isWord], ['a', '.'], 'b', rfl, rfl⟩,
      Or.inr ⟨by simp, by decide⟩, Or.inr ?_⟩
    have hpath : Policy.IsPath ['c', '/', 'd'] :=
      ⟨by decide, by simp [Policy.isPathChar, Policy.isWord], ['c', '/'], 'd', rfl, rfl⟩
    exact .listed ⟨false, [',', '-']⟩ hpath ⟨by decide, by simp [Policy.isListChar]⟩
  · intro h
    have hwell := (parsePolicy_formatPolicy_iff.2.1 _).1 h ⟨"os", [""], ""⟩ List.mem_cons_self
    rcases hwell.declarations with hnone | hsome
    · exact absurd hnone (by decide)
    · exact hsome.2 (by decide)

end ImportGuard
