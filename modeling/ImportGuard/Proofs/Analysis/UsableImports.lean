import ImportGuard.Proofs.Analysis.Suppression
import ImportGuard.Proofs.Finding.Message
import ImportGuard.Proofs.Policy.RoundTrip

/-!
# The imports that rules reach

Rules come from a policy text, and a policy text can say little.  Two things follow for every policy,
whatever the file.

* A rule's path ends in a word character, so **an import that the rule reaches has a name to look
  for**, the blank and the dot import apart (`exists_scanName`).  Only those two count as used as a
  whole without a look at the file.
* Paths, names and suggestions are made of word characters and a few marks.  None of them needs an
  escape, so **messages show what the policy says as it is**, between double quotes
  (`Policy.WellFormed.quote_eq`).
-/

namespace ImportGuard

/-! ### The texts of a rule -/

namespace Policy

theorem isPlain_of_isWord {c : Char} (h : isWord c = true) : isPlain c = true := by
  have hmarks : c ≠ '"' ∧ c ≠ '\\' := by
    constructor
    · rintro rfl
      exact absurd h (by decide)
    · rintro rfl
      exact absurd h (by decide)
  have hrange : 0x20 ≤ c.toNat ∧ c.toNat < 0x7F := by
    have hword := range_of_isWord h
    omega
  simp [isPlain, hmarks, hrange]

theorem isPlain_of_isPathChar {c : Char} (h : isPathChar c = true) : isPlain c = true := by
  simp only [isPathChar, Bool.or_eq_true, decide_eq_true_eq] at h
  rcases h with ((h | rfl) | rfl) | rfl
  · exact isPlain_of_isWord h
  · decide
  · decide
  · decide

theorem isPlain_of_isListChar {c : Char} (h : isListChar c = true) : isPlain c = true := by
  simp only [isListChar, Bool.or_eq_true, decide_eq_true_eq] at h
  rcases h with (h | rfl) | rfl
  · exact isPlain_of_isWord h
  · decide
  · decide

theorem isPlain_of_mem_text {listing : Listing} (h : IsInside listing.inside) {c : Char}
    (hc : c ∈ listing.text) : isPlain c = true := by
  obtain ⟨dotted, inside⟩ := listing
  simp only [Listing.text, List.mem_append, List.mem_singleton] at hc
  rcases hc with ((hc | rfl) | hc) | rfl
  · cases dotted with
    | true =>
      obtain rfl := List.mem_singleton.1 hc
      decide
    | false => exact absurd hc List.not_mem_nil
  · decide
  · exact isPlain_of_isListChar (h.2 c hc)
  · decide

theorem isPlain_of_isSuggestion {text : List Char} (h : IsSuggestion text) :
    ∀ c ∈ text, isPlain c = true := by
  intro c hc
  cases h with
  | plain hpath => exact isPlain_of_isPathChar (hpath.pathChars c hc)
  | listed listing hpath hinside =>
    rcases List.mem_append.1 hc with hc | hc
    · exact isPlain_of_isPathChar (hpath.pathChars c hc)
    · exact isPlain_of_mem_text hinside hc

end Policy

/-- What a rule says: the path, the suggestion and the declarations. -/
def Rule.texts (rule : Rule) : List String :=
  rule.importPath :: rule.suggestion :: rule.declarations

/-- **The texts of a rule need no escapes.** -/
theorem Policy.WellFormed.quote_eq {rule : Rule} (h : Policy.WellFormed rule) {text : String}
    (htext : text ∈ rule.texts) : quote text = "\"" ++ text ++ "\"" := by
  apply quote_of_isPlain
  intro c hc
  rcases List.mem_cons.1 htext with rfl | htext
  · exact Policy.isPlain_of_isPathChar (h.importPath.pathChars c hc)
  rcases List.mem_cons.1 htext with rfl | hname
  · rcases h.suggestion with hnone | hsome
    · rw [hnone] at hc
      exact absurd hc List.not_mem_nil
    · exact Policy.isPlain_of_isSuggestion hsome c hc
  · rcases h.declarations with hnone | ⟨hchars, _⟩
    · rw [hnone] at hname
      exact absurd hname List.not_mem_nil
    · have hlist := Policy.isListChar_iff.2 (Or.inl (hchars text hname c hc))
      exact Policy.isPlain_of_isListChar hlist

/-! ### The texts of a finding -/

namespace Analyzer

/-- What is owed to an import says what the rule says. -/
theorem texts_subset_of_mem_due {file : SourceFile} {rule : Rule} {spec : Import}
    (hpath : spec.path = rule.importPath) {f : Finding} (h : f ∈ due file rule spec) :
    f.cause.texts ⊆ rule.texts := by
  unfold due at h
  split at h
  · exact absurd h List.not_mem_nil
  · split at h
    · obtain rfl := List.mem_singleton.1 h
      simp [Cause.texts, Rule.texts, hpath]
    · obtain ⟨name, hname, h⟩ := List.mem_flatMap.1 h
      obtain ⟨place, _, rfl⟩ := List.mem_map.1 h
      simp [Cause.texts, Rule.texts, hpath, hname]

/-- A finding says what one of the rules says, or nothing of the kind. -/
theorem exists_texts_subset {analyzer : Analyzer} {file : SourceFile} {f : Finding}
    (h : f ∈ (analyzer.checkFile file).findings) :
    f.cause.texts = [] ∨ ∃ rule ∈ analyzer.rules, f.cause.texts ⊆ rule.texts := by
  cases hfault : f.cause.isFault with
  | true =>
    left
    cases hcause : f.cause with
    | package path suggestion => simp [hcause, Cause.isFault] at hfault
    | declaration name path suggestion => simp [hcause, Cause.isFault] at hfault
    | missingReason => rfl
    | misplacedFileIgnore => rfl
  | false =>
    obtain ⟨rule, hrule, spec, hspec, _, hdue⟩ := exists_due_of_mem_findings h hfault
    exact Or.inr ⟨rule, hrule,
      texts_subset_of_mem_due (Import.path_of_mem_importsOfPath hspec) hdue⟩

end Analyzer

/-! ### The name of an import -/

/-- What a path has behind its last slash, or the path if it has none. -/
def IsLastSegment (path segment : String) : Prop :=
  '/' ∉ segment.toList ∧ (path = segment ∨ ∃ front, path = front ++ "/" ++ segment)

theorem isLastSegment_lastSegment (path : String) :
    IsLastSegment path (Import.lastSegment path) := by
  unfold IsLastSegment Import.lastSegment
  rw [String.toList_ofList]
  refine ⟨Pieces.not_mem_afterLast '/' _, ?_⟩
  by_cases hslash : '/' ∈ path.toList
  · obtain ⟨front, hfront⟩ := Pieces.eq_append_afterLast hslash
    refine Or.inr ⟨String.ofList front, String.toList_inj.1 ?_⟩
    simpa using hfront
  · rw [Pieces.afterLast_of_not_mem hslash, String.ofList_toList]
    exact Or.inl rfl

namespace Import

theorem mode_eq_guessed {spec : Import} (h : spec.name = none ∨ spec.name = some "") :
    spec.mode = .guessed := by
  unfold mode
  rcases h with h | h
  · rw [h]
  · rw [h]
    rfl

theorem named_or_guessed {spec : Import} (hblank : spec.name ≠ some "_")
    (hdot : spec.name ≠ some ".") : spec.mode = .named ∨ spec.mode = .guessed := by
  unfold mode
  cases hname : spec.name with
  | none => exact Or.inr rfl
  | some name =>
    rw [hname] at hblank hdot
    have hblank' : name ≠ "_" := fun h => hblank (congrArg some h)
    have hdot' : name ≠ "." := fun h => hdot (congrArg some h)
    by_cases hempty : name = ""
    · simp [hempty]
    · simp [hblank', hdot', hempty]

theorem scanName_of_blank_or_dot {spec : Import} (h : spec.name = some "_" ∨ spec.name = some ".") :
    Usage.scanName spec.qualifier spec.mode = none := by
  unfold qualifier mode
  rcases h with h | h
  · rw [h]
    rfl
  · rw [h]
    rfl

/-- **An import that a rule reaches has a name to look for**, unless it is blank or a dot import. -/
theorem exists_scanName {text : String} {rule : Rule} (hrule : rule ∈ parsePolicy text)
    {file : SourceFile} {spec : Import} (hspec : spec ∈ file.importsOfPath rule.importPath)
    (hblank : spec.name ≠ some "_") (hdot : spec.name ≠ some ".") :
    ∃ name, spec.qualifier = some name ∧ name ≠ "" ∧
      Usage.scanName spec.qualifier spec.mode = some name := by
  have hmode := named_or_guessed hblank hdot
  obtain ⟨name, hname, hne⟩ := exists_qualifier hrule hspec hmode
  refine ⟨name, hname, hne, ?_⟩
  rw [hname]
  exact Usage.scanName_eq_some hne hmode

/-- Whatever is ignored, a scan tells the imports that have no name to look for from all others. -/
theorem scan_eq_whole_iff (file : SourceFile) (spec : Import) (ignored : Use → Bool) :
    Usage.scan (m := Id) file.source file.root spec.qualifier spec.mode
        (fun use => pure (ignored use)) = pure [(Usage.unspecified, [])] ↔
      Usage.scanName spec.qualifier spec.mode = none := by
  rw [Usage.scan_pure]
  cases Usage.scanName spec.qualifier spec.mode with
  | none => exact ⟨fun _ => rfl, fun _ => rfl⟩
  | some name =>
    refine ⟨fun h => ?_, fun h => absurd h (Option.some_ne_none name)⟩
    exact absurd h (Usage.index_ne_singleton_nil _ _)

end Import

namespace Analyzer

/-- **Rules reach usable imports only, and say nothing that needs an escape.**  For every rule of a
policy and every import of its path in a file, the import's path is the rule's.  Unless it is blank
or a dot import, it has a name that is not empty, and the file is searched for this name; without
an explicit name it is what the rule's path has behind its last slash, which ends in a word
character.  A scan counts the package as used as a whole exactly for a blank or a dot import.  The
path, the suggestion and the listed declarations are quoted as they are, and so are all texts of all
findings. -/
theorem rules_reach_usable_imports (policy : String) (file : SourceFile) :
    (∀ rule ∈ parsePolicy policy, ∀ spec ∈ file.importsOfPath rule.importPath,
      spec.path = rule.importPath ∧
      (spec.name ≠ some "_" → spec.name ≠ some "." →
        ∃ name, spec.qualifier = some name ∧ name ≠ "" ∧
          ∀ (m : Type → Type) [Monad m] (ignored : Use → m Bool),
            Usage.scan file.source file.root spec.qualifier spec.mode ignored =
              (Usage.usesOf file.source file.root name).filterM (fun use => not <$> ignored use) >>=
                fun kept => pure (Usage.index kept)) ∧
      (spec.name = none ∨ spec.name = some "" →
        ∃ name, spec.qualifier = some name ∧ IsLastSegment rule.importPath name ∧
          Policy.EndsInWord name.toList) ∧
      (∀ ignored : Use → Bool,
        Usage.scan (m := Id) file.source file.root spec.qualifier spec.mode
            (fun use => pure (ignored use)) = pure [(Usage.unspecified, [])] ↔
          spec.name = some "_" ∨ spec.name = some ".") ∧
      ∀ text ∈ spec.path :: rule.suggestion :: rule.declarations,
        quote text = "\"" ++ text ++ "\"") ∧
    ∀ ignoreTests, ∀ f ∈ ((ofPolicy policy ignoreTests).checkFile file).findings,
      ∀ text ∈ f.cause.texts, quote text = "\"" ++ text ++ "\"" := by
  refine ⟨fun rule hrule spec hspec => ?_, fun ignoreTests f hf text htext => ?_⟩
  · have hpath := Import.path_of_mem_importsOfPath hspec
    refine ⟨hpath, fun hblank hdot => ?_, fun hname => ?_, fun ignored => ?_, fun text htext => ?_⟩
    · obtain ⟨name, hname, hne, hscan⟩ := Import.exists_scanName hrule hspec hblank hdot
      refine ⟨name, hname, hne, fun m _ ignored => ?_⟩
      rw [Usage.scan_eq, hscan, Option.elim_some]
    · refine ⟨Import.lastSegment rule.importPath, ?_, isLastSegment_lastSegment _, ?_⟩
      · rw [Import.qualifier, Import.mode_eq_guessed hname, hpath]
      · rw [Import.lastSegment, String.toList_ofList]
        exact (Policy.endsInWord_importPath hrule).afterLast
    · rw [Import.scan_eq_whole_iff]
      refine ⟨fun hscan => ?_, Import.scanName_of_blank_or_dot⟩
      by_contra hother
      obtain ⟨hblank, hdot⟩ := not_or.1 hother
      obtain ⟨name, _, _, hsome⟩ := Import.exists_scanName hrule hspec hblank hdot
      exact absurd (hscan.symm.trans hsome) (Option.some_ne_none name).symm
    · rw [hpath] at htext
      exact (wellFormed_of_mem_parsePolicy hrule).quote_eq htext
  · rcases exists_texts_subset hf with hnone | ⟨rule, hrule, hsubset⟩
    · rw [hnone] at htext
      exact absurd htext List.not_mem_nil
    · exact (wellFormed_of_mem_parsePolicy hrule).quote_eq (hsubset htext)

def nestedImport : Import := ⟨[0], "\"go/fmt\"", none, ⟨0, 1, 1⟩, ⟨0, 1, 1⟩⟩

def nestedFile : SourceFile where
  filename := "a.go"
  source := "fmt.New".toList.map fun c => c.val.toUInt8
  root := ⟨.sourceFile, true, none, 0, 7, [sampleUse 0 7]⟩
  imports := [nestedImport]

def nestedRule : Rule := ⟨"go/fmt", ["New"], "go/errors.\x7bNew,Is\x7d"⟩

theorem rules_reach_usable_imports_nested :
    nestedRule ∈ parsePolicy "go/fmt\x7bNew\x7d=go/errors.\x7bNew,Is\x7d" ∧
      nestedImport ∈ nestedFile.importsOfPath nestedRule.importPath ∧
      nestedImport.path = "go/fmt" ∧
      (∃ name, nestedImport.qualifier = some name ∧ name ≠ "" ∧ IsLastSegment "go/fmt" name ∧
        Policy.EndsInWord name.toList) ∧
      (⟨⟨"a.go", 4, 1, 5⟩, .declaration "New" "go/fmt" "go/errors.\x7bNew,Is\x7d"⟩ : Finding) ∈
        ((ofPolicy "go/fmt\x7bNew\x7d=go/errors.\x7bNew,Is\x7d" false).checkFile
          nestedFile).findings ∧
      quote "go/errors.\x7bNew,Is\x7d" = "\"go/errors.\x7bNew,Is\x7d\"" := by
  have hpolicy : parsePolicy "go/fmt\x7bNew\x7d=go/errors.\x7bNew,Is\x7d" = [nestedRule] := by decide +kernel
  have himports : nestedFile.importsOfPath nestedRule.importPath = [nestedImport] := by decide +kernel
  have hrule : nestedRule ∈ parsePolicy "go/fmt\x7bNew\x7d=go/errors.\x7bNew,Is\x7d" := by
    rw [hpolicy]
    exact List.mem_singleton_self _
  have hspec : nestedImport ∈ nestedFile.importsOfPath nestedRule.importPath := by
    rw [himports]
    exact List.mem_singleton_self _
  have hfindings : ((mk [nestedRule] false).checkFile nestedFile).findings =
      [⟨⟨"a.go", 4, 1, 5⟩, .declaration "New" "go/fmt" "go/errors.\x7bNew,Is\x7d"⟩] := by decide +kernel
  have hfinding : (⟨⟨"a.go", 4, 1, 5⟩,
      .declaration "New" "go/fmt" "go/errors.\x7bNew,Is\x7d"⟩ : Finding) ∈
        ((ofPolicy "go/fmt\x7bNew\x7d=go/errors.\x7bNew,Is\x7d" false).checkFile
          nestedFile).findings := by
    rw [ofPolicy, hpolicy, hfindings]
    exact List.mem_singleton_self _
  have hall := rules_reach_usable_imports "go/fmt\x7bNew\x7d=go/errors.\x7bNew,Is\x7d" nestedFile
  obtain ⟨hpath, hnamed, hguessed, _⟩ := hall.1 nestedRule hrule nestedImport hspec
  obtain ⟨name, hname, hne, _⟩ := hnamed (by decide) (by decide)
  obtain ⟨segment, hsegment, hlast, hends⟩ := hguessed (Or.inl rfl)
  obtain rfl : segment = name := Option.some.inj (hsegment.symm.trans hname)
  refine ⟨hrule, hspec, hpath, ⟨segment, hsegment, hne, hlast, hends⟩, hfinding, ?_⟩
  exact hall.2 false _ hfinding _ (by decide)

end Analyzer

end ImportGuard
