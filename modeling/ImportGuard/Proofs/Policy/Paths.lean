import ImportGuard.Policy.Reader
import ImportGuard.Source
import Mathlib.Data.List.Basic

/-!
# The import paths of a policy

Whatever text a policy is read from, the import path of each of its rules **ends in a word
character** (`endsInWord_importPath`), as the reader cuts a path after the last one.  So the path's
last segment is never empty, and an import of the path has a name of its own unless it is blank or a
dot import (`exists_qualifier`).
-/

namespace ImportGuard

namespace Policy

/-- A property of every rule that can be taken from a text is one of every rule of a policy. -/
theorem forall_mem_rulesOf {P : Rule → Prop}
    (h : ∀ text rule rest, takeRule text = some (rule, rest) → P rule) (text : List Char) :
    ∀ rule ∈ rulesOf text, P rule := by
  fun_induction rulesOf text with
  | case1 => simp
  | case2 c more rule rest htaken ih =>
    intro found hfound
    rcases List.mem_cons.1 hfound with rfl | hmem
    · exact h _ _ _ htaken
    · exact ih found hmem
  | case3 c more _ _ ih => exact ih
  | case4 c more _ _ ih => exact ih

/-- A text whose last character is a word character. -/
def EndsInWord (text : List Char) : Prop :=
  ∃ start c, text = start ++ [c] ∧ isWord c = true

theorem endsInWord_dropEndWhile {text : List Char}
    (h : Pieces.dropEndWhile (!isWord ·) text ≠ []) :
    EndsInWord (Pieces.dropEndWhile (!isWord ·) text) := by
  unfold Pieces.dropEndWhile at *
  cases hd : text.reverse.dropWhile (!isWord ·) with
  | nil => simp [hd] at h
  | cons c start =>
    refine ⟨start.reverse, c, by simp, ?_⟩
    have hhead := List.head?_dropWhile_not (!isWord ·) text.reverse
    rw [hd] at hhead
    simpa using hhead

theorem endsInWord_takePath {text path rest : List Char}
    (h : takePath text = some (path, rest)) : EndsInWord path := by
  unfold takePath at h
  simp only [Option.ite_none_right_eq_some, Option.some.injEq, Prod.mk.injEq] at h
  obtain ⟨hlen, rfl, _⟩ := h
  refine endsInWord_dropEndWhile ?_
  intro hnil
  rw [hnil] at hlen
  exact absurd hlen (by decide)

theorem endsInWord_takeRule {text rest : List Char} {rule : Rule}
    (h : takeRule text = some (rule, rest)) : EndsInWord rule.importPath.toList := by
  unfold takeRule takeTarget at h
  cases hp : takePath text with
  | none => simp [hp] at h
  | some pair =>
    obtain ⟨path, more⟩ := pair
    have hpath := endsInWord_takePath hp
    cases hl : takeListing more with
    | none =>
      simp only [hp, hl, Option.some.injEq, Prod.mk.injEq] at h
      rw [← h.1, String.toList_ofList]
      exact hpath
    | some pair =>
      simp only [hp, hl, Option.some.injEq, Prod.mk.injEq] at h
      rw [← h.1, String.toList_ofList]
      exact hpath

/-- **The import path of a rule ends in a word character.** -/
theorem endsInWord_importPath {text : String} {rule : Rule} (h : rule ∈ parsePolicy text) :
    EndsInWord rule.importPath.toList :=
  forall_mem_rulesOf (P := fun rule => EndsInWord rule.importPath.toList)
    (fun _ _ _ htaken => endsInWord_takeRule htaken) _ rule h

theorem EndsInWord.afterLast {text : List Char} (h : EndsInWord text) :
    EndsInWord (Pieces.afterLast '/' text) := by
  obtain ⟨start, c, rfl, hword⟩ := h
  have hslash : c ≠ '/' := by
    rintro rfl
    exact absurd hword (by decide)
  exact ⟨Pieces.afterLast '/' start, c, by simp [Pieces.afterLast, hslash], hword⟩

theorem EndsInWord.afterLast_ne_nil {text : List Char} (h : EndsInWord text) :
    Pieces.afterLast '/' text ≠ [] := by
  obtain ⟨start, c, heq, _⟩ := h.afterLast
  simp [heq]

end Policy

namespace Import

theorem path_of_mem_importsOfPath {file : SourceFile} {path : String} {spec : Import}
    (h : spec ∈ file.importsOfPath path) : spec.path = path := by
  have hliteral := (List.mem_filter.1 h).2
  rw [Import.path, of_decide_eq_true hliteral]
  rfl

/-- **An import of a rule's path has a name of its own**, unless it is blank or a dot import. -/
theorem exists_qualifier {text : String} {rule : Rule} (hrule : rule ∈ parsePolicy text)
    {file : SourceFile} {spec : Import} (hspec : spec ∈ file.importsOfPath rule.importPath)
    (hmode : spec.mode = .named ∨ spec.mode = .guessed) :
    ∃ name, spec.qualifier = some name ∧ name ≠ "" := by
  rcases hmode with hnamed | hguessed
  · unfold qualifier
    rw [hnamed]
    unfold mode at hnamed
    cases hn : spec.name with
    | none => simp [hn] at hnamed
    | some name =>
      refine ⟨name, rfl, ?_⟩
      rintro rfl
      simp [hn] at hnamed
  · refine ⟨lastSegment spec.path, ?_, ?_⟩
    · rw [qualifier, hguessed]
    · intro hempty
      rw [path_of_mem_importsOfPath hspec, lastSegment] at hempty
      have hlist := congrArg String.toList hempty
      rw [String.toList_ofList] at hlist
      exact (Policy.endsInWord_importPath hrule).afterLast_ne_nil hlist

end Import

end ImportGuard
