import ImportGuard.Proofs.Policy.Paths
import Mathlib.Data.List.TakeWhile

/-!
# The parts of a rule

The reader of policies takes a rule apart from left to right: an import path, a list of declarations
in braces, a suggestion.  Here each step is described by the **shape** of what it takes and by what
must stand behind it, without the reader's own functions.

* `takePath_eq_some_iff`: a path is taken up to the last word character of its run.
* `takePath_eq_none_iff`: nothing is taken if only the first character of the run can be one.
* `takeBraced_eq_some_iff`, `takeListing_eq_some_iff`: a list is taken if it is complete.
-/

namespace ImportGuard

namespace Pieces

theorem dropEndWhile_append_tail (p : Char → Bool) (text : List Char) :
    ∃ tail, text = dropEndWhile p text ++ tail ∧ ∀ c ∈ tail, p c = true := by
  refine ⟨(text.reverse.takeWhile p).reverse, ?_, ?_⟩
  · rw [dropEndWhile, ← List.reverse_append, List.takeWhile_append_dropWhile, List.reverse_reverse]
  · intro c hc
    exact List.mem_takeWhile_imp (List.mem_reverse.1 hc)

theorem dropEndWhile_append_of_last {p : Char → Bool} {start tail : List Char} {c : Char}
    (hc : p c = false) (htail : ∀ c ∈ tail, p c = true) :
    dropEndWhile p (start ++ [c] ++ tail) = start ++ [c] := by
  have hrev : ∀ c ∈ tail.reverse, p c = true := fun c h => htail c (List.mem_reverse.1 h)
  rw [dropEndWhile, List.reverse_append, List.dropWhile_append_of_pos hrev, List.reverse_append]
  simp [hc]

end Pieces

namespace Policy

/-! ### Import paths -/

theorem isPathChar_of_isWord {c : Char} (h : isWord c = true) : isPathChar c = true := by
  simp [isPathChar, h]

structure IsPath (text : List Char) : Prop where
  two_le_length : 2 ≤ text.length
  pathChars : ∀ c ∈ text, isPathChar c = true
  endsInWord : EndsInWord text

/-- A path ends before this text: the path characters at its start have no word character. -/
def EndsPath (rest : List Char) : Prop :=
  ∀ c ∈ rest.takeWhile isPathChar, isWord c = false

theorem endsPath_cons {c : Char} (h : isPathChar c = false) (rest : List Char) :
    EndsPath (c :: rest) := by
  simp [EndsPath, h]

theorem endsPath_dot_cons {c : Char} (h : isPathChar c = false) (rest : List Char) :
    EndsPath ('.' :: c :: rest) := by
  intro d hd
  rw [List.takeWhile_cons_of_pos (by decide), List.takeWhile_cons_of_neg (by simp [h]),
    List.mem_singleton] at hd
  rw [hd]
  decide

theorem takePath_append {path rest : List Char} (hpath : IsPath path) (hrest : EndsPath rest) :
    takePath (path ++ rest) = some (path, rest) := by
  obtain ⟨start, c, rfl, hc⟩ := hpath.endsInWord
  have hrun : Pieces.dropEndWhile (!isWord ·) ((start ++ [c] ++ rest).takeWhile isPathChar) =
      start ++ [c] := by
    rw [List.takeWhile_append_of_pos hpath.pathChars]
    refine Pieces.dropEndWhile_append_of_last (by simp [hc]) ?_
    intro d hd
    simp [hrest d hd]
  have hlen := hpath.two_le_length
  unfold takePath
  rw [hrun]
  simp only [hlen, if_true, List.drop_left]

theorem isPath_of_takePath {text path rest : List Char} (h : takePath text = some (path, rest)) :
    text = path ++ rest ∧ IsPath path ∧ EndsPath rest := by
  have hends := endsInWord_takePath h
  unfold takePath at h
  simp only [Option.ite_none_right_eq_some, Option.some.injEq, Prod.mk.injEq] at h
  obtain ⟨hlen, hpath, hrest⟩ := h
  rw [hpath] at hlen hrest
  -- the run is the path and then characters that are no word characters
  obtain ⟨tail, hrun, htail⟩ :=
    Pieces.dropEndWhile_append_tail (!isWord ·) (text.takeWhile isPathChar)
  rw [hpath] at hrun
  have hpathChars : ∀ c ∈ path ++ tail, isPathChar c = true := by
    intro c hc
    exact List.mem_takeWhile_imp (hrun ▸ hc)
  have htext : text = path ++ (tail ++ text.dropWhile isPathChar) := by
    rw [← List.append_assoc, ← hrun, List.takeWhile_append_dropWhile]
  have hrest' : rest = tail ++ text.dropWhile isPathChar := by
    rw [← hrest, htext, List.drop_left, ← htext]
  refine ⟨hrest' ▸ htext, ⟨hlen, ?_, hends⟩, ?_⟩
  · exact fun c hc => hpathChars c (List.mem_append_left tail hc)
  · intro c hc
    have hstop : (text.dropWhile isPathChar).takeWhile isPathChar = [] := by
      have hhead := List.head?_dropWhile_not isPathChar text
      cases hd : text.dropWhile isPathChar with
      | nil => rfl
      | cons d more =>
        rw [hd] at hhead
        simp only [List.head?_cons] at hhead
        simp [hhead]
    rw [hrest', List.takeWhile_append_of_pos fun c hc => hpathChars c (List.mem_append_right path hc),
      hstop, List.append_nil] at hc
    simpa using htail c hc

/-- **What is taken as an import path**: a path behind which the run has no word character. -/
theorem takePath_eq_some_iff {text path rest : List Char} :
    takePath text = some (path, rest) ↔ text = path ++ rest ∧ IsPath path ∧ EndsPath rest := by
  constructor
  · exact isPath_of_takePath
  · rintro ⟨rfl, hpath, hrest⟩
    exact takePath_append hpath hrest

/-- **When no import path is taken**: no character of the run but its first is a word character. -/
theorem takePath_eq_none_iff {text : List Char} :
    takePath text = none ↔ ∀ c ∈ (text.takeWhile isPathChar).tail, isWord c = false := by
  obtain ⟨tail, hrun, htail⟩ :=
    Pieces.dropEndWhile_append_tail (!isWord ·) (text.takeWhile isPathChar)
  have hends : Pieces.dropEndWhile (!isWord ·) (text.takeWhile isPathChar) ≠ [] → EndsInWord _ :=
    endsInWord_dropEndWhile
  unfold takePath
  generalize Pieces.dropEndWhile (!isWord ·) (text.takeWhile isPathChar) = path at hrun hends
  simp only [ite_eq_right_iff, reduceCtorEq, imp_false, Nat.not_le]
  rw [hrun]
  constructor
  · intro hlen c hc
    have hmem : c ∈ tail := by
      cases path with
      | nil => exact List.mem_of_mem_tail hc
      | cons a path =>
        rw [List.length_cons] at hlen
        have hnil : path = [] := List.length_eq_zero_iff.1 (by omega)
        rw [hnil] at hc
        exact hc
    simpa using htail c hmem
  · intro hall
    by_contra hlen
    obtain ⟨start, c, hpath, hc⟩ := hends (by rintro rfl; exact hlen (by decide))
    have hmem : c ∈ (path ++ tail).tail := by
      cases start with
      | nil =>
        rw [hpath] at hlen
        exact absurd Nat.one_lt_two hlen
      | cons d start => simp [hpath]
    rw [hall c hmem] at hc
    exact absurd hc (by decide)

/-! ### Lists of declarations -/

/-- What may stand between the braces of a list of declarations. -/
def IsInside (text : List Char) : Prop :=
  text ≠ [] ∧ ∀ c ∈ text, isListChar c = true

theorem takeBraced_eq_some_iff {text inside rest : List Char} :
    takeBraced text = some (inside, rest) ↔ text = inside ++ '}' :: rest ∧ IsInside inside := by
  constructor
  · intro h
    unfold takeBraced at h
    split at h
    · rename_i c names rest' ht hd
      obtain ⟨rfl, rfl⟩ : c :: names = inside ∧ rest' = rest := by simpa using h
      refine ⟨?_, by simp, fun d hmem => List.mem_takeWhile_imp (ht ▸ hmem)⟩
      rw [← ht, ← hd, List.takeWhile_append_dropWhile]
    · exact absurd h (by simp)
  · rintro ⟨rfl, hne, hall⟩
    unfold takeBraced
    rw [List.takeWhile_append_of_pos hall, List.dropWhile_append_of_pos hall]
    cases inside with
    | nil => exact absurd rfl hne
    | cons c names => simp [isListChar, isWord]

/-- **What is taken as a list of declarations**: one that is complete, with or without a point. -/
theorem takeListing_eq_some_iff {text rest : List Char} {listing : Listing} :
    takeListing text = some (listing, rest) ↔
      text = listing.text ++ rest ∧ IsInside listing.inside := by
  constructor
  · intro h
    unfold takeListing at h
    split at h
    · obtain ⟨⟨inside, rest'⟩, hb, he⟩ := Option.map_eq_some_iff.1 h
      obtain ⟨rfl, hinside⟩ := takeBraced_eq_some_iff.1 hb
      obtain ⟨rfl, rfl⟩ : Listing.mk true inside = listing ∧ rest' = rest := by simpa using he
      exact ⟨by simp [Listing.text], hinside⟩
    · obtain ⟨⟨inside, rest'⟩, hb, he⟩ := Option.map_eq_some_iff.1 h
      obtain ⟨rfl, hinside⟩ := takeBraced_eq_some_iff.1 hb
      obtain ⟨rfl, rfl⟩ : Listing.mk false inside = listing ∧ rest' = rest := by simpa using he
      exact ⟨by simp [Listing.text], hinside⟩
    · exact absurd h (by simp)
  · rintro ⟨rfl, hinside⟩
    obtain ⟨dotted, inside⟩ := listing
    have hb : takeBraced (inside ++ '}' :: rest) = some (inside, rest) :=
      takeBraced_eq_some_iff.2 ⟨rfl, hinside⟩
    cases dotted with
    | true => simp [Listing.text, takeListing, hb]
    | false => simp [Listing.text, takeListing, hb]

theorem endsPath_text (listing : Listing) (rest : List Char) :
    EndsPath (listing.text ++ rest) := by
  obtain ⟨dotted, inside⟩ := listing
  cases dotted with
  | true => exact endsPath_dot_cons (by decide) _
  | false => exact endsPath_cons (by decide) _

/-! ### Rules -/

theorem takeTarget_of_takePath {text path more : List Char}
    (hpath : takePath text = some (path, more)) :
    takeTarget text = some ((takeListing more).elim ((path, none), more) fun taken =>
      ((path, some taken.1), taken.2)) := by
  simp only [takeTarget, hpath]
  cases takeListing more with
  | none => rfl
  | some taken => rfl

theorem takeRule_of_takeTarget {text path more : List Char} {listing : Option Listing}
    (htarget : takeTarget text = some ((path, listing), more)) :
    takeRule text =
      some
        (⟨String.ofList path, (listing.map Listing.names).getD [],
          String.ofList (takeSuggestion more).1⟩, (takeSuggestion more).2) := by
  simp only [takeRule, htarget]

theorem takeRule_eq_none_iff {text : List Char} : takeRule text = none ↔ takePath text = none := by
  unfold takeRule
  cases hpath : takePath text with
  | none => simp [takeTarget, hpath]
  | some taken =>
    rw [takeTarget_of_takePath hpath]
    cases takeListing taken.2 with
    | none => simp
    | some _ => simp

/-- What is taken as a path with a list behind it has the shape of one, and is cut from the text. -/
theorem shape_of_takeTarget {text path rest : List Char} {listing : Option Listing}
    (h : takeTarget text = some ((path, listing), rest)) :
    text = path ++ (listing.map Listing.text).getD [] ++ rest ∧ IsPath path ∧
      ∀ l ∈ listing, IsInside l.inside := by
  cases hpath : takePath text with
  | none => simp [takeTarget, hpath] at h
  | some taken =>
    obtain ⟨path', more⟩ := taken
    obtain ⟨htext, hshape, _⟩ := takePath_eq_some_iff.1 hpath
    rw [takeTarget_of_takePath hpath] at h
    cases hlisting : takeListing more with
    | none =>
      rw [hlisting] at h
      cases h
      exact ⟨by simpa using htext, hshape, by simp⟩
    | some taken =>
      obtain ⟨listing', behind⟩ := taken
      obtain ⟨hmore, hinside⟩ := takeListing_eq_some_iff.1 hlisting
      rw [hlisting] at h
      cases h
      refine ⟨?_, hshape, by simpa using hinside⟩
      rw [htext, hmore, List.append_assoc]
      rfl

theorem takeTarget_suffix {text rest : List Char} {target : List Char × Option Listing}
    (h : takeTarget text = some (target, rest)) : rest <:+ text :=
  ⟨_, (shape_of_takeTarget h).1.symm⟩

theorem takeSuggestion_suffix (text : List Char) : (takeSuggestion text).2 <:+ text := by
  unfold takeSuggestion
  split
  · rename_i text
    cases htarget : takeTarget text with
    | none => exact List.suffix_rfl
    | some taken => exact (takeTarget_suffix htarget).trans (List.suffix_cons '=' text)
  · exact List.suffix_rfl

theorem takeRule_suffix {text rest : List Char} {rule : Rule}
    (h : takeRule text = some (rule, rest)) : rest <:+ text := by
  cases htarget : takeTarget text with
  | none => simp [takeRule, htarget] at h
  | some taken =>
    rw [takeRule_of_takeTarget htarget] at h
    cases h
    exact (takeSuggestion_suffix taken.2).trans (takeTarget_suffix htarget)

/-! ### The pass -/

theorem rulesOf_nil : rulesOf [] = [] := by
  rw [rulesOf.eq_def]

theorem rulesOf_of_takeRule {text rest : List Char} {rule : Rule}
    (h : takeRule text = some (rule, rest)) : rulesOf text = rule :: rulesOf rest := by
  cases text with
  | nil =>
    have hnone : takeRule [] = none := takeRule_eq_none_iff.2 (takePath_eq_none_iff.2 (by simp))
    rw [hnone] at h
    exact absurd h (by simp)
  | cons c more =>
    rw [rulesOf.eq_def]
    simp only
    split
    · rename_i rule' rest' h'
      rw [h] at h'
      cases h'
      rfl
    · rename_i h'
      rw [h] at h'
      exact absurd h' (by simp)

theorem rulesOf_of_not_takeRule {c : Char} {more : List Char} (h : takeRule (c :: more) = none) :
    rulesOf (c :: more) =
      if isPathChar c then rulesOf (more.dropWhile isPathChar) else rulesOf more := by
  rw [rulesOf.eq_def]
  simp only
  split
  · rename_i rule rest h'
    rw [h] at h'
    exact absurd h' (by simp)
  · rfl

theorem rulesOf_cons_of_not_isPathChar {c : Char} (h : isPathChar c = false) (more : List Char) :
    rulesOf (c :: more) = rulesOf more := by
  have hnone : takeRule (c :: more) = none := by
    rw [takeRule_eq_none_iff, takePath_eq_none_iff, List.takeWhile_cons_of_neg (by simp [h])]
    simp
  rw [rulesOf_of_not_takeRule hnone, if_neg (by simp [h])]

end Policy

end ImportGuard
