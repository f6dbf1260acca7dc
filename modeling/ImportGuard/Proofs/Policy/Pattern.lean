import ImportGuard.Proofs.Policy.Shape
import Mathlib.Data.List.TakeWhile

/-!
# Policies as matches of a pattern

The syntax of a rule can also be given as a regular expression with groups,

    (path: [\w/.-]+ \w) ( \.? { (declarations: [\w,-]+) } | ) ( = (suggestion: ...) | )

and the rules of a policy are then its matches from left to right.  `Pattern.search` is the usual
**backtracking** reading of such an expression: of two alternatives the first is tried first, a
repetition takes as much as it can and gives back one character at a time, and when what follows
fails the search returns to the latest choice.

None of this can be seen in a policy: the reader, which never goes back, finds the same rules
(`patternRules_eq_parsePolicy`).  The reasons are that what may follow a path can always be nothing,
so the first path that fits stays (`search_path`); that a closing brace is no character of a list, so
only the longest inside can be closed (`tryMany_closing`); and that in the rest of a run without a path
no path starts later (`allMatches_dropWhile`).
-/

namespace ImportGuard

/-- Patterns over characters, with named groups. -/
inductive Pattern (Group : Type) where
  /-- Takes nothing. -/
  | nothing
  /-- Takes one character. -/
  | one (p : Char → Bool)
  /-- Takes one or more characters, as many as possible. -/
  | many (p : Char → Bool)
  /-- One pattern, then another. -/
  | seq (first second : Pattern Group)
  /-- One pattern or another; the first is preferred. -/
  | either (first second : Pattern Group)
  /-- Keeps what a pattern takes under a name. -/
  | group (name : Group) (inside : Pattern Group)

namespace Pattern

/-- Where a search stands: what the groups have taken, the latest first, and the text ahead. -/
structure State (Group : Type) where
  captured : List (Group × List Char)
  rest : List Char

variable {Group α : Type}

/-- Goes on behind one or more leading characters with `p`: behind all of them at first, and then
behind one less each time. -/
def tryMany (p : Char → Bool) (next : List Char → Option α) : List Char → Option α
  | [] => none
  | c :: text => if p c then (tryMany p next text).or (next text) else none

/-- **The backtracking search**: matches a pattern and goes on with `next`.  Where `next` fails, the
last choice that was made is made anew. -/
def search : Pattern Group → (State Group → Option α) → State Group → Option α
  | nothing, next, s => next s
  | one p, next, s =>
    match s.rest with
    | [] => none
    | c :: rest => if p c then next ⟨s.captured, rest⟩ else none
  | many p, next, s => tryMany p (fun rest => next ⟨s.captured, rest⟩) s.rest
  | seq first second, next, s => first.search (second.search next) s
  | either first second, next, s => (first.search next s).or (second.search next s)
  | group name inside, next, s =>
    inside.search (fun t =>
      next ⟨(name, s.rest.take (s.rest.length - t.rest.length)) :: t.captured, t.rest⟩) s

theorem search_nothing (next : State Group → Option α) (s : State Group) :
    search .nothing next s = next s := rfl

theorem search_seq (first second : Pattern Group) (next : State Group → Option α)
    (s : State Group) : search (.seq first second) next s = first.search (second.search next) s :=
  rfl

theorem search_either (first second : Pattern Group) (next : State Group → Option α)
    (s : State Group) :
    search (.either first second) next s = (first.search next s).or (second.search next s) := rfl

theorem search_group (name : Group) (inside : Pattern Group) (next : State Group → Option α)
    (s : State Group) :
    search (.group name inside) next s = inside.search (fun t =>
      next ⟨(name, s.rest.take (s.rest.length - t.rest.length)) :: t.captured, t.rest⟩) s := rfl

def match? (pattern : Pattern Group) (text : List Char) : Option (State Group) :=
  pattern.search some ⟨[], text⟩

/-- A match takes at least one character. -/
def Proper (pattern : Pattern Group) : Prop :=
  ∀ text found, pattern.match? text = some found → found.rest.length < text.length

/-- **All matches from left to right**: the search goes on behind a match, and one character later
where there is none. -/
def allMatches {pattern : Pattern Group} (proper : pattern.Proper) (text : List Char) :
    List (State Group) :=
  match text with
  | [] => []
  | c :: more =>
    match _found : pattern.match? (c :: more) with
    | some found => found :: allMatches proper found.rest
    | none => allMatches proper more
termination_by text.length
decreasing_by
  · exact proper _ _ _found
  · simp

/-! ### Repetitions -/

section

variable {p : Char → Bool} {next : List Char → Option α}

theorem tryMany_cons {c : Char} (hc : p c = true) (text : List Char) :
    tryMany p next (c :: text) = (tryMany p next text).or (next text) := by
  rw [tryMany, if_pos hc]

theorem tryMany_cons_of_not {c : Char} (hc : p c = false) (text : List Char) :
    tryMany p next (c :: text) = none := by
  rw [tryMany, if_neg (by simp [hc])]

/-- What can be taken further on is preferred. -/
theorem tryMany_append_of_eq_some {start text : List Char} {a : α} (hstart : ∀ c ∈ start, p c = true)
    (h : tryMany p next text = some a) : tryMany p next (start ++ text) = some a := by
  induction start with
  | nil => exact h
  | cons c start ih =>
    rw [List.cons_append, tryMany_cons (hstart c List.mem_cons_self),
      ih fun d hd => hstart d (List.mem_cons_of_mem c hd), Option.some_or]

end

end Pattern

namespace Policy

open Pattern

inductive Part where
  | importPath
  | declarations
  | suggestion
deriving DecidableEq, Repr

def pathPattern : Pattern Part :=
  .seq (.many isPathChar) (.one isWord)

def listPattern (inside : Pattern Part) : Pattern Part :=
  .seq (.either (.one (· = '.')) .nothing)
    (.seq (.one (· = '{')) (.seq inside (.one (· = '}'))))

def targetPattern : Pattern Part :=
  .seq pathPattern (.either (listPattern (.many isListChar)) .nothing)

def declarationsPattern : Pattern Part :=
  .either (listPattern (.group .declarations (.many isListChar))) .nothing

def suggestionPattern : Pattern Part :=
  .either (.seq (.one (· = '=')) (.group .suggestion targetPattern)) .nothing

/-- **The pattern of a rule.** -/
def rulePattern : Pattern Part :=
  .seq (.group .importPath pathPattern) (.seq declarationsPattern suggestionPattern)

def ruleOf (found : State Part) : Rule where
  importPath := String.ofList ((found.captured.lookup .importPath).getD [])
  declarations :=
    let inside := (found.captured.lookup .declarations).getD []
    if inside = [] then [] else (Pieces.splitOn ',' inside).map String.ofList
  suggestion := String.ofList ((found.captured.lookup .suggestion).getD [])

/-! ### Paths -/

section

variable {α : Type} {next : State Part → Option α}

theorem search_one_isWord_of_endsPath {captured : List (Part × List Char)} {rest : List Char}
    (h : EndsPath rest) : search (.one isWord) next ⟨captured, rest⟩ = none := by
  cases rest with
  | nil => rfl
  | cons c rest =>
    have hc : isWord c = false := by
      by_contra hword
      rw [Bool.not_eq_false] at hword
      have hmem : c ∈ (c :: rest).takeWhile isPathChar := by
        simp [isPathChar_of_isWord hword]
      rw [h c hmem] at hword
      exact absurd hword (by decide)
    simp [search, hc]

theorem endsPath_of_cons {c : Char} {rest : List Char} (hc : isPathChar c = true)
    (h : EndsPath (c :: rest)) : EndsPath rest := by
  intro d hd
  refine h d ?_
  rw [List.takeWhile_cons_of_pos hc]
  exact List.mem_cons_of_mem c hd

/-- Where a path has ended, no character is a path's last. -/
theorem tryMany_of_endsPath {captured : List (Part × List Char)} {rest : List Char}
    (h : EndsPath rest) :
    tryMany isPathChar (fun rest => search (.one isWord) next ⟨captured, rest⟩) rest = none := by
  induction rest with
  | nil => rfl
  | cons c rest ih =>
    by_cases hc : isPathChar c = true
    · have hrest := endsPath_of_cons hc h
      rw [tryMany_cons hc, ih hrest, search_one_isWord_of_endsPath hrest]
      rfl
    · exact tryMany_cons_of_not (by simpa using hc) rest

/-- **A path is taken up to the last word character of its run**, if the search can always go on
from there. -/
theorem search_path (hnext : ∀ s, (next s).isSome = true) (s : State Part) :
    pathPattern.search next s =
      (takePath s.rest).bind fun taken => next ⟨s.captured, taken.2⟩ := by
  obtain ⟨captured, text⟩ := s
  show tryMany isPathChar (fun rest => search (.one isWord) next ⟨captured, rest⟩) text = _
  cases hpath : takePath text with
  | none =>
    rw [takePath_eq_none_iff] at hpath
    cases text with
    | nil => rfl
    | cons c text =>
      by_cases hc : isPathChar c = true
      · rw [List.takeWhile_cons_of_pos hc, List.tail_cons] at hpath
        rw [tryMany_cons hc, tryMany_of_endsPath hpath, search_one_isWord_of_endsPath hpath]
        rfl
      · rw [tryMany_cons_of_not (by simpa using hc)]
        rfl
  | some taken =>
    obtain ⟨path, rest⟩ := taken
    obtain ⟨htext, hpath, hends⟩ := takePath_eq_some_iff.1 hpath
    obtain ⟨start, w, hstart, hw⟩ := hpath.endsInWord
    -- the character before the last one is where the repetition stops
    obtain ⟨front, d, hfront⟩ : ∃ front d, start = front ++ [d] := by
      rcases List.eq_nil_or_concat start with hnil | ⟨front, d, hconcat⟩
      · have hlen := hpath.two_le_length
        rw [hstart, hnil] at hlen
        exact absurd hlen (by simp)
      · exact ⟨front, d, by simpa using hconcat⟩
    obtain ⟨found, hfound⟩ := Option.isSome_iff_exists.1 (hnext ⟨captured, rest⟩)
    have hchars : ∀ c ∈ front ++ [d], isPathChar c = true := by
      intro c hc
      refine hpath.pathChars c ?_
      rw [hstart, hfront]
      exact List.mem_append_left [w] hc
    have hd : isPathChar d = true := hchars d (by simp)
    have hstop : tryMany isPathChar (fun rest => search (.one isWord) next ⟨captured, rest⟩)
        (w :: rest) = none := by
      rw [tryMany_cons (isPathChar_of_isWord hw), tryMany_of_endsPath hends,
        search_one_isWord_of_endsPath hends]
      rfl
    have hlast : search (.one isWord) next ⟨captured, w :: rest⟩ = some found := by
      simp [search, hw, hfound]
    have hmany : tryMany isPathChar (fun rest => search (.one isWord) next ⟨captured, rest⟩)
        (d :: w :: rest) = some found := by
      rw [tryMany_cons hd, hstop, hlast, Option.none_or]
    have hsplit : text = front ++ (d :: w :: rest) := by
      rw [htext, hstart, hfront]
      simp
    rw [hsplit, tryMany_append_of_eq_some (fun c hc => hchars c (List.mem_append_left [d] hc))
      hmany, Option.bind_some, hfound]

/-! ### Lists -/

theorem search_one_of_ne {mark c : Char} (h : c ≠ mark) (captured : List (Part × List Char))
    (rest : List Char) : search (.one (· = mark)) next ⟨captured, c :: rest⟩ = none := by
  simp [search, h]

theorem search_one_self (mark : Char) (captured : List (Part × List Char)) (rest : List Char) :
    search (.one (· = mark)) next ⟨captured, mark :: rest⟩ = next ⟨captured, rest⟩ := by
  simp [search]

theorem takeBraced_cons_of_not {c : Char} (hc : isListChar c = false) (text : List Char) :
    takeBraced (c :: text) = none := by
  simp [takeBraced, hc]

theorem takeBraced_cons {c d : Char} (hc : isListChar c = true) (hd : d ≠ '}')
    (text : List Char) :
    takeBraced (c :: d :: text) =
      (takeBraced (d :: text)).map fun taken => (c :: taken.1, taken.2) := by
  by_cases hlist : isListChar d = true
  · unfold takeBraced
    simp only [List.takeWhile_cons_of_pos hc, List.dropWhile_cons_of_pos hc,
      List.takeWhile_cons_of_pos hlist, List.dropWhile_cons_of_pos hlist]
    cases text.dropWhile isListChar with
    | nil => rfl
    | cons e rest =>
      by_cases he : e = '}'
      · subst he
        rfl
      · simp [he]
  · have hnone : takeBraced (d :: text) = none := takeBraced_cons_of_not (by simpa using hlist) text
    rw [hnone]
    simp [takeBraced, hc, hlist, hd]

/-- **Only the longest inside of a list can be closed**: a closing brace is no character of it. -/
theorem tryMany_closing (captured : List Char → List (Part × List Char)) (text : List Char) :
    tryMany isListChar (fun rest => search (.one (· = '}')) next ⟨captured rest, rest⟩) text =
      (takeBraced text).bind fun taken => next ⟨captured ('}' :: taken.2), taken.2⟩ := by
  induction text with
  | nil => rfl
  | cons c text ih =>
    by_cases hc : isListChar c = true
    · rw [tryMany_cons hc]
      cases text with
      | nil => simp [tryMany, search, takeBraced, hc]
      | cons d text =>
        by_cases hd : d = '}'
        · subst hd
          rw [tryMany_cons_of_not (by decide), Option.none_or, search_one_self,
            takeBraced_eq_some_iff.2 ⟨List.singleton_append.symm, by simp [IsInside, hc]⟩]
          rfl
        · rw [ih, search_one_of_ne hd, Option.or_none, takeBraced_cons hc hd, Option.bind_map]
          rfl
    · rw [tryMany_cons_of_not (by simpa using hc), takeBraced_cons_of_not (by simpa using hc)]
      rfl

theorem take_append_length (first second : List Char) :
    (first ++ second).take ((first ++ second).length - second.length) = first := by
  rw [List.length_append, Nat.add_sub_cancel, List.take_left]

theorem search_inside (captured : List (Part × List Char)) (text : List Char) :
    search (.seq (.many isListChar) (.one (· = '}'))) next ⟨captured, text⟩ =
      (takeBraced text).bind fun taken => next ⟨captured, taken.2⟩ :=
  tryMany_closing (fun _ => captured) text

theorem search_group_inside (captured : List (Part × List Char)) (text : List Char) :
    search (.seq (.group .declarations (.many isListChar)) (.one (· = '}'))) next
        ⟨captured, text⟩ =
      (takeBraced text).bind fun taken =>
        next ⟨(.declarations, taken.1) :: captured, taken.2⟩ := by
  refine (tryMany_closing (fun rest =>
    (.declarations, text.take (text.length - rest.length)) :: captured) text).trans ?_
  cases hbraced : takeBraced text with
  | none => rfl
  | some taken =>
    obtain ⟨inside, rest⟩ := taken
    have htext := (takeBraced_eq_some_iff.1 hbraced).1
    rw [Option.bind_some, Option.bind_some, htext, take_append_length]

/-- **A list is taken if it is complete**, and a point before it with it. -/
theorem search_list {inside : Pattern Part} {captured : List (Part × List Char)}
    (after : List Char → List Char → Option α)
    (hinside : ∀ text, search (.seq inside (.one (· = '}'))) next ⟨captured, text⟩ =
      (takeBraced text).bind fun taken => after taken.1 taken.2) (text : List Char) :
    (listPattern inside).search next ⟨captured, text⟩ =
      (takeListing text).bind fun taken => after taken.1.inside taken.2 := by
  have hopen : ∀ text, search (.seq (.one (· = '{')) (.seq inside (.one (· = '}')))) next
      ⟨captured, '{' :: text⟩ = (takeBraced text).bind fun taken => after taken.1 taken.2 := by
    intro text
    rw [search_seq, search_one_self, hinside]
  have hother : ∀ c text, c ≠ '{' → search (.seq (.one (· = '{')) (.seq inside (.one (· = '}'))))
      next ⟨captured, c :: text⟩ = none := by
    intro c text hc
    rw [search_seq, search_one_of_ne hc]
  rw [listPattern, search_seq, search_either, search_nothing]
  cases text with
  | nil => rfl
  | cons c text =>
    by_cases hc : c = '{'
    · subst hc
      rw [search_one_of_ne (by decide), Option.none_or, hopen, takeListing, Option.bind_map]
      rfl
    · by_cases hdot : c = '.'
      · subst hdot
        rw [search_one_self, hother _ _ hc, Option.or_none]
        cases text with
        | nil => rfl
        | cons d text =>
          by_cases hd : d = '{'
          · subst hd
            rw [hopen, takeListing, Option.bind_map]
            rfl
          · rw [hother d text hd]
            simp [takeListing, hd]
      · rw [search_one_of_ne hdot, hother _ _ hc]
        simp [takeListing, hc, hdot]

/-! ### Rules -/

/-- **A part that may be missing is taken if it is there**, if the search can always go on. -/
theorem search_either_nothing (hnext : ∀ s, (next s).isSome = true) {pattern : Pattern Part}
    {s : State Part} {taken : Option (State Part)} (h : pattern.search next s = taken.bind next) :
    search (.either pattern .nothing) next s = next (taken.getD s) := by
  rw [search_either, search_nothing, h]
  cases taken with
  | none => rfl
  | some t =>
    obtain ⟨found, hfound⟩ := Option.isSome_iff_exists.1 (hnext t)
    rw [Option.bind_some, hfound, Option.getD_some, hfound]
    rfl

theorem isSome_search_either_nothing (hnext : ∀ s, (next s).isSome = true) (pattern : Pattern Part)
    (s : State Part) : (search (.either pattern .nothing) next s).isSome = true := by
  rw [search_either, search_nothing, Option.isSome_or, hnext s, Bool.or_true]

theorem search_targetPattern (hnext : ∀ s, (next s).isSome = true) (s : State Part) :
    targetPattern.search next s =
      (takeTarget s.rest).bind fun taken => next ⟨s.captured, taken.2⟩ := by
  rw [targetPattern, search_seq, search_path (isSome_search_either_nothing hnext _)]
  cases hpath : takePath s.rest with
  | none =>
    rw [takeTarget, hpath]
    rfl
  | some taken =>
    obtain ⟨path, more⟩ := taken
    have hlist : (listPattern (.many isListChar)).search next ⟨s.captured, more⟩ =
        ((takeListing more).map fun taken => ⟨s.captured, taken.2⟩).bind next := by
      rw [Option.bind_map]
      exact search_list (fun _ rest => next ⟨s.captured, rest⟩) (search_inside s.captured) more
    rw [Option.bind_some, search_either_nothing hnext hlist, takeTarget_of_takePath hpath]
    cases takeListing more with
    | none => rfl
    | some taken => rfl

end

def afterDeclarations (s : State Part) : State Part :=
  ((takeListing s.rest).map fun taken =>
    ⟨(.declarations, taken.1.inside) :: s.captured, taken.2⟩).getD s

def afterSuggestion (s : State Part) : State Part where
  captured :=
    if (takeSuggestion s.rest).1 = [] then s.captured
    else (.suggestion, (takeSuggestion s.rest).1) :: s.captured
  rest := (takeSuggestion s.rest).2

theorem search_group_suggestion (s : State Part) :
    search (.group .suggestion targetPattern) some s =
      (takeTarget s.rest).map fun taken =>
        ⟨(.suggestion, taken.1.1 ++ (taken.1.2.map Listing.text).getD []) :: s.captured, taken.2⟩ := by
  rw [search_group, search_targetPattern]
  · cases htarget : takeTarget s.rest with
    | none => rfl
    | some taken =>
      obtain ⟨⟨path, listing⟩, rest⟩ := taken
      have htake := take_append_length (path ++ (listing.map Listing.text).getD []) rest
      rw [← (shape_of_takeTarget htarget).1] at htake
      rw [Option.bind_some, htake]
      rfl
  · exact fun _ => rfl

theorem search_suggestionPattern (s : State Part) :
    suggestionPattern.search some s = some (afterSuggestion s) := by
  obtain ⟨captured, text⟩ := s
  rw [suggestionPattern, search_either, search_seq, search_nothing]
  cases text with
  | nil => rfl
  | cons c text =>
    by_cases hc : c = '='
    · subst hc
      rw [search_one_self, search_group_suggestion]
      cases htarget : takeTarget text with
      | none => simp [afterSuggestion, takeSuggestion, htarget]
      | some taken =>
        obtain ⟨⟨path, listing⟩, rest⟩ := taken
        obtain ⟨_, hpath, _⟩ := shape_of_takeTarget htarget
        have hne : path ≠ [] := by
          rintro rfl
          exact absurd hpath.two_le_length (by simp)
        simp [afterSuggestion, takeSuggestion, htarget, hne]
    · rw [search_one_of_ne hc]
      simp [afterSuggestion, takeSuggestion, hc]

theorem search_declarationsPattern (s : State Part) :
    declarationsPattern.search (suggestionPattern.search some) s =
      some (afterSuggestion (afterDeclarations s)) := by
  have hnext : ∀ s, (suggestionPattern.search some s).isSome = true := by
    intro s
    rw [search_suggestionPattern]
    rfl
  have hlist : (listPattern (.group .declarations (.many isListChar))).search
      (suggestionPattern.search some) s =
      ((takeListing s.rest).map fun taken =>
        ⟨(.declarations, taken.1.inside) :: s.captured, taken.2⟩).bind
        (suggestionPattern.search some) := by
    rw [Option.bind_map]
    exact search_list (fun inside rest =>
      suggestionPattern.search some ⟨(.declarations, inside) :: s.captured, rest⟩)
      (search_group_inside s.captured) s.rest
  rw [declarationsPattern, search_either_nothing hnext hlist, search_suggestionPattern]
  rfl

/-- **A match of the pattern is what the reader takes.** -/
theorem match?_rulePattern (text : List Char) :
    rulePattern.match? text = (takePath text).map fun taken =>
      afterSuggestion (afterDeclarations ⟨[(.importPath, taken.1)], taken.2⟩) := by
  rw [match?, rulePattern, search_seq, search_group, search_path]
  · cases hpath : takePath text with
    | none => rfl
    | some taken =>
      obtain ⟨path, more⟩ := taken
      have htake := take_append_length path more
      rw [← (takePath_eq_some_iff.1 hpath).1] at htake
      rw [Option.bind_some, htake, search_seq, search_declarationsPattern]
      rfl
  · intro s
    rw [search_seq, search_declarationsPattern]
    rfl

theorem ruleOf_afterSuggestion {s : State Part} (h : s.captured.lookup .suggestion = none) :
    ruleOf (afterSuggestion s) =
      { ruleOf s with suggestion := String.ofList (takeSuggestion s.rest).1 } := by
  unfold afterSuggestion
  by_cases hnil : (takeSuggestion s.rest).1 = []
  · simp [ruleOf, hnil, h]
  · rw [if_neg hnil]
    rfl

/-- The rule that a match stands for, and the text behind the match, are those of the reader. -/
theorem map_ruleOf_match? (text : List Char) :
    (rulePattern.match? text).map (fun found => (ruleOf found, found.rest)) = takeRule text := by
  rw [match?_rulePattern]
  cases hpath : takePath text with
  | none => exact (takeRule_eq_none_iff.2 hpath).symm
  | some taken =>
    obtain ⟨path, more⟩ := taken
    have htarget := takeTarget_of_takePath hpath
    rw [Option.map_some, Option.map_some]
    cases hlisting : takeListing more with
    | none =>
      rw [hlisting] at htarget
      rw [takeRule_of_takeTarget htarget]
      have hafter : afterDeclarations ⟨[(.importPath, path)], more⟩ = ⟨[(.importPath, path)], more⟩ := by
        rw [afterDeclarations, hlisting]
        rfl
      rw [hafter, ruleOf_afterSuggestion rfl]
      rfl
    | some taken =>
      obtain ⟨listing, rest⟩ := taken
      have hne := (takeListing_eq_some_iff.1 hlisting).2.1
      rw [hlisting] at htarget
      rw [takeRule_of_takeTarget htarget]
      have hafter : afterDeclarations ⟨[(.importPath, path)], more⟩ =
          ⟨[(.declarations, listing.inside), (.importPath, path)], rest⟩ := by
        rw [afterDeclarations, hlisting]
        rfl
      have hrule : (ruleOf ⟨[(.declarations, listing.inside), (.importPath, path)], rest⟩) =
          ⟨String.ofList path, listing.names, ""⟩ := by
        show Rule.mk _ (if listing.inside = [] then [] else _) _ = _
        rw [if_neg hne]
        rfl
      rw [hafter, ruleOf_afterSuggestion rfl, hrule]
      rfl

theorem proper_rulePattern : rulePattern.Proper := by
  intro text found hfound
  have htaken := map_ruleOf_match? text
  rw [hfound, Option.map_some] at htaken
  cases text with
  | nil =>
    rw [takeRule_eq_none_iff.2 (takePath_eq_none_iff.2 (by simp))] at htaken
    exact absurd htaken (by simp)
  | cons c text => exact length_takeRule htaken.symm

/-! ### All matches -/

theorem allMatches_of_match? {text : List Char} {found : State Part}
    (h : rulePattern.match? text = some found) :
    allMatches proper_rulePattern text = found :: allMatches proper_rulePattern found.rest := by
  cases text with
  | nil => exact absurd (proper_rulePattern [] found h) (by simp)
  | cons c more =>
    rw [allMatches.eq_def]
    simp only
    split
    · rename_i found' h'
      rw [h] at h'
      cases h'
      rfl
    · rename_i h'
      rw [h] at h'
      exact absurd h' (by simp)

theorem allMatches_cons_of_none {c : Char} {more : List Char}
    (h : rulePattern.match? (c :: more) = none) :
    allMatches proper_rulePattern (c :: more) = allMatches proper_rulePattern more := by
  rw [allMatches.eq_def]
  simp only
  split
  · rename_i found h'
    rw [h] at h'
    exact absurd h' (by simp)
  · rfl

theorem match?_eq_none_iff {text : List Char} :
    rulePattern.match? text = none ↔ takePath text = none := by
  rw [← takeRule_eq_none_iff, ← map_ruleOf_match?, Option.map_eq_none_iff]

/-- **In the rest of a run that has no path, no match starts.** -/
theorem allMatches_dropWhile {text : List Char} (h : EndsPath text) :
    allMatches proper_rulePattern text =
      allMatches proper_rulePattern (text.dropWhile isPathChar) := by
  induction text with
  | nil => rfl
  | cons c text ih =>
    by_cases hc : isPathChar c = true
    · have hrest := endsPath_of_cons hc h
      have hnone : takePath (c :: text) = none := by
        rw [takePath_eq_none_iff, List.takeWhile_cons_of_pos hc]
        exact hrest
      rw [allMatches_cons_of_none (match?_eq_none_iff.2 hnone), ih hrest,
        List.dropWhile_cons_of_pos hc]
    · rw [List.dropWhile_cons_of_neg hc]

theorem map_ruleOf_allMatches (text : List Char) :
    (allMatches proper_rulePattern text).map ruleOf = rulesOf text := by
  fun_induction rulesOf text with
  | case1 => simp [allMatches]
  | case2 c more rule rest htaken ih =>
    rw [← map_ruleOf_match?] at htaken
    obtain ⟨found, hfound, hpair⟩ := Option.map_eq_some_iff.1 htaken
    cases hpair
    rw [allMatches_of_match? hfound, List.map_cons, ih]
  | case3 c more hnone hc ih =>
    have hpath := takeRule_eq_none_iff.1 hnone
    have hends : EndsPath more := by
      rw [takePath_eq_none_iff, List.takeWhile_cons_of_pos hc] at hpath
      exact hpath
    rw [allMatches_cons_of_none (match?_eq_none_iff.2 hpath), allMatches_dropWhile hends, ih]
  | case4 c more hnone hc ih =>
    have hpath := takeRule_eq_none_iff.1 hnone
    rw [allMatches_cons_of_none (match?_eq_none_iff.2 hpath), ih]

end Policy

/-- The rules of a policy text as the matches of the pattern of a rule. -/
def patternRules (text : String) : List Rule :=
  (Pattern.allMatches Policy.proper_rulePattern (withoutBlanks text).toList).map Policy.ruleOf

/-- **Backtracking is never observable**: the matches of the pattern stand for the rules that one pass
without it reads. -/
theorem patternRules_eq_parsePolicy (text : String) : patternRules text = parsePolicy text :=
  Policy.map_ruleOf_allMatches _

end ImportGuard
