import ImportGuard.Policy.Rule
import ImportGuard.Text.Blank
import ImportGuard.Text.Pieces

/-!
# Reading a policy

A policy is read in **one pass from left to right that never goes back**.  White space does not
count.  At a run of path characters the import path is the run up to its last word character, if that
gives two characters or more; a run without such a path is skipped.  After the path a list of
declarations in braces is taken if it is complete, and then `=` with a suggestion of the same shape
if that is present.  What fits nowhere is skipped, so every text is a policy.
-/

namespace ImportGuard.Policy

/-- A letter, a digit or an underscore. -/
def isWord (c : Char) : Bool :=
  c.isAlphanum || c = '_'

def isPathChar (c : Char) : Bool :=
  isWord c || c = '/' || c = '.' || c = '-'

def isListChar (c : Char) : Bool :=
  isWord c || c = ',' || c = '-'

/-- Takes an import path: the leading path characters up to the last word character among them. -/
def takePath (text : List Char) : Option (List Char × List Char) :=
  let path := Pieces.dropEndWhile (!isWord ·) (text.takeWhile isPathChar)
  if 2 ≤ path.length then some (path, text.drop path.length) else none

/-- Takes the inside of a list in braces and the closing brace. -/
def takeBraced (text : List Char) : Option (List Char × List Char) :=
  match text.takeWhile isListChar, text.dropWhile isListChar with
  | c :: names, '}' :: rest => some (c :: names, rest)
  | _, _ => none

/-- A list of declarations as it is written: whether a point stands before it, and its inside. -/
structure Listing where
  dotted : Bool
  inside : List Char
deriving DecidableEq, Repr

def Listing.text (listing : Listing) : List Char :=
  (if listing.dotted then ['.'] else []) ++ ['{'] ++ listing.inside ++ ['}']

def takeListing : List Char → Option (Listing × List Char)
  | '.' :: '{' :: text => (takeBraced text).map fun (inside, rest) => (⟨true, inside⟩, rest)
  | '{' :: text => (takeBraced text).map fun (inside, rest) => (⟨false, inside⟩, rest)
  | _ => none

/-- Takes a path and, if one follows, a list of declarations. -/
def takeTarget (text : List Char) : Option ((List Char × Option Listing) × List Char) :=
  match takePath text with
  | none => none
  | some (path, rest) =>
    match takeListing rest with
    | none => some ((path, none), rest)
    | some (listing, rest) => some ((path, some listing), rest)

/-- Takes `=` and a suggestion, if both are there. -/
def takeSuggestion : List Char → List Char × List Char
  | '=' :: text =>
    match takeTarget text with
    | none => ([], '=' :: text)
    | some ((path, listing), rest) => (path ++ (listing.map Listing.text).getD [], rest)
  | text => ([], text)

def Listing.names (listing : Listing) : List String :=
  (Pieces.splitOn ',' listing.inside).map String.ofList

def takeRule (text : List Char) : Option (Rule × List Char) :=
  match takeTarget text with
  | none => none
  | some ((path, listing), rest) =>
    let (suggestion, rest) := takeSuggestion rest
    some
      ({ importPath := String.ofList path
         declarations := (listing.map Listing.names).getD []
         suggestion := String.ofList suggestion }, rest)

/-! ### What is taken is a proper part of the text -/

theorem length_takePath {text path rest : List Char} (h : takePath text = some (path, rest)) :
    rest.length < text.length ∨ text = [] := by
  unfold takePath at h
  simp only [Option.ite_none_right_eq_some, Option.some.injEq, Prod.mk.injEq] at h
  obtain ⟨hlen, hpath, hrest⟩ := h
  cases text with
  | nil => exact Or.inr rfl
  | cons c text =>
    left
    rw [← hrest]
    simp only [List.length_drop, List.length_cons]
    omega

theorem length_takeBraced {text inside rest : List Char}
    (h : takeBraced text = some (inside, rest)) : rest.length ≤ text.length := by
  unfold takeBraced at h
  split at h
  · rename_i c names rest' _ hd
    simp only [Option.some.injEq, Prod.mk.injEq] at h
    have hle : (text.dropWhile isListChar).length ≤ text.length :=
      (List.dropWhile_suffix isListChar).length_le
    rw [hd] at hle
    obtain ⟨_, rfl⟩ := h
    simp only [List.length_cons] at hle
    omega
  · simp at h

theorem length_takeListing {text rest : List Char} {listing : Listing}
    (h : takeListing text = some (listing, rest)) : rest.length ≤ text.length := by
  unfold takeListing at h
  split at h
  · obtain ⟨⟨inside, rest'⟩, hb, he⟩ := Option.map_eq_some_iff.1 h
    have := length_takeBraced hb
    simp only [Prod.mk.injEq] at he
    obtain ⟨_, rfl⟩ := he
    simp only [List.length_cons]
    omega
  · obtain ⟨⟨inside, rest'⟩, hb, he⟩ := Option.map_eq_some_iff.1 h
    have := length_takeBraced hb
    simp only [Prod.mk.injEq] at he
    obtain ⟨_, rfl⟩ := he
    simp only [List.length_cons]
    omega
  · simp at h

theorem length_takeTarget {text rest : List Char} {target : List Char × Option Listing}
    (h : takeTarget text = some (target, rest)) : rest.length < text.length ∨ text = [] := by
  unfold takeTarget at h
  cases hp : takePath text with
  | none => simp [hp] at h
  | some pair =>
    obtain ⟨path, more⟩ := pair
    have hpath := length_takePath hp
    simp only [hp] at h
    cases hl : takeListing more with
    | none =>
      simp only [hl, Option.some.injEq, Prod.mk.injEq] at h
      obtain ⟨_, rfl⟩ := h
      exact hpath
    | some pair =>
      obtain ⟨listing, rest'⟩ := pair
      have hlist := length_takeListing hl
      simp only [hl, Option.some.injEq, Prod.mk.injEq] at h
      obtain ⟨_, rfl⟩ := h
      rcases hpath with hlt | hnil
      · exact Or.inl (by omega)
      · exact Or.inr hnil

theorem length_takeSuggestion (text : List Char) :
    (takeSuggestion text).2.length ≤ text.length := by
  unfold takeSuggestion
  split
  · rename_i text
    cases ht : takeTarget text with
    | none => simp
    | some pair =>
      obtain ⟨⟨path, listing⟩, rest⟩ := pair
      rcases length_takeTarget ht with hlt | hnil
      · simp only [List.length_cons]
        omega
      · subst hnil
        simp [takeTarget, takePath, Pieces.dropEndWhile] at ht
  · simp

/-- A rule takes at least one character. -/
theorem length_takeRule {c : Char} {text rest : List Char} {rule : Rule}
    (h : takeRule (c :: text) = some (rule, rest)) : rest.length < (c :: text).length := by
  unfold takeRule at h
  cases ht : takeTarget (c :: text) with
  | none => simp [ht] at h
  | some pair =>
    obtain ⟨⟨path, listing⟩, more⟩ := pair
    have htarget := length_takeTarget ht
    have hsuggestion := length_takeSuggestion more
    simp only [ht, Option.some.injEq, Prod.mk.injEq] at h
    obtain ⟨_, rfl⟩ := h
    rcases htarget with hlt | hnil
    · omega
    · simp at hnil

/-! ### The pass -/

/-- The rules of a text without white space. -/
def rulesOf (text : List Char) : List Rule :=
  match text with
  | [] => []
  | c :: more =>
    match _taken : takeRule (c :: more) with
    | some (rule, rest) => rule :: rulesOf rest
    | none =>
      if isPathChar c then rulesOf (more.dropWhile isPathChar) else rulesOf more
termination_by text.length
decreasing_by
  · exact length_takeRule _taken
  · have := (List.dropWhile_suffix (l := more) isPathChar).length_le
    simp only [List.length_cons]
    omega
  · simp

end ImportGuard.Policy

namespace ImportGuard

/-- **The rules of a policy text**, in the order given. -/
def parsePolicy (text : String) : List Rule :=
  Policy.rulesOf (withoutBlanks text).toList

end ImportGuard
