import ImportGuard.Proofs.Policy.Shape

/-!
# Policies compose

A comma separates rules, but it may also stand inside the braces of a list.  A text that **leaves no
brace open** can be followed by a comma and any other text without the one seeing the other: each
step of the reader takes the same from it as before (`takePath_append_comma` up to
`takeRule_append_comma`), so the rules of the whole are those of the two parts
(`parsePolicy_append_comma`).
-/

namespace ImportGuard

namespace Policy

/-! ### Open braces -/

def isBrace (c : Char) : Bool :=
  c = '{' || c = '}'

/-- No brace is left open: the last brace of the text, if it has any, closes. -/
def Closed (text : List Char) : Prop :=
  (text.filter isBrace).getLast? ≠ some '{'

instance (text : List Char) : Decidable (Closed text) :=
  inferInstanceAs (Decidable (_ ≠ _))

theorem Closed.of_suffix {text rest : List Char} (h : Closed text) (hs : rest <:+ text) :
    Closed rest := by
  obtain ⟨start, rfl⟩ := hs
  intro hlast
  apply h
  rw [List.filter_append, List.getLast?_append, hlast, Option.some_or]

/-- Behind an opening brace, a closed text has a character that no list can hold. -/
theorem Closed.exists_not_isListChar {text : List Char} (h : Closed ('{' :: text)) :
    ∃ c ∈ text, isListChar c = false := by
  by_contra hall
  push Not at hall
  have hnone : text.filter isBrace = [] := by
    rw [List.filter_eq_nil_iff]
    intro c hc hbrace
    have hlist := hall c hc
    rcases Bool.or_eq_true _ _ ▸ hbrace with hopen | hclose
    · rw [of_decide_eq_true hopen] at hlist
      exact hlist (by decide)
    · rw [of_decide_eq_true hclose] at hlist
      exact hlist (by decide)
  apply h
  rw [List.filter_cons_of_pos (by decide), hnone]
  rfl

theorem closed_withoutBlanks {text : String} (h : Closed text.toList) :
    Closed (withoutBlanks text).toList := by
  have hbrace : ∀ c, isBrace c = true → isBlank c = false := by
    intro c hc
    rcases Bool.or_eq_true _ _ ▸ hc with hopen | hclose
    · rw [of_decide_eq_true hopen]
      decide
    · rw [of_decide_eq_true hclose]
      decide
  have hfilter : (text.toList.filter (!isBlank ·)).filter isBrace = text.toList.filter isBrace := by
    rw [List.filter_filter]
    refine List.filter_congr fun c _ => ?_
    cases hc : isBrace c with
    | true => simp [hbrace c hc]
    | false => simp
  rwa [Closed, withoutBlanks, String.toList_ofList, hfilter]

/-! ### Each step before a comma -/

theorem takeWhile_append_comma {p : Char → Bool} (hp : p ',' = false) (text more : List Char) :
    (text ++ ',' :: more).takeWhile p = text.takeWhile p := by
  rw [List.takeWhile_append, List.takeWhile_cons_of_neg (by simp [hp]), List.append_nil]
  split
  · rename_i hlen
    exact ((List.takeWhile_prefix p).eq_of_length hlen).symm
  · rfl

theorem dropWhile_append_comma {p : Char → Bool} (hp : p ',' = false) (text more : List Char) :
    (text ++ ',' :: more).dropWhile p = text.dropWhile p ++ ',' :: more := by
  rw [List.dropWhile_append, List.dropWhile_cons_of_neg (by simp [hp])]
  split
  · rename_i hnil
    rw [List.isEmpty_iff.1 hnil, List.nil_append]
  · rfl

theorem takePath_append_comma (text more : List Char) :
    takePath (text ++ ',' :: more) =
      (takePath text).map fun taken => (taken.1, taken.2 ++ ',' :: more) := by
  cases hpath : takePath text with
  | none =>
    rw [takePath_eq_none_iff] at hpath
    rw [Option.map_none, takePath_eq_none_iff, takeWhile_append_comma (by decide)]
    exact hpath
  | some taken =>
    obtain ⟨path, rest⟩ := taken
    obtain ⟨rfl, hshape, hends⟩ := takePath_eq_some_iff.1 hpath
    rw [Option.map_some, List.append_assoc]
    refine takePath_append hshape ?_
    rw [EndsPath, takeWhile_append_comma (by decide)]
    exact hends

/-- A list in braces ends inside a text that has a character no list can hold, or not at all. -/
theorem takeBraced_append {text : List Char} (h : ∃ c ∈ text, isListChar c = false)
    (more : List Char) :
    takeBraced (text ++ more) =
      (takeBraced text).map fun taken => (taken.1, taken.2 ++ more) := by
  obtain ⟨c, hc, hnot⟩ := h
  cases hbraced : takeBraced text with
  | some taken =>
    obtain ⟨inside, rest⟩ := taken
    obtain ⟨rfl, hinside⟩ := takeBraced_eq_some_iff.1 hbraced
    rw [Option.map_some, takeBraced_eq_some_iff]
    exact ⟨by simp, hinside⟩
  | none =>
    rw [Option.map_none, Option.eq_none_iff_forall_ne_some]
    rintro ⟨inside, rest⟩ htaken
    obtain ⟨happend, hinside⟩ := takeBraced_eq_some_iff.1 htaken
    rcases List.append_eq_append_iff.1 happend with ⟨tail, hlong, _⟩ | ⟨tail, hshort, htail⟩
    · rw [hinside.2 c (hlong ▸ List.mem_append_left tail hc)] at hnot
      exact absurd hnot (by decide)
    · cases tail with
      | nil =>
        rw [List.append_nil] at hshort
        rw [hinside.2 c (hshort ▸ hc)] at hnot
        exact absurd hnot (by decide)
      | cons d tail =>
        obtain ⟨rfl, _⟩ := List.cons.inj htail
        rw [takeBraced_eq_some_iff.2 ⟨hshort, hinside⟩] at hbraced
        exact absurd hbraced (by simp)

theorem takeListing_append_comma {text : List Char} (h : Closed text) (more : List Char) :
    takeListing (text ++ ',' :: more) =
      (takeListing text).map fun taken => (taken.1, taken.2 ++ ',' :: more) := by
  cases text with
  | nil => rfl
  | cons c text =>
    by_cases hopen : c = '{'
    · subst hopen
      simp only [List.cons_append, takeListing, takeBraced_append h.exists_not_isListChar,
        Option.map_map]
      rfl
    · by_cases hdot : c = '.'
      · subst hdot
        cases text with
        | nil => rfl
        | cons d text =>
          by_cases hopen : d = '{'
          · subst hopen
            have hinner : Closed ('{' :: text) := h.of_suffix (List.suffix_cons _ _)
            simp only [List.cons_append, takeListing, takeBraced_append hinner.exists_not_isListChar,
              Option.map_map]
            rfl
          · simp [takeListing, hopen]
      · simp [takeListing, hopen, hdot]

theorem takeTarget_append_comma {text : List Char} (h : Closed text) (more : List Char) :
    takeTarget (text ++ ',' :: more) =
      (takeTarget text).map fun taken => (taken.1, taken.2 ++ ',' :: more) := by
  cases hpath : takePath text with
  | none => simp [takeTarget, takePath_append_comma, hpath]
  | some taken =>
    obtain ⟨path, rest⟩ := taken
    have hclosed : Closed rest := h.of_suffix ⟨path, (takePath_eq_some_iff.1 hpath).1.symm⟩
    have hpath' : takePath (text ++ ',' :: more) = some (path, rest ++ ',' :: more) := by
      rw [takePath_append_comma, hpath]
      rfl
    rw [takeTarget_of_takePath hpath, takeTarget_of_takePath hpath',
      takeListing_append_comma hclosed]
    cases takeListing rest with
    | none => rfl
    | some taken => rfl

theorem takeSuggestion_append_comma {text : List Char} (h : Closed text) (more : List Char) :
    takeSuggestion (text ++ ',' :: more) =
      ((takeSuggestion text).1, (takeSuggestion text).2 ++ ',' :: more) := by
  cases text with
  | nil => rfl
  | cons c text =>
    by_cases heq : c = '='
    · subst heq
      have hclosed : Closed text := h.of_suffix (List.suffix_cons _ _)
      simp only [List.cons_append, takeSuggestion, takeTarget_append_comma hclosed]
      cases takeTarget text with
      | none => rfl
      | some taken => rfl
    · simp [takeSuggestion, heq]

theorem takeRule_append_comma {text : List Char} (h : Closed text) (more : List Char) :
    takeRule (text ++ ',' :: more) =
      (takeRule text).map fun taken => (taken.1, taken.2 ++ ',' :: more) := by
  cases htarget : takeTarget text with
  | none => simp [takeRule, takeTarget_append_comma h, htarget]
  | some taken =>
    obtain ⟨⟨path, listing⟩, rest⟩ := taken
    have hclosed : Closed rest := h.of_suffix (takeTarget_suffix htarget)
    have htarget' : takeTarget (text ++ ',' :: more) =
        some ((path, listing), rest ++ ',' :: more) := by
      rw [takeTarget_append_comma h, htarget]
      rfl
    rw [takeRule_of_takeTarget htarget, takeRule_of_takeTarget htarget',
      takeSuggestion_append_comma hclosed]
    rfl

/-! ### The pass before a comma -/

theorem rulesOf_append_comma {text : List Char} (h : Closed text) (more : List Char) :
    rulesOf (text ++ ',' :: more) = rulesOf text ++ rulesOf more := by
  fun_induction rulesOf text with
  | case1 => exact rulesOf_cons_of_not_isPathChar (by decide) more
  | case2 c behind rule rest htaken ih =>
    have htaken' : takeRule (c :: behind ++ ',' :: more) = some (rule, rest ++ ',' :: more) := by
      rw [takeRule_append_comma h, htaken]
      rfl
    rw [rulesOf_of_takeRule htaken', ih (h.of_suffix (takeRule_suffix htaken)), List.cons_append]
  | case3 c behind hnone hc ih =>
    have hnone' : takeRule (c :: (behind ++ ',' :: more)) = none := by
      rw [← List.cons_append, takeRule_append_comma h, hnone]
      rfl
    have hclosed : Closed (behind.dropWhile isPathChar) :=
      h.of_suffix ((List.dropWhile_suffix _).trans (List.suffix_cons _ _))
    rw [List.cons_append, rulesOf_of_not_takeRule hnone', if_pos hc,
      dropWhile_append_comma (by decide), ih hclosed]
  | case4 c behind hnone hc ih =>
    have hnone' : takeRule (c :: (behind ++ ',' :: more)) = none := by
      rw [← List.cons_append, takeRule_append_comma h, hnone]
      rfl
    rw [List.cons_append, rulesOf_of_not_takeRule hnone', if_neg hc,
      ih (h.of_suffix (List.suffix_cons _ _))]

end Policy

/-- **Policies compose**: behind a text that leaves no brace open, a comma and another text add the
rules of that text and change none. -/
theorem parsePolicy_append_comma {first : String} (h : Policy.Closed first.toList)
    (second : String) :
    parsePolicy (first ++ "," ++ second) = parsePolicy first ++ parsePolicy second := by
  have hlist : (withoutBlanks (first ++ "," ++ second)).toList =
      (withoutBlanks first).toList ++ ',' :: (withoutBlanks second).toList := by
    simp only [withoutBlanks, String.toList_append, String.toList_ofList, List.filter_append]
    rw [List.append_assoc]
    rfl
  unfold parsePolicy
  rw [hlist, Policy.rulesOf_append_comma (Policy.closed_withoutBlanks h)]

/-- Before the comma stand a list that is never completed and a brace that closes nothing; behind it
a brace is left open. -/
theorem parsePolicy_append_comma_malformed :
    Policy.Closed "fmt.\x7bErrorf,=log.\x7bFatal\x7d, \x7d".toList ∧
      parsePolicy ("fmt.\x7bErrorf,=log.\x7bFatal\x7d, \x7d" ++ "," ++ "errors=os.\x7bOpen") =
        parsePolicy "fmt.\x7bErrorf,=log.\x7bFatal\x7d, \x7d" ++
          parsePolicy "errors=os.\x7bOpen" := by
  have h : Policy.Closed "fmt.\x7bErrorf,=log.\x7bFatal\x7d, \x7d".toList := by decide
  exact ⟨h, parsePolicy_append_comma h _⟩

end ImportGuard
