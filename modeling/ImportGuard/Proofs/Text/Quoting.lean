import ImportGuard.Proofs.Text.Literal

/-!
# Quoting and unquoting

Quoting writes a text as the inside of an interpreted literal, a character after the other.  What is
written for a character is one item that is read as this character (`exists_item_writeChar`), with
one exception.  An **overlong** character is not printable and lies above U+FFFF, so that its code has
five or six digits behind `u`.  Reading takes four of them for the code of some other character, if
there is one, and the digits that are left stand for themselves (`writeChar_of_overlong`).

What is read back is then longer than what was written (`length_add_countP_le`).  So **unquoting
undoes quoting exactly for texts without overlong characters** (`unquote_quote_iff`), whichever
characters count as printable.  Where such a quoted text ends is known without looking at what
follows it (`quoteWith_append_inj`).  A text of plain characters is written as it is
(`quote_of_isPlain`).
-/

namespace ImportGuard

namespace Quoted

/-- A character that is written by a code of more than four digits: it is not printable and lies
above U+FFFF. -/
def Overlong (printable : Char → Bool) (c : Char) : Prop :=
  printable c = false ∧ 0xFFFF < c.toNat

instance (printable : Char → Bool) (c : Char) : Decidable (Overlong printable c) :=
  inferInstanceAs (Decidable (_ ∧ _))

/-! ### The digits of a number -/

def Digit.ofValue (value : Nat) (h : value < 16) : Digit 16 where
  char := value.digitChar
  value := value
  char_eq := Or.inl (by interval_cases value <;> rfl)
  lt_base := h

theorem number_concat {base : Nat} (digits : List (Digit base)) (d : Digit base) :
    number (digits ++ [d]) = base * number digits + d.value := by
  rw [number, List.map_append, List.reverse_append]
  show Nat.ofDigits base (d.value :: (digits.map (·.value)).reverse) = _
  rw [Nat.ofDigits_cons, Nat.add_comm]
  rfl

theorem exists_digits_toDigits (n : Nat) :
    ∃ digits : List (Digit 16), digits.map (·.char) = Nat.toDigits 16 n ∧ number digits = n := by
  induction n using Nat.strong_induction_on with
  | _ n ih =>
    by_cases hn : n < 16
    · refine ⟨[Digit.ofValue n hn], (Nat.toDigits_of_lt_base hn).symm, ?_⟩
      simp [number, Digit.ofValue]
    · obtain ⟨digits, hchars, hnumber⟩ := ih (n / 16) (by omega)
      refine ⟨digits ++ [Digit.ofValue (n % 16) (by omega)], ?_, ?_⟩
      · rw [Nat.toDigits_of_base_le (by decide) (by omega), List.map_append, hchars]
        rfl
      · rw [number_concat, hnumber]
        exact Nat.div_add_mod n 16

/-- What `hex` writes are digits of the number. -/
theorem exists_digits_hex (width n : Nat) :
    ∃ digits : List (Digit 16), digits.map (·.char) = hex width n ∧ number digits = n := by
  obtain ⟨digits, hchars, hnumber⟩ := exists_digits_toDigits n
  refine ⟨List.replicate (width - (Nat.toDigits 16 n).length) (Digit.ofValue 0 (by decide)) ++ digits,
    ?_, ?_⟩
  · rw [List.map_append, List.map_replicate, hchars]
    rfl
  · rw [number, List.map_append, List.map_replicate, List.reverse_append, List.reverse_replicate]
    exact (Nat.ofDigits_append_replicate_zero _).trans hnumber

theorem length_hex_eq {width n : Nat} (hwidth : 0 < width) (hn : n < 16 ^ width) :
    (hex width n).length = width := by
  have hle := (Nat.length_toDigits_le_iff (by decide) hwidth).2 hn
  show (List.replicate _ _ ++ Nat.toDigits 16 n).length = width
  rw [List.length_append, List.length_replicate]
  omega

theorem lt_length_hex {width n : Nat} (hwidth : 0 < width) (hn : 16 ^ width ≤ n) :
    width < (hex width n).length := by
  have hlt := mt (Nat.length_toDigits_le_iff (by decide) hwidth).1 (Nat.not_lt.2 hn)
  show width < (List.replicate _ _ ++ Nat.toDigits 16 n).length
  rw [List.length_append]
  omega

/-! ### What is written for a character -/

theorem isScalar_toNat (c : Char) : IsScalar c.toNat :=
  isScalar_iff_isValidChar.2 c.valid

/-- **A character is written as an item that is read as this character**, unless it is overlong. -/
theorem exists_item_writeChar {printable : Char → Bool} {c : Char}
    (h : ¬ Overlong printable c) :
    ∃ item : Item, item.spelling = writeChar printable c ∧ item.char = c := by
  unfold writeChar
  split_ifs with hmark hline htab hreturn hprintable hascii
  · refine ⟨.escaped (.letter c c ?_), rfl, rfl⟩
    rcases hmark with rfl | rfl <;> decide
  · exact ⟨.escaped (.letter 'n' '\n' (by decide)), rfl, hline.symm⟩
  · exact ⟨.escaped (.letter 't' '\t' (by decide)), rfl, htab.symm⟩
  · exact ⟨.escaped (.letter 'r' '\r' (by decide)), rfl, hreturn.symm⟩
  · exact ⟨.plain c ⟨fun hq => hmark (.inl hq), fun hs => hmark (.inr hs), hline⟩, rfl, rfl⟩
  · obtain ⟨digits, hchars, hnumber⟩ := exists_digits_hex 2 c.toNat
    have hlength := congrArg List.length hchars
    rw [List.length_map, length_hex_eq (by decide) (by omega)] at hlength
    refine ⟨.escaped (.hexByte digits hlength), ?_, ?_⟩
    · rw [← hchars]
      rfl
    · show Char.ofNat (number digits) = c
      rw [hnumber, Char.ofNat_toNat]
  · obtain ⟨digits, hchars, hnumber⟩ := exists_digits_hex 4 c.toNat
    have hlow : c.toNat < 16 ^ 4 := by
      by_contra hhigh
      exact h ⟨eq_false_of_ne_true hprintable, by omega⟩
    have hlength := congrArg List.length hchars
    rw [List.length_map, length_hex_eq (by decide) hlow] at hlength
    refine ⟨.escaped (.shortCode digits hlength (hnumber ▸ isScalar_toNat c)), ?_, ?_⟩
    · rw [← hchars]
      rfl
    · show Char.ofNat (number digits) = c
      rw [hnumber, Char.ofNat_toNat]

/-- An overlong character is written with digits behind those that reading takes. -/
theorem writeChar_of_overlong {printable : Char → Bool} {c : Char} (h : Overlong printable c) :
    ∃ first more : List (Digit 16), first.length = 4 ∧ more ≠ [] ∧
      writeChar printable c = '\\' :: 'u' :: (first.map (·.char) ++ more.map (·.char)) := by
  obtain ⟨hprintable, hhigh⟩ := h
  have hne : ∀ d : Char, d.toNat ≤ 0xFFFF → c ≠ d := by
    rintro d hd rfl
    omega
  obtain ⟨digits, hchars, -⟩ := exists_digits_hex 4 c.toNat
  have hlength := congrArg List.length hchars
  have hlong : 4 < (hex 4 c.toNat).length := lt_length_hex (by decide) (by omega)
  rw [List.length_map] at hlength
  refine ⟨digits.take 4, digits.drop 4, ?_, ?_, ?_⟩
  · rw [List.length_take]
    omega
  · intro hnil
    have := List.drop_eq_nil_iff.1 hnil
    omega
  · have hmarks : ¬ (c = '"' ∨ c = '\\') := by
      rintro (hc | hc)
      · exact hne _ (by decide) hc
      · exact hne _ (by decide) hc
    rw [writeChar, if_neg hmarks, if_neg (hne _ (by decide)), if_neg (hne _ (by decide)),
      if_neg (hne _ (by decide)), if_neg (by rw [hprintable]; decide), if_neg (by omega),
      ← List.map_append, List.take_append_drop, hchars]

/-! ### What is read back -/

theorem Digit.char_ne (d : Digit 16) {c : Char} (h : digit? 16 c = none) : d.char ≠ c := by
  intro hc
  have hd := digit?_of_char_eq d.char_eq d.lt_base
  rw [hc, h] at hd
  cases hd

/-- A digit outside of an escape stands for itself. -/
def Digit.plain (d : Digit 16) : Item :=
  .plain d.char ⟨d.char_ne rfl, d.char_ne rfl, d.char_ne rfl⟩

theorem flatMap_spelling_plain (digits : List (Digit 16)) :
    (digits.map Digit.plain).flatMap Item.spelling = digits.map (·.char) := by
  rw [List.flatMap_map, List.map_eq_flatMap]
  rfl

theorem exists_items_writeChar {printable : Char → Bool} {text : List Char}
    (h : ∀ c ∈ text, ¬ Overlong printable c) :
    ∃ items : List Item, items.flatMap Item.spelling = text.flatMap (writeChar printable) ∧
      items.map Item.char = text := by
  induction text with
  | nil => exact ⟨[], rfl, rfl⟩
  | cons c text ih =>
    obtain ⟨hc, htext⟩ := List.forall_mem_cons.1 h
    obtain ⟨item, hspelling, hchar⟩ := exists_item_writeChar hc
    obtain ⟨items, hspellings, hchars⟩ := ih htext
    refine ⟨item :: items, ?_, ?_⟩
    · rw [List.flatMap_cons, List.flatMap_cons, hspelling, hspellings]
    · rw [List.map_cons, hchar, hchars]

/-- Four digits that are no character are not read. -/
theorem isScalar_of_interpret? {first : List (Digit 16)} (hlength : first.length = 4)
    {rest value : List Char}
    (h : interpret? ('\\' :: 'u' :: (first.map (·.char) ++ rest)) = some value) :
    IsScalar (number first) := by
  rw [interpret?_cons] at h
  obtain ⟨read, hread, -⟩ := Option.bind_eq_some_iff.1 h
  rw [readItem?, if_pos rfl, escape?_u] at hread
  obtain ⟨⟨c, width⟩, hescape, -⟩ := Option.map_eq_some_iff.1 hread
  obtain ⟨n, hdigits, hscalar, -⟩ := map_bind_scalar?_eq_some_iff.1 hescape
  have hfirst : digits? 16 4 (first.map (·.char) ++ rest) = some (number first) :=
    digits?_eq_some_iff.2 ⟨first, rest, hlength, rfl, rfl⟩
  obtain rfl : number first = n := Option.some.inj (hfirst.symm.trans hdigits)
  exact hscalar

/-- **What is read back is longer by a character at least for each that was overlong.** -/
theorem length_add_countP_le {printable : Char → Bool} {text value : List Char}
    (h : interpret? (text.flatMap (writeChar printable)) = some value) :
    text.length + text.countP (Overlong printable) ≤ value.length := by
  induction text generalizing value with
  | nil => exact Nat.zero_le _
  | cons c text ih =>
    rw [List.flatMap_cons] at h
    rw [List.length_cons, List.countP_cons]
    by_cases hc : Overlong printable c
    · rw [if_pos (decide_eq_true hc)]
      obtain ⟨first, more, hfirst, hmore, hwritten⟩ := writeChar_of_overlong hc
      rw [hwritten, List.cons_append, List.cons_append, List.append_assoc] at h
      have hscalar := isScalar_of_interpret? hfirst h
      have hitems : '\\' :: 'u' :: (first.map (·.char) ++ (more.map (·.char) ++
          text.flatMap (writeChar printable))) =
          (Item.escaped (.shortCode first hfirst hscalar) :: more.map Digit.plain).flatMap
            Item.spelling ++ text.flatMap (writeChar printable) := by
        rw [List.flatMap_cons, flatMap_spelling_plain, List.append_assoc]
        rfl
      rw [hitems, interpret?_flatMap_append] at h
      obtain ⟨behind, hbehind, rfl⟩ := Option.map_eq_some_iff.1 h
      have hlength := ih hbehind
      have hpos := List.length_pos_iff.2 hmore
      rw [List.length_append, List.length_map, List.length_cons, List.length_map]
      omega
    · rw [if_neg (by simpa using hc)]
      obtain ⟨item, hspelling, -⟩ := exists_item_writeChar hc
      rw [← hspelling, interpret?_spelling_append] at h
      obtain ⟨behind, hbehind, rfl⟩ := Option.map_eq_some_iff.1 h
      have hlength := ih hbehind
      rw [List.length_cons]
      omega

/-- **Reading back gives the text exactly if no character is overlong.** -/
theorem interpret?_writeChar_iff {printable : Char → Bool} {text : List Char} :
    interpret? (text.flatMap (writeChar printable)) = some text ↔
      ∀ c ∈ text, ¬ Overlong printable c := by
  constructor
  · intro h c hc hover
    have hlength := length_add_countP_le h
    have hpos : 0 < text.countP (Overlong printable) :=
      List.countP_pos_iff.2 ⟨c, hc, decide_eq_true hover⟩
    omega
  · intro h
    exact interpret?_eq_some_iff.2 (exists_items_writeChar h)

theorem toList_quoteWith (printable : Char → Bool) (text : String) :
    (quoteWith printable text).toList =
      '"' :: (text.toList.flatMap (writeChar printable) ++ ['"']) := by
  rw [quoteWith, String.toList_ofList]
  rfl

theorem unquote_quoteWith (printable : Char → Bool) (text : String) :
    unquote (quoteWith printable text) =
      (interpret? (text.toList.flatMap (writeChar printable))).map String.ofList := by
  rw [unquote, toList_quoteWith, unquoteChars?_cons_concat, if_neg (not_not_intro rfl),
    if_neg (by decide), if_pos rfl]

end Quoted

/-- **Unquoting undoes quoting exactly below the overlong characters**, whichever characters are
taken as printable. -/
theorem unquote_quote_iff (text : String) :
    (∀ printable : Char → Bool, unquote (Quoted.quoteWith printable text) = some text ↔
        ∀ c ∈ text.toList, ¬ (printable c = false ∧ 0xFFFF < c.toNat)) ∧
      (unquote (quote text) = some text ↔
        ∀ c ∈ text.toList, ¬ (isPrintable c = false ∧ 0xFFFF < c.toNat)) := by
  have hall : ∀ printable : Char → Bool,
      unquote (Quoted.quoteWith printable text) = some text ↔
        ∀ c ∈ text.toList, ¬ (printable c = false ∧ 0xFFFF < c.toNat) := by
    intro printable
    rw [Quoted.unquote_quoteWith, Option.map_eq_some_iff]
    refine Iff.trans ?_ Quoted.interpret?_writeChar_iff
    constructor
    · rintro ⟨chars, hchars, rfl⟩
      rw [String.toList_ofList] at hchars ⊢
      exact hchars
    · intro h
      exact ⟨text.toList, h, String.ofList_toList⟩
  exact ⟨hall, hall isPrintable⟩

/-- The code of U+E0001 is read as that of U+E000, and its last digit is left. -/
example : unquote (quote (String.ofList [Char.ofNat 0xE0001])) =
    some (String.ofList [Char.ofNat 0xE000, '1']) := by
  decide +kernel

namespace Quoted

/-! ### Where a quoted text ends -/

/-- A row of items before a double quote is known from what it is part of. -/
theorem chars_eq_of_append_quote {a b : List Item} {x y : List Char}
    (h : a.flatMap Item.spelling ++ '"' :: x = b.flatMap Item.spelling ++ '"' :: y) :
    a.map Item.char = b.map Item.char ∧ x = y := by
  have hread : ∀ (item : Item) (rest : List Char),
      readItem? (item.spelling ++ rest) = some (item.char, rest) :=
    fun item rest => readItem?_eq_some_iff.2 ⟨item, rfl, rfl⟩
  induction a generalizing b with
  | nil =>
    cases b with
    | nil => exact ⟨rfl, (List.cons.inj h).2⟩
    | cons item b =>
      have hitem := hread item (b.flatMap Item.spelling ++ '"' :: y)
      rw [← List.append_assoc, ← List.flatMap_cons, ← h, List.flatMap_nil, List.nil_append,
        readItem?_quote] at hitem
      cases hitem
  | cons item a ih =>
    have hitem := hread item (a.flatMap Item.spelling ++ '"' :: x)
    rw [← List.append_assoc, ← List.flatMap_cons, h] at hitem
    cases b with
    | nil =>
      rw [List.flatMap_nil, List.nil_append, readItem?_quote] at hitem
      cases hitem
    | cons other b =>
      have hother := hread other (b.flatMap Item.spelling ++ '"' :: y)
      rw [← List.append_assoc, ← List.flatMap_cons, hitem] at hother
      obtain ⟨hchar, hrest⟩ := Prod.mk.inj (Option.some.inj hother)
      obtain ⟨hchars, hxy⟩ := ih hrest
      rw [List.map_cons, List.map_cons, hchar, hchars]
      exact ⟨rfl, hxy⟩

/-- **A quoted text without overlong characters is known from any text that starts with it.** -/
theorem quoteWith_append_inj {printable : Char → Bool} {a b : String} {x y : List Char}
    (ha : ∀ c ∈ a.toList, ¬ Overlong printable c) (hb : ∀ c ∈ b.toList, ¬ Overlong printable c)
    (h : (quoteWith printable a).toList ++ x = (quoteWith printable b).toList ++ y) :
    a = b ∧ x = y := by
  obtain ⟨items, hitems, hchars⟩ := exists_items_writeChar ha
  obtain ⟨others, hothers, hchars'⟩ := exists_items_writeChar hb
  rw [toList_quoteWith, toList_quoteWith, ← hitems, ← hothers, List.cons_append, List.cons_append,
    List.append_assoc, List.append_assoc, List.cons.injEq] at h
  obtain ⟨hsame, hxy⟩ := chars_eq_of_append_quote h.2
  rw [hchars, hchars'] at hsame
  exact ⟨String.toList_inj.1 hsame, hxy⟩

end Quoted

/-! ### Texts that are quoted as they are -/

namespace Printable

/-- No range of the table meets the characters from the space to the tilde. -/
theorem all_unprintable :
    unprintable.all (fun range => range.2 < 0x20 || 0x7F ≤ range.1) = true := by
  decide +kernel

end Printable

theorem isPrintable_of_le_of_lt {c : Char} (hlow : 0x20 ≤ c.toNat) (hhigh : c.toNat < 0x7F) :
    isPrintable c = true := by
  rw [isPrintable, Bool.not_eq_true', Printable.inRanges, List.any_eq_false]
  intro range hrange hin
  have hside := List.all_eq_true.1 Printable.all_unprintable range hrange
  simp only [Bool.and_eq_true, Bool.or_eq_true, decide_eq_true_eq] at hin hside
  omega

/-- A character from the space to the tilde that is no quote and no backslash. -/
def isPlain (c : Char) : Bool :=
  0x20 ≤ c.toNat && c.toNat < 0x7F && c ≠ '"' && c ≠ '\\'

theorem writeChar_of_isPlain {c : Char} (h : isPlain c = true) :
    Quoted.writeChar isPrintable c = [c] := by
  simp only [isPlain, Bool.and_eq_true, decide_eq_true_eq] at h
  obtain ⟨⟨⟨hlow, hhigh⟩, hquote⟩, hslash⟩ := h
  have hne : ∀ d : Char, d.toNat < 0x20 → c ≠ d := by
    rintro d hd rfl
    omega
  rw [Quoted.writeChar, if_neg (not_or.2 ⟨hquote, hslash⟩), if_neg (hne _ (by decide)),
    if_neg (hne _ (by decide)), if_neg (hne _ (by decide)),
    if_pos (isPrintable_of_le_of_lt hlow hhigh)]

/-- **A text of plain characters is quoted as it is.** -/
theorem quote_of_isPlain {text : String} (h : ∀ c ∈ text.toList, isPlain c = true) :
    quote text = "\"" ++ text ++ "\"" := by
  have hsame : text.toList.flatMap (Quoted.writeChar isPrintable) = text.toList := by
    rw [List.flatMap_congr fun c hc => writeChar_of_isPlain (h c hc), List.flatMap_singleton']
  apply String.toList_inj.1
  rw [quote, Quoted.toList_quoteWith, hsame, String.toList_append, String.toList_append]
  rfl

end ImportGuard
