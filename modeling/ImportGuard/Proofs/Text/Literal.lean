import ImportGuard.Text.Quoted
import ImportGuard.Text.Utf8
import Mathlib.Data.List.Basic
import Mathlib.Data.Nat.Digits.Defs
import Mathlib.Tactic.IntervalCases

/-!
# The grammar of string literals

A **literal** is raw or interpreted.  A raw one is a text without backquotes between backquotes.  An
interpreted one is a row of *items* between double quotes: an item is a character that stands for
itself, or a backslash and an *escape*.  The types of this file hold what the grammar allows and
nothing else, so to spell a literal is a function on them.

Reading takes one item after the other from the front of a text.  It finds the item that the text
starts with, whatever follows (`readItem?_eq_some_iff`), and nothing but items
(`interpret?_eq_some_iff`).  So **a text can be unquoted exactly if it spells a literal**
(`unquote_iff_literal`).

In a literal an escape of two hexadecimal or three octal digits denotes a byte.  It is read as the
character with that code, which takes a second byte from 128 on, and nothing behind it makes up for
that (`flatMap_bytes_eq_iff`).
-/

namespace ImportGuard

namespace Quoted

/-- The digits in the order of their values, with small letters. -/
def smallDigits : List Char :=
  ['0', '1', '2', '3', '4', '5', '6', '7', '8', '9', 'a', 'b', 'c', 'd', 'e', 'f']

/-- The digits in the order of their values, with capital letters. -/
def capitalDigits : List Char :=
  ['0', '1', '2', '3', '4', '5', '6', '7', '8', '9', 'A', 'B', 'C', 'D', 'E', 'F']

/-- A digit of a base up to sixteen: how it is written and what it counts. -/
structure Digit (base : Nat) where
  char : Char
  value : Nat
  char_eq : smallDigits[value]? = some char ∨ capitalDigits[value]? = some char
  lt_base : value < base

/-- The number that digits write, the highest first. -/
def number {base : Nat} (digits : List (Digit base)) : Nat :=
  Nat.ofDigits base (digits.map (·.value)).reverse

/-- Whether a code belongs to a character: it is not too large and no surrogate. -/
def IsScalar (code : Nat) : Prop :=
  code ≤ 0x10FFFF ∧ ¬ (0xD800 ≤ code ∧ code ≤ 0xDFFF)

/-- The escapes of one letter, with what they stand for. -/
def letterEscapes : List (Char × Char) :=
  [('a', '\x07'), ('b', '\x08'), ('f', '\x0C'), ('n', '\n'), ('r', '\r'), ('t', '\t'),
    ('v', '\x0B'), ('\\', '\\'), ('"', '"')]

/-- What may follow a backslash. -/
inductive Escape where
  /-- A letter of the table. -/
  | letter (c value : Char) (listed : (c, value) ∈ letterEscapes)
  /-- `x` and two digits: a byte. -/
  | hexByte (digits : List (Digit 16)) (length_eq : digits.length = 2)
  /-- Three octal digits: a byte. -/
  | octalByte (digits : List (Digit 8)) (length_eq : digits.length = 3)
      (le : number digits ≤ 255)
  /-- `u` and four digits: a character. -/
  | shortCode (digits : List (Digit 16)) (length_eq : digits.length = 4)
      (scalar : IsScalar (number digits))
  /-- `U` and eight digits: a character. -/
  | longCode (digits : List (Digit 16)) (length_eq : digits.length = 8)
      (scalar : IsScalar (number digits))

namespace Escape

/-- How an escape is written, without its backslash. -/
def spelling : Escape → List Char
  | letter c _ _ => [c]
  | hexByte digits _ => 'x' :: digits.map (·.char)
  | octalByte digits _ _ => digits.map (·.char)
  | shortCode digits _ _ => 'u' :: digits.map (·.char)
  | longCode digits _ _ => 'U' :: digits.map (·.char)

def char : Escape → Char
  | letter _ value _ => value
  | hexByte digits _ => Char.ofNat (number digits)
  | octalByte digits _ _ => Char.ofNat (number digits)
  | shortCode digits _ _ => Char.ofNat (number digits)
  | longCode digits _ _ => Char.ofNat (number digits)

def byte? : Escape → Option Nat
  | hexByte digits _ => some (number digits)
  | octalByte digits _ _ => some (number digits)
  | letter _ _ _ | shortCode _ _ _ | longCode _ _ _ => none

end Escape

/-- What an interpreted literal is made of. -/
inductive Item where
  /-- A character that stands for itself. -/
  | plain (c : Char) (free : c ≠ '"' ∧ c ≠ '\\' ∧ c ≠ '\n')
  /-- A backslash and an escape. -/
  | escaped (escape : Escape)

namespace Item

def spelling : Item → List Char
  | plain c _ => [c]
  | escaped escape => '\\' :: escape.spelling

def char : Item → Char
  | plain c _ => c
  | escaped escape => escape.char

def byte? : Item → Option Nat
  | plain _ _ => none
  | escaped escape => escape.byte?

def bytes (item : Item) : List UInt8 :=
  match item.byte? with
  | some n => [UInt8.ofNat n]
  | none => String.utf8EncodeChar item.char

end Item

end Quoted

inductive Literal where
  /-- A text between backquotes. -/
  | raw (body : List Char) (free : '\x60' ∉ body)
  /-- Items between double quotes. -/
  | interpreted (items : List Quoted.Item)

namespace Literal

def spelling : Literal → String
  | raw body _ => String.ofList ('\x60' :: body ++ ['\x60'])
  | interpreted items => String.ofList ('"' :: items.flatMap Quoted.Item.spelling ++ ['"'])

/-- The text that a literal stands for: carriage returns of a raw one do not count. -/
def value : Literal → String
  | raw body _ => String.ofList (body.filter (· ≠ '\r'))
  | interpreted items => String.ofList (items.map Quoted.Item.char)

def bytes : Literal → List UInt8
  | raw body _ => (body.filter (· ≠ '\r')).flatMap String.utf8EncodeChar
  | interpreted items => items.flatMap Quoted.Item.bytes

/-- The items of a literal; a raw one has none. -/
def items : Literal → List Quoted.Item
  | raw _ _ => []
  | interpreted items => items

end Literal

namespace Quoted

/-! ### Digits -/

theorem char_eq_of_digit? {base : Nat} {c : Char} {value : Nat} (h : digit? base c = some value) :
    smallDigits[value]? = some c ∨ capitalDigits[value]? = some c := by
  obtain ⟨hvalue, -⟩ := Option.filter_eq_some_iff.1 h
  have hcode : value < 10 ∧ c.toNat = 48 + value ∨
      10 ≤ value ∧ value < 16 ∧ (c.toNat = 87 + value ∨ c.toNat = 55 + value) := by
    simp only [Char.le_def, UInt32.le_iff_toNat_le, ← Char.toNat_val] at hvalue ⊢
    have h0 : ('0' : Char).val.toNat = 48 := rfl
    have h9 : ('9' : Char).val.toNat = 57 := rfl
    have ha : ('a' : Char).val.toNat = 97 := rfl
    have hf : ('f' : Char).val.toNat = 102 := rfl
    have hA : ('A' : Char).val.toNat = 65 := rfl
    have hF : ('F' : Char).val.toNat = 70 := rfl
    rw [h0, h9, ha, hf, hA, hF] at hvalue
    split_ifs at hvalue <;> injection hvalue <;> omega
  rcases hcode with ⟨hlt, hcode⟩ | ⟨hle, hlt, hcode | hcode⟩
  all_goals
    rw [← Char.ofNat_toNat c, hcode]
    clear hvalue h hcode
    interval_cases value <;> decide

theorem digit?_of_char_eq {base : Nat} {c : Char} {value : Nat}
    (hc : smallDigits[value]? = some c ∨ capitalDigits[value]? = some c) (hbase : value < base) :
    digit? base c = some value := by
  have hlt : value < 16 := by
    rcases hc with hc | hc
    · exact (List.getElem?_eq_some_iff.1 hc).1
    · exact (List.getElem?_eq_some_iff.1 hc).1
  refine Option.filter_eq_some_iff.2 ⟨?_, decide_eq_true hbase⟩
  interval_cases value <;> rcases hc with hc | hc <;> obtain rfl := Option.some.inj hc <;> decide

theorem digit?_eq_some_iff {base : Nat} {c : Char} {value : Nat} :
    digit? base c = some value ↔ ∃ d : Digit base, d.char = c ∧ d.value = value := by
  constructor
  · intro h
    have hbase := (Option.filter_eq_some_iff.1 h).2
    exact ⟨⟨c, value, char_eq_of_digit? h, of_decide_eq_true hbase⟩, rfl, rfl⟩
  · rintro ⟨d, rfl, rfl⟩
    exact digit?_of_char_eq d.char_eq d.lt_base

theorem mapM_digit?_eq_some_iff {base : Nat} {chars : List Char} {values : List Nat} :
    chars.mapM (digit? base) = some values ↔
      ∃ digits : List (Digit base), digits.map (·.char) = chars ∧ digits.map (·.value) = values := by
  induction chars generalizing values with
  | nil =>
    constructor
    · intro h
      exact ⟨[], rfl, Option.some.inj h⟩
    · rintro ⟨digits, hchars, rfl⟩
      rw [List.map_eq_nil_iff.1 hchars]
      rfl
  | cons c chars ih =>
    rw [List.mapM_cons]
    constructor
    · intro h
      obtain ⟨value, hc, h⟩ := Option.bind_eq_some_iff.1 h
      obtain ⟨more, hmore, h⟩ := Option.bind_eq_some_iff.1 h
      obtain rfl := Option.some.inj h
      obtain ⟨d, rfl, rfl⟩ := digit?_eq_some_iff.1 hc
      obtain ⟨digits, rfl, rfl⟩ := ih.1 hmore
      exact ⟨d :: digits, rfl, rfl⟩
    · rintro ⟨digits, hchars, rfl⟩
      obtain ⟨d, digits, rfl, rfl, rfl⟩ := List.map_eq_cons_iff.1 hchars
      rw [digit?_eq_some_iff.2 ⟨d, rfl, rfl⟩, ih.2 ⟨digits, rfl, rfl⟩]
      rfl

/-- Digits read from the left add up to their number. -/
theorem foldl_values {base : Nat} (digits : List (Digit base)) :
    (digits.map (·.value)).foldl (fun n d => n * base + d) 0 = number digits := by
  rw [number, Nat.ofDigits_eq_foldr, List.foldr_reverse]
  congr 1
  funext n d
  rw [Nat.cast_id, Nat.mul_comm, Nat.add_comm]

theorem digits?_eq_some_iff {base count : Nat} {text : List Char} {n : Nat} :
    digits? base count text = some n ↔
      ∃ digits : List (Digit base), ∃ rest, digits.length = count ∧
        digits.map (·.char) ++ rest = text ∧ number digits = n := by
  unfold digits?
  constructor
  · intro h
    split at h
    · cases h
    · rename_i hlength
      obtain ⟨values, hvalues, rfl⟩ := Option.map_eq_some_iff.1 h
      obtain ⟨digits, hchars, rfl⟩ := mapM_digit?_eq_some_iff.1 hvalues
      refine ⟨digits, text.drop count, ?_, ?_, (foldl_values digits).symm⟩
      · have hlen := congrArg List.length hchars
        rw [List.length_map, List.length_take] at hlen
        omega
      · rw [hchars, List.take_append_drop]
  · rintro ⟨digits, rest, rfl, rfl, rfl⟩
    have htake : (digits.map (·.char) ++ rest).take digits.length = digits.map (·.char) := by
      rw [List.take_append_of_le_length (by simp), List.take_of_length_le (by simp)]
    rw [if_neg (by simp), htake, mapM_digit?_eq_some_iff.2 ⟨digits, rfl, rfl⟩, Option.map_some,
      foldl_values]

/-! ### Escapes -/

theorem number_lt {base : Nat} (hbase : 1 < base) (digits : List (Digit base)) :
    number digits < base ^ digits.length := by
  have hlt : ∀ value ∈ (digits.map (·.value)).reverse, value < base := by
    intro value hvalue
    obtain ⟨d, -, rfl⟩ := List.mem_map.1 (List.mem_reverse.1 hvalue)
    exact d.lt_base
  have h := Nat.ofDigits_lt_base_pow_length hbase hlt
  rwa [List.length_reverse, List.length_map] at h

theorem isScalar_of_lt {n : Nat} (h : n < 0xD800) : IsScalar n := by
  unfold IsScalar
  omega

theorem isScalar_iff_isValidChar {n : Nat} : IsScalar n ↔ n.isValidChar := by
  unfold IsScalar Nat.isValidChar
  omega

theorem scalar?_eq_some_iff {n : Nat} {c : Char} :
    scalar? n = some c ↔ IsScalar n ∧ Char.ofNat n = c := by
  rw [isScalar_iff_isValidChar, scalar?]
  by_cases h : n.isValidChar
  · rw [dif_pos h, Option.some.injEq, Char.ofNat, dif_pos h]
    exact (and_iff_right h).symm
  · rw [dif_neg h]
    exact iff_of_false (Option.some_ne_none c).symm fun hscalar => h hscalar.1

theorem simpleEscape?_eq_some_iff {c value : Char} :
    simpleEscape? c = some value ↔ (c, value) ∈ letterEscapes := by
  constructor
  · intro h
    unfold simpleEscape? at h
    split at h <;> cases h <;> decide
  · intro h
    simp only [letterEscapes, List.mem_cons, Prod.mk.injEq, List.not_mem_nil, or_false] at h
    rcases h with h | h | h | h | h | h | h | h | h <;> obtain ⟨rfl, rfl⟩ := h <;> rfl

theorem escape?_x (rest : List Char) :
    escape? ('x' :: rest) = ((digits? 16 2 rest).bind scalar?).map (·, 3) := rfl

theorem escape?_u (rest : List Char) :
    escape? ('u' :: rest) = ((digits? 16 4 rest).bind scalar?).map (·, 5) := rfl

theorem escape?_U (rest : List Char) :
    escape? ('U' :: rest) = ((digits? 16 8 rest).bind scalar?).map (·, 9) := rfl

theorem escape?_octal (d : Digit 8) (rest : List Char) :
    escape? (d.char :: rest) =
      (((digits? 8 3 (d.char :: rest)).filter (· ≤ 255)).bind scalar?).map (·, 3) := by
  obtain ⟨c, value, hc, hvalue⟩ := d
  dsimp only
  interval_cases value <;> rcases hc with hc | hc <;> obtain rfl := Option.some.inj hc <;> rfl

theorem map_bind_scalar?_eq_some_iff {found : Option Nat} {c : Char} {taken width : Nat} :
    (found.bind scalar?).map (·, taken) = some (c, width) ↔
      ∃ n, found = some n ∧ IsScalar n ∧ Char.ofNat n = c ∧ taken = width := by
  simp only [Option.map_eq_some_iff, Option.bind_eq_some_iff, scalar?_eq_some_iff, Prod.mk.injEq]
  constructor
  · rintro ⟨d, ⟨n, hfound, hscalar, hd⟩, rfl, hwidth⟩
    exact ⟨n, hfound, hscalar, hd, hwidth⟩
  · rintro ⟨n, hfound, hscalar, hd, hwidth⟩
    exact ⟨c, ⟨n, hfound, hscalar, hd⟩, rfl, hwidth⟩

/-- What is read as the code of a character are its digits. -/
theorem code_eq_some_iff {count taken width : Nat} {text : List Char} {c : Char} :
    ((digits? 16 count text).bind scalar?).map (·, taken) = some (c, width) ↔
      ∃ digits : List (Digit 16), ∃ rest, digits.length = count ∧
        digits.map (·.char) ++ rest = text ∧ IsScalar (number digits) ∧
        Char.ofNat (number digits) = c ∧ taken = width := by
  rw [map_bind_scalar?_eq_some_iff]
  constructor
  · rintro ⟨n, hdigits, hscalar, hc, hwidth⟩
    obtain ⟨digits, rest, hlength, htext, rfl⟩ := digits?_eq_some_iff.1 hdigits
    exact ⟨digits, rest, hlength, htext, hscalar, hc, hwidth⟩
  · rintro ⟨digits, rest, hlength, htext, hscalar, hc, hwidth⟩
    exact ⟨number digits, digits?_eq_some_iff.2 ⟨digits, rest, hlength, htext, rfl⟩, hscalar, hc,
      hwidth⟩

/-- An escape is read back, whatever follows it. -/
theorem escape?_spelling (escape : Escape) (rest : List Char) :
    escape? (escape.spelling ++ rest) = some (escape.char, escape.spelling.length) := by
  cases escape with
  | letter c value listed =>
    show escape? (c :: rest) = some (value, 1)
    rw [escape?, simpleEscape?_eq_some_iff.2 listed]
  | hexByte digits length_eq =>
    have hlt := number_lt (by decide) digits
    rw [length_eq] at hlt
    refine (escape?_x _).trans (code_eq_some_iff.2
      ⟨digits, rest, length_eq, rfl, isScalar_of_lt (by omega), rfl, ?_⟩)
    simp [Escape.spelling, length_eq]
  | octalByte digits length_eq le =>
    obtain ⟨d, more, rfl⟩ := List.exists_cons_of_length_eq_add_one length_eq
    refine (escape?_octal d _).trans (map_bind_scalar?_eq_some_iff.2 ⟨number (d :: more),
      Option.filter_eq_some_iff.2 ⟨digits?_eq_some_iff.2 ⟨d :: more, rest, length_eq, rfl, rfl⟩,
        decide_eq_true le⟩, isScalar_of_lt (by omega), rfl, ?_⟩)
    simpa [Escape.spelling] using length_eq.symm
  | shortCode digits length_eq scalar =>
    refine (escape?_u _).trans (code_eq_some_iff.2
      ⟨digits, rest, length_eq, rfl, scalar, rfl, ?_⟩)
    simp [Escape.spelling, length_eq]
  | longCode digits length_eq scalar =>
    refine (escape?_U _).trans (code_eq_some_iff.2
      ⟨digits, rest, length_eq, rfl, scalar, rfl, ?_⟩)
    simp [Escape.spelling, length_eq]

/-- What is read as an escape is one. -/
theorem exists_escape_of_escape? {text : List Char} {c : Char} {width : Nat}
    (h : escape? text = some (c, width)) :
    ∃ escape : Escape, ∃ rest, escape.spelling ++ rest = text ∧
      escape.spelling.length = width ∧ escape.char = c := by
  cases text with
  | nil => cases h
  | cons first more =>
    rw [escape?] at h
    cases hsimple : simpleEscape? first with
    | some value =>
      rw [hsimple] at h
      obtain ⟨rfl, rfl⟩ := Prod.mk.inj (Option.some.inj h)
      exact ⟨.letter first value (simpleEscape?_eq_some_iff.1 hsimple), more, rfl, rfl, rfl⟩
    | none =>
      rw [hsimple] at h
      dsimp only at h
      split_ifs at h with hx hu hU
      · obtain ⟨digits, rest, hlength, rfl, -, rfl, rfl⟩ := code_eq_some_iff.1 h
        exact ⟨.hexByte digits hlength, rest, by rw [hx]; rfl, by simp [Escape.spelling, hlength], rfl⟩
      · obtain ⟨digits, rest, hlength, rfl, hscalar, rfl, rfl⟩ := code_eq_some_iff.1 h
        exact ⟨.shortCode digits hlength hscalar, rest, by rw [hu]; rfl,
          by simp [Escape.spelling, hlength], rfl⟩
      · obtain ⟨digits, rest, hlength, rfl, hscalar, rfl, rfl⟩ := code_eq_some_iff.1 h
        exact ⟨.longCode digits hlength hscalar, rest, by rw [hU]; rfl,
          by simp [Escape.spelling, hlength], rfl⟩
      · obtain ⟨n, hfound, -, rfl, rfl⟩ := map_bind_scalar?_eq_some_iff.1 h
        obtain ⟨hdigits, hle⟩ := Option.filter_eq_some_iff.1 hfound
        obtain ⟨digits, rest, hlength, htext, rfl⟩ := digits?_eq_some_iff.1 hdigits
        exact ⟨.octalByte digits hlength (of_decide_eq_true hle), rest, htext,
          by simp [Escape.spelling, hlength], rfl⟩

/-! ### Items -/

/-- Reads an item from the front of a text: its character, and the text behind it. -/
def readItem? : List Char → Option (Char × List Char)
  | [] => none
  | c :: rest =>
    if c = '\\' then (escape? rest).map fun found => (found.1, rest.drop found.2)
    else if c = '"' ∨ c = '\n' then none
    else some (c, rest)

theorem readItem?_quote (rest : List Char) : readItem? ('"' :: rest) = none := rfl

/-- **What is read from the front of a text is the one item that it starts with.** -/
theorem readItem?_eq_some_iff {text rest : List Char} {c : Char} :
    readItem? text = some (c, rest) ↔ ∃ item : Item, item.spelling ++ rest = text ∧ item.char = c := by
  constructor
  · intro h
    cases text with
    | nil => cases h
    | cons first more =>
      rw [readItem?] at h
      split_ifs at h with hslash hend
      · obtain ⟨⟨value, width⟩, hescape, heq⟩ := Option.map_eq_some_iff.1 h
        obtain ⟨rfl, rfl⟩ := Prod.mk.inj heq
        obtain ⟨escape, behind, rfl, rfl, rfl⟩ := exists_escape_of_escape? hescape
        refine ⟨.escaped escape, ?_, rfl⟩
        rw [List.drop_left, hslash]
        rfl
      · obtain ⟨rfl, rfl⟩ := Prod.mk.inj (Option.some.inj h)
        exact ⟨.plain first ⟨fun hq => hend (.inl hq), hslash, fun hn => hend (.inr hn)⟩, rfl, rfl⟩
  · rintro ⟨item, rfl, rfl⟩
    cases item with
    | plain c free =>
      obtain ⟨hquote, hslash, hline⟩ := free
      show readItem? (c :: rest) = some (c, rest)
      rw [readItem?, if_neg hslash, if_neg (not_or_intro hquote hline)]
    | escaped escape =>
      show readItem? ('\\' :: (escape.spelling ++ rest)) = some (escape.char, rest)
      rw [readItem?, if_pos rfl, escape?_spelling, Option.map_some, List.drop_left]

theorem interpret?_cons (c : Char) (rest : List Char) :
    interpret? (c :: rest) =
      (readItem? (c :: rest)).bind fun read => (interpret? read.2).map (read.1 :: ·) := by
  rw [interpret?, readItem?]
  split_ifs
  · cases escape? rest with
    | none => rfl
    | some found => rfl
  · rfl
  · rfl

theorem spelling_ne_nil (item : Item) : item.spelling ≠ [] := by
  cases item <;> exact List.cons_ne_nil _ _

/-- Interpreting goes on behind an item. -/
theorem interpret?_spelling_append (item : Item) (rest : List Char) :
    interpret? (item.spelling ++ rest) = (interpret? rest).map (item.char :: ·) := by
  have hread : readItem? (item.spelling ++ rest) = some (item.char, rest) :=
    readItem?_eq_some_iff.2 ⟨item, rfl, rfl⟩
  cases htext : item.spelling ++ rest with
  | nil => exact absurd (List.append_eq_nil_iff.1 htext).1 (spelling_ne_nil item)
  | cons c more => rw [interpret?_cons, ← htext, hread, Option.bind_some]

/-- Interpreting goes on behind a row of items. -/
theorem interpret?_flatMap_append (items : List Item) (rest : List Char) :
    interpret? (items.flatMap Item.spelling ++ rest) =
      (interpret? rest).map (items.map Item.char ++ ·) := by
  induction items with
  | nil => simp
  | cons item items ih =>
    rw [List.flatMap_cons, List.append_assoc, interpret?_spelling_append, ih, Option.map_map]
    rfl

/-- **The inside of an interpreted literal is a row of items.** -/
theorem interpret?_eq_some_iff {body value : List Char} :
    interpret? body = some value ↔
      ∃ items : List Item, items.flatMap Item.spelling = body ∧ items.map Item.char = value := by
  constructor
  · -- each item is shorter than what it is read from
    induction hn : body.length using Nat.strong_induction_on generalizing body value with
    | _ n ih =>
      intro h
      cases body with
      | nil =>
        rw [interpret?] at h
        exact ⟨[], rfl, Option.some.inj h⟩
      | cons c rest =>
        rw [interpret?_cons] at h
        obtain ⟨⟨d, behind⟩, hread, h⟩ := Option.bind_eq_some_iff.1 h
        obtain ⟨more, hmore, rfl⟩ := Option.map_eq_some_iff.1 h
        obtain ⟨item, htext, rfl⟩ := readItem?_eq_some_iff.1 hread
        have hlt : behind.length < n := by
          have hlength := congrArg List.length htext
          have hpos := List.length_pos_iff.2 (spelling_ne_nil item)
          rw [List.length_append] at hlength
          omega
        obtain ⟨items, rfl, rfl⟩ := ih behind.length hlt rfl hmore
        exact ⟨item :: items, htext, rfl⟩
  · rintro ⟨items, rfl, rfl⟩
    have h := interpret?_flatMap_append items []
    rwa [List.append_nil, interpret?, Option.map_some, List.append_nil] at h

/-! ### Bytes -/

theorem toNat_val_ofNat {n : Nat} (h : n < 256) : (Char.ofNat n).val.toNat = n := by
  have hvalid : n.isValidChar := Or.inl (by omega)
  rw [Char.ofNat, dif_pos hvalid]
  rfl

theorem utf8Size_ofNat_eq_one_iff {n : Nat} (h : n < 256) :
    (Char.ofNat n).utf8Size = 1 ↔ n < 128 := by
  rw [Char.utf8Size_eq_one_iff, UInt32.le_iff_toNat_le, toNat_val_ofNat h]
  show n ≤ 127 ↔ n < 128
  omega

/-- A byte below 128 is a character of its own. -/
theorem utf8EncodeChar_ofNat {n : Nat} (h : n < 128) :
    String.utf8EncodeChar (Char.ofNat n) = [UInt8.ofNat n] := by
  have hone : (Char.ofNat n).utf8Size = 1 := (utf8Size_ofNat_eq_one_iff (by omega)).2 h
  rw [String.utf8EncodeChar_eq_singleton hone]
  have hn : (Char.ofNat n).val.toUInt8 = UInt8.ofNat n := by
    apply UInt8.toNat_inj.1
    rw [UInt32.toNat_toUInt8, toNat_val_ofNat (by omega)]
    rfl
  rw [hn]

theorem byte?_eq_some {item : Item} {n : Nat} (h : item.byte? = some n) :
    n < 256 ∧ item.char = Char.ofNat n := by
  cases item with
  | plain c free => cases h
  | escaped escape =>
    cases escape with
    | letter c value listed => cases h
    | hexByte digits length_eq =>
      have hlt := number_lt (by decide) digits
      rw [length_eq] at hlt
      obtain rfl := Option.some.inj h
      exact ⟨hlt, rfl⟩
    | octalByte digits length_eq le =>
      obtain rfl := Option.some.inj h
      exact ⟨Nat.lt_succ_of_le le, rfl⟩
    | shortCode digits length_eq scalar => cases h
    | longCode digits length_eq scalar => cases h

/-- An item denotes the bytes of its character, unless it denotes a byte above 127: then it denotes
fewer. -/
theorem bytes_cases (item : Item) :
    (∀ n, item.byte? = some n → n < 128) ∧ item.bytes = String.utf8EncodeChar item.char ∨
      (∃ n, item.byte? = some n ∧ 128 ≤ n) ∧
        item.bytes.length < (String.utf8EncodeChar item.char).length := by
  cases hbyte : item.byte? with
  | none =>
    have hbytes : item.bytes = String.utf8EncodeChar item.char := by rw [Item.bytes, hbyte]
    exact .inl ⟨fun n h => absurd h (Option.some_ne_none n).symm, hbytes⟩
  | some n =>
    obtain ⟨hlt, hchar⟩ := byte?_eq_some hbyte
    have hbytes : item.bytes = [UInt8.ofNat n] := by rw [Item.bytes, hbyte]
    rw [hbytes, hchar]
    by_cases hn : n < 128
    · exact .inl ⟨fun m hm => Option.some.inj hm ▸ hn, (utf8EncodeChar_ofNat hn).symm⟩
    · refine .inr ⟨⟨n, rfl, by omega⟩, ?_⟩
      have hone := mt (utf8Size_ofNat_eq_one_iff hlt).1 hn
      have hpos := (Char.ofNat n).utf8Size_pos
      rw [String.length_utf8EncodeChar, List.length_singleton]
      omega

theorem length_flatMap_bytes_le (items : List Item) :
    (items.flatMap Item.bytes).length ≤
      ((items.map Item.char).flatMap String.utf8EncodeChar).length := by
  induction items with
  | nil => exact Nat.le_refl 0
  | cons item items ih =>
    rw [List.flatMap_cons, List.map_cons, List.flatMap_cons, List.length_append,
      List.length_append]
    rcases bytes_cases item with ⟨-, heq⟩ | ⟨-, hlt⟩
    · rw [heq]
      omega
    · omega

/-- **The bytes of items are those of their characters exactly if no byte is above 127.** -/
theorem flatMap_bytes_eq_iff (items : List Item) :
    (items.map Item.char).flatMap String.utf8EncodeChar = items.flatMap Item.bytes ↔
      ∀ item ∈ items, ∀ n, item.byte? = some n → n < 128 := by
  induction items with
  | nil => simp
  | cons item items ih =>
    rw [List.map_cons, List.flatMap_cons, List.flatMap_cons, List.forall_mem_cons, ← ih]
    rcases bytes_cases item with ⟨hlow, heq⟩ | ⟨⟨n, hbyte, hn⟩, hlt⟩
    · rw [heq, List.append_cancel_left_eq]
      exact (and_iff_right hlow).symm
    · -- an item that is shorter cannot be made up for by the items behind it
      constructor
      · intro h
        have hlength := congrArg List.length h
        have hle := length_flatMap_bytes_le items
        rw [List.length_append, List.length_append] at hlength
        omega
      · rintro ⟨hlow, -⟩
        have := hlow n hbyte
        omega

/-! ### Literals -/

theorem unquoteChars?_cons_concat (mark last : Char) (body : List Char) :
    unquoteChars? (mark :: (body ++ [last])) =
      if last ≠ mark then none
      else if mark = '\x60' then raw? body
      else if mark = '"' then interpret? body
      else none := by
  rw [unquoteChars?, List.getLast?_concat, List.dropLast_concat]

end Quoted

/-- **Unquoting undoes spelling.** -/
theorem unquote_spelling (literal : Literal) : unquote literal.spelling = some literal.value := by
  cases literal with
  | raw body free =>
    rw [unquote, Literal.spelling, String.toList_ofList, List.cons_append,
      Quoted.unquoteChars?_cons_concat, if_neg (not_not_intro rfl), if_pos rfl, Quoted.raw?,
      if_neg free]
    rfl
  | interpreted items =>
    rw [unquote, Literal.spelling, String.toList_ofList, List.cons_append,
      Quoted.unquoteChars?_cons_concat, if_neg (not_not_intro rfl), if_neg (by decide), if_pos rfl,
      Quoted.interpret?_eq_some_iff.2 ⟨items, rfl, rfl⟩]
    rfl

/-- **Only literals are unquoted.** -/
theorem exists_literal_of_unquote {text value : String} (h : unquote text = some value) :
    ∃ literal : Literal, literal.spelling = text := by
  obtain ⟨chars, hchars, -⟩ := Option.map_eq_some_iff.1 h
  suffices hspelled : ∃ literal : Literal, literal.spelling.toList = text.toList by
    obtain ⟨literal, heq⟩ := hspelled
    exact ⟨literal, String.toList_inj.1 heq⟩
  cases htext : text.toList with
  | nil =>
    rw [htext] at hchars
    cases hchars
  | cons mark rest =>
    rw [htext] at hchars
    rcases List.eq_nil_or_concat' rest with rfl | ⟨body, last, rfl⟩
    · cases hchars
    · rw [Quoted.unquoteChars?_cons_concat] at hchars
      split_ifs at hchars with hlast hraw hquote
      · subst hraw
        obtain rfl := not_not.1 hlast
        by_cases hfree : '\x60' ∈ body
        · rw [Quoted.raw?, if_pos hfree] at hchars
          cases hchars
        · exact ⟨.raw body hfree, String.toList_ofList⟩
      · subst hquote
        obtain rfl := not_not.1 hlast
        obtain ⟨items, rfl, -⟩ := Quoted.interpret?_eq_some_iff.1 hchars
        exact ⟨.interpreted items, String.toList_ofList⟩

/-- **Unquoting decides the grammar of literals.**  A text can be unquoted exactly if it spells a
literal, and then to the text that the literal stands for.  In bytes this is what the literal denotes
exactly if none of its items denotes a byte above 127. -/
theorem unquote_iff_literal :
    (∀ text : String, unquote text ≠ none ↔ ∃ literal : Literal, literal.spelling = text) ∧
      ∀ literal : Literal, unquote literal.spelling = some literal.value ∧
        (Utf8.encode literal.value = literal.bytes ↔
          ∀ item ∈ literal.items, ∀ n, item.byte? = some n → n < 128) := by
  refine ⟨fun text => ⟨fun h => ?_, ?_⟩, fun literal => ⟨unquote_spelling literal, ?_⟩⟩
  · obtain ⟨value, hvalue⟩ := Option.ne_none_iff_exists'.1 h
    exact exists_literal_of_unquote hvalue
  · rintro ⟨literal, rfl⟩
    rw [unquote_spelling]
    exact Option.some_ne_none _
  · cases literal with
    | raw body free =>
      rw [Utf8.encode, Literal.value, String.toList_ofList]
      exact iff_of_true rfl fun item hitem => absurd hitem List.not_mem_nil
    | interpreted items =>
      rw [Utf8.encode, Literal.value, String.toList_ofList]
      exact Quoted.flatMap_bytes_eq_iff items

end ImportGuard
