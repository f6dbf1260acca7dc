import ImportGuard.Text.Pieces
import ImportGuard.Text.Printable

/-!
# Quoted text

Two ways between a text and its quoted form.

* `quote` writes a text between double quotes for a message.  Quotes and backslashes get a
  backslash, and a character that is not printable is written by its code.
* `unquote` reads a Go string literal: raw between backquotes, or interpreted between double quotes
  with Go's escapes.  It refuses everything that is no such literal.

What counts as printable is a parameter of `quoteWith`, because reading back does not depend on it.
-/

namespace ImportGuard.Quoted

/-! ### Writing -/

/-- The hexadecimal digits of a number, at least `width` of them. -/
def hex (width : Nat) (n : Nat) : List Char :=
  let digits := Nat.toDigits 16 n
  List.replicate (width - digits.length) '0' ++ digits

def writeChar (printable : Char → Bool) (c : Char) : List Char :=
  if c = '"' ∨ c = '\\' then ['\\', c]
  else if c = '\n' then ['\\', 'n']
  else if c = '\t' then ['\\', 't']
  else if c = '\r' then ['\\', 'r']
  else if printable c then [c]
  else if c.toNat < 0x80 then '\\' :: 'x' :: hex 2 c.toNat
  else '\\' :: 'u' :: hex 4 c.toNat

/-- A text between double quotes, where `printable` says which characters stand for themselves. -/
def quoteWith (printable : Char → Bool) (text : String) : String :=
  String.ofList ('"' :: text.toList.flatMap (writeChar printable) ++ ['"'])

/-! ### Reading -/

/-- The value of a digit in bases up to sixteen. -/
def digit? (base : Nat) (c : Char) : Option Nat :=
  let value? :=
    if '0' ≤ c ∧ c ≤ '9' then some (c.toNat - '0'.toNat)
    else if 'a' ≤ c ∧ c ≤ 'f' then some (c.toNat - 'a'.toNat + 10)
    else if 'A' ≤ c ∧ c ≤ 'F' then some (c.toNat - 'A'.toNat + 10)
    else none
  value?.filter (· < base)

/-- The number written by the first `count` characters, all of which must be digits. -/
def digits? (base count : Nat) (text : List Char) : Option Nat :=
  if text.length < count then none
  else ((text.take count).mapM (digit? base)).map (·.foldl (fun n d => n * base + d) 0)

def simpleEscape? (c : Char) : Option Char :=
  match c with
  | 'a' => some '\x07'
  | 'b' => some '\x08'
  | 'f' => some '\x0C'
  | 'n' => some '\n'
  | 'r' => some '\r'
  | 't' => some '\t'
  | 'v' => some '\x0B'
  | '\\' => some '\\'
  | '"' => some '"'
  | _ => none

/-- The character with a code, if there is one. -/
def scalar? (code : Nat) : Option Char :=
  if h : code.isValidChar then some (Char.ofNatAux code h) else none

/-- Reads an escape from the text after its backslash: the character, and how many characters of
the text the escape takes. -/
def escape? : List Char → Option (Char × Nat)
  | [] => none
  | c :: rest =>
    match simpleEscape? c with
    | some value => some (value, 1)
    | none =>
      if c = 'x' then
        ((digits? 16 2 rest).bind scalar?).map (·, 3)
      else if c = 'u' then
        ((digits? 16 4 rest).bind scalar?).map (·, 5)
      else if c = 'U' then
        ((digits? 16 8 rest).bind scalar?).map (·, 9)
      else
        (((digits? 8 3 (c :: rest)).filter (· ≤ 255)).bind scalar?).map (·, 3)

def interpret? : List Char → Option (List Char)
  | [] => some []
  | c :: rest =>
    if c = '\\' then
      match escape? rest with
      | none => none
      | some (value, width) => (interpret? (rest.drop width)).map (value :: ·)
    else if c = '"' ∨ c = '\n' then none
    else (interpret? rest).map (c :: ·)
termination_by text => text.length
decreasing_by
  · rw [List.length_drop, List.length_cons]
    omega
  · rw [List.length_cons]
    omega

/-- The text that the inside of a raw literal stands for: carriage returns do not count. -/
def raw? (body : List Char) : Option (List Char) :=
  if '\x60' ∈ body then none else some (body.filter (· ≠ '\r'))

def unquoteChars? : List Char → Option (List Char)
  | [] => none
  | mark :: rest =>
    match rest.getLast? with
    | none => none
    | some last =>
      if last ≠ mark then none
      else if mark = '\x60' then raw? rest.dropLast
      else if mark = '"' then interpret? rest.dropLast
      else none

end ImportGuard.Quoted

namespace ImportGuard

/-- A text between double quotes, as messages show it. -/
def quote (text : String) : String :=
  Quoted.quoteWith isPrintable text

/-- **The text that a Go string literal stands for**, or `none` if it is no such literal. -/
def unquote (literal : String) : Option String :=
  (Quoted.unquoteChars? literal.toList).map String.ofList

end ImportGuard
