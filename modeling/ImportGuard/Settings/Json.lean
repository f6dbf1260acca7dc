import ImportGuard.Settings.Value
import ImportGuard.Text.Quoted

/-!
# JSON

Reading JSON into values, and writing texts and the findings' objects.  The reader takes the words
`NaN`, `Infinity` and `-Infinity` as numbers, and refuses control characters in strings.
-/

namespace ImportGuard.Json

/-! ### Reading -/

def isSpace (c : Char) : Bool :=
  c = ' ' || c = '\t' || c = '\n' || c = '\r'

def skip (text : List Char) : List Char :=
  text.dropWhile isSpace

def simpleEscape? : Char → Option Char
  | '"' => some '"'
  | '\\' => some '\\'
  | '/' => some '/'
  | 'b' => some '\x08'
  | 'f' => some '\x0C'
  | 'n' => some '\n'
  | 'r' => some '\r'
  | 't' => some '\t'
  | _ => none

/-- Reads the code behind `\u`: four digits, and four more for the second half of a pair.  Half a
pair alone is read as the replacement character.  Gives the character and the characters taken. -/
def unicodeEscape? (text : List Char) : Option (Char × Nat) :=
  match Quoted.digits? 16 4 text with
  | none => none
  | some high =>
    let low? := match text.drop 4 with
      | '\\' :: 'u' :: rest => Quoted.digits? 16 4 rest
      | _ => none
    match low? with
    | some low =>
      if 0xD800 ≤ high ∧ high ≤ 0xDBFF ∧ 0xDC00 ≤ low ∧ low ≤ 0xDFFF then
        some (Char.ofNat (0x10000 + (high - 0xD800) * 0x400 + (low - 0xDC00)), 10)
      else some ((Quoted.scalar? high).getD '\ufffd', 4)
    | none => some ((Quoted.scalar? high).getD '\ufffd', 4)

/-- Reads the rest of a string behind its opening quote. -/
def string? (text : List Char) : Option (List Char × List Char) :=
  match text with
  | [] => none
  | c :: rest =>
    if c = '"' then some ([], rest)
    else if c.toNat < 0x20 then none
    else if c = '\\' then
      match rest with
      | [] => none
      | e :: more =>
        if e = 'u' then
          match unicodeEscape? more with
          | none => none
          | some (value, width) =>
            (string? (more.drop width)).map fun (found, rest) => (value :: found, rest)
        else
          match simpleEscape? e with
          | none => none
          | some value => (string? more).map fun (found, rest) => (value :: found, rest)
    else (string? rest).map fun (found, rest) => (c :: found, rest)
termination_by text.length
decreasing_by
  all_goals simp [List.length_drop]
  all_goals omega

def natOf (digits : List Char) : Nat :=
  digits.foldl (fun n c => n * 10 + (c.toNat - '0'.toNat)) 0

/-- Reads a number: an integer, or a decimal if it has a point or an exponent. -/
def number? (text : List Char) : Option (Value × List Char) :=
  let (negative, text) := match text with
    | '-' :: rest => (true, rest)
    | text => (false, text)
  let whole := match text with
    | '0' :: _ => ['0']
    | text => text.takeWhile Char.isDigit
  if whole = [] then none
  else
    let rest := text.drop whole.length
    let fraction := match rest with
      | '.' :: more => more.takeWhile Char.isDigit
      | _ => []
    let rest := if fraction = [] then rest else rest.drop (fraction.length + 1)
    let (exponent, rest) := exponentOf rest
    let signed (n : Nat) : Int := if negative then -n else n
    match fraction, exponent with
    | [], none => some (.integer (signed (natOf whole)), rest)
    | _, _ =>
      some (.decimal (some
        ⟨signed (natOf (whole ++ fraction)), exponent.getD 0 - fraction.length⟩), rest)
where
  exponentOf (text : List Char) : Option Int × List Char :=
    match text with
    | e :: more =>
      if e = 'e' ∨ e = 'E' then
        let (sign, digits) : Int × List Char := match more with
          | '-' :: digits => (-1, digits)
          | '+' :: digits => (1, digits)
          | digits => (1, digits)
        let found := digits.takeWhile Char.isDigit
        if found = [] then (none, text)
        else (some (sign * natOf found), digits.drop found.length)
      else (none, text)
    | [] => (none, text)

def words : List (String × Value) :=
  [("null", .null), ("true", .bool true), ("false", .bool false), ("NaN", .decimal none),
   ("Infinity", .decimal none), ("-Infinity", .decimal none)]

def word? (text : List Char) : Option (Value × List Char) :=
  (words.find? fun (word, _) => word.toList.isPrefixOf text).map fun (word, value) =>
    (value, text.drop word.length)

mutual

/-- Reads a value that is nested at most `depth` deep. -/
def value? : (depth : Nat) → List Char → Option (Value × List Char)
  | 0, _ => none
  | depth + 1, text =>
    match text with
    | '"' :: rest => (string? rest).map fun (found, rest) => (.text (String.ofList found), rest)
    | '[' :: rest =>
      match skip rest with
      | ']' :: rest => some (.list [], rest)
      | rest => (items? depth rest).map fun (found, rest) => (.list found, rest)
    | '{' :: rest =>
      match skip rest with
      | '}' :: rest => some (.mapping [], rest)
      | rest => (members? depth rest).map fun (found, rest) => (.mapping found, rest)
    | _ =>
      match word? text with
      | some found => some found
      | none => number? text

def items? : (depth : Nat) → List Char → Option (List Value × List Char)
  | 0, _ => none
  | depth + 1, text =>
    match value? depth text with
    | none => none
    | some (value, rest) =>
      match skip rest with
      | ']' :: rest => some ([value], rest)
      | ',' :: rest => (items? depth (skip rest)).map fun (found, rest) => (value :: found, rest)
      | _ => none

def members? : (depth : Nat) → List Char → Option (List (Value × Value) × List Char)
  | 0, _ => none
  | depth + 1, text =>
    match text with
    | '"' :: rest =>
      match string? rest with
      | none => none
      | some (key, rest) =>
        match skip rest with
        | ':' :: rest =>
          match value? depth (skip rest) with
          | none => none
          | some (value, rest) =>
            let member := (Value.text (String.ofList key), value)
            match skip rest with
            | '}' :: rest => some ([member], rest)
            | ',' :: rest =>
              (members? depth (skip rest)).map fun (found, rest) => (member :: found, rest)
            | _ => none
        | _ => none
    | _ => none

end

/-- **Reads a text as one JSON value.** -/
def parse? (text : String) : Option Value :=
  let chars := text.toList
  match value? (2 * chars.length + 2) (skip chars) with
  | some (value, rest) => if skip rest = [] then some value else none
  | none => none

/-! ### Writing -/

/-- One character of a string, all in printable ASCII. -/
def writeChar (c : Char) : List Char :=
  let code := c.toNat
  if c = '"' ∨ c = '\\' then ['\\', c]
  else if c = '\n' then ['\\', 'n']
  else if c = '\r' then ['\\', 'r']
  else if c = '\t' then ['\\', 't']
  else if code = 0x08 then ['\\', 'b']
  else if code = 0x0C then ['\\', 'f']
  else if 0x20 ≤ code ∧ code < 0x80 then [c]
  else if code < 0x10000 then '\\' :: 'u' :: Quoted.hex 4 code
  else
    '\\' :: 'u' :: Quoted.hex 4 (0xD800 + (code - 0x10000) / 0x400) ++
      '\\' :: 'u' :: Quoted.hex 4 (0xDC00 + (code - 0x10000) % 0x400)

def writeString (text : String) : String :=
  String.ofList (['"'] ++ text.toList.flatMap writeChar ++ ['"'])

end ImportGuard.Json
