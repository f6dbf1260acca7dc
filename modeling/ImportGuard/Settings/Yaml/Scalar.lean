import ImportGuard.Settings.Value
import ImportGuard.Text.Quoted

/-!
# What plain YAML scalars mean

A scalar without quotes may be a truth value, a number, a date or nothing; any other one is a text.
The forms are those of version 1.1 of YAML: `yes` and `off` are truth values, numbers may have
underscores, a leading zero makes an integer octal, and colons part the digits of base sixty.
-/

namespace ImportGuard.Yaml

/-- The spellings of a word: small, capitalised, and large. -/
def spellings (word : String) : List String :=
  [word, word.capitalize, word.toUpper]

def bool? (text : String) : Option Bool :=
  if (["yes", "true", "on"].flatMap spellings).contains text then some true
  else if (["no", "false", "off"].flatMap spellings).contains text then some false
  else none

def isNull (text : String) : Bool :=
  text = "" || text = "~" || (spellings "null").contains text

/-- A sign, if there is one, and the rest. -/
def splitSign : List Char → Int × List Char
  | '-' :: rest => (-1, rest)
  | '+' :: rest => (1, rest)
  | rest => (1, rest)

def isDigitOrLine (c : Char) : Bool :=
  c.isDigit || c = '_'

/-- The number that digits of a base write, where underscores do not count. -/
def digitsValue (base : Nat) (digits : List Char) : Nat :=
  (digits.filterMap (Quoted.digit? base)).foldl (fun n d => n * base + d) 0

/-- Whether all characters are digits of a base or underscores, and there is one at least. -/
def areDigits (base : Nat) (text : List Char) : Bool :=
  text ≠ [] && text.all fun c => c = '_' || (Quoted.digit? base c).isSome

/-- Whether a text is one or two digits of a number below sixty. -/
def isSixtieth : List Char → Bool
  | [d] => d.isDigit
  | [t, d] => '0' ≤ t && t ≤ '5' && d.isDigit
  | _ => false

def colonParts (text : List Char) : List (List Char) :=
  text.foldr (fun c parts =>
    match parts with
    | [] => [[c]]
    | part :: rest => if c = ':' then [] :: part :: rest else (c :: part) :: rest) [[]]

def integer? (text : String) : Option Int :=
  let (sign, digits) := splitSign text.toList
  match digits with
  | ['0'] => some 0
  | '0' :: 'b' :: rest => if areDigits 2 rest then some (sign * digitsValue 2 rest) else none
  | '0' :: 'x' :: rest => if areDigits 16 rest then some (sign * digitsValue 16 rest) else none
  | '0' :: rest => if areDigits 8 rest then some (sign * digitsValue 8 rest) else none
  | first :: _ =>
    if '1' ≤ first ∧ first ≤ '9' then
      match colonParts digits with
      | [whole] => if areDigits 10 whole then some (sign * digitsValue 10 whole) else none
      | whole :: sixtieths =>
        if areDigits 10 whole ∧ sixtieths.all isSixtieth then
          some (sign * sixtieths.foldl (fun n part => n * 60 + digitsValue 10 part)
            (digitsValue 10 whole))
        else none
      | [] => none
    else none
  | [] => none

/-- The exponent that stands at the end of a decimal: nothing, or `e` with a sign and digits. -/
def exponent? : List Char → Option Int
  | [] => some 0
  | e :: s :: digits =>
    if (e = 'e' ∨ e = 'E') ∧ (s = '+' ∨ s = '-') ∧ digits ≠ [] ∧ digits.all Char.isDigit then
      some ((if s = '-' then -1 else 1) * digitsValue 10 digits)
    else none
  | _ => none

/-- The number with a point that a text stands for; the inner `none` is an infinity or no number. -/
def decimal? (text : String) : Option (Option Decimal) :=
  let (sign, digits) := splitSign text.toList
  let signed := sign < 0 || text.toList.head? = some '+'
  if (["inf", "Inf", "INF"].map ("." ++ ·)).contains (String.ofList digits) then some none
  else if [".nan", ".NaN", ".NAN"].contains text then some none
  else
    match digits.span fun c => c ≠ '.' with
    | (_, []) => none
    | (whole, _ :: rest) =>
      let fraction := rest.takeWhile isDigitOrLine
      let tail := rest.drop fraction.length
      let value (parts : List Char) : Decimal :=
        ⟨sign * digitsValue 10 parts, -((fraction.filter Char.isDigit).length : Int)⟩
      match whole with
      | [] =>
        if signed ∨ ¬ (fraction.head?.any Char.isDigit) then none
        else (exponent? tail).map fun e =>
          some ⟨(value fraction).mantissa, (value fraction).exponent + e⟩
      | first :: _ =>
        if ¬ first.isDigit then none
        else
          match colonParts whole with
          | [whole] =>
            if whole.all isDigitOrLine then
              (exponent? tail).map fun e =>
                some ⟨(value (whole ++ fraction)).mantissa, (value fraction).exponent + e⟩
            else none
          | _ :: sixtieths =>
            if (colonParts whole).head?.any (·.all isDigitOrLine) ∧ sixtieths.all isSixtieth ∧
                tail = [] then
              some (some (value (whole.filter (· ≠ ':') ++ fraction)))
            else none
          | [] => none

/-- Whether a text has the form of a date: four digits, two and two, with hyphens between. -/
def isDate (text : String) : Bool :=
  match text.toList with
  | [a, b, c, d, '-', e, f, '-', g, h] => [a, b, c, d, e, f, g, h].all Char.isDigit
  | _ => false

/-- **The value of a scalar without quotes.** -/
def plainValue (text : String) : Value :=
  if isNull text then .null
  else
    match bool? text with
    | some b => .bool b
    | none =>
      match integer? text with
      | some n => .integer n
      | none =>
        match decimal? text with
        | some d => .decimal d
        | none => if isDate text then .other false text else .text text

/-- Whether a text without quotes is read as that text. -/
def readsAsText (text : String) : Bool :=
  match plainValue text with
  | .text _ => text != "=" && text != "<<"
  | _ => false

end ImportGuard.Yaml
