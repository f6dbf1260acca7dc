import ImportGuard.Text.Shown

/-!
# Values of configuration files

A configuration file holds a value: nothing, a truth value, a number, a text, a list, a mapping whose
keys are values too, or something else, like a date.  Of a number with a point only its decimal form is
kept, and of a value of another kind only how it is shown and whether it is empty, because settings
ask for no more.
-/

namespace ImportGuard

/-- The number `mantissa` times ten to the power of `exponent`. -/
structure Decimal where
  mantissa : Int
  exponent : Int
deriving DecidableEq, Repr, Inhabited

namespace Decimal

def isZero (d : Decimal) : Bool :=
  d.mantissa = 0

def isOne (d : Decimal) : Bool :=
  match d.exponent with
  | .ofNat 0 => d.mantissa = 1
  | .ofNat _ => false
  | .negSucc n => Nat.toDigits 10 d.mantissa.toNat = '1' :: List.replicate (n + 1) '0'

end Decimal

inductive Value where
  | null
  | bool (b : Bool)
  | integer (n : Int)
  /-- A number with a point; `none` stands for an infinity and for no number. -/
  | decimal (d : Option Decimal)
  | text (s : String)
  | list (items : List Value)
  | mapping (entries : List (Value × Value))
  /-- A value of another kind, with the words for it. -/
  | other (void : Bool) (words : String)
deriving Repr, Inhabited

namespace Value

/-- Whether the value says nothing: it is null, false, zero or empty. -/
def isVoid : Value → Bool
  | null => true
  | bool b => !b
  | integer n => n = 0
  | decimal (some d) => d.isZero
  | decimal none => false
  | text s => s = ""
  | list items => items.isEmpty
  | mapping entries => entries.isEmpty
  | other void _ => void

mutual

/-- The words for a value in an account of what is wrong with it. -/
def words : Value → String
  | null => "None"
  | bool b => if b then "True" else "False"
  | integer n => toString n
  | decimal (some d) => toString d.mantissa ++ "e" ++ toString d.exponent
  | decimal none => "nan"
  | text s => shown s
  | list items => "[" ++ ", ".intercalate (wordsOfAll items) ++ "]"
  | mapping entries => "\x7b" ++ ", ".intercalate (wordsOfEntries entries) ++ "\x7d"
  | other _ words => words

def wordsOfAll : List Value → List String
  | [] => []
  | item :: rest => item.words :: wordsOfAll rest

def wordsOfEntries : List (Value × Value) → List String
  | [] => []
  | (key, value) :: rest => (key.words ++ ": " ++ value.words) :: wordsOfEntries rest

end

def kindName : Value → String
  | null => "NoneType"
  | bool _ => "bool"
  | integer _ => "int"
  | decimal _ => "float"
  | text _ => "str"
  | list _ => "list"
  | mapping _ => "dict"
  | other _ _ => "object"

end Value

end ImportGuard
