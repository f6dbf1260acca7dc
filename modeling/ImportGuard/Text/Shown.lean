import ImportGuard.Text.Quoted

/-!
# Text as errors show it

An error of the file system shows a path between single quotes, or between double quotes if the path
has a single quote and no double one.  The quote and the backslash get a backslash, and what is not
printable is written by its code.
-/

namespace ImportGuard

def shownChar (mark c : Char) : List Char :=
  if c = mark ∨ c = '\\' then ['\\', c]
  else if c = '\n' then ['\\', 'n']
  else if c = '\r' then ['\\', 'r']
  else if c = '\t' then ['\\', 't']
  else if isPrintable c then [c]
  else if c.toNat < 0x100 then '\\' :: 'x' :: Quoted.hex 2 c.toNat
  else if c.toNat < 0x10000 then '\\' :: 'u' :: Quoted.hex 4 c.toNat
  else '\\' :: 'U' :: Quoted.hex 8 c.toNat

/-- A text between quotes, as errors show it. -/
def shown (text : String) : String :=
  let chars := text.toList
  let mark := if '\x27' ∈ chars ∧ '"' ∉ chars then '"' else '\x27'
  String.ofList ([mark] ++ chars.flatMap (shownChar mark) ++ [mark])

end ImportGuard
