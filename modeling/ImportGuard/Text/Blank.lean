/-!
# Blank characters

The characters that count as white space in a policy: the controls that move the cursor, the
information separators, the spaces of every width, and the separators of lines and paragraphs.
-/

namespace ImportGuard

/-- Ranges of blank code points, both ends included. -/
def blankRanges : List (Nat × Nat) :=
  [(0x0009, 0x000D), (0x001C, 0x0020), (0x0085, 0x0085), (0x00A0, 0x00A0), (0x1680, 0x1680),
   (0x2000, 0x200A), (0x2028, 0x2029), (0x202F, 0x202F), (0x205F, 0x205F), (0x3000, 0x3000)]

def isBlank (c : Char) : Bool :=
  blankRanges.any fun range => range.1 ≤ c.toNat && c.toNat ≤ range.2

def withoutBlanks (text : String) : String :=
  String.ofList (text.toList.filter (!isBlank ·))

end ImportGuard
