/-!
# Bytes and characters

Source text is a list of bytes.  `Utf8.encode` turns characters into bytes; `Utf8.units` reads bytes
back, one unit at a time: a unit is a character, or `none` for **a maximal run of bytes that starts a
character and never completes it**, or for a byte that cannot start one.  `Utf8.decode` puts the
replacement character for each such run, and `Utf8.decode?` refuses a text that has one.
-/

namespace ImportGuard.Utf8

def encode (text : String) : List UInt8 :=
  text.toList.flatMap String.utf8EncodeChar

/-- A character that has been begun: the number of bytes it still needs, the range that its next
byte must lie in, and the bits read so far. -/
structure Begun where
  missing : Nat
  low : UInt8
  high : UInt8
  bits : Nat

/-- What a byte can be where a character starts. -/
inductive Opening where
  /-- A character of one byte. -/
  | whole (c : Char)
  /-- The first byte of a longer character. -/
  | begun (b : Begun)
  /-- No character starts with this byte. -/
  | invalid

def opening (b : UInt8) : Opening :=
  if b < 0x80 then .whole (Char.ofNat b.toNat)
  else if b < 0xC2 then .invalid
  else if b < 0xE0 then .begun ⟨1, 0x80, 0xBF, b.toNat - 0xC0⟩
  else if b = 0xE0 then .begun ⟨2, 0xA0, 0xBF, 0⟩
  else if b = 0xED then .begun ⟨2, 0x80, 0x9F, 0xD⟩
  else if b < 0xF0 then .begun ⟨2, 0x80, 0xBF, b.toNat - 0xE0⟩
  else if b = 0xF0 then .begun ⟨3, 0x90, 0xBF, 0⟩
  else if b < 0xF4 then .begun ⟨3, 0x80, 0xBF, b.toNat - 0xF0⟩
  else if b = 0xF4 then .begun ⟨3, 0x80, 0x8F, 4⟩
  else .invalid

def Begun.extend (p : Begun) (b : UInt8) : Nat :=
  p.bits * 64 + (b.toNat - 0x80)

/-- Reads units, where `p` is the character begun before these bytes, if there is one.  A byte that
cannot continue the character ends its run and is read again as the start of another. -/
def unitsFrom : Option Begun → List UInt8 → List (Option Char)
  | none, [] => []
  | some _, [] => [none]
  | none, b :: rest =>
    match opening b with
    | .whole c => some c :: unitsFrom none rest
    | .begun p => unitsFrom (some p) rest
    | .invalid => none :: unitsFrom none rest
  | some p, b :: rest =>
    if p.low ≤ b ∧ b ≤ p.high then
      if p.missing ≤ 1 then some (Char.ofNat (p.extend b)) :: unitsFrom none rest
      else unitsFrom (some ⟨p.missing - 1, 0x80, 0xBF, p.extend b⟩) rest
    else
      match opening b with
      | .whole c => none :: some c :: unitsFrom none rest
      | .begun q => none :: unitsFrom (some q) rest
      | .invalid => none :: none :: unitsFrom none rest

def units (bytes : List UInt8) : List (Option Char) :=
  unitsFrom none bytes

/-- The character that stands for bytes that are no text. -/
def replacement : Char := '\ufffd'

/-- The text of bytes, with the replacement character for what is no text. -/
def decode (bytes : List UInt8) : String :=
  String.ofList ((units bytes).map (·.getD replacement))

/-- The text of bytes, if all of them are text. -/
def decode? (bytes : List UInt8) : Option String :=
  ((units bytes).mapM id).map String.ofList

end ImportGuard.Utf8
