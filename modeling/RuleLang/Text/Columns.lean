import RuleLang.Text.Utf8

/-!
# RuleLang.Text.Columns

Positions within a line, in three units: bytes, characters, and the UTF-16 code units that
editors count. `charOffset` and `byteOffset` find the byte at which a column begins, `utf16Col`
the column at which a byte stands.
-/

namespace RuleLang

namespace Text

/-- The byte offset of character `col`. Columns past the end give the length. -/
def charOffset (line : Text) (col : Int) : Nat :=
  (ofChars (line.chars.take col.toNat)).length

/-- The UTF-16 column of a byte offset. Offsets past the end count as the end. -/
def utf16Col (line : Text) (offset : Nat) : Nat :=
  ((chars (line.take offset)).map TextChar.units).foldr (· + ·) 0

/-- The bytes of the characters that fit wholly into `room` UTF-16 units. -/
def bytesWithin : (room : Nat) → List TextChar → Nat
  | _, [] => 0
  | room, r :: rs => if r.units ≤ room then r.bytes.length + bytesWithin (room - r.units) rs else 0

/-- The byte offset of a UTF-16 column. A column inside a character gives the character's start,
a column past the end the length, a negative column 0. -/
def byteOffset (line : Text) (col : Int) : Nat := bytesWithin col.toNat line.chars

end Text

end RuleLang
