import RuleLang.Text.Basic

/-!
# RuleLang.Text.Utf8

Characters of a text. `chars` cuts a text into characters; a byte that begins no well-formed
UTF-8 sequence is a character of its own with the replacement code point U+FFFD. Whatever the
bytes are, the pieces put together again are the text.
-/

namespace RuleLang

/-- One character of a text: its code point and the bytes it was written with. -/
structure TextChar where
  code : Nat
  bytes : Text
deriving Repr, DecidableEq

namespace Utf8

/-- The code point that stands for ill-formed bytes. -/
def replacement : Nat := 0xFFFD

def isCont (b : UInt8) : Bool := 0x80 ≤ b && b ≤ 0xBF

/-- The low six bits of a continuation byte. -/
def payload (b : UInt8) : Nat := b.toNat % 64

/-- May `b1` follow the first byte `b0` of a three or four byte sequence? Excludes sequences that
are too long for their code point, surrogates and code points above U+10FFFF. -/
def isSecond (b0 b1 : UInt8) : Bool :=
  isCont b1 &&
    (if b0 = 0xE0 then 0xA0 ≤ b1
     else if b0 = 0xED then b1 ≤ 0x9F
     else if b0 = 0xF0 then 0x90 ≤ b1
     else if b0 = 0xF4 then b1 ≤ 0x8F
     else true)

/-- Code point and number of bytes of the well-formed sequence that begins with `b0` and goes on
in the given bytes. -/
def decode? (b0 : UInt8) (rest : Text) : Option (Nat × Nat) :=
  if b0 < 0x80 then some (b0.toNat, 1)
  else if b0 < 0xC2 then none
  else if b0 < 0xE0 then
    match rest with
    | b1 :: _ =>
      if isCont b1 then some (b0.toNat % 32 * 64 + payload b1, 2) else none
    | _ => none
  else if b0 < 0xF0 then
    match rest with
    | b1 :: b2 :: _ =>
      if isSecond b0 b1 && isCont b2 then
        some ((b0.toNat % 16 * 64 + payload b1) * 64 + payload b2, 3)
      else none
    | _ => none
  else if b0 < 0xF5 then
    match rest with
    | b1 :: b2 :: b3 :: _ =>
      if isSecond b0 b1 && isCont b2 && isCont b3 then
        some (((b0.toNat % 8 * 64 + payload b1) * 64 + payload b2) * 64 + payload b3, 4)
      else none
    | _ => none
  else none

/-- The first character of the text `b0 :: rest`. -/
def first (b0 : UInt8) (rest : Text) : TextChar :=
  match decode? b0 rest with
  | some (c, w) => ⟨c, b0 :: rest.take (w - 1)⟩
  | none => ⟨replacement, [b0]⟩

/-- The first character takes a beginning of the text, and at least one byte. -/
theorem first_bytes (b : UInt8) (t : Text) :
    (first b t).bytes ++ t.drop ((first b t).bytes.length - 1) = b :: t := by
  simp only [first]
  split
  · rename_i c w _
    rcases Nat.le_total (w - 1) t.length with hw | hw
    · simp [Nat.min_eq_left hw]
    · simp [List.take_of_length_le hw]
  · simp

/-- The bytes of a code point; surrogates and numbers above U+10FFFF give the replacement. -/
def encode (c : Nat) : Text :=
  if c < 0x80 then [UInt8.ofNat c]
  else if c < 0x800 then [UInt8.ofNat (0xC0 + c / 64), UInt8.ofNat (0x80 + c % 64)]
  else if (0xD800 ≤ c && c < 0xE000) || 0x110000 ≤ c then [0xEF, 0xBF, 0xBD]
  else if c < 0x10000 then
    [UInt8.ofNat (0xE0 + c / 4096), UInt8.ofNat (0x80 + c / 64 % 64), UInt8.ofNat (0x80 + c % 64)]
  else
    [UInt8.ofNat (0xF0 + c / 262144), UInt8.ofNat (0x80 + c / 4096 % 64),
      UInt8.ofNat (0x80 + c / 64 % 64), UInt8.ofNat (0x80 + c % 64)]

end Utf8

namespace TextChar

/-- Is the character an ill-formed byte? -/
def isBad (r : TextChar) : Bool := r.code = Utf8.replacement && r.bytes.length = 1

/-- UTF-16 code units of the character. -/
def units (r : TextChar) : Nat := if 0x10000 ≤ r.code then 2 else 1

end TextChar

namespace Text

/-- Characters of the text that is left after `skip` more bytes. -/
def charsFrom : (skip : Nat) → Text → List TextChar
  | _, [] => []
  | 0, b :: t =>
    let r := Utf8.first b t
    r :: charsFrom (r.bytes.length - 1) t
  | skip + 1, _ :: t => charsFrom skip t

/-- The characters of a text, in order. -/
def chars (t : Text) : List TextChar := charsFrom 0 t

/-- The text that the characters were cut from. -/
def ofChars (rs : List TextChar) : Text := rs.flatMap TextChar.bytes

theorem ofChars_charsFrom (skip : Nat) (t : Text) : ofChars (charsFrom skip t) = t.drop skip := by
  induction t generalizing skip with
  | nil => cases skip <;> rfl
  | cons b t ih =>
    cases skip with
    | zero =>
      have h := ih ((Utf8.first b t).bytes.length - 1)
      simp only [ofChars] at h
      simp only [charsFrom, ofChars, List.flatMap_cons, List.drop_zero, h]
      exact Utf8.first_bytes b t
    | succ skip => simpa [charsFrom] using ih skip

/-- Cutting a text into characters loses nothing. -/
@[simp] theorem ofChars_chars (t : Text) : ofChars t.chars = t := by
  simpa [chars] using ofChars_charsFrom 0 t

/-- Is every byte part of a well-formed sequence? -/
def isUtf8 (t : Text) : Bool := t.chars.all fun r => !r.isBad

/-- Every ill-formed byte becomes the three bytes of U+FFFD. -/
def scrub (t : Text) : Text := t.chars.flatMap fun r => Utf8.encode r.code

end Text

end RuleLang
