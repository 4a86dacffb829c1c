import RuleLang.Text.Utf8

/-!
# RuleLang.Text.Blank

White space: the characters with the Unicode property White_Space. Trimming removes whole
characters, so an ill-formed byte is never white space and never removed.
-/

namespace RuleLang

/-- Does the code point have the property White_Space? -/
def isBlankCode (c : Nat) : Bool :=
  (9 ≤ c && c ≤ 13) || c = 0x20 || c = 0x85 || c = 0xA0 || c = 0x1680 ||
    (0x2000 ≤ c && c ≤ 0x200A) || c = 0x2028 || c = 0x2029 || c = 0x202F || c = 0x205F ||
    c = 0x3000

def TextChar.isBlank (r : TextChar) : Bool := isBlankCode r.code

namespace Text

/-- The leading white space characters. -/
def leadingChars (t : Text) : List TextChar := t.chars.takeWhile TextChar.isBlank

/-- `t` without its leading white space. -/
def trimLeft (t : Text) : Text := ofChars (t.chars.dropWhile TextChar.isBlank)

/-- `t` without its trailing white space. -/
def trimRight (t : Text) : Text := ofChars (t.chars.reverse.dropWhile TextChar.isBlank).reverse

/-- `t` without white space at either end. -/
def trim (t : Text) : Text := t.trimLeft.trimRight

end Text

end RuleLang
