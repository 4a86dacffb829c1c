/-!
# RuleLang.Text.Basic

A text is a list of bytes. It need not be well-formed UTF-8: rule documents, catalog files and
protocol messages arrive as bytes and leave as bytes, and an ill-formed byte passes through
unchanged. `txt` writes a constant text, `ofNat` and `ofInt` write decimal numbers.
-/

namespace RuleLang

abbrev Text := List UInt8

/-- The UTF-8 bytes of a string. -/
def txt (s : String) : Text := s.toList.flatMap String.utf8EncodeChar

namespace Text

/-- Does `t` begin with `p`? -/
def startsWith (t p : Text) : Bool := p.isPrefixOf t

/-- Does `t` end with `s`? -/
def endsWith (t s : Text) : Bool := s.isSuffixOf t

/-- `t` without the leading `p`, if it begins with `p`. -/
def dropStart? (t p : Text) : Option Text :=
  if t.startsWith p then some (t.drop p.length) else none

/-- `t` without a leading `p`; other texts are returned as they are. -/
def dropStart (t p : Text) : Text := (t.dropStart? p).getD t

/-- `t` without a trailing `s`; other texts are returned as they are. -/
def dropEnd (t s : Text) : Text := if t.endsWith s then t.take (t.length - s.length) else t

/-- The pieces between the occurrences of `sep`: one more than there are occurrences. -/
def cut (sep : UInt8) : Text → List Text
  | [] => [[]]
  | b :: t =>
    if b = sep then [] :: cut sep t
    else match cut sep t with
      | [] => [[b]]
      | l :: ls => (b :: l) :: ls

/-- The pieces, with `sep` between neighbours. -/
def join (sep : Text) (ts : List Text) : Text := sep.intercalate ts

theorem cut_ne_nil (sep : UInt8) (t : Text) : cut sep t ≠ [] := by
  cases t with
  | nil => simp [cut]
  | cons b t =>
    simp only [cut]
    split
    · simp
    · split <;> simp

/-- The pieces of a cut, joined again, are the text. -/
theorem join_cut (sep : UInt8) (t : Text) : join [sep] (cut sep t) = t := by
  induction t with
  | nil => rfl
  | cons b t ih =>
    simp only [cut]
    split
    · rename_i h
      cases hc : cut sep t with
      | nil => exact absurd hc (cut_ne_nil sep t)
      | cons l ls => simp [join, List.intercalate, hc] at ih ⊢; simp [h, ih]
    · cases hc : cut sep t with
      | nil => exact absurd hc (cut_ne_nil sep t)
      | cons l ls =>
        cases ls with
        | nil => simp [join, List.intercalate, hc] at ih ⊢; simp [ih]
        | cons l' ls => simp [join, List.intercalate, hc] at ih ⊢; simp [ih]

/-- A separator at the end opens an empty last piece. -/
theorem cut_append_sep (sep : UInt8) (t : Text) : cut sep (t ++ [sep]) = cut sep t ++ [[]] := by
  induction t with
  | nil => simp [cut]
  | cons b t ih =>
    simp only [List.cons_append, cut, ih]
    split
    · simp
    · cases hc : cut sep t with
      | nil => exact absurd hc (cut_ne_nil sep t)
      | cons l ls => simp

/-- Decimal digits of `n`. -/
def ofNat (n : Nat) : Text := (Nat.toDigits 10 n).map fun c => UInt8.ofNat c.toNat

/-- Decimal digits of `i`, after a minus sign if it is negative. -/
def ofInt : Int → Text
  | .ofNat n => ofNat n
  | .negSucc n => 45 :: ofNat (n + 1)

/-- `n` in base 16 with at least `width` digits; `upper` chooses the capital digits. -/
def hex (upper : Bool) (width n : Nat) : Text :=
  let ds := (Nat.toDigits 16 n).map fun c =>
    let b := UInt8.ofNat c.toNat
    if upper && 97 ≤ b then b - 32 else b
  List.replicate (width - ds.length) 48 ++ ds

/-! ## Byte classes -/

def isDigit (b : UInt8) : Bool := 48 ≤ b && b ≤ 57
def isUpper (b : UInt8) : Bool := 65 ≤ b && b ≤ 90
def isLower (b : UInt8) : Bool := 97 ≤ b && b ≤ 122
def isLetter (b : UInt8) : Bool := isUpper b || isLower b

/-- A capital ASCII letter becomes small; other bytes stay. -/
def lowerByte (b : UInt8) : UInt8 := if isUpper b then b + 32 else b

/-- The value of a hexadecimal digit. -/
def hexValue? (b : UInt8) : Option Nat :=
  if isDigit b then some (b.toNat - 48)
  else if 97 ≤ b && b ≤ 102 then some (b.toNat - 87)
  else if 65 ≤ b && b ≤ 70 then some (b.toNat - 55)
  else none

/-- Order of texts by their bytes. -/
def le (a b : Text) : Bool :=
  match a, b with
  | [], _ => true
  | _ :: _, [] => false
  | x :: xs, y :: ys => if x < y then true else if y < x then false else le xs ys

end Text

end RuleLang
