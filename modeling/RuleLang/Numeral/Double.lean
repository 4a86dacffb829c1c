import RuleLang.Text.Basic

/-!
# RuleLang.Numeral.Double

Binary floating point numbers with 53 bits of precision, in exact integer arithmetic. A decimal
numeral is rounded to the nearest double, a tie going to the even mantissa (`ofDecimal?`); a
double is written with the fewest digits that round back to it (`shortest`), positional for
exponents from -7 to 20 and scientific elsewhere (`toText`).
-/

namespace RuleLang

/-- The number `mant * 2 ^ exp`, negated if `negative`. -/
structure Double where
  negative : Bool
  mant : Nat
  exp : Int
deriving Repr, DecidableEq

/-- A decimal numeral: `digits * 10 ^ exp`, negated if `negative`. -/
structure Decimal where
  negative : Bool
  digits : Nat
  exp : Int
deriving Repr, DecidableEq

namespace Double

/-- The quotient rounded to the nearest integer, a tie to the even one. -/
def roundDiv (num den : Nat) : Nat :=
  let q := num / den
  let r := num % den
  if 2 * r < den then q
  else if den < 2 * r then q + 1
  else if q % 2 = 0 then q else q + 1

/-- Numerator and denominator of `n * 10 ^ e10 / 2 ^ e2`. -/
def scaled (n : Nat) (e10 e2 : Int) : Nat × Nat :=
  (n * Nat.pow 10 e10.toNat * Nat.pow 2 (-e2).toNat,
    Nat.pow 10 (-e10).toNat * Nat.pow 2 e2.toNat)

/-- The binary exponent at which `n * 10 ^ e10` has a mantissa of at most 53 bits, not below the
least exponent -1074. -/
def binaryExponent (n : Nat) (e10 : Int) : Int :=
  let (a, b) := scaled n e10 0
  let e := (a.log2 : Int) - (b.log2 : Int) - 52
  -- the quotient's integer part has `e + 52` or `e + 53` as its top bit
  let (a', b') := scaled n e10 e
  let e := if a' / b' < 0x10000000000000 then e - 1 else e
  max e (-1074)

/-- The nearest double, or `none` if it lies beyond the largest one. Numerals far outside the
range of doubles are settled by their number of digits alone. -/
def ofDecimal? (d : Decimal) : Option Double :=
  if d.digits = 0 then some ⟨d.negative, 0, 0⟩
  else
    let size : Int := (Nat.toDigits 10 d.digits).length + d.exp
    if size > 310 then none
    else if size < -330 then some ⟨d.negative, 0, 0⟩
    else
      let e := binaryExponent d.digits d.exp
      let (a, b) := scaled d.digits d.exp e
      let m := roundDiv a b
      let (m, e) := if m = 0x20000000000000 then (0x10000000000000, e + 1) else (m, e)
      if 971 < e then none
      else if m = 0 then some ⟨d.negative, 0, 0⟩
      else some ⟨d.negative, m, e⟩

/-- Does `n * 10 ^ e10` round to `mant * 2 ^ exp`? -/
def reads (mant : Nat) (exp : Int) (n : Nat) (e10 : Int) : Bool :=
  match ofDecimal? ⟨false, n, e10⟩ with
  | some d => d.mant = mant && d.exp = exp
  | none => false

/-- The decimal exponent of the first digit of `mant * 2 ^ exp`, plus one. -/
def decimalPoint (mant : Nat) (exp : Int) : Int :=
  let num := mant * Nat.pow 2 exp.toNat
  let den := Nat.pow 2 (-exp).toNat
  if den ≤ num then (Nat.toDigits 10 (num / den)).length
  else
    -- below one: shift left until the integer part appears
    let shift := (Nat.toDigits 10 (den / num)).length
    let digits := num * Nat.pow 10 shift / den
    ((Nat.toDigits 10 digits).length : Int) - shift

/-- With `count` digits: the grid neighbour of `mant * 2 ^ exp` nearest to it that reads back, as
digits and decimal exponent. -/
def withDigits? (mant : Nat) (exp : Int) (count : Nat) : Option (Nat × Int) :=
  let e10 := decimalPoint mant exp - count
  let (a, b) : Nat × Nat :=
    (mant * Nat.pow 2 exp.toNat * Nat.pow 10 (-e10).toNat,
      Nat.pow 2 (-exp).toNat * Nat.pow 10 e10.toNat)
  let low := a / b
  let near := roundDiv a b
  let far := if near = low then low + 1 else low
  if reads mant exp near e10 then some (near, e10)
  else if reads mant exp far e10 then some (far, e10)
  else none

/-- The fewest digits that read back as `mant * 2 ^ exp`, with the decimal exponent. Seventeen
digits always do. -/
def shortestFrom (mant : Nat) (exp : Int) : (count left : Nat) → Nat × Int
  | _, 0 => (0, 0)
  | count, left + 1 =>
    match withDigits? mant exp count with
    | some r => r
    | none => shortestFrom mant exp (count + 1) left

def shortest (d : Double) : Nat × Int := shortestFrom d.mant d.exp 1 17

/-- Digits with a decimal point after the first `point` of them, padded with zeros. -/
def positional (ds : Text) (point : Int) : Text :=
  if point ≤ 0 then txt "0." ++ List.replicate (-point).toNat 48 ++ ds
  else
    let n := point.toNat
    if ds.length ≤ n then ds ++ List.replicate (n - ds.length) 48
    else ds.take n ++ 46 :: ds.drop n

/-- One digit before the point, the exponent after `e` with its sign. -/
def scientific (ds : Text) (exponent : Int) : Text :=
  let lead := ds.take 1 ++ (if ds.length ≤ 1 then [] else 46 :: ds.drop 1)
  lead ++ txt "e" ++ (if exponent < 0 then [] else txt "+") ++ Text.ofInt exponent

/-- The written number. -/
def toText (d : Double) : Text :=
  let sign := if d.negative then txt "-" else []
  if d.mant = 0 then sign ++ txt "0"
  else
    let (n, e10) := shortest d
    let all := Text.ofNat n
    let ds := (all.reverse.dropWhile (· = 48)).reverse
    let point : Int := all.length + e10
    sign ++ (if -6 < point && point ≤ 21 then positional ds point else scientific ds (point - 1))

end Double

end RuleLang
