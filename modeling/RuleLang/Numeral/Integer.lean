import RuleLang.Text.Basic

/-!
# RuleLang.Numeral.Integer

Reading signed 64-bit integers and truth values. A numeral either is plain decimal
(`decimal?`) or carries its base in front (`integer?`: `0x`, `0o`, `0b`, or a bare leading zero
for octal, with underscores between digits). Reading stops at the first fault: a byte that is no
digit of the base, or the digit at which the magnitude leaves 64 bits.
-/

namespace RuleLang

/-- Why a numeral was refused. -/
inductive NumeralFault where
  | notNumber
  | outOfRange
deriving Repr, DecidableEq

namespace NumeralFault

def message : NumeralFault → Text
  | notNumber => txt "invalid syntax"
  | outOfRange => txt "value out of range"

end NumeralFault

namespace Numeral

/-- The value of `b` as a digit in bases up to 36. -/
def digit? (b : UInt8) : Option Nat :=
  if Text.isDigit b then some (b.toNat - 48)
  else if Text.isLetter b then some ((Text.lowerByte b).toNat - 87)
  else none

/-- Magnitude of a string of digits in `base`, at most `2 ^ 64 - 1`; underscores are passed over
if `gaps`. -/
def magnitude (base : Nat) (gaps : Bool) : (value : Nat) → Text → Except NumeralFault Nat
  | value, [] => .ok value
  | value, b :: t =>
    if gaps && b = 95 then magnitude base gaps value t
    else match digit? b with
      | none => .error .notNumber
      | some d =>
        if base ≤ d then .error .notNumber
        else if 0x10000000000000000 ≤ value * base + d then .error .outOfRange
        else magnitude base gaps (value * base + d) t

/-- The sign (`true` for minus) and what follows it. -/
def splitSign : Text → Bool × Text
  | 43 :: t => (false, t)
  | 45 :: t => (true, t)
  | t => (false, t)

/-- Attach a sign; the result has to fit in a signed 64-bit word. -/
def signed (negative : Bool) (value : Nat) : Except NumeralFault Int :=
  if negative then
    if value ≤ 0x8000000000000000 then .ok (-(value : Int)) else .error .outOfRange
  else if value < 0x8000000000000000 then .ok value
  else .error .outOfRange

/-- An integer in a fixed base with an optional sign. -/
def inBase (base : Nat) (t : Text) : Except NumeralFault Int := do
  let (negative, ds) := splitSign t
  if ds.isEmpty then throw .notNumber
  signed negative (← magnitude base false 0 ds)

/-- A decimal integer with an optional sign. -/
def decimal? (t : Text) : Except NumeralFault Int := inBase 10 t

/-- The base that the leading bytes name, and the digits after them. -/
def splitBase : Text → Nat × Text
  | 48 :: b :: c :: t =>
    if Text.lowerByte b = 98 then (2, c :: t)
    else if Text.lowerByte b = 111 then (8, c :: t)
    else if Text.lowerByte b = 120 then (16, c :: t)
    else (8, b :: c :: t)
  | 48 :: t => (8, t)
  | t => (10, t)

/-- Every underscore stands between digits. `afterDigit` tells what came last: `none` for the
start or a byte of another kind, `some true` for a digit, `some false` for an underscore. -/
def gapsOk (hex : Bool) : (afterDigit : Option Bool) → Text → Bool
  | last, [] => last != some false
  | last, b :: t =>
    if Text.isDigit b || (hex && 97 ≤ Text.lowerByte b && Text.lowerByte b ≤ 102) then
      gapsOk hex (some true) t
    else if b = 95 then last == some true && gapsOk hex (some false) t
    else last != some false && gapsOk hex none t

/-- Underscores in an unsigned numeral stand between digits; a base mark counts as a digit. -/
def gapsAllowed : Text → Bool
  | 48 :: b :: t =>
    let l := Text.lowerByte b
    if l = 98 || l = 111 || l = 120 then gapsOk (l = 120) (some true) t
    else gapsOk false none (48 :: b :: t)
  | t => gapsOk false none t

/-- Magnitude of an unsigned numeral that names its own base. -/
def anyBaseMagnitude (t : Text) : Except NumeralFault Nat := do
  if t.isEmpty then throw .notNumber
  let (base, ds) := splitBase t
  let value ← magnitude base true 0 ds
  if t.contains 95 && !gapsAllowed t then throw .notNumber
  return value

/-- A signed integer that names its own base. -/
def integer? (t : Text) : Except NumeralFault Int := do
  let (negative, ds) := splitSign t
  signed negative (← anyBaseMagnitude ds)

/-- A truth value, in one of its usual spellings. -/
def bool? (t : Text) : Option Bool :=
  if ["1", "t", "T", "true", "TRUE", "True"].any (txt · = t) then some true
  else if ["0", "f", "F", "false", "FALSE", "False"].any (txt · = t) then some false
  else none

end Numeral

end RuleLang
