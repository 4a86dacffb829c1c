import RuleLang.Json.Value
import RuleLang.Numeral.Integer

/-!
# RuleLang.Json.Decode

Reading JSON values into typed fields. Names are compared without regard to case; unknown names
are passed over; a repeated name counts again, on top of what was read before; `null` leaves a
field as it is. A value of the wrong type refuses the whole.
-/

namespace RuleLang

namespace Json

/-- The letter that stands for a code point when case does not count: the long s and the Kelvin
sign are variants of s and k. -/
def foldCode (c : Nat) : Nat :=
  if 65 ≤ c && c ≤ 90 then c + 32
  else if c = 0x17F then 115
  else if c = 0x212A then 107
  else c

def foldName (t : Text) : List Nat := t.chars.map fun r => foldCode r.code

/-- Does a member's name denote the field? -/
def isField (field : String) (name : Text) : Bool := foldName name = foldName (txt field)

/-- A string field. -/
def asText? (old : Text) : Json → Option Text
  | null => some old
  | str s => some s
  | _ => none

/-- A truth value field. -/
def asBool? (old : Bool) : Json → Option Bool
  | null => some old
  | bool b => some b
  | _ => none

/-- An integer field: a number without fraction and exponent that fits in 64 bits. -/
def asInt? (old : Int) : Json → Option Int
  | null => some old
  | num l => (Numeral.decimal? l).toOption
  | _ => none

/-- An optional field; `null` empties it. -/
def asOption? {α : Type} (read : α → Json → Option α) (zero : α) (old : Option α) :
    Json → Option (Option α)
  | null => some none
  | v => (read (old.getD zero) v).map some

/-- A field that is a record: every member is folded into the old value. -/
def asRecord? {α : Type} (field : α → Text → Json → Option α) (old : α) : Json → Option α
  | null => some old
  | obj ms => ms.foldlM (fun a (k, v) => field a k v) old
  | _ => none

end Json

end RuleLang
