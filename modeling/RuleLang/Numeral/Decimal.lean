import RuleLang.Numeral.Double

/-!
# RuleLang.Numeral.Decimal

Reading decimal literals with a fraction and an exponent.
-/

namespace RuleLang

namespace Decimal

/-- The value of a run of digits. -/
def digitsValue (ds : Text) : Nat := ds.foldl (fun n b => n * 10 + (b.toNat - 48)) 0

/-- The number that a well-formed literal writes. -/
def ofLiteral (t : Text) : Decimal :=
  let (negative, t) : Bool × Text := match t with
    | 45 :: r => (true, r)
    | 43 :: r => (false, r)
    | t => (false, t)
  let whole := t.takeWhile Text.isDigit
  let t := t.drop whole.length
  let (fraction, t) : Text × Text := match t with
    | 46 :: r => let ds := r.takeWhile Text.isDigit; (ds, r.drop ds.length)
    | t => ([], t)
  let exponent : Int := match t with
    | _ :: 45 :: ds => -(digitsValue ds : Int)
    | _ :: 43 :: ds => digitsValue ds
    | _ :: ds => digitsValue ds
    | [] => 0
  ⟨negative, digitsValue (whole ++ fraction), exponent - fraction.length⟩

end Decimal

end RuleLang
