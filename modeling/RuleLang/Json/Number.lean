import RuleLang.Json.Value
import RuleLang.Numeral.Decimal

/-!
# RuleLang.Json.Number

Number literals as doubles, and the normal form of a value: numbers rounded to doubles and
written shortest, objects with sorted names of which the last occurrence counts.
-/

namespace RuleLang

namespace Json

/-- Members in the order of their names, the last of each name. -/
def sortMembers (ms : List (Text × Json)) : List (Text × Json) :=
  let last := ms.foldl (fun out (k, v) => out.filter (fun m => m.1 ≠ k) ++ [(k, v)]) []
  last.mergeSort fun a b => a.1.le b.1

mutual

/-- The normal form of a value; there is none if a number lies beyond all doubles. -/
def normal? : Json → Option Json
  | null => some null
  | bool b => some (bool b)
  | num l => (Double.ofDecimal? (.ofLiteral l)).map fun d => num d.toText
  | str s => some (str s)
  | arr items => (normalItems? items).map arr
  | obj members => (normalMembers? members).map fun ms => obj (sortMembers ms)

def normalItems? : List Json → Option (List Json)
  | [] => some []
  | v :: vs =>
    match normal? v, normalItems? vs with
    | some v, some vs => some (v :: vs)
    | _, _ => none

def normalMembers? : List (Text × Json) → Option (List (Text × Json))
  | [] => some []
  | (k, v) :: ms =>
    match normal? v, normalMembers? ms with
    | some v, some ms => some ((k, v) :: ms)
    | _, _ => none

end

end Json

end RuleLang
