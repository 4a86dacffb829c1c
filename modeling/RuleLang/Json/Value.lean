import RuleLang.Text.Utf8

/-!
# RuleLang.Json.Value

JSON values. Numbers keep the way they are written, strings are texts, and the members of an
object keep their order and may repeat a name.
-/

namespace RuleLang

inductive Json where
  | null
  | bool (b : Bool)
  | num (literal : Text)
  | str (s : Text)
  | arr (items : List Json)
  | obj (members : List (Text × Json))
deriving Repr, Inhabited

namespace Json

def int (n : Int) : Json := .num (Text.ofInt n)

/-- A constant string. -/
def lit (s : String) : Json := .str (txt s)

/-- An object with constant names. -/
def record (members : List (String × Json)) : Json :=
  .obj (members.map fun (k, v) => (txt k, v))

end Json

end RuleLang
