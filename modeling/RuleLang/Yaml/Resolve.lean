import RuleLang.Numeral.Integer
import RuleLang.Numeral.Decimal
import RuleLang.Yaml.Timestamp

/-!
# RuleLang.Yaml.Resolve

The type of a plain scalar. A scalar without quotes is a number, a truth value, a timestamp or
null if it is written like one, and a string otherwise.
-/

namespace RuleLang

namespace Yaml

/-- The types of scalars. -/
inductive ScalarType where
  | str
  | bool
  | null
  | int
  | float
  | timestamp
deriving Repr, DecidableEq

namespace ScalarType

def tag : ScalarType → Text
  | str => txt "!!str"
  | bool => txt "!!bool"
  | null => txt "!!null"
  | int => txt "!!int"
  | float => txt "!!float"
  | timestamp => txt "!!timestamp"

end ScalarType

/-- Texts that are written out in full. -/
def words? (t : Text) : Option ScalarType :=
  let among (ws : List String) : Bool := ws.any (txt · = t)
  if among ["true", "True", "TRUE", "false", "False", "FALSE"] then some .bool
  else if among ["", "~", "null", "Null", "NULL"] then some .null
  else if among [".nan", ".NaN", ".NAN", ".inf", ".Inf", ".INF", "+.inf", "+.Inf", "+.INF",
      "-.inf", "-.Inf", "-.INF"] then some .float
  else none

/-- Is the text an exponent mark with its digits, or empty? -/
def isExponent : Text → Bool
  | [] => true
  | e :: t =>
    let ds := match t with
      | 43 :: r => r
      | 45 :: r => r
      | r => r
    (e = 101 || e = 69) && !ds.isEmpty && ds.all Text.isDigit

/-- Is the text a decimal number, with digits on either side of the point? -/
def isDecimal (t : Text) : Bool :=
  let t := (Numeral.splitSign t).2
  let whole := t.takeWhile Text.isDigit
  match t.drop whole.length with
  | 46 :: r =>
    let fraction := r.takeWhile Text.isDigit
    !(whole.isEmpty && fraction.isEmpty) && isExponent (r.drop fraction.length)
  | r => !whole.isEmpty && isExponent r

/-- A decimal number that a double can hold. -/
def isDouble (t : Text) : Bool := isDecimal t && (Double.ofDecimal? (.ofLiteral t)).isSome

/-- A number in a fixed base after its mark, perhaps negative. -/
def isMarked (mark : String) (base : Nat) (t : Text) : Bool :=
  match t.dropStart? (txt mark) with
  | some ds => (Numeral.inBase base ds).isOk || (!ds.isEmpty && (Numeral.magnitude base false 0 ds).isOk)
  | none =>
    match t.dropStart? (txt "-" ++ txt mark) with
    | some ds => (Numeral.inBase base (45 :: ds)).isOk
    | none => false

/-- The type of a text that begins with a digit or a sign, timestamps apart. -/
def numberType (t : Text) : ScalarType :=
  let p := t.filter (· ≠ 95)
  if (Numeral.integer? p).isOk || (Numeral.anyBaseMagnitude p).isOk then .int
  else if isDouble p then .float
  else if isMarked "0b" 2 p || isMarked "0o" 8 p then .int
  else .str

/-- The type of a plain scalar; `dated` allows timestamps. -/
def typeOf (dated : Bool) (t : Text) : ScalarType :=
  match words? t with
  | some ty => ty
  | none =>
    match t with
    | [] => .null
    | b :: _ =>
      if b = 46 then
        if Numeral.gapsOk false none t && isDouble (t.filter (· ≠ 95)) then .float else .str
      else if b = 43 || b = 45 || Text.isDigit b then
        if dated && isTimestamp t then .timestamp else numberType t
      else .str

/-- The type of a scalar with a tag, if the text fits the tag. Only the tags of the types above
ask anything of the text; a string fits everything, and an integer also fits a float. -/
def typeUnder? (tag t : Text) : Option ScalarType :=
  let checked := [ScalarType.bool, .null, .int, .float, .timestamp].any fun ty => ty.tag = tag
  if !checked then some .str
  else
    let ty := typeOf (tag = txt "!!timestamp") t
    if ty.tag = tag || (tag = txt "!!float" && ty = .int) then some ty else none

end Yaml

end RuleLang
