import RuleLang.Json.Value

/-!
# RuleLang.Json.Reader

Reading JSON. `read?` takes a whole text; `readMembers?` reads an object one level deep and keeps
the source text of each member's value. Ill-formed bytes and lone surrogates inside strings
become U+FFFD; nesting deeper than `maxDepth` is refused.
-/

namespace RuleLang

namespace Json

/-- The deepest nesting of lists and objects. -/
def maxDepth : Nat := 10000

def isWhite (b : UInt8) : Bool := b = 32 || b = 9 || b = 10 || b = 13

def skipWhite (t : Text) : Text := t.dropWhile isWhite

/-! ## Strings -/

/-- The number written by four hexadecimal digits. -/
def hex4? (a b c d : UInt8) : Option Nat := do
  return (((← Text.hexValue? a) * 16 + (← Text.hexValue? b)) * 16 + (← Text.hexValue? c)) * 16 +
    (← Text.hexValue? d)

/-- What a single-letter escape stands for. -/
def escaped? (b : UInt8) : Option UInt8 :=
  if b = 34 || b = 92 || b = 47 then some b
  else if b = 98 then some 8
  else if b = 102 then some 12
  else if b = 110 then some 10
  else if b = 114 then some 13
  else if b = 116 then some 9
  else none

/-- Bytes read so far, last first, after giving up on a high surrogate that found no partner. -/
def settle (high : Option Nat) (acc : Text) : Text :=
  match high with
  | none => acc
  | some _ => (Utf8.encode Utf8.replacement).reverse ++ acc

/-- The rest of a string literal after its opening quote: its content and what follows the closing
quote. `high` is a high surrogate that waits for its partner, `acc` the content so far, last
byte first. -/
def readString? : (high : Option Nat) → (acc : Text) → Text → Option (Text × Text)
  | _, _, [] => none
  | high, acc, 34 :: t => some (Text.scrub (settle high acc).reverse, t)
  | high, acc, 92 :: 117 :: a :: b :: c :: d :: t =>
    match hex4? a b c d with
    | none => none
    | some u =>
      if 0xDC00 ≤ u && u < 0xE000 then
        match high with
        | some h =>
          let code := 0x10000 + (h - 0xD800) * 0x400 + (u - 0xDC00)
          readString? none ((Utf8.encode code).reverse ++ acc) t
        | none => readString? none ((Utf8.encode Utf8.replacement).reverse ++ acc) t
      else if 0xD800 ≤ u && u < 0xDC00 then readString? (some u) (settle high acc) t
      else readString? none ((Utf8.encode u).reverse ++ settle high acc) t
  | high, acc, 92 :: e :: t =>
    match escaped? e with
    | some b => readString? none (b :: settle high acc) t
    | none => none
  | high, acc, b :: t =>
    if b < 32 || b = 92 then none else readString? none (b :: settle high acc) t

/-! ## Numbers -/

/-- A run of digits and what follows it; at least one digit. -/
def readDigits? (t : Text) : Option (Text × Text) :=
  let ds := t.takeWhile Text.isDigit
  if ds.isEmpty then none else some (ds, t.drop ds.length)

/-- The integer part: a single zero, or digits that do not begin with zero. -/
def readWhole? : Text → Option (Text × Text)
  | 48 :: t => some ([48], t)
  | t => readDigits? t

def readFraction? : Text → Option (Text × Text)
  | 46 :: t => (readDigits? t).map fun (ds, r) => (46 :: ds, r)
  | t => some ([], t)

def readExponent? : Text → Option (Text × Text)
  | e :: t =>
    if e = 101 || e = 69 then
      let sign := match t with
        | 43 :: _ => [43]
        | 45 :: _ => [45]
        | _ => []
      (readDigits? (t.drop sign.length)).map fun (ds, r) => (e :: sign ++ ds, r)
    else some ([], e :: t)
  | [] => some ([], [])

/-- A number literal and what follows it. -/
def readNumber? (t : Text) : Option (Text × Text) := do
  let (sign, t) : Text × Text := match t with
    | 45 :: r => ([45], r)
    | t => ([], t)
  let (whole, t) ← readWhole? t
  let (fraction, t) ← readFraction? t
  let (exponent, t) ← readExponent? t
  return (sign ++ whole ++ fraction ++ exponent, t)

/-! ## Values -/

mutual

/-- The value at the start of a text, and what follows it. `fuel` bounds the steps, `depth` the
nesting that is still allowed. -/
def readValue? : (fuel depth : Nat) → Text → Option (Json × Text)
  | 0, _, _ => none
  | fuel + 1, depth, t =>
    match skipWhite t with
    | [] => none
    | 34 :: t => (readString? none [] t).map fun (s, r) => (.str s, r)
    | 91 :: t =>
      if depth = 0 then none
      else match skipWhite t with
        | 93 :: r => some (.arr [], r)
        | t => readItems? fuel (depth - 1) [] t
    | 123 :: t =>
      if depth = 0 then none
      else match skipWhite t with
        | 125 :: r => some (.obj [], r)
        | t => readFields? fuel (depth - 1) [] t
    | 110 :: 117 :: 108 :: 108 :: r => some (.null, r)
    | 116 :: 114 :: 117 :: 101 :: r => some (.bool true, r)
    | 102 :: 97 :: 108 :: 115 :: 101 :: r => some (.bool false, r)
    | t => (readNumber? t).map fun (l, r) => (.num l, r)

/-- The items of a list up to its closing bracket; `acc` holds the items so far, last first. -/
def readItems? : (fuel depth : Nat) → (acc : List Json) → Text → Option (Json × Text)
  | 0, _, _, _ => none
  | fuel + 1, depth, acc, t =>
    match readValue? fuel depth t with
    | none => none
    | some (v, t) =>
      match skipWhite t with
      | 44 :: t => readItems? fuel depth (v :: acc) t
      | 93 :: r => some (.arr (v :: acc).reverse, r)
      | _ => none

/-- The members of an object up to its closing brace; `acc` holds the members so far, last
first. -/
def readFields? : (fuel depth : Nat) → (acc : List (Text × Json)) → Text → Option (Json × Text)
  | 0, _, _, _ => none
  | fuel + 1, depth, acc, t =>
    match skipWhite t with
    | 34 :: t =>
      match readString? none [] t with
      | none => none
      | some (name, t) =>
        match skipWhite t with
        | 58 :: t =>
          match readValue? fuel depth t with
          | none => none
          | some (v, t) =>
            match skipWhite t with
            | 44 :: t => readFields? fuel depth ((name, v) :: acc) t
            | 125 :: r => some (.obj ((name, v) :: acc).reverse, r)
            | _ => none
        | _ => none
    | _ => none

end

/-- Steps that suffice for a text: at most two for each byte. -/
def fuelFor (t : Text) : Nat := 2 * t.length + 2

/-- The value that a whole text holds. -/
def read? (t : Text) : Option Json :=
  match readValue? (fuelFor t) maxDepth t with
  | some (v, rest) => if (skipWhite rest).isEmpty then some v else none
  | none => none

/-! ## Members with their source -/

/-- A member of an object: its name, its value and the text the value was read from. -/
structure Member where
  name : Text
  value : Json
  source : Text
deriving Repr

/-- Members up to the closing brace, and what follows it; `acc` holds the members so far, last
first. -/
def readMembersFrom? : (fuel : Nat) → (acc : List Member) → Text → Option (List Member × Text)
  | 0, _, _ => none
  | fuel + 1, acc, t =>
    match skipWhite t with
    | 34 :: t =>
      match readString? none [] t with
      | none => none
      | some (name, t) =>
        match skipWhite t with
        | 58 :: t =>
          let t := skipWhite t
          match readValue? (fuelFor t) (maxDepth - 1) t with
          | none => none
          | some (value, rest) =>
            let m : Member := ⟨name, value, t.take (t.length - rest.length)⟩
            match skipWhite rest with
            | 44 :: t => readMembersFrom? fuel (m :: acc) t
            | 125 :: r => some ((m :: acc).reverse, r)
            | _ => none
        | _ => none
    | _ => none

/-- The members of a text that holds one object. -/
def readMembers? (t : Text) : Option (List Member) :=
  match skipWhite t with
  | 123 :: t =>
    match skipWhite t with
    | 125 :: r => if (skipWhite r).isEmpty then some [] else none
    | t =>
      match readMembersFrom? (t.length + 1) [] t with
      | some (ms, r) => if (skipWhite r).isEmpty then some ms else none
      | none => none
  | _ => none

end Json

end RuleLang
