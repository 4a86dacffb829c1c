import RuleLang.Text.Utf8

/-!
# RuleLang.Yaml.Source

The characters of a YAML stream, and a cursor that walks over them counting lines and columns.
A stream is UTF-8, or UTF-16 if it begins with a byte order mark that says so. Ill-formed input
and control characters are refused.
-/

namespace RuleLang

namespace Yaml

/-- May the character stand in a stream? -/
def isAllowed (c : Nat) : Bool :=
  c = 9 || c = 10 || c = 13 || (0x20 ≤ c && c ≤ 0x7E) || c = 0x85 ||
    (0xA0 ≤ c && c ≤ 0xD7FF) || (0xE000 ≤ c && c ≤ 0xFFFD) || (0x10000 ≤ c && c ≤ 0x10FFFF)

/-- Pairs of bytes as 16-bit units; there is none for an odd number of bytes. -/
def units16? (big : Bool) : Text → Option (List Nat)
  | [] => some []
  | [_] => none
  | a :: b :: t =>
    let u := if big then a.toNat * 256 + b.toNat else b.toNat * 256 + a.toNat
    (units16? big t).map (u :: ·)

/-- Code points of 16-bit units; surrogates have to come in pairs. -/
def decode16? : List Nat → Option (List Nat)
  | [] => some []
  | u :: us =>
    if 0xD800 ≤ u && u < 0xDC00 then
      match us with
      | v :: vs =>
        if 0xDC00 ≤ v && v < 0xE000 then
          (decode16? vs).map ((0x10000 + (u - 0xD800) * 0x400 + (v - 0xDC00)) :: ·)
        else none
      | [] => none
    else if 0xDC00 ≤ u && u < 0xE000 then none
    else (decode16? us).map (u :: ·)

def decode8? (t : Text) : Option (List Nat) :=
  let rs := t.chars
  if rs.any TextChar.isBad then none else some (rs.map TextChar.code)

/-- The characters of a stream, without a leading byte order mark. -/
def chars? (t : Text) : Option (List Nat) :=
  let cs := match t with
    | 0xFF :: 0xFE :: r => (units16? false r).bind decode16?
    | 0xFE :: 0xFF :: r => (units16? true r).bind decode16?
    | 0xEF :: 0xBB :: 0xBF :: r => decode8? r
    | t => decode8? t
  cs.bind fun cs => if cs.all isAllowed then some cs else none

def toText (cs : List Nat) : Text := cs.flatMap Utf8.encode

/-! ## Character classes -/

/-- A line break: line feed, carriage return, next line, line or paragraph separator. -/
def isBreak (c : Nat) : Bool := c = 10 || c = 13 || c = 0x85 || c = 0x2028 || c = 0x2029

/-- A space or a tab. -/
def isBlank (c : Nat) : Bool := c = 32 || c = 9

/-- A line break or the end of the stream, which is shown as 0. -/
def isBreakOrEnd (c : Nat) : Bool := c = 0 || isBreak c

def isBlankOrEnd (c : Nat) : Bool := isBlank c || isBreakOrEnd c

/-- A character of a name: letter, digit, underscore or dash. -/
def isNameChar (c : Nat) : Bool :=
  (48 ≤ c && c ≤ 57) || (65 ≤ c && c ≤ 90) || (97 ≤ c && c ≤ 122) || c = 95 || c = 45

/-! ## Cursor -/

structure Cursor where
  rest : List Nat
  line : Nat := 0
  column : Nat := 0
  index : Nat := 0
deriving Repr

namespace Cursor

/-- The character `n` places ahead, 0 beyond the end. -/
def peek (c : Cursor) (n : Nat := 0) : Nat := c.rest[n]?.getD 0

/-- Pass over `n` characters of a line. -/
def skip (c : Cursor) (n : Nat := 1) : Cursor :=
  { c with rest := c.rest.drop n, column := c.column + n, index := c.index + n }

/-- Pass over characters that satisfy `p` and are no line breaks. -/
def skipWhile (c : Cursor) (p : Nat → Bool) : Cursor := c.skip (c.rest.takeWhile p).length

/-- Pass over a line break; a carriage return and a line feed are one break. -/
def skipLine (c : Cursor) : Cursor :=
  let n := if c.peek = 13 && c.peek 1 = 10 then 2 else if isBreak c.peek then 1 else 0
  if n = 0 then c
  else { rest := c.rest.drop n, line := c.line + 1, column := 0, index := c.index + n }

/-- What a line break reads as: the separators stand for themselves, all else is a line feed. -/
def breakValue (c : Cursor) : List Nat :=
  if c.peek = 0x2028 || c.peek = 0x2029 then [c.peek]
  else if isBreak c.peek then [10]
  else []

/-- Does a document marker, three equal characters and a blank, stand at the start of the line? -/
def atMarker (c : Cursor) (mark : Nat) : Bool :=
  c.column = 0 && c.peek = mark && c.peek 1 = mark && c.peek 2 = mark && isBlankOrEnd (c.peek 3)

def atAnyMarker (c : Cursor) : Bool := c.atMarker 45 || c.atMarker 46

end Cursor

end Yaml

end RuleLang
