import RuleLang.Text.Base64
import RuleLang.Yaml.Style

/-!
# RuleLang.Yaml.Writer

Writing scalars. Lines are never folded. A text that is not UTF-8 is written in base 64 under the
tag for binary data.
-/

namespace RuleLang

namespace Yaml

def spaces (n : Nat) : Text := List.replicate n 32

/-! ## Quotes -/

/-- The letters of one-letter escapes. -/
def shortEscape? (c : Nat) : Option UInt8 :=
  [(0x00, 48), (0x07, 97), (0x08, 98), (0x09, 116), (0x0A, 110), (0x0B, 118), (0x0C, 102),
    (0x0D, 114), (0x1B, 101), (0x22, 34), (0x5C, 92), (0x85, 78), (0xA0, 95), (0x2028, 76),
    (0x2029, 80)].lookup c

def escapeCode (c : Nat) : Text :=
  match shortEscape? c with
  | some b => [92, b]
  | none =>
    if c ≤ 0xFF then txt "\\x" ++ Text.hex true 2 c
    else if c ≤ 0xFFFF then txt "\\u" ++ Text.hex true 4 c
    else txt "\\U" ++ Text.hex true 8 c

/-- The string in double quotes. After a byte order mark everything is escaped. -/
def doubleQuoted (t : Text) : Text :=
  let marked := t.startsWith [0xEF, 0xBB, 0xBF]
  txt "\"" ++ t.chars.flatMap (fun r =>
    if marked || !isWritable r.code || isBreak r.code || r.code = 34 || r.code = 92 then
      escapeCode r.code
    else r.bytes) ++ txt "\""

/-- The lines of a block: `fresh` says that a line begins, which is indented unless it is empty.
`mark` is what the character stands for in the block. -/
def linesFrom (indent : Nat) (mark : TextChar → Text) : (fresh : Bool) → List TextChar → Text
  | _, [] => []
  | fresh, r :: rs =>
    if isBreak r.code then r.bytes ++ linesFrom indent mark true rs
    else (if fresh then spaces indent else []) ++ mark r ++ linesFrom indent mark false rs

/-- The string in single quotes; a quote inside is written twice. -/
def singleQuoted (indent : Nat) (t : Text) : Text :=
  txt "'" ++ linesFrom indent (fun r => if r.code = 39 then txt "''" else r.bytes) false t.chars ++
    txt "'"

/-! ## Literal blocks -/

/-- The indicators after the bar: the indentation if the first character does not show it, and
what becomes of the line breaks at the end. -/
def literalHeader (cs : List Nat) : Text :=
  let hint := if cs.head?.any fun c => isSpace c || isBreak c then txt "2" else []
  let chomp := match cs.reverse with
    | [] => txt "-"
    | [c] => if isBreak c then txt "+" else txt "-"
    | c :: d :: _ => if !isBreak c then txt "-" else if isBreak d then txt "+" else []
  txt "|" ++ hint ++ chomp

/-- A break at the start of the string takes the place of the one after the header. -/
def literal (indent : Nat) (t : Text) : Text :=
  let cs := t.chars.map TextChar.code
  literalHeader cs ++ (if cs.head?.any isBreak then [] else txt "\n") ++
    linesFrom indent TextChar.bytes true t.chars

/-! ## Scalars -/

/-- The pieces of a text of at most `n` bytes each, in order. -/
def chunks (n : Nat) : (left : Nat) → Text → List Text
  | 0, _ => []
  | _, [] => []
  | left + 1, t => t.take n :: chunks n left (t.drop n)

/-- Base 64 in lines of 70 characters; a single line has no line break. -/
def base64Lines (t : Text) : Text :=
  let digits := Base64.encode t
  if digits.length < 70 then digits
  else (chunks 70 digits.length digits).flatMap (· ++ txt "\n")

def writeAs (style : ScalarStyle) (indent : Nat) (t : Text) : Text :=
  match style with
  | .plain => t
  | .single => singleQuoted indent t
  | .double => doubleQuoted t
  | .literal => literal indent t

/-- The written form of a text; `indent` is the indentation of lines after the first. -/
def writeScalar (place : Place) (indent : Nat) (t : Text) : Text :=
  if t.isUtf8 then writeAs (.choose place false t) indent t
  else
    let digits := base64Lines t
    txt "!!binary " ++ writeAs (.choose place true digits) indent digits

/-- End the line of a scalar; a literal block that ends with a break has ended it already. -/
def endLine (t : Text) : Text :=
  if t.chars.getLast?.any fun r => isBreak r.code then t else t ++ txt "\n"

/-- Scalars between brackets. -/
def writeFlowList (indent : Nat) (ts : List Text) : Text :=
  txt "[" ++ Text.join (txt ", ") (ts.map (writeScalar .flow indent)) ++ txt "]"

end Yaml

end RuleLang
