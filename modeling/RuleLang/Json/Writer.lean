import RuleLang.Json.Value

/-!
# RuleLang.Json.Writer

Printing JSON, on one line (`toText`) or indented by two spaces (`pretty`). Inside strings
control characters, quotes, backslashes and the two Unicode line separators are escaped; with
`html`, also the characters that could end a script or an attribute in a web page.
-/

namespace RuleLang

namespace Json

/-- One character of a string literal. An ill-formed byte becomes the escape of U+FFFD. -/
def escape (html : Bool) (r : TextChar) : Text :=
  if r.isBad then txt "\\ufffd"
  else if r.code = 34 then txt "\\\""
  else if r.code = 92 then txt "\\\\"
  else if r.code = 8 then txt "\\b"
  else if r.code = 12 then txt "\\f"
  else if r.code = 10 then txt "\\n"
  else if r.code = 13 then txt "\\r"
  else if r.code = 9 then txt "\\t"
  else if r.code < 0x20 || r.code = 0x2028 || r.code = 0x2029 ||
      (html && (r.code = 60 || r.code = 62 || r.code = 38)) then
    txt "\\u" ++ Text.hex false 4 r.code
  else r.bytes

/-- A string literal. -/
def quoted (html : Bool) (s : Text) : Text :=
  txt "\"" ++ s.chars.flatMap (escape html) ++ txt "\""

mutual

/-- The value on one line. -/
def compact (html : Bool) : Json → Text
  | null => txt "null"
  | bool true => txt "true"
  | bool false => txt "false"
  | num l => l
  | str s => quoted html s
  | arr items => txt "[" ++ compactItems html items ++ txt "]"
  | obj members => txt "\x7b" ++ compactMembers html members ++ txt "\x7d"

def compactItems (html : Bool) : List Json → Text
  | [] => []
  | [v] => compact html v
  | v :: vs => compact html v ++ txt "," ++ compactItems html vs

def compactMembers (html : Bool) : List (Text × Json) → Text
  | [] => []
  | [(k, v)] => quoted html k ++ txt ":" ++ compact html v
  | (k, v) :: ms => quoted html k ++ txt ":" ++ compact html v ++ txt "," ++ compactMembers html ms

end

/-- The value on one line, safe inside a web page. -/
def toText (v : Json) : Text := compact true v

/-- A line feed and two spaces for each level. -/
def newline (level : Nat) : Text := 10 :: List.replicate (2 * level) 32

mutual

/-- The value over several lines, the closing bracket at `level`; empty lists and objects stay on
one line. -/
def prettyAt (html : Bool) (level : Nat) : Json → Text
  | arr [] => txt "[]"
  | obj [] => txt "\x7b\x7d"
  | arr (v :: vs) =>
    txt "[" ++ newline (level + 1) ++ prettyAt html (level + 1) v ++
      prettyItems html (level + 1) vs ++ newline level ++ txt "]"
  | obj ((k, v) :: ms) =>
    txt "\x7b" ++ newline (level + 1) ++ quoted html k ++ txt ": " ++
      prettyAt html (level + 1) v ++ prettyMembers html (level + 1) ms ++
      newline level ++ txt "\x7d"
  | v => compact html v

def prettyItems (html : Bool) (level : Nat) : List Json → Text
  | [] => []
  | v :: vs => txt "," ++ newline level ++ prettyAt html level v ++ prettyItems html level vs

def prettyMembers (html : Bool) (level : Nat) : List (Text × Json) → Text
  | [] => []
  | (k, v) :: ms =>
    txt "," ++ newline level ++ quoted html k ++ txt ": " ++ prettyAt html level v ++
      prettyMembers html level ms

end

/-- The value over several lines, indented by two spaces. -/
def pretty (html : Bool) (v : Json) : Text := prettyAt html 0 v

end Json

end RuleLang
