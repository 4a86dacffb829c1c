import RuleLang.Text.Utf8
import RuleLang.Text.Printable

/-!
# RuleLang.Text.Quoted

The quoted form of a text in messages: printable characters stand for themselves, the rest is
written with backslash escapes, so that a path or a keyword is shown on one line whatever its
bytes are.
-/

namespace RuleLang

namespace Text

/-- One character inside double quotes. -/
def quoteChar (r : TextChar) : Text :=
  if r.isBad then txt "\\x" ++ hex false 2 ((r.bytes.headD 0).toNat)
  else if r.code = 34 then txt "\\\""
  else if r.code = 92 then txt "\\\\"
  else if isPrintable r.code then r.bytes
  else if r.code = 7 then txt "\\a"
  else if r.code = 8 then txt "\\b"
  else if r.code = 12 then txt "\\f"
  else if r.code = 10 then txt "\\n"
  else if r.code = 13 then txt "\\r"
  else if r.code = 9 then txt "\\t"
  else if r.code = 11 then txt "\\v"
  else if r.code < 0x20 || r.code = 0x7F then txt "\\x" ++ hex false 2 r.code
  else if r.code < 0x10000 then txt "\\u" ++ hex false 4 r.code
  else txt "\\U" ++ hex false 8 r.code

/-- The text in double quotes. -/
def quote (t : Text) : Text := txt "\"" ++ t.chars.flatMap quoteChar ++ txt "\""

end Text

end RuleLang
