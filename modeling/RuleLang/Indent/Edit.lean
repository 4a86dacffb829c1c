import RuleLang.Text.Columns
import RuleLang.Indent.Classify
import RuleLang.Indent.Style

/-!
# RuleLang.Indent.Edit

Replacements within lines, and the replacements that indent a document by the depths of its
lines. A line whose leading white space already has the right number of characters is left alone,
whatever characters they are.
-/

namespace RuleLang

/-- Replace the characters from column `start` up to column `stop` of a line. -/
structure Edit where
  line : Int
  start : Int
  stop : Int
  text : Text
deriving Repr, DecidableEq

namespace Edit

/-- The line after the replacement; a range that ends before its start is empty. -/
def replaceIn (e : Edit) (line : Text) : Text :=
  let i := line.charOffset e.start
  let j := line.charOffset e.stop
  line.take i ++ e.text ++ line.drop (max i j)

/-- The lines after the replacement; an edit of a line that is not there changes nothing. -/
def apply (lines : List Text) (e : Edit) : List Text :=
  if e.line < 0 then lines else lines.modify e.line.toNat e.replaceIn

/-- Apply edits one after another. -/
def applyAll (lines : List Text) (es : List Edit) : List Text := es.foldl apply lines

/-- The replacement that a line needs under a style, if any. -/
def ofLine? (s : Style) (l : Line) : Option Edit :=
  let target := s.indentation l.depth.level
  if target.length = l.leading then none
  else some { line := l.index, start := 0, stop := l.leading, text := target }

/-- The replacements that indent the lines by their depths, in line order. -/
def compute (c : Catalog) (lines : List Text) (s : Style) : List Edit :=
  (Line.classifyAll c lines).filterMap (ofLine? s)

end Edit

end RuleLang
