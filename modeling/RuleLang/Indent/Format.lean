import RuleLang.Text.Document
import RuleLang.Indent.Edit

/-!
# RuleLang.Indent.Format

Re-indenting a whole text. Every line ending stays what it was. So a final line feed is never lost,
but one can be gained: a last line of white space that belongs to the root is emptied, and then the
line feed before it is the last byte.
-/

namespace RuleLang

/-- The text with every line indented by its depth. -/
def formatText (c : Catalog) (t : Text) (s : Style) : Text :=
  let d := Document.ofText t
  (d.withBodies (Edit.applyAll d.bodies (Edit.compute c d.bodies s))).toText

end RuleLang
