import RuleLang.Indent.Edit
import RuleLang.Editor.Position

/-!
# RuleLang.Editor.TextEdit

Edits as editors receive them.
-/

namespace RuleLang

structure TextEdit where
  range : Range
  newText : Text
deriving Repr, DecidableEq

namespace TextEdit

def ofEdit (e : Edit) : TextEdit := ⟨.inLine e.line e.start e.stop, e.text⟩

def toJson (e : TextEdit) : Json :=
  .record [("range", e.range.toJson), ("newText", .str e.newText)]

end TextEdit

end RuleLang
