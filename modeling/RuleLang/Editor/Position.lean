import RuleLang.Json.Value

/-!
# RuleLang.Editor.Position

Places in a document as editors name them: a line and a column in UTF-16 units, and ranges
between two such places.
-/

namespace RuleLang

structure Position where
  line : Int := 0
  character : Int := 0
deriving Repr, DecidableEq

structure Range where
  start : Position
  stop : Position
deriving Repr, DecidableEq

namespace Position

def toJson (p : Position) : Json :=
  .record [("line", .int p.line), ("character", .int p.character)]

end Position

namespace Range

/-- Columns `start` to `stop` of one line. -/
def inLine (line start stop : Int) : Range := ⟨⟨line, start⟩, ⟨line, stop⟩⟩

def toJson (r : Range) : Json := .record [("start", r.start.toJson), ("end", r.stop.toJson)]

end Range

/-- Documentation text in Markdown. -/
def markdown (value : Text) : Json := .record [("kind", .lit "markdown"), ("value", .str value)]

end RuleLang
