import RuleLang.Catalog.Candidates

/-!
# RuleLang.Indent.Style

What one nesting level is indented by: a number of spaces, or one tab.
-/

namespace RuleLang

structure Style where
  useSpaces : Bool := true
  unitWidth : Int := 2
deriving Repr, DecidableEq

namespace Style

/-- Width used where none, or none that makes sense, is given. -/
def defaultWidth : Int := 2

/-- The largest width taken from editors, the environment and the command line. -/
def maxWidth : Int := 16

/-- A width that is not positive becomes the default; other widths stay. -/
def normalize (s : Style) : Style :=
  if s.unitWidth ≤ 0 then { s with unitWidth := defaultWidth } else s

/-- Like `normalize`, and widths above `maxWidth` become the default too. -/
def bounded (s : Style) : Style :=
  if s.unitWidth > maxWidth then { s with unitWidth := defaultWidth } else s.normalize

/-- Leading white space for a number of levels: a tab for each, or the width's spaces. -/
def indentation (s : Style) (levels : Int) : Text :=
  if levels ≤ 0 then []
  else if s.useSpaces then
    List.replicate (indentCount levels s.normalize.unitWidth) 32
  else List.replicate levels.toNat 9

end Style

end RuleLang
