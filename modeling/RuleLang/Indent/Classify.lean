import RuleLang.Text.Blank
import RuleLang.Catalog.Basic

/-!
# RuleLang.Indent.Classify

The depth of every line of a document. A line that begins with a keyword has the keyword's depth;
any other line takes its depth from the line before it. No line is ever refused.
-/

namespace RuleLang

/-- A line with its depth. `leading` counts the characters of white space in front. -/
structure Line where
  index : Nat
  raw : Text
  leading : Nat
  trimmed : Text
  depth : Depth
deriving Repr, DecidableEq

/-- The depth of a line without its leading white space, after a line of depth `carried`. Text
right under the root belongs to a rule, a list item right under a rule to a pattern; anything
else stays at the depth it is found at. -/
def depthAfter (c : Catalog) (carried : Depth) (trimmed : Text) : Depth :=
  match c.match? trimmed with
  | some e => e.depth
  | none =>
    if trimmed.isEmpty then carried
    else if trimmed.startsWith [45] && carried = .rule then .pattern
    else if carried = .root then .rule
    else carried

namespace Line

def classify (c : Catalog) (carried : Depth) (index : Nat) (raw : Text) : Line :=
  let trimmed := raw.trimLeft
  { index, raw, leading := raw.leadingChars.length, trimmed, depth := depthAfter c carried trimmed }

/-- Lines from `index` on, after a line of depth `carried`. -/
def classifyFrom (c : Catalog) : (carried : Depth) → (index : Nat) → List Text → List Line
  | _, _, [] => []
  | carried, index, raw :: rest =>
    let l := classify c carried index raw
    l :: classifyFrom c l.depth (index + 1) rest

/-- Every line of a document with its depth. -/
def classifyAll (c : Catalog) (lines : List Text) : List Line := classifyFrom c .root 0 lines

end Line

/-- The depth of line `n`, or the depth left after the last line if there is no line `n`. -/
def depthAt (c : Catalog) (lines : List Text) (n : Int) : Depth :=
  if n < 0 then .root
  else match (Line.classifyAll c (lines.take (n.toNat + 1))).getLast? with
    | some l => l.depth
    | none => .root

end RuleLang
