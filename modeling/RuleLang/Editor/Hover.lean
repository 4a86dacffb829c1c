import RuleLang.Editor.Span
import RuleLang.Editor.Position

/-!
# RuleLang.Editor.Hover

What is shown for the place under the cursor: the keyword that opens the line, or the severity,
language or metavariable token that the cursor touches.
-/

namespace RuleLang

structure Hover where
  contents : Text
  range : Range
deriving Repr, DecidableEq

/-- A word with its byte span. -/
structure WordSpan where
  word : Text
  left : Nat
  right : Nat
deriving Repr, DecidableEq

/-- The word around byte `offset` of a line; offsets outside the line count as its nearer end. -/
def wordAt? (line : Text) (offset : Int) : Option WordSpan :=
  let i := min offset.toNat line.length
  let left := i - ((line.take i).reverse.takeWhile isWordByte).length
  let right := i + ((line.drop i).takeWhile isWordByte).length
  if left = right then none else some ⟨(line.drop left).take (right - left), left, right⟩

namespace Hover

/-- A heading with the name and its level, then the documentation. -/
def describe (name level docs : Text) : Text :=
  txt "`" ++ name ++ txt "` (" ++ level ++ txt " level)\n\n" ++ docs

/-- The bytes `start` to `stop` of a line as an editor's range. -/
def rangeOf (lineNo : Int) (line : Text) (start stop : Nat) : Range :=
  .inLine lineNo (line.utf16Col start) (line.utf16Col stop)

/-- Documentation of a value token. -/
def tokenDocs? (c : Catalog) (word : Text) : Option Text :=
  if c.isSeverity word then some (txt "Severity level reported when the rule matches.")
  else if c.isLanguage word then some (txt "Target language of the rule.")
  else if c.isMetavariable word then
    some (txt "Metavariable: binds any expression matched at this position.")
  else none

/-- The keyword of the line, if byte `offset` touches its label. -/
def keyword? (c : Catalog) (lineNo : Int) (line : Text) (offset : Nat) : Option Hover := do
  let trimmed := line.trimLeft
  let start := line.length - trimmed.length
  let e ← c.match? trimmed
  let stop := start + e.label.length
  if start ≤ offset ∧ offset ≤ stop then
    some ⟨describe e.label e.depth.name e.docs, rangeOf lineNo line start stop⟩
  else none

/-- The value token at byte `offset` of the line. -/
def token? (c : Catalog) (text : Text) (lineNo : Int) (line : Text) (offset : Nat) :
    Option Hover := do
  let w ← wordAt? line offset
  let docs ← tokenDocs? c w.word
  some ⟨describe w.word (depthAt c text.lines lineNo).name docs, rangeOf lineNo line w.left w.right⟩

/-- What is shown at a position, if anything. -/
def at? (c : Catalog) (text : Text) (p : Position) : Option Hover :=
  let line := text.lineAt p.line
  if line.isEmpty then none
  else
    let offset := line.byteOffset p.character
    (keyword? c p.line line offset).orElse fun _ => token? c text p.line line offset

def toJson (h : Hover) : Json :=
  .record [("contents", markdown h.contents), ("range", h.range.toJson)]

end Hover

end RuleLang
