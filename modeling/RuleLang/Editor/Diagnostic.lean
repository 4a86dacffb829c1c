import RuleLang.Text.Document
import RuleLang.Indent.Edit
import RuleLang.Editor.Position

/-!
# RuleLang.Editor.Diagnostic

A remark for every line that is not blank and that the formatter would indent differently.
-/

namespace RuleLang

structure Diagnostic where
  range : Range
  message : Text
deriving Repr, DecidableEq

/-- The amount of white space in words. -/
def describeIndent (ws : Text) (s : Style) : Text :=
  if ws.isEmpty then txt "nothing"
  else
    let unit := if s.useSpaces then txt "space" else txt "tab"
    Text.ofNat ws.length ++ txt " " ++ unit ++ (if 1 < ws.length then txt "s" else [])

namespace Diagnostic

/-- The remark on a line, if it needs an edit and is not blank. -/
def ofLine? (s : Style) (l : Line) : Option Diagnostic :=
  match Edit.ofLine? s l with
  | none => none
  | some e =>
    if l.trimmed.isEmpty then none
    else some
      { range := .inLine e.line e.start e.stop
        message :=
          l.depth.name ++ txt " line should be indented by " ++ describeIndent e.text s }

/-- The remarks on a document, in line order. -/
def collect (c : Catalog) (text : Text) (s : Style) : List Diagnostic :=
  (Line.classifyAll c text.lines).filterMap (ofLine? s)

/-- Severity 3 is an information. -/
def toJson (d : Diagnostic) : Json :=
  .record [("range", d.range.toJson), ("severity", .int 3), ("source", .lit "semgrep-lsp"),
    ("message", .str d.message)]

end Diagnostic

end RuleLang
