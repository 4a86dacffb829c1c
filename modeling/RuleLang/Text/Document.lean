import RuleLang.Text.Basic

/-!
# RuleLang.Text.Document

A text as lines. A line ends at a line feed; a carriage return right before the line feed (or at
the very end of the text) belongs to the ending and not to the line's body. `ofText` keeps every
ending, so `toText` gives the same bytes back.
-/

namespace RuleLang

/-- One line: its body, and whether a carriage return follows the body. -/
structure Row where
  body : Text
  cr : Bool
deriving Repr, DecidableEq

namespace Row

/-- The line held by a piece of text without line feeds. -/
def ofPiece (s : Text) : Row :=
  if s.endsWith [13] then ⟨s.dropLast, true⟩ else ⟨s, false⟩

/-- Body and carriage return. -/
def toPiece (r : Row) : Text := if r.cr then r.body ++ [13] else r.body

@[simp] theorem toPiece_ofPiece (s : Text) : (ofPiece s).toPiece = s := by
  simp only [ofPiece]
  split
  · rename_i h
    obtain ⟨t, rfl⟩ := List.isSuffixOf_iff_suffix.1 h
    simp [toPiece]
  · simp [toPiece]

end Row

/-- The lines of a text, and whether the last one is closed by a line feed. -/
structure Document where
  rows : List Row
  closed : Bool
deriving Repr, DecidableEq

namespace Document

/-- A closing line feed does not open another line, and the empty text has no line at all. -/
def ofText (t : Text) : Document :=
  if t.isEmpty then ⟨[], false⟩
  else
    let pieces := t.cut 10
    if t.endsWith [10] then ⟨pieces.dropLast.map Row.ofPiece, true⟩
    else ⟨pieces.map Row.ofPiece, false⟩

def toText (d : Document) : Text :=
  Text.join [10] (d.rows.map Row.toPiece) ++ if d.closed then [10] else []

/-- Cutting a text into lines keeps every byte. -/
theorem toText_ofText (t : Text) : (ofText t).toText = t := by
  simp only [ofText]
  split
  · rename_i h
    simp [List.isEmpty_iff.1 h, toText, Text.join, List.intercalate]
  · split
    · rename_i h
      obtain ⟨s, rfl⟩ := List.isSuffixOf_iff_suffix.1 h
      simp [toText, Text.cut_append_sep, Function.comp_def, Text.join_cut]
    · simp [toText, Function.comp_def, Text.join_cut]

/-- The lines without their endings. -/
def bodies (d : Document) : List Text := d.rows.map Row.body

/-- The document with other bodies and the same endings. -/
def withBodies (d : Document) (bodies : List Text) : Document :=
  { d with rows := d.rows.zipWith (fun r b => { r with body := b }) bodies }

end Document

namespace Text

/-- The lines of a text without their endings. -/
def lines (t : Text) : List Text := (Document.ofText t).bodies

/-- Line `n` of a text, counted from 0; empty if there is none. -/
def lineAt (t : Text) (n : Int) : Text :=
  if n < 0 then [] else t.lines[n.toNat]?.getD []

end Text

end RuleLang
