import RuleLang.Catalog.Basic

/-!
# RuleLang.Grammar.Alternation

Regular expressions for lists of words. The words stand for themselves, so that characters with a
meaning are escaped, and longer words come first, so that the first alternative that matches is
the longest.
-/

namespace RuleLang

namespace Grammar

/-- Does the byte mean something else in a regular expression? -/
def isSpecial (b : UInt8) : Bool :=
  [92, 46, 43, 42, 63, 40, 41, 124, 91, 93, 123, 125, 94, 36].contains b

/-- An expression that matches just this word. -/
def escapeWord (w : Text) : Text := w.flatMap fun b => if isSpecial b then [92, b] else [b]

/-- Longer words before shorter ones; words of one length keep their order. -/
def longestFirst (ws : List Text) : List Text :=
  ws.mergeSort fun a b => decide (b.length ≤ a.length)

/-- The words as alternatives. -/
def alternation (ws : List Text) : Text := Text.join (txt "|") ((longestFirst ws).map escapeWord)

/-- The words in byte order, each once. -/
def sortedUnique (ws : List Text) : List Text := ws.eraseDups.mergeSort Text.le

/-- An expression that matches nothing. -/
def nothing : Text := txt "\\b\\B"

/-- One of the keys at the start of a line, perhaps after a dash, with a colon to follow. -/
def keyExpression (keys : List Text) : Text :=
  if keys.isEmpty then nothing
  else txt "^\\s*(?:-\\s+)?(?:" ++ alternation keys ++ txt ")(?=\\s*:)"

/-- One of the words, standing alone. -/
def wordExpression (words : List Text) : Text :=
  if words.isEmpty then nothing else txt "\\b(?:" ++ alternation words ++ txt ")\\b"

end Grammar

namespace Entry

/-- The key that a keyword introduces: no dash in front, no colon behind. -/
def keyName (e : Entry) : Text :=
  ((e.label.trim.dropStart (txt "-")).trim).dropEnd (txt ":")

end Entry

namespace Catalog

/-- The keys of a depth in byte order. -/
def keyNames (c : Catalog) (d : Depth) : List Text :=
  Grammar.sortedUnique (((c.atDepth d).map Entry.keyName).filter fun n => !n.isEmpty)

end Catalog

end RuleLang
