import RuleLang.Text.Basic

/-!
# RuleLang.Catalog.Table

The written form of a keyword catalog, before it is checked: the rows of each depth and the three
lists of value tokens.
-/

namespace RuleLang

/-- A keyword with its snippet and documentation, both possibly empty. -/
structure KeywordRow where
  keyword : Text := []
  snippet : Text := []
  docs : Text := []
deriving Repr, DecidableEq

structure KeywordTable where
  root : List KeywordRow := []
  rule : List KeywordRow := []
  pattern : List KeywordRow := []
  severities : List Text := []
  languages : List Text := []
  metavariables : List Text := []
deriving Repr, DecidableEq

end RuleLang
