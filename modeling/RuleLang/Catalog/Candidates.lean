import RuleLang.Catalog.Basic

/-!
# RuleLang.Catalog.Candidates

Everything that a catalog can suggest to someone who is typing: keyword snippets, indented for
their depth, then the value tokens.
-/

namespace RuleLang

inductive CandidateKind where
  | keyword
  | severity
  | language
  | metavariable
deriving Repr, DecidableEq

structure Candidate where
  label : Text
  kind : CandidateKind
  insert : Text := []
  docs : Text := []
deriving Repr, DecidableEq

/-- `levels * width` in signed 64-bit arithmetic, as a count; a negative product counts as 0. -/
def indentCount (levels width : Int) : Nat := ((levels * width).bmod 0x10000000000000000).toNat

namespace Catalog

/-- The keyword snippets, each behind its depth times `width` spaces, then severities, languages
and metavariables. A negative width counts as 0. -/
def candidates (c : Catalog) (width : Int) : List Candidate :=
  let width := max width 0
  c.entries.map (fun e =>
      { label := e.label
        kind := .keyword
        insert := List.replicate (indentCount e.depth.level width) 32 ++ e.snippet
        docs := e.docs }) ++
    c.severities.map (fun t => { label := t, kind := .severity }) ++
    c.languages.map (fun t => { label := t, kind := .language }) ++
    c.metavariables.map (fun t => { label := t, kind := .metavariable })

end Catalog

end RuleLang
