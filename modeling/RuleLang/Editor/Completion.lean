import RuleLang.Catalog.Candidates
import RuleLang.Editor.Position

/-!
# RuleLang.Editor.Completion

The candidates of a catalog as the completion items of an editor. The whole catalog is offered
wherever the cursor is.
-/

namespace RuleLang

structure CompletionItem where
  label : Text
  kind : Nat
  detail : Text
  docs : Text
  insert : Text
  isSnippet : Bool
deriving Repr, DecidableEq

namespace CompletionItem

/-- The editor's number for a kind of candidate. -/
def kindCode : CandidateKind → Nat
  | .keyword => 14
  | .severity => 20
  | .language => 12
  | .metavariable => 6

def detailOf : CandidateKind → Text
  | .keyword => txt "semgrep keyword"
  | .severity => txt "severity"
  | .language => txt "language"
  | .metavariable => txt "metavariable"

/-- Only keywords carry a snippet. -/
def ofCandidate (c : Candidate) : CompletionItem where
  label := c.label
  kind := kindCode c.kind
  detail := detailOf c.kind
  docs := c.docs
  insert := if c.kind = .keyword then c.insert else []
  isSnippet := c.kind = .keyword

/-- The items for a catalog and an indentation width. -/
def all (c : Catalog) (width : Int) : List CompletionItem := (c.candidates width).map ofCandidate

/-- Members without content are left out. -/
def toJson (i : CompletionItem) : Json :=
  .record ([("label", .str i.label), ("kind", .int i.kind), ("detail", .str i.detail)] ++
    (if i.docs.isEmpty then [] else [("documentation", markdown i.docs)]) ++
    (if i.insert.isEmpty then [] else [("insertText", .str i.insert)]) ++
    (if i.isSnippet then [("insertTextFormat", .int 2)] else []))

end CompletionItem

end RuleLang
