import RuleLang.Grammar.Alternation
import RuleLang.Json.Writer

/-!
# RuleLang.Grammar.Highlighting

The highlighting grammar of a catalog, for editors that colour text by regular expressions. A
grammar is a list of sections that are tried in turn; each gives scope names to what its
expressions match.
-/

namespace RuleLang

namespace Grammar

inductive Rule where
  /-- what the expression matches gets the scope -/
  | scope (name : String) (expression : Text)
  /-- text between two marks gets the scope; the rules apply inside -/
  | region (name mark : String) (inside : List Rule)
  /-- the rules of another section -/
  | link (name : String)
deriving Repr

structure Section where
  name : String
  rules : List Rule
deriving Repr

/-- The sections for a catalog, in the order in which they are tried. -/
def sections (c : Catalog) : List Section :=
  [⟨"comments", [.scope "comment.line.number-sign.semgrep" (txt "(?:^|\\s)#.*$")]⟩,
    ⟨"root-keys", [.scope "keyword.control.semgrep" (keyExpression (c.keyNames .root))]⟩,
    ⟨"pattern-keys", [.scope "entity.name.tag.semgrep" (keyExpression (c.keyNames .pattern))]⟩,
    ⟨"rule-keys",
      [.scope "support.type.property-name.semgrep" (keyExpression (c.keyNames .rule))]⟩,
    ⟨"severities",
      [.scope "constant.language.severity.semgrep" (wordExpression (sortedUnique c.severities))]⟩,
    ⟨"languages",
      [.scope "support.constant.language.semgrep" (wordExpression (sortedUnique c.languages))]⟩,
    ⟨"metavariables",
      [.scope "variable.other.metavariable.semgrep" (txt "\\$[A-Z_][A-Z0-9_]*\\b")]⟩,
    ⟨"strings",
      [.region "string.quoted.double.semgrep" "\""
          [.scope "constant.character.escape.semgrep" (txt "\\\\."), .link "metavariables"],
        .region "string.quoted.single.semgrep" "'" []]⟩]

/-! ## Written form -/

def includeJson (name : String) : Json := .record [("include", .str (txt "#" ++ txt name))]

mutual

def Rule.toJson : Rule → Json
  | .scope name e => .record [("name", .lit name), ("match", .str e)]
  | .region name mark inside =>
    .record ([("name", .lit name), ("begin", .lit mark), ("end", .lit mark)] ++
      if inside.isEmpty then [] else [("patterns", .arr (Rule.listToJson inside))])
  | .link name => includeJson name

def Rule.listToJson : List Rule → List Json
  | [] => []
  | r :: rs => r.toJson :: Rule.listToJson rs

end

def Section.toJson (s : Section) : Json := .record [("patterns", .arr (Rule.listToJson s.rules))]

/-- The grammar file of a catalog: the order of the sections first, then the sections by name. -/
def fileJson (c : Catalog) : Json :=
  let ss := sections c
  .record [
    ("$schema", .lit "https://raw.githubusercontent.com/martinring/tmlanguage/master/tmlanguage.json"),
    ("name", .lit "Semgrep Rule"),
    ("scopeName", .lit "source.semgrep"),
    ("patterns", .arr (ss.map fun s => includeJson s.name)),
    ("repository", .record ((ss.mergeSort fun a b => (txt a.name).le (txt b.name)).map fun s =>
      (s.name, s.toJson)))]

/-- The text of the grammar file. -/
def file (c : Catalog) : Text := (fileJson c).pretty false ++ txt "\n"

end Grammar

end RuleLang
