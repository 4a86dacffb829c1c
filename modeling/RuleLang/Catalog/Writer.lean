import RuleLang.Catalog.Basic
import RuleLang.Json.Writer
import RuleLang.Yaml.Writer

/-!
# RuleLang.Catalog.Writer

The written forms of a keyword table, in YAML as the reader takes it and in JSON. Empty snippets
and documentation are left out.
-/

namespace RuleLang

namespace KeywordRow

/-- The members of a row that are written. -/
def members (r : KeywordRow) : List (String × Text) :=
  [("keyword", r.keyword)] ++ (if r.snippet.isEmpty then [] else [("snippet", r.snippet)]) ++
    (if r.docs.isEmpty then [] else [("docs", r.docs)])

def toJson (r : KeywordRow) : Json := .record (r.members.map fun (k, v) => (k, .str v))

/-- A row as an item of a list: a dash before the first member, the others below it. -/
def toYaml (r : KeywordRow) : Text :=
  txt "  - " ++ Text.join (txt "    ") (r.members.map fun (k, v) =>
    Yaml.endLine (txt k ++ txt ": " ++ Yaml.writeScalar .block 6 v))

end KeywordRow

namespace KeywordTable

/-- The rows of one depth under their name. -/
def rowsToYaml (name : String) (rs : List KeywordRow) : Text :=
  txt name ++ txt ":" ++
    if rs.isEmpty then txt " []\n" else txt "\n" ++ rs.flatMap KeywordRow.toYaml

def tokensToYaml (name : String) (ts : List Text) : Text :=
  txt name ++ txt ": " ++ Yaml.writeFlowList 4 ts ++ txt "\n"

def toYaml (t : KeywordTable) : Text :=
  rowsToYaml "root" t.root ++ rowsToYaml "rule" t.rule ++ rowsToYaml "pattern" t.pattern ++
    tokensToYaml "severities" t.severities ++ tokensToYaml "languages" t.languages ++
    tokensToYaml "metavariables" t.metavariables

def toJson (t : KeywordTable) : Json :=
  let tokens (ts : List Text) : Json := .arr (ts.map .str)
  let rows (rs : List KeywordRow) : Json := .arr (rs.map KeywordRow.toJson)
  .record [("root", rows t.root), ("rule", rows t.rule), ("pattern", rows t.pattern),
    ("severities", tokens t.severities), ("languages", tokens t.languages),
    ("metavariables", tokens t.metavariables)]

end KeywordTable

end RuleLang
