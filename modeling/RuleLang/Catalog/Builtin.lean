import RuleLang.Catalog.Basic

/-!
# RuleLang.Catalog.Builtin

The catalog that is used when no other one is named.
-/

namespace RuleLang

namespace Catalog

/-- A row of the built-in table. -/
def builtinRow (keyword snippet docs : String) : KeywordRow :=
  ⟨txt keyword, txt snippet, txt docs⟩

def builtinTable : KeywordTable where
  root := [
    builtinRow "rules:"
      "rules:\n  - id: rule_id\n    pattern: \n    message: \n    severity: "
      "Define a new ruleset"]
  rule := [
    builtinRow "- id:"
      "- id: rule_identifier"
      "Unique identifier for the rule",
    builtinRow "pattern:"
      "pattern: $PATTERN"
      "Single pattern to match",
    builtinRow "pattern-either:"
      "pattern-either:\n    - pattern: $PATTERN1\n    - pattern: $PATTERN2"
      "Multiple patterns to match (logical OR)",
    builtinRow "pattern-regex:"
      "pattern-regex: $REGEX_PATTERN"
      "Regular expression pattern to match",
    builtinRow "patterns:"
      "patterns:\n    - pattern: $PATTERN1\n    - pattern: $PATTERN2"
      "Multiple patterns to match (logical AND)",
    builtinRow "message:"
      "message: \"$MESSAGE\""
      "Message to display when the rule matches",
    builtinRow "severity:"
      "severity: WARNING"
      "Severity level of the rule (INFO, WARNING, ERROR)",
    builtinRow "languages:"
      "languages:\n    - python\n    - javascript"
      "Programming languages this rule applies to",
    builtinRow "paths:"
      "paths:\n    include:\n      - \"*.py\"\n    exclude:\n      - \"tests/\""
      "Paths to include or exclude for this rule",
    builtinRow "fix:"
      "fix: $REPLACEMENT"
      "Autofix replacement for the matched pattern",
    builtinRow "metadata:"
      "metadata:\n    category: security\n    technology:\n      - python"
      "Additional metadata for the rule",
    builtinRow "timeout:"
      "timeout: 5"
      "Timeout in seconds for pattern matching",
    builtinRow "focus:"
      "focus: $METAVARIABLE"
      "Metavariable to focus on in the results"]
  pattern := [
    builtinRow "- pattern:"
      "- pattern: $PATTERN"
      "Nested pattern within pattern-either or patterns",
    builtinRow "- focus-metavariable:"
      "- focus-metavariable: $METAVARIABLE"
      "Metavariable to focus on in nested pattern",
    builtinRow "- pattern-inside:"
      "- pattern-inside: $PATTERN"
      "Pattern that must exist inside the matched code",
    builtinRow "- pattern-not:"
      "- pattern-not: $PATTERN"
      "Pattern that must not exist in the matched code",
    builtinRow "- pattern-where:"
      "- pattern-where: $CONDITION"
      "Additional conditions on metavariables"]
  severities := ["INFO", "WARNING", "ERROR"].map txt
  languages := ["python", "javascript", "java", "go", "ruby", "php", "c", "cpp", "csharp"].map txt
  metavariables := ["$X", "$Y", "$FOO", "$BAR", "$PATTERN", "$REGEX"].map txt

/-- The built-in catalog. -/
def builtin : Catalog := assemble builtinTable

end Catalog

end RuleLang
