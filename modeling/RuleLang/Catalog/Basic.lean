import RuleLang.Text.Blank
import RuleLang.Text.Quoted
import RuleLang.Catalog.Depth
import RuleLang.Catalog.Table

/-!
# RuleLang.Catalog.Basic

The keyword catalog of the rule language: literal line beginnings that fix a line's depth, with
the snippet and the documentation offered to editors.

A catalog is built from a table by `ofTable`, which refuses tables that would make the depth of a
line depend on the order of the rows: no keyword may begin with a keyword of another depth.
-/

namespace RuleLang

/-- A keyword at a fixed depth. -/
structure Entry where
  keyword : Text
  snippet : Text
  docs : Text
  depth : Depth
deriving Repr, DecidableEq

namespace Entry

/-- The keyword as shown to a reader. -/
def label (e : Entry) : Text := e.keyword.trim

/-- What a line is compared with: a root keyword as it stands, a deeper one without the white
space around it. -/
def stem (e : Entry) : Text :=
  match e.depth with
  | .root => e.keyword
  | _ => e.keyword.trim

def ofRow (d : Depth) (r : KeywordRow) : Entry := ⟨r.keyword, r.snippet, r.docs.trim, d⟩

def toRow (e : Entry) : KeywordRow := ⟨e.keyword, e.snippet, e.docs⟩

end Entry

structure Catalog where
  root : List Entry
  rule : List Entry
  pattern : List Entry
  severities : List Text
  languages : List Text
  metavariables : List Text
deriving Repr, DecidableEq

/-- Why a table is no catalog. -/
inductive CatalogError where
  /-- there is no row at all -/
  | noKeywords
  /-- row `index` of a depth has nothing but white space for a keyword -/
  | blankKeyword (depth : Depth) (index : Nat)
  /-- the same stem occurs twice -/
  | repeated (stem : Text) (first second : Depth)
  /-- `shorter` begins `longer`, which has another depth -/
  | ambiguous (shorter longer : Entry)
deriving Repr, DecidableEq

namespace CatalogError

def message : CatalogError → Text
  | noKeywords => txt "catalog defines no keywords"
  | blankKeyword d i => d.name ++ txt " entry " ++ Text.ofNat i ++ txt ": empty keyword"
  | repeated s a b =>
    txt "duplicate keyword " ++ s.quote ++ txt " in " ++ a.name ++ txt " and " ++ b.name
  | ambiguous a b =>
    a.depth.name ++ txt " keyword " ++ a.keyword.quote ++ txt " is a prefix of " ++
      b.depth.name ++ txt " keyword " ++ b.keyword.quote

end CatalogError

namespace Catalog

/-- The tokens without surrounding white space; blank ones and repetitions are dropped. -/
def cleanTokens (ts : List Text) : List Text :=
  ts.foldl (fun out t =>
    let t := t.trim
    if t.isEmpty || out.contains t then out else out ++ [t]) []

/-- The catalog that a table describes, unchecked. -/
def assemble (t : KeywordTable) : Catalog where
  root := t.root.map (Entry.ofRow .root)
  rule := t.rule.map (Entry.ofRow .rule)
  pattern := t.pattern.map (Entry.ofRow .pattern)
  severities := cleanTokens t.severities
  languages := cleanTokens t.languages
  metavariables := cleanTokens t.metavariables

def atDepth (c : Catalog) : Depth → List Entry
  | .root => c.root
  | .rule => c.rule
  | .pattern => c.pattern

/-- All entries, outermost depth first. -/
def entries (c : Catalog) : List Entry := c.root ++ c.rule ++ c.pattern

/-- The first entry that is blank or repeats a stem of `seen`; each entry comes with its index
within its depth. -/
def rowFault? : (seen : List Entry) → List (Entry × Nat) → Option CatalogError
  | _, [] => none
  | seen, (e, i) :: rest =>
    if e.stem.trim.isEmpty then some (.blankKeyword e.depth i)
    else match seen.find? (fun p => p.stem = e.stem) with
      | some p => some (.repeated e.stem p.depth e.depth)
      | none => rowFault? (seen ++ [e]) rest

/-- The first pair of entries at different depths of which one begins the other. -/
def ambiguity? (es : List Entry) : Option CatalogError :=
  es.findSome? fun a =>
    (es.find? fun b => a.depth ≠ b.depth ∧ b.stem.startsWith a.stem).map fun b => .ambiguous a b

/-- The fault that is reported for a catalog, if there is one. -/
def fault? (c : Catalog) : Option CatalogError :=
  if c.entries.isEmpty then some .noKeywords
  else match rowFault? [] (c.root.zipIdx ++ c.rule.zipIdx ++ c.pattern.zipIdx) with
    | some e => some e
    | none => ambiguity? c.entries

/-- Check a table and build its catalog. -/
def ofTable (t : KeywordTable) : Except CatalogError Catalog :=
  let c := assemble t
  match c.fault? with
  | some e => .error e
  | none => .ok c

/-- The table that describes a catalog. -/
def toTable (c : Catalog) : KeywordTable where
  root := c.root.map Entry.toRow
  rule := c.rule.map Entry.toRow
  pattern := c.pattern.map Entry.toRow
  severities := c.severities
  languages := c.languages
  metavariables := c.metavariables

/-- The first entry whose stem begins the line, outermost depth first. -/
def match? (c : Catalog) (trimmed : Text) : Option Entry :=
  c.entries.find? fun e => trimmed.startsWith e.stem

def isSeverity (c : Catalog) (word : Text) : Bool := c.severities.contains word
def isLanguage (c : Catalog) (word : Text) : Bool := c.languages.contains word
def isMetavariable (c : Catalog) (word : Text) : Bool := c.metavariables.contains word

end Catalog

end RuleLang
