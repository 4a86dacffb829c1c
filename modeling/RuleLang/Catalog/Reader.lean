import RuleLang.Text.Base64
import RuleLang.Catalog.Basic
import RuleLang.Yaml.Node

/-!
# RuleLang.Catalog.Reader

Reading a keyword catalog from a YAML document. The document is a mapping with the fields of
`KeywordTable`; other fields, repeated keys and values of the wrong shape are reported with their
lines, all of them and not only the first. Null leaves a field as it is, a scalar of any type
gives its source text, and merge keys (`<<`) take in the fields of other mappings.
-/

namespace RuleLang

/-- The shapes that a catalog document is made of. -/
inductive Shape where
  | table
  | rows
  | row
  | texts
  | text
deriving Repr, DecidableEq

namespace Shape

/-- The name of a shape in messages. -/
def name : Shape → Text
  | table => txt "catalog.Table"
  | rows => txt "[]catalog.TableEntry"
  | row => txt "catalog.TableEntry"
  | texts => txt "[]string"
  | text => txt "string"

end Shape

/-- A part of a document that does not fit. -/
inductive ShapeFault where
  | mismatch (line : Nat) (tag content : Text) (wanted : Shape)
  | repeatedKey (line : Nat) (key : Text) (first : Nat)
  | unknownField (line : Nat) (name : Text) (owner : Shape)
  | fieldSetTwice (line : Nat) (name : Text) (owner : Shape)
deriving Repr, DecidableEq

namespace ShapeFault

/-- The content of a scalar in backquotes; a long one is cut after seven bytes. Collections have
no content to show. -/
def excerpt (tag content : Text) : Text :=
  if tag = txt "!!seq" || tag = txt "!!map" then []
  else
    txt " `" ++ (if 10 < content.length then content.take 7 ++ txt "..." else content) ++ txt "`"

def message : ShapeFault → Text
  | mismatch line tag content wanted =>
    txt "line " ++ Text.ofNat (line + 1) ++ txt ": cannot unmarshal " ++ tag ++
      excerpt tag content ++ txt " into " ++ wanted.name
  | repeatedKey line key first =>
    txt "line " ++ Text.ofNat (line + 1) ++ txt ": mapping key " ++ key.quote ++
      txt " already defined at line " ++ Text.ofNat (first + 1)
  | unknownField line name owner =>
    txt "line " ++ Text.ofNat (line + 1) ++ txt ": field " ++ name ++ txt " not found in type " ++
      owner.name
  | fieldSetTwice line name owner =>
    txt "line " ++ Text.ofNat (line + 1) ++ txt ": field " ++ name ++
      txt " already set in type " ++ owner.name

end ShapeFault

/-- Why a catalog document cannot be used. -/
inductive CatalogReadError where
  | malformed
  | misshapen (faults : List ShapeFault)
  | invalid (e : CatalogError)
deriving Repr, DecidableEq

namespace CatalogReadError

def message : CatalogReadError → Text
  | malformed => txt "decode catalog: yaml syntax error"
  | misshapen fs =>
    txt "decode catalog: yaml: unmarshal errors:" ++ fs.flatMap fun f => txt "\n  " ++ f.message
  | invalid e => e.message

end CatalogReadError

namespace TableReader

open Yaml

structure ReadState where
  faults : List ShapeFault := []
  /-- nodes visited -/
  visits : Nat := 0
  /-- nodes visited through an alias -/
  aliasVisits : Nat := 0

abbrev Read := StateT ReadState Option

def malformed {α : Type} : Read α := fun _ => none

def report (f : ShapeFault) : Read Unit := modify fun s => { s with faults := s.faults ++ [f] }

/-- Count a visit. A document that consists of almost nothing but expanded aliases is refused. -/
def visit (viaAlias : Bool) : Read Unit := fun s =>
  let s := { s with
    visits := s.visits + 1
    aliasVisits := s.aliasVisits + if viaAlias then 1 else 0 }
  if 100 < s.aliasVisits && 1000 < s.visits && 99 * s.visits < 100 * s.aliasVisits then none
  else some ((), s)

/-- Visit a node; an alias leads on to the node it denotes. The flag tells that the node was
reached through an alias. -/
def enter (anchored : List (Nat × Node)) (viaAlias : Bool) (n : Node) : Read (Node × Bool) := do
  visit viaAlias
  match n with
  | .aliasOf _ _ id =>
    match anchored.lookup id with
    | some m => visit true; return (m, true)
    | none => malformed
  | n => return (n, viaAlias)

/-- Two keys are the same if they are of one kind and have the same content. -/
def sameKey : Node → Node → Bool
  | .scalar _ _ a, .scalar _ _ b => a = b
  | .aliasOf _ a _, .aliasOf _ b _ => a = b
  | .list .., .list .. => true
  | .mapping .., .mapping .. => true
  | _, _ => false

def lineOf : Node → Nat
  | .scalar line .. | .list line .. | .mapping line .. | .aliasOf line .. => line

def keyText : Node → Text
  | .scalar _ _ c => c
  | .aliasOf _ name _ => name
  | _ => []

/-- Every pair of equal keys, the earlier key first. -/
def repeatedKeys : List Node → List ShapeFault
  | [] => []
  | k :: ks =>
    ((ks.filter (sameKey k)).map fun l => .repeatedKey (lineOf l) (keyText l) (lineOf k)) ++
      repeatedKeys ks

/-- Report repeated keys; the flag tells that there were none. -/
def uniqueKeys (pairs : List (Node × Node)) : Read Bool := do
  let fs := repeatedKeys (pairs.map Prod.fst)
  fs.forM report
  return fs.isEmpty

/-- The text of a scalar, `none` for null. -/
def scalarText (tag content : Text) : Read (Option Text) :=
  match typeUnder? tag content with
  | none => malformed
  | some .null => return none
  | some _ =>
    if tag = txt "!!binary" then
      match Base64.decode? content with
      | some t => return some t
      | none => malformed
    else return some content

/-- Report a node that should have another shape. -/
def mismatched (wanted : Shape) : Node → Read Unit
  | .scalar line tag content => do
    match ← scalarText tag content with
    | some _ => report (.mismatch line tag content wanted)
    | none => pure ()
  | .list line tag _ => report (.mismatch line tag [] wanted)
  | .mapping line tag pairs => do
    if ← uniqueKeys pairs then report (.mismatch line tag [] wanted)
  | .aliasOf .. => pure ()

section

variable (anchored : List (Nat × Node))

/-- A text, `none` if the node is null or does not fit. -/
def readText (viaAlias : Bool) (n : Node) : Read (Option Text) := do
  match ← enter anchored viaAlias n with
  | (.scalar _ tag content, _) => scalarText tag content
  | (n, _) => mismatched .text n; return none

/-- The items of a list that fit; `none` if the node does not fit, no items for null. -/
def readList {α : Type} (wanted : Shape) (item : Bool → Node → Read (Option α)) (viaAlias : Bool)
    (n : Node) : Read (Option (List α)) := do
  match ← enter anchored viaAlias n with
  | (.list _ _ items, viaAlias) => return some ((← items.mapM (item viaAlias)).filterMap id)
  | (.scalar line tag content, _) =>
    match ← scalarText tag content with
    | none => return some []
    | some _ => report (.mismatch line tag content wanted); return none
  | (n, _) => mismatched wanted n; return none

/-- A record under construction: the fields set so far in this mapping, and, while a merge is
going on, the names that are taken already. -/
structure Filling (α : Type) where
  value : α
  done : List Text := []
  taken : Option (List Text) := none

/-- How a record takes a field of a given name, if it has such a field. -/
abbrev Fields (α : Type) := Text → Option (α → Bool → Node → Read α)

def isMerge : Node → Bool
  | .scalar _ tag content => tag = txt "!!merge" && content = txt "<<"
  | _ => false

/-- Take one pair of a mapping into a record. -/
def fillPair {α : Type} (owner : Shape) (fields : Fields α) (viaAlias : Bool) (f : Filling α)
    (pair : Node × Node) : Read (Filling α) := do
  if isMerge pair.1 then return f
  match ← readText anchored viaAlias pair.1 with
  | none => return f
  | some name =>
    if f.taken.any (·.contains name) then return f
    let f := { f with taken := f.taken.map (name :: ·) }
    match fields name with
    | none => report (.unknownField (lineOf pair.1) name owner); return f
    | some set =>
      if f.done.contains name then
        report (.fieldSetTwice (lineOf pair.1) name owner)
        return f
      return { f with value := ← set f.value viaAlias pair.2, done := name :: f.done }

/-- The names of a mapping's keys, as far as they are strings. -/
def stringKeys (pairs : List (Node × Node)) : List Text :=
  pairs.filterMap fun (k, _) =>
    let k := match k with
      | .aliasOf _ _ id => (anchored.lookup id).getD k
      | k => k
    match k with
    | .scalar _ tag content => if typeUnder? tag content = some .str then some content else none
    | _ => none

/-- Take a mapping into a record; then what it merges in, as far as its names are not taken.
`fuel` bounds the chain of merges, which is endless only if a mapping merges itself. -/
def fillMapping {α : Type} (owner : Shape) (fields : Fields α) :
    (fuel : Nat) → (viaAlias : Bool) → Filling α → List (Node × Node) → Read (Filling α)
  | 0, _, _, _ => malformed
  | fuel + 1, viaAlias, f, pairs => do
    if !(← uniqueKeys pairs) then return f
    let f ← pairs.foldlM (fillPair anchored owner fields viaAlias) { f with done := [] }
    match (pairs.filter fun p => isMerge p.1).getLast? with
    | none => return f
    | some (_, source) =>
      let merged := { f with taken := some (f.taken.getD (stringKeys anchored pairs)) }
      let sources := match source with
        | .list _ _ items => items
        | n => [n]
      let merged ← sources.foldlM (fun f n => do
        match ← enter anchored viaAlias n with
        | (.mapping _ _ pairs, viaAlias) => fillMapping owner fields fuel viaAlias f pairs
        | _ => malformed) merged
      return { merged with taken := f.taken.bind fun _ => merged.taken }

/-- A record; `none` if the node is null or no mapping with distinct keys. -/
def readRecord {α : Type} (fuel : Nat) (owner : Shape) (fields : Fields α) (zero : α)
    (viaAlias : Bool) (n : Node) : Read (Option α) := do
  match ← enter anchored viaAlias n with
  | (.mapping _ _ pairs, viaAlias) =>
    if (repeatedKeys (pairs.map Prod.fst)).isEmpty then
      return some (← fillMapping anchored owner fields fuel viaAlias { value := zero } pairs).value
    else
      let _ ← uniqueKeys pairs
      return none
  | (n, _) => mismatched owner n; return none

/-- A field that takes over what was read, if it fits. -/
def field {α β : Type} (read : Bool → Node → Read (Option β)) (set : α → β → α) :
    Option (α → Bool → Node → Read α) :=
  some fun a viaAlias n => do
    match ← read viaAlias n with
    | some b => return set a b
    | none => return a

def rowFields : Fields KeywordRow := fun name =>
  let text := readText anchored
  if name = txt "keyword" then field text fun r t => { r with keyword := t }
  else if name = txt "snippet" then field text fun r t => { r with snippet := t }
  else if name = txt "docs" then field text fun r t => { r with docs := t }
  else none

def tableFields (fuel : Nat) : Fields KeywordTable := fun name =>
  let rows := readList anchored .rows (readRecord anchored fuel .row (rowFields anchored) {})
  let texts := readList anchored .texts (readText anchored)
  if name = txt "root" then field rows fun t r => { t with root := r }
  else if name = txt "rule" then field rows fun t r => { t with rule := r }
  else if name = txt "pattern" then field rows fun t r => { t with pattern := r }
  else if name = txt "severities" then field texts fun t r => { t with severities := r }
  else if name = txt "languages" then field texts fun t r => { t with languages := r }
  else if name = txt "metavariables" then field texts fun t r => { t with metavariables := r }
  else none

end

/-- The table in a document, and the faults found. -/
def run (tree : Tree) : Option (KeywordTable × List ShapeFault) :=
  let fuel := tree.size + 1
  (readRecord tree.anchored fuel .table (tableFields tree.anchored fuel) {} false tree.root {}).map
    fun (t, s) => (t.getD {}, s.faults)

end TableReader

namespace Catalog

/-- The catalog that a YAML text describes. -/
def read (t : Text) : Except CatalogReadError Catalog :=
  match Yaml.Tree.read t with
  | .error .malformed => .error .malformed
  | .error .empty => .error (.invalid .noKeywords)
  | .ok tree =>
    match TableReader.run tree with
    | none => .error .malformed
    | some (table, []) =>
      match ofTable table with
      | .ok c => .ok c
      | .error e => .error (.invalid e)
    | some (_, faults) => .error (.misshapen faults)

end Catalog

end RuleLang
