import RuleLang.Yaml.Token
import RuleLang.Yaml.Resolve

/-!
# RuleLang.Yaml.Node

The first document of a stream as a tree. Every node knows the line on which it begins and its
tag; an alias refers to the node that bears its anchor by number, since the node may contain the
alias itself.
-/

namespace RuleLang

namespace Yaml

inductive Node where
  | scalar (line : Nat) (tag content : Text)
  | list (line : Nat) (tag : Text) (items : List Node)
  | mapping (line : Nat) (tag : Text) (pairs : List (Node × Node))
  | aliasOf (line : Nat) (name : Text) (target : Nat)
deriving Repr, Inhabited

/-- A document: its root, the nodes that bear anchors, and the number of tokens it was read
from. -/
structure Tree where
  root : Node
  anchored : List (Nat × Node)
  size : Nat
deriving Repr

/-- Tags of the standard types in their short form. -/
def shortTag (tag : Text) : Text :=
  match tag.dropStart? (txt "tag:yaml.org,2002:") with
  | some t => txt "!!" ++ t
  | none => tag

/-- The tag of a node: the explicit one, if it says anything, or the one that fits the node. -/
def tagOr (explicit default : Text) : Text :=
  if explicit.isEmpty || explicit = txt "!" then default else shortTag explicit

def scalarNode (line : Nat) (explicit content : Text) (isPlain : Bool) : Node :=
  let default :=
    if !isPlain then txt "!!str"
    else if content = txt "<<" then txt "!!merge"
    else (typeOf true content).tag
  .scalar line (tagOr explicit default) content

/-- What stands where nothing is written. -/
def emptyNode (line : Nat) : Node := scalarNode line [] [] true

structure ParseState where
  tokens : List Token
  /-- do the tokens reach the end of the stream? -/
  sound : Bool
  tags : List (Text × Text) := []
  names : List (Text × Nat) := []
  anchored : List (Nat × Node) := []
  next : Nat := 0

abbrev Parse := StateT ParseState Option

namespace Parse

/-- The next token. Two more tokens have to be readable after it, unless the stream ends. -/
def peek : Parse Token := fun s =>
  if !s.sound && (s.tokens.drop 2).isEmpty then none
  else some (s.tokens.headD ⟨0, .streamEnd⟩, s)

def skip : Parse Unit := modify fun s => { s with tokens := s.tokens.tail }

def fail {α : Type} : Parse α := fun _ => none

/-- The full tag that a handle and a suffix write. -/
def fullTag (handle suffix : Text) : Parse Text := do
  if handle.isEmpty then return suffix
  match (← get).tags.lookup handle with
  | some base => return base ++ suffix
  | none => fail

/-- The properties in front of a node: an anchor and a tag, in either order. -/
def properties : Parse (Option Text × Text) := do
  match (← peek).kind with
  | .anchor name =>
    skip
    match (← peek).kind with
    | .tag h s => skip; return (some name, ← fullTag h s)
    | _ => return (some name, [])
  | .tag h s =>
    skip
    match (← peek).kind with
    | .anchor name => skip; return (some name, ← fullTag h s)
    | _ => return (none, ← fullTag h s)
  | _ => return (none, [])

/-- Let the name of an anchor denote the node that is about to be read. -/
def reserve (anchor : Option Text) : Parse Nat := do
  let s ← get
  match anchor with
  | some name => set { s with names := (name, s.next) :: s.names, next := s.next + 1 }
  | none => pure ()
  return s.next

/-- Keep a node that bears an anchor. -/
def settle (anchor : Option Text) (id : Nat) (n : Node) : Parse Node := do
  if anchor.isSome then modify fun s => { s with anchored := (id, n) :: s.anchored }
  return n

mutual

/-- A node; `block` allows block collections, `indentless` also a list that is not indented
further than its key. -/
def node : (fuel : Nat) → (block indentless : Bool) → Parse Node
  | 0, _, _ => fail
  | fuel + 1, block, indentless => do
    let t ← peek
    match t.kind with
    | .aliasOf name =>
      skip
      match (← get).names.lookup name with
      | some id => return .aliasOf t.line name id
      | none => fail
    | _ =>
      let (anchor, tag) ← properties
      let id ← reserve anchor
      settle anchor id (← content fuel block indentless t.line anchor tag)

/-- A node after its properties. -/
def content : (fuel : Nat) → (block indentless : Bool) → (line : Nat) → (anchor : Option Text) →
    (tag : Text) → Parse Node
  | 0, _, _, _, _, _ => fail
  | fuel + 1, block, indentless, line, anchor, tag => do
    let t ← peek
    match t.kind with
    | .scalar text isPlain => skip; return scalarNode line tag text isPlain
    | .flowListStart =>
      skip
      return .list line (tagOr tag (txt "!!seq")) (← flowItems fuel true [])
    | .flowMappingStart =>
      skip
      return .mapping line (tagOr tag (txt "!!map")) (← flowPairs fuel true [])
    | kind =>
      if indentless && kind = .entry then
        return .list line (tagOr tag (txt "!!seq")) (← items fuel false [])
      else if block && kind = .listStart then
        skip
        return .list line (tagOr tag (txt "!!seq")) (← items fuel true [])
      else if block && kind = .mappingStart then
        skip
        return .mapping line (tagOr tag (txt "!!map")) (← pairs fuel [])
      else if anchor.isSome || !tag.isEmpty then return scalarNode line tag [] true
      else fail

/-- The items of a block list, last first in `acc`. A list with its own block ends with it, one
without ends where no further item begins. -/
def items : (fuel : Nat) → (ownBlock : Bool) → (acc : List Node) → Parse (List Node)
  | 0, _, _ => fail
  | fuel + 1, ownBlock, acc => do
    let t ← peek
    if t.kind = .entry then
      skip
      let k := (← peek).kind
      if k = .entry || k = .blockEnd || (!ownBlock && (k = .key || k = .value)) then
        items fuel ownBlock (emptyNode t.line :: acc)
      else
        items fuel ownBlock ((← node fuel true false) :: acc)
    else if !ownBlock then return acc.reverse
    else if t.kind = .blockEnd then skip; return acc.reverse
    else fail

/-- A key or value of a block mapping after its indicator on `line`. -/
def blockPart : (fuel line : Nat) → Parse Node
  | 0, _ => fail
  | fuel + 1, line => do
    let k := (← peek).kind
    if k = .key || k = .value || k = .blockEnd then return emptyNode line
    else node fuel true true

/-- The pairs of a block mapping. -/
def pairs : (fuel : Nat) → (acc : List (Node × Node)) → Parse (List (Node × Node))
  | 0, _ => fail
  | fuel + 1, acc => do
    let t ← peek
    if t.kind = .key then
      skip
      let k ← blockPart fuel t.line
      let t ← peek
      if t.kind = .value then
        skip
        pairs fuel ((k, ← blockPart fuel t.line) :: acc)
      else pairs fuel ((k, emptyNode t.line) :: acc)
    else if t.kind = .blockEnd then skip; return acc.reverse
    else fail

/-- The items of a flow list. -/
def flowItems : (fuel : Nat) → (first : Bool) → (acc : List Node) → Parse (List Node)
  | 0, _, _ => fail
  | fuel + 1, first, acc => do
    let t ← peek
    if t.kind = .flowListEnd then skip; return acc.reverse
    if !first then
      if t.kind = .comma then skip else fail
    let t ← peek
    if t.kind = .key then
      skip
      flowItems fuel false ((← singlePair fuel t.line) :: acc)
    else if t.kind = .flowListEnd then skip; return acc.reverse
    else flowItems fuel false ((← node fuel false false) :: acc)

/-- A mapping of one pair inside a flow list, after its key indicator. A missing key takes the
token in its place with it. -/
def singlePair : (fuel line : Nat) → Parse Node
  | 0, _ => fail
  | fuel + 1, line => do
    let t ← peek
    let k ← if t.kind = .value || t.kind = .comma || t.kind = .flowListEnd then
        skip
        pure (emptyNode t.line)
      else node fuel false false
    let t ← peek
    let v ← if t.kind = .value then
        skip
        let u ← peek
        if u.kind = .comma || u.kind = .flowListEnd then pure (emptyNode u.line)
        else node fuel false false
      else pure (emptyNode t.line)
    return .mapping line (txt "!!map") [(k, v)]

/-- The pairs of a flow mapping. -/
def flowPairs : (fuel : Nat) → (first : Bool) → (acc : List (Node × Node)) →
    Parse (List (Node × Node))
  | 0, _, _ => fail
  | fuel + 1, first, acc => do
    let t ← peek
    if t.kind = .flowMappingEnd then skip; return acc.reverse
    if !first then
      if t.kind = .comma then skip else fail
    let t ← peek
    if t.kind = .flowMappingEnd then skip; return acc.reverse
    else if t.kind = .key then
      skip
      let u ← peek
      let k ← if u.kind = .value || u.kind = .comma || u.kind = .flowMappingEnd then
          pure (emptyNode u.line)
        else node fuel false false
      flowPairs fuel false ((k, ← flowValue fuel) :: acc)
    else
      let k ← node fuel false false
      flowPairs fuel false ((k, emptyNode (← peek).line) :: acc)

/-- The value of a flow mapping's pair. -/
def flowValue : (fuel : Nat) → Parse Node
  | 0 => fail
  | fuel + 1 => do
    let t ← peek
    if t.kind = .value then
      skip
      let u ← peek
      if u.kind = .comma || u.kind = .flowMappingEnd then return emptyNode u.line
      else node fuel false false
    else return emptyNode t.line

end

/-- The directives before a document. Only version 1.1 is known, and a handle is declared at most
once; the two standard handles are there anyway. -/
def directives : (fuel : Nat) → (versioned : Bool) → (declared : List (Text × Text)) → Parse Unit
  | 0, _, _ => fail
  | fuel + 1, versioned, declared => do
    match (← peek).kind with
    | .version major minor =>
      if versioned || major ≠ 1 || minor ≠ 1 then fail
      skip
      directives fuel true declared
    | .tagHandle h base =>
      if (declared.lookup h).isSome then fail
      skip
      directives fuel versioned (declared ++ [(h, base)])
    | _ =>
      let standard := [(txt "!", txt "!"), (txt "!!", txt "tag:yaml.org,2002:")]
      modify fun s => { s with tags := declared ++ standard }

/-- The root of the first document; a stream without documents has none. -/
def root? (fuel : Nat) : Parse (Option Node) := do
  match (← peek).kind with
  | .streamEnd => return none
  | .version .. | .tagHandle .. | .documentStart =>
    directives fuel false []
    if (← peek).kind ≠ .documentStart then fail
    skip
    let t ← peek
    let n ← match t.kind with
      | .version .. | .tagHandle .. | .documentStart | .documentEnd | .streamEnd =>
        pure (emptyNode t.line)
      | _ => node fuel true false
    let _ ← peek
    return some n
  | _ =>
    directives fuel false []
    let n ← node fuel true false
    let _ ← peek
    return some n

end Parse

/-- Why a stream has no first document that can be read. -/
inductive StreamFault where
  | malformed
  | empty
deriving Repr, DecidableEq

/-- The first document of a stream. -/
def Tree.read (t : Text) : Except StreamFault Tree :=
  match chars? t with
  | none => .error .malformed
  | some cs =>
    let (tokens, sound) := lex cs
    match Parse.root? (4 * tokens.length + 8) { tokens, sound } with
    | none => .error .malformed
    | some (none, _) => .error .empty
    | some (some root, s) => .ok ⟨root, s.anchored, tokens.length⟩

end Yaml

end RuleLang
