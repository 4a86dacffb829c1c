import RuleLang.Json.Reader
import RuleLang.Json.Decode
import RuleLang.Json.Number
import RuleLang.Editor.Position
import RuleLang.Indent.Style

/-!
# RuleLang.Server.Message

Incoming messages: the envelope that every message has, the methods that the server knows, and
the parameters of each.
-/

namespace RuleLang

/-! ## Envelope -/

/-- The identifier of a request: its value and the way it was written. -/
structure MessageId where
  value : Json
  source : Text
deriving Repr

namespace MessageId

/-- The identifier as it is sent back: the normal form of its value, or its source text as a
string if a number in it lies beyond all doubles. -/
def echo (id : MessageId) : Json := id.value.normal?.getD (.str id.source)

end MessageId

/-- A message before its method is looked at. -/
structure Envelope where
  method : Text := []
  id : Option MessageId := none
  params : Option Json := none
deriving Repr

namespace Envelope

/-- Take one member into the envelope. -/
def field? (e : Envelope) (m : Json.Member) : Option Envelope :=
  if Json.isField "jsonrpc" m.name then (Json.asText? [] m.value).map fun _ => e
  else if Json.isField "id" m.name then
    match m.value with
    | .null => some { e with id := none }
    | v => some { e with id := some ⟨v, m.source⟩ }
  else if Json.isField "method" m.name then
    (Json.asText? e.method m.value).map fun s => { e with method := s }
  else if Json.isField "params" m.name then some { e with params := some m.value }
  else some e

/-- The envelope in a message body. A body that is `null` is an envelope without content. -/
def read? (body : Text) : Option Envelope :=
  match Json.readMembers? body with
  | some ms => ms.foldlM field? {}
  | none =>
    match Json.read? body with
    | some .null => some {}
    | _ => none

end Envelope

/-! ## Methods -/

inductive Method where
  | setup
  | ready
  | shutdown
  | exit
  | didOpen
  | didChange
  | didClose
  | completion
  | hover
  | formatting
  | semanticTokens
  | other
deriving Repr, DecidableEq

namespace Method

/-- The methods with a meaning to the server, by name. -/
def names : List (String × Method) := [
  ("initialize", setup),
  ("initialized", ready),
  ("shutdown", shutdown),
  ("exit", exit),
  ("textDocument/didOpen", didOpen),
  ("textDocument/didChange", didChange),
  ("textDocument/didClose", didClose),
  ("textDocument/completion", completion),
  ("textDocument/hover", hover),
  ("textDocument/formatting", formatting),
  ("textDocument/semanticTokens/full", semanticTokens)]

def ofName (name : Text) : Method :=
  match names.find? fun (n, _) => txt n = name with
  | some (_, m) => m
  | none => other

end Method

/-! ## Parameters -/

namespace Params

/-- A list field that is read item by item on top of what an earlier occurrence left in the same
place: `slots` holds the places, of which the first `count` are the list. -/
structure Slots (α : Type) where
  slots : List α := []
  count : Nat := 0
deriving Repr

namespace Slots

def toList {α : Type} (s : Slots α) : List α := s.slots.take s.count

/-- Read items into consecutive places; a place that was not there begins as `zero`. -/
def fill? {α : Type} (read : α → Json → Option α) (zero : α) :
    List α → List Json → Option (List α)
  | old, [] => some old
  | old, v :: vs => do
    let a ← read (old.headD zero) v
    return a :: (← fill? read zero old.tail vs)

/-- `null` and the empty list forget all places. -/
def read? {α : Type} (read : α → Json → Option α) (zero : α) (old : Slots α) :
    Json → Option (Slots α)
  | .null => some {}
  | .arr [] => some {}
  | .arr items => (fill? read zero old.slots items).map fun s => ⟨s, items.length⟩
  | _ => none

end Slots

/-- A document named by its URI. -/
def uri? (old : Text) : Json → Option Text :=
  Json.asRecord? (fun uri k v => if Json.isField "uri" k then Json.asText? uri v else some uri) old

/-- A document with its text. -/
structure Item where
  uri : Text := []
  text : Text := []
deriving Repr

def Item.read? : Item → Json → Option Item :=
  Json.asRecord? fun d k v =>
    if Json.isField "uri" k then (Json.asText? d.uri v).map fun s => { d with uri := s }
    else if Json.isField "text" k then (Json.asText? d.text v).map fun s => { d with text := s }
    else some d

/-- A document is opened. -/
def didOpen? : Json → Option Item :=
  Json.asRecord? (fun d k v => if Json.isField "textDocument" k then d.read? v else some d) {}

/-- The new text of a change. -/
def change? : Text → Json → Option Text :=
  Json.asRecord? fun s k v => if Json.isField "text" k then Json.asText? s v else some s

structure DidChange where
  uri : Text := []
  changes : Slots Text := {}
deriving Repr

/-- A document is changed; each change holds the whole text. -/
def didChange? : Json → Option DidChange :=
  Json.asRecord? (fun p k v =>
    if Json.isField "textDocument" k then (uri? p.uri v).map fun u => { p with uri := u }
    else if Json.isField "contentChanges" k then
      (Slots.read? change? [] p.changes v).map fun c => { p with changes := c }
    else some p) {}

/-- Only the document's name. -/
def document? : Json → Option Text :=
  Json.asRecord? (fun u k v => if Json.isField "textDocument" k then uri? u v else some u) []

def position? : Position → Json → Option Position :=
  Json.asRecord? fun p k v =>
    if Json.isField "line" k then (Json.asInt? p.line v).map fun n => { p with line := n }
    else if Json.isField "character" k then
      (Json.asInt? p.character v).map fun n => { p with character := n }
    else some p

structure Place where
  uri : Text := []
  position : Position := {}
deriving Repr

/-- A place in a document. -/
def place? : Json → Option Place :=
  Json.asRecord? (fun p k v =>
    if Json.isField "textDocument" k then (uri? p.uri v).map fun u => { p with uri := u }
    else if Json.isField "position" k then
      (position? p.position v).map fun q => { p with position := q }
    else some p) {}

/-- The style asked for by formatting options. -/
def options? : Style → Json → Option Style :=
  Json.asRecord? fun s k v =>
    if Json.isField "tabSize" k then
      (Json.asInt? s.unitWidth v).map fun n => { s with unitWidth := n }
    else if Json.isField "insertSpaces" k then
      (Json.asBool? s.useSpaces v).map fun b => { s with useSpaces := b }
    else some s

structure Formatting where
  uri : Text := []
  options : Style := ⟨false, 0⟩
deriving Repr

/-- A document is to be formatted. -/
def formatting? : Json → Option Formatting :=
  Json.asRecord? (fun p k v =>
    if Json.isField "textDocument" k then (uri? p.uri v).map fun u => { p with uri := u }
    else if Json.isField "options" k then
      (options? p.options v).map fun s => { p with options := s }
    else some p) {}

/-- The parts of a style that a client may set at the start. -/
structure Preferences where
  tabSize : Option Int := none
  insertSpaces : Option Bool := none
deriving Repr

def preferences? : Preferences → Json → Option Preferences :=
  Json.asRecord? fun p k v =>
    if Json.isField "tabSize" k then
      (Json.asOption? Json.asInt? 0 p.tabSize v).map fun n => { p with tabSize := n }
    else if Json.isField "insertSpaces" k then
      (Json.asOption? Json.asBool? false p.insertSpaces v).map fun b => { p with insertSpaces := b }
    else some p

/-- The preferences of a client, if it states any. -/
def setup? : Json → Option (Option Preferences) :=
  Json.asRecord? (fun p k v =>
    if Json.isField "initializationOptions" k then Json.asOption? preferences? {} p v
    else some p) none

end Params

end RuleLang
