import RuleLang.Server.Message
import RuleLang.Editor.Hover
import RuleLang.Editor.Diagnostic
import RuleLang.Editor.Completion
import RuleLang.Editor.TextEdit
import RuleLang.Editor.EditCache

/-!
# RuleLang.Server.State

The language server as a state machine: the open documents, the style, the edit cache, and what
each message does to them. A message is answered by at most one message.
-/

namespace RuleLang

structure Server where
  catalog : Catalog
  version : Text
  style : Style
  cache : EditCache
  /-- URI and text of every open document -/
  docs : List (Text × Text)
  shuttingDown : Bool
deriving Repr

/-- What the server writes to its log. -/
inductive LogLine where
  | badPayload
  | failed (method : Text)
  | unknownDocument (uri : Text)
deriving Repr, DecidableEq

namespace LogLine

def message : LogLine → Text
  | badPayload => txt "invalid JSON-RPC payload"
  | failed m => txt "handle method=" ++ m ++ txt " error"
  | unknownDocument u => txt "formatting request for unknown document " ++ u

end LogLine

namespace Server

/-- A server with no documents. A style with neither spaces nor width counts as not given. -/
def start (catalog : Catalog) (version : Text) (style : Style) (cacheSize : Int) : Server where
  catalog := catalog
  version := version
  style := (if style = ⟨false, 0⟩ then {} else style : Style).bounded
  cache := .empty cacheSize
  docs := []
  shuttingDown := false

def text? (s : Server) (uri : Text) : Option Text := s.docs.lookup uri

/-- The text of a document; one that is not open counts as empty. -/
def textOf (s : Server) (uri : Text) : Text := (s.text? uri).getD []

def close (s : Server) (uri : Text) : Server :=
  { s with docs := s.docs.filter fun d => d.1 ≠ uri }

def setText (s : Server) (uri text : Text) : Server :=
  { s with docs := (uri, text) :: (s.close uri).docs }

/-- Take over the preferences of a client. -/
def prefer (s : Server) (p : Params.Preferences) : Server :=
  let style : Style :=
    ⟨p.insertSpaces.getD s.style.useSpaces, p.tabSize.getD s.style.unitWidth⟩
  { s with style := style.bounded }

/-! ## Outgoing messages -/

def response (id : MessageId) (result : Json) : Json :=
  .record [("jsonrpc", .lit "2.0"), ("id", id.echo), ("result", result)]

/-- Code -32602 stands for parameters that do not decode. -/
def invalidParams (id : MessageId) (what : String) : Json :=
  .record [("jsonrpc", .lit "2.0"), ("id", id.echo),
    ("error", .record [("code", .int (-32602)), ("message", .lit ("invalid params for " ++ what))])]

def publish (uri : Text) (ds : List Diagnostic) : Json :=
  .record [("jsonrpc", .lit "2.0"), ("method", .lit "textDocument/publishDiagnostics"),
    ("params", .record [("uri", .str uri), ("diagnostics", .arr (ds.map Diagnostic.toJson))])]

/-- What the server can do, in answer to `initialize`. -/
def capabilities (s : Server) : Json :=
  .record [
    ("capabilities", .record [
      ("textDocumentSync", .int 1),
      ("completionProvider", .record [
        ("resolveProvider", .bool false),
        ("triggerCharacters", .arr [.lit "-", .lit "$"])]),
      ("hoverProvider", .bool true),
      ("documentFormattingProvider", .bool true),
      ("semanticTokensProvider", .record [
        ("legend", .record [
          ("tokenTypes", .arr (SpanKind.legend.map fun k => .str k.name)),
          ("tokenModifiers", .arr [])]),
        ("full", .bool true)])]),
    ("serverInfo", .record [("name", .lit "semgrep-lsp"), ("version", .str s.version)])]

/-- Token numbers; a document without tokens has `null`. -/
def tokenData (data : List UInt32) : Json :=
  .record [("data", if data.isEmpty then .null else .arr (data.map fun n => .int n.toNat))]

/-! ## Messages -/

/-- What a message brings about. -/
structure Reaction where
  server : Server
  send : Option Json := none
  log : List LogLine := []
  exit : Bool := false
deriving Repr

namespace Reaction

/-- Answer a request; a notification gets no answer. -/
def answer (s : Server) (id : Option MessageId) (result : Json) : Reaction :=
  ⟨s, id.map fun i => response i result, [], false⟩

/-- Report parameters that do not decode. -/
def refuse (s : Server) (id : Option MessageId) (what : String) : Reaction :=
  ⟨s, id.map fun i => invalidParams i what, [], false⟩

/-- Publish the remarks on a document that has just been set. -/
def remarks (s : Server) (uri : Text) : Reaction :=
  match s.text? uri with
  | some t => ⟨s, some (publish uri (Diagnostic.collect s.catalog t s.style)), [], false⟩
  | none => ⟨s, none, [], false⟩

end Reaction

/-- Act on a message of a known method. -/
def handle (s : Server) (e : Envelope) : Reaction :=
  let failed : Reaction := ⟨s, none, [.failed e.method], false⟩
  match Method.ofName e.method with
  | .setup =>
    match e.params with
    | none => .answer s e.id s.capabilities
    | some p =>
      match Params.setup? p with
      | none => .refuse s e.id "initialize"
      | some none => .answer s e.id s.capabilities
      | some (some prefs) =>
        let s := s.prefer prefs
        .answer s e.id s.capabilities
  | .ready => ⟨s, none, [], false⟩
  | .shutdown => .answer { s with shuttingDown := true } e.id (.obj [])
  | .exit => ⟨s, none, [], true⟩
  | .didOpen =>
    match e.params.bind Params.didOpen? with
    | none => failed
    | some d => .remarks (s.setText d.uri d.text) d.uri
  | .didChange =>
    match e.params.bind Params.didChange? with
    | none => failed
    | some p =>
      match p.changes.toList.getLast? with
      | none => ⟨s, none, [], false⟩
      | some t => .remarks (s.setText p.uri t) p.uri
  | .didClose =>
    match e.params.bind Params.document? with
    | none => failed
    | some u => ⟨s.close u, some (publish u []), [], false⟩
  | .completion =>
    match e.params.bind Params.place? with
    | none => .refuse s e.id "completion"
    | some _ =>
      .answer s e.id
        (.arr ((CompletionItem.all s.catalog s.style.unitWidth).map CompletionItem.toJson))
  | .hover =>
    match e.params.bind Params.place? with
    | none => .refuse s e.id "hover"
    | some p =>
      .answer s e.id (match Hover.at? s.catalog (s.textOf p.uri) p.position with
        | some h => h.toJson
        | none => .null)
  | .formatting =>
    match e.params.bind Params.formatting? with
    | none => .refuse s e.id "formatting"
    | some p =>
      match s.text? p.uri with
      | none => { Reaction.answer s e.id (.arr []) with log := [.unknownDocument p.uri] }
      | some t =>
        let (edits, cache) := s.cache.get s.catalog t p.options.bounded
        .answer { s with cache := cache } e.id
          (.arr (edits.map fun e => (TextEdit.ofEdit e).toJson))
  | .semanticTokens =>
    match e.params.bind Params.document? with
    | none => .refuse s e.id "semanticTokens"
    | some u => .answer s e.id (tokenData (Span.tokens s.catalog (s.textOf u)))
  | .other => .answer s e.id .null

/-- Act on a message body. A body that is no message is logged, one without a method ignored. -/
def react (s : Server) (body : Text) : Option Envelope × Reaction :=
  match Envelope.read? body with
  | none => (none, ⟨s, none, [.badPayload], false⟩)
  | some e => (some e, if e.method.isEmpty then ⟨s, none, [], false⟩ else s.handle e)

end Server

end RuleLang
