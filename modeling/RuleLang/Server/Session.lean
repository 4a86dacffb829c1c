import RuleLang.Json.Writer
import RuleLang.Server.Frame
import RuleLang.Server.State

/-!
# RuleLang.Server.Session

A server at work on a byte stream. Input arrives in pieces; every piece is handled as far as it
completes messages. Output goes to a sink that may stop accepting writes: the server then goes
on, and only notes the failure in its log.
-/

namespace RuleLang

/-- Where output goes. `room` is the number of writes that still succeed; `none` means all. -/
structure Sink where
  room : Option Nat := none
deriving Repr, DecidableEq

namespace Sink

/-- Whether one more write succeeds, and the sink after it. -/
def write (k : Sink) : Bool × Sink :=
  match k.room with
  | none => (true, k)
  | some 0 => (false, k)
  | some (n + 1) => (true, ⟨some n⟩)

/-- Write chunks one after another up to the first that fails: the chunks written, whether all
were, and the sink after it. -/
def writeAll : Sink → List Text → List Text × Bool × Sink
  | k, [] => ([], true, k)
  | k, c :: cs =>
    match k.write with
    | (false, k) => ([], false, k)
    | (true, k) =>
      let (done, ok, k) := writeAll k cs
      (c :: done, ok, k)

end Sink

/-- The writes that send a message: its header, then its body. -/
def chunksOf (message : Json) : List Text :=
  let body := message.toText
  [Frame.header body, body]

/-- How a session came to its end. -/
inductive Ending where
  | exit
  | fault (e : FrameError)
deriving Repr, DecidableEq

structure Session where
  server : Server
  sink : Sink := {}
  /-- bytes that do not complete a message yet -/
  pending : Text := []
  /-- has the body of the pending message begun? -/
  inBody : Bool := false
  ending : Option Ending := none
deriving Repr

/-- What a session put out: chunks written and log lines, in order. -/
structure Transcript where
  chunks : List Text := []
  log : List LogLine := []
deriving Repr, DecidableEq

namespace Transcript

def append (a b : Transcript) : Transcript := ⟨a.chunks ++ b.chunks, a.log ++ b.log⟩

/-- All bytes written. -/
def out (t : Transcript) : Text := t.chunks.flatten

end Transcript

namespace Session

/-- Handle one message body; the flag tells that the client asked to exit. -/
def deliver (server : Server) (sink : Sink) (body : Text) :
    Server × Sink × Transcript × Bool :=
  let (envelope, r) := server.react body
  match r.send with
  | none => (r.server, sink, ⟨[], r.log⟩, r.exit)
  | some message =>
    let (chunks, ok, sink) := sink.writeAll (chunksOf message)
    let failure := if ok then [] else [.failed (envelope.elim [] Envelope.method)]
    (r.server, sink, ⟨chunks, r.log ++ failure⟩, r.exit)

/-- Handle message bodies up to the first `exit`. -/
def deliverAll : Server → Sink → List Text → Server × Sink × Transcript × Bool
  | server, sink, [] => (server, sink, {}, false)
  | server, sink, body :: rest =>
    match deliver server sink body with
    | (server, sink, t, true) => (server, sink, t, true)
    | (server, sink, t, false) =>
      let (server, sink, t', exit) := deliverAll server sink rest
      (server, sink, t.append t', exit)

/-- Take more input. A session that has ended takes none. -/
def feed (s : Session) (input : Text) : Session × Transcript :=
  match s.ending with
  | some _ => (s, {})
  | none =>
    let (bodies, tail) := Frame.split (s.pending ++ input)
    let (server, sink, t, exit) := deliverAll s.server s.sink bodies
    let s := { s with server := server, sink := sink }
    if exit then ({ s with pending := [], inBody := false, ending := some .exit }, t)
    else match tail with
      | .wait rest inBody => ({ s with pending := rest, inBody := inBody }, t)
      | .faulty e => ({ s with pending := [], inBody := false, ending := some (.fault e) }, t)

/-- The error with which the session ends when there is no more input. -/
def finish (s : Session) : Option FrameError :=
  match s.ending with
  | some .exit => none
  | some (.fault e) => some e
  | none => if s.inBody then some .truncated else none

/-- A whole input stream: the session after it and what it put out. -/
def run (s : Session) (input : Text) : Session × Transcript := s.feed input

end Session

end RuleLang
