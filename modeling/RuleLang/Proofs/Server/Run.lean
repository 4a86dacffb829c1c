import RuleLang.Server.Session

/-!
# RuleLang.Proofs.Server.Run

What a run of the server consists of.

* `Server.Step`: what one message can do to a server, and `Server.react_step`: nothing else
  happens. Invariants of the server go by its cases.
* `Session.deliverEach`: messages handled one after another, whatever they are. The server after
  them does not depend on the sink (`Session.deliverEach_server`).
* `Session.run_eq`: a run is that sequence of steps for the bodies of the stream `untilExit`
  (`Session.run_steps`), and ends by the exit, a fault of the stream, or its end.
-/

namespace RuleLang

/-! ## Documents in messages -/

/-- A message that is about the text of a document: the new text, or `none` if it is closed. -/
structure DocChange where
  uri : Text
  text : Option Text
deriving Repr, DecidableEq

/-- The document that a message opens, changes or closes. A change without any content is none. -/
def Envelope.docChange? (e : Envelope) : Option DocChange :=
  match Method.ofName e.method with
  | .didOpen => (e.params.bind Params.didOpen?).map fun d => ⟨d.uri, some d.text⟩
  | .didChange =>
    (e.params.bind Params.didChange?).bind fun p =>
      p.changes.toList.getLast?.map fun t => ⟨p.uri, some t⟩
  | .didClose => (e.params.bind Params.document?).map fun u => ⟨u, none⟩
  | _ => none

def docChange? (body : Text) : Option DocChange := (Envelope.read? body).bind Envelope.docChange?

/-- Does a message body ask the server to exit? -/
def asksExit (body : Text) : Bool :=
  (Envelope.read? body).any fun e => Method.ofName e.method = .exit

theorem Method.ofName_nil : Method.ofName [] = .other := by decide

/-! ## One message -/

namespace Server

def amend (s : Server) (c : DocChange) : Server :=
  match c.text with
  | some t => s.setText c.uri t
  | none => s.close c.uri

/-- What a message can do to a server, given what it does to the documents. -/
inductive Step (s : Server) : Option DocChange → Server → Prop where
  | keep : Step s none s
  | prefer (p : Params.Preferences) : Step s none (s.prefer p)
  | shutDown : Step s none { s with shuttingDown := true }
  | amend (c : DocChange) : Step s (some c) (s.amend c)
  | lookUp (uri text : Text) (style : Style) : s.text? uri = some text →
      Step s none { s with cache := (s.cache.get s.catalog text style).2 }

namespace Reaction

@[simp] theorem answer_exit (s : Server) (id : Option MessageId) (j : Json) :
    (answer s id j).exit = false := rfl
@[simp] theorem refuse_exit (s : Server) (id : Option MessageId) (w : String) :
    (refuse s id w).exit = false := rfl

@[simp] theorem remarks_server (s : Server) (uri : Text) : (remarks s uri).server = s := by
  unfold remarks
  split <;> rfl

@[simp] theorem remarks_exit (s : Server) (uri : Text) : (remarks s uri).exit = false := by
  unfold remarks
  split <;> rfl

end Reaction

theorem handle_step (s : Server) (e : Envelope) : s.Step e.docChange? (s.handle e).server := by
  cases hm : Method.ofName e.method with
  | setup =>
    simp only [Envelope.docChange?, handle, hm]
    split
    · exact .keep
    · split
      · exact .keep
      · exact .keep
      · exact .prefer _
  | didOpen =>
    simp only [Envelope.docChange?, handle, hm]
    cases e.params.bind Params.didOpen? with
    | none => exact .keep
    | some d => rw [Reaction.remarks_server]; exact .amend ⟨d.uri, some d.text⟩
  | didChange =>
    simp only [Envelope.docChange?, handle, hm]
    cases e.params.bind Params.didChange? with
    | none => exact .keep
    | some p =>
      simp only [Option.bind_some]
      cases p.changes.toList.getLast? with
      | none => exact .keep
      | some t => rw [Reaction.remarks_server]; exact .amend ⟨p.uri, some t⟩
  | didClose =>
    simp only [Envelope.docChange?, handle, hm]
    cases e.params.bind Params.document? with
    | none => exact .keep
    | some u => exact .amend ⟨u, none⟩
  | formatting =>
    simp only [Envelope.docChange?, handle, hm]
    split
    · exact .keep
    · rename_i p _
      split
      · exact .keep
      · rename_i t ht
        exact .lookUp p.uri t p.options.bounded ht
  | shutdown =>
    simp only [Envelope.docChange?, handle, hm]
    exact .shutDown
  | ready | exit | other =>
    simp only [Envelope.docChange?, handle, hm]
    exact .keep
  | completion | hover | semanticTokens =>
    simp only [Envelope.docChange?, handle, hm]
    split <;> exact .keep

theorem handle_exit (s : Server) (e : Envelope) :
    (s.handle e).exit = decide (Method.ofName e.method = .exit) := by
  cases hm : Method.ofName e.method <;> simp only [handle, hm] <;> repeat' split
  all_goals simp

theorem react_step (s : Server) (body : Text) :
    s.Step (docChange? body) (s.react body).2.server := by
  cases hread : Envelope.read? body with
  | none =>
    simp only [docChange?, react, hread]
    exact .keep
  | some e =>
    by_cases hempty : e.method = []
    · -- a message without a method is no message about a document
      have hnone : docChange? body = none := by
        simp only [docChange?, hread, Option.bind_some, Envelope.docChange?, hempty,
          Method.ofName_nil]
      simp only [hnone, react, hread, hempty, List.isEmpty_nil, if_true]
      exact .keep
    · simp only [docChange?, react, hread, List.isEmpty_iff, hempty, if_false, Option.bind_some]
      exact s.handle_step e

theorem react_exit (s : Server) (body : Text) : (s.react body).2.exit = asksExit body := by
  cases hread : Envelope.read? body with
  | none => simp [react, asksExit, hread]
  | some e =>
    by_cases hempty : e.method = []
    · simp [react, asksExit, hread, hempty, Method.ofName_nil]
    · simp [react, asksExit, hread, hempty, handle_exit]

/-- The server after messages. -/
def after (s : Server) (bodies : List Text) : Server :=
  bodies.foldl (fun s body => (s.react body).2.server) s

theorem after_concat (s : Server) (bodies : List Text) (body : Text) :
    s.after (bodies ++ [body]) = ((s.after bodies).react body).2.server := by
  simp [after]

/-- What every message keeps holds after any number of messages. -/
theorem after_induction {P : Server → Prop} {s : Server} (hs : P s)
    {bodies : List Text} (hstep : ∀ s body, body ∈ bodies → P s → P (s.react body).2.server) :
    P (s.after bodies) :=
  List.foldlRecOn bodies _ hs fun s h body hbody => hstep s body hbody h

end Server

/-! ## Many messages -/

/-- The bodies up to and including the first that asks to exit. -/
def untilExit : List Text → List Text
  | [] => []
  | b :: bs => if asksExit b then [b] else b :: untilExit bs

namespace Transcript

@[simp] theorem append_empty (t : Transcript) : t.append {} = t := by simp [append]

end Transcript

namespace Session

/-- Handle all bodies, one after another. -/
def deliverEach : Server → Sink → List Text → Server × Sink × Transcript
  | server, sink, [] => (server, sink, {})
  | server, sink, body :: rest =>
    let (server, sink, t, _) := deliver server sink body
    let (server, sink, t') := deliverEach server sink rest
    (server, sink, t.append t')

theorem deliver_server (server : Server) (sink : Sink) (body : Text) :
    (deliver server sink body).1 = (server.react body).2.server := by
  simp only [deliver]
  split <;> rfl

theorem deliver_exit (server : Server) (sink : Sink) (body : Text) :
    (deliver server sink body).2.2.2 = asksExit body := by
  rw [← server.react_exit body]
  simp only [deliver]
  split <;> rfl

theorem deliverEach_server (server : Server) (sink : Sink) (bodies : List Text) :
    (deliverEach server sink bodies).1 = server.after bodies := by
  induction bodies generalizing server sink with
  | nil => rfl
  | cons b bs ih => simp only [deliverEach, ih, deliver_server, Server.after, List.foldl_cons]

theorem deliverAll_eq (server : Server) (sink : Sink) (bodies : List Text) :
    deliverAll server sink bodies =
      ((deliverEach server sink (untilExit bodies)).1,
        (deliverEach server sink (untilExit bodies)).2.1,
        (deliverEach server sink (untilExit bodies)).2.2, bodies.any asksExit) := by
  induction bodies generalizing server sink with
  | nil => rfl
  | cons b bs ih =>
    have hexit := deliver_exit server sink b
    obtain ⟨server', sink', t, x, hd⟩ : ∃ server' sink' t x,
        deliver server sink b = (server', sink', t, x) := ⟨_, _, _, _, rfl⟩
    rw [hd] at hexit
    dsimp only at hexit
    subst hexit
    cases hx : asksExit b with
    | true => simp [deliverAll, untilExit, hd, hx, deliverEach]
    | false => simp [deliverAll, untilExit, hd, hx, deliverEach, ih]

section Run

variable (server : Server) (sink : Sink) {input : Text} {bodies : List Text} {tail : Frame.Tail}

theorem run_eq (hsplit : Frame.split input = (bodies, tail)) :
    run { server := server, sink := sink } input =
      (let server' := (deliverEach server sink (untilExit bodies)).1
       let sink' := (deliverEach server sink (untilExit bodies)).2.1
       if bodies.any asksExit then { server := server', sink := sink', ending := some .exit }
       else match tail with
        | .wait rest inBody =>
          { server := server', sink := sink', pending := rest, inBody := inBody }
        | .faulty e => { server := server', sink := sink', ending := some (.fault e) },
       (deliverEach server sink (untilExit bodies)).2.2) := by
  simp only [run, feed, List.nil_append, hsplit, deliverAll_eq]
  split
  · rfl
  · cases tail <;> rfl

/-- The run is the steps of its messages, however the stream ends. -/
theorem run_steps (input : Text) :
    let result := run { server := server, sink := sink } input
    (result.1.server, result.1.sink, result.2) =
      deliverEach server sink (untilExit (Frame.split input).1) := by
  intro result
  obtain ⟨bodies, tail, hsplit⟩ : ∃ bodies tail, Frame.split input = (bodies, tail) :=
    ⟨_, _, rfl⟩
  simp only [result, run_eq server sink hsplit, hsplit]
  split
  · rfl
  · cases tail <;> rfl

end Run

end Session

end RuleLang
