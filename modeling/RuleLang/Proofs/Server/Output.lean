import RuleLang.Proofs.Server.Framing

/-!
# RuleLang.Proofs.Server.Output

What a server puts out.

* `Server.Sends`: what one message can make a server send, and `Server.handle_sends`: nothing else
  is sent. Only requests are answered, only messages about a document are followed by remarks.
* `Server.sent`: the messages that a server sends in a run. They go out one after another, header
  and body, as far as the sink takes them (`Session.deliverEach_output`).
* `Session.write_failures_invisible`: a sink that stops accepting writes cuts the output off and
  changes nothing else.
-/

namespace RuleLang

/-- The member of an object, by name. -/
def Json.member? (name : String) : Json → Option Json
  | .obj ms => ms.lookup (txt name)
  | _ => none

/-! ## Methods by name -/

namespace Method

theorem ofName_eq_iff {n : String} {m : Method} (h : (n, m) ∈ names) (name : Text) :
    ofName name = m ↔ name = txt n := by
  have hone : ∀ p ∈ names, ∀ q ∈ names, p.2 = q.2 → p.1 = q.1 := by decide
  have hother : ∀ p ∈ names, p.2 ≠ other := by decide
  have hself : ∀ p ∈ names, ofName (txt p.1) = p.2 := by decide +kernel
  constructor
  · intro hm
    unfold ofName at hm
    split at hm
    · rename_i n' m' hfind
      have hname : txt n' = name := by simpa using List.find?_some hfind
      have hn : n' = n := hone _ (List.mem_of_find?_eq_some hfind) _ h hm
      rw [← hname, hn]
    · exact absurd hm.symm (hother _ h)
  · rintro rfl
    exact hself (n, m) h

/-- The methods of notifications: they get no answer even if they come with an id. -/
def isNotification : Method → Bool
  | ready | exit | didOpen | didChange | didClose => true
  | _ => false

/-- The names of these methods. -/
def notifications : List String :=
  ["initialized", "exit", "textDocument/didOpen", "textDocument/didChange",
    "textDocument/didClose"]

theorem isNotification_ofName (name : Text) :
    (ofName name).isNotification = decide (name ∈ notifications.map txt) := by
  rw [Bool.eq_iff_iff, decide_eq_true_iff]
  have hcases : (ofName name).isNotification = true ↔ ofName name = ready ∨ ofName name = exit ∨
      ofName name = didOpen ∨ ofName name = didChange ∨ ofName name = didClose := by
    cases ofName name <;> simp [isNotification]
  rw [hcases, ofName_eq_iff (n := "initialized") (by decide),
    ofName_eq_iff (n := "exit") (by decide),
    ofName_eq_iff (n := "textDocument/didOpen") (by decide),
    ofName_eq_iff (n := "textDocument/didChange") (by decide),
    ofName_eq_iff (n := "textDocument/didClose") (by decide)]
  simp [notifications]

end Method

namespace Envelope

/-- Does a message ask for an answer? It has an id, and a method that is not a notification's. -/
def isRequest (e : Envelope) : Bool :=
  e.id.isSome && !e.method.isEmpty && !decide (e.method ∈ Method.notifications.map txt)

/-- Are the parameters of a message not those of its method? Only `initialize` goes without. -/
def badParams (e : Envelope) : Bool :=
  match Method.ofName e.method with
  | .setup => e.params.any fun p => (Params.setup? p).isNone
  | .didOpen => (e.params.bind Params.didOpen?).isNone
  | .didChange => (e.params.bind Params.didChange?).isNone
  | .completion | .hover => (e.params.bind Params.place?).isNone
  | .formatting => (e.params.bind Params.formatting?).isNone
  | .didClose | .semanticTokens => (e.params.bind Params.document?).isNone
  | .ready | .shutdown | .exit | .other => false

theorem isRequest_of_notification {e : Envelope}
    (h : (Method.ofName e.method).isNotification = true) : e.isRequest = false := by
  rw [Method.isNotification_ofName] at h
  simp only [isRequest, h, Bool.not_true, Bool.and_false]

theorem isRequest_of_not_notification {e : Envelope} (hne : e.method ≠ [])
    (h : (Method.ofName e.method).isNotification = false) : e.isRequest = e.id.isSome := by
  rw [Method.isNotification_ofName] at h
  have hmethod : e.method.isEmpty = false := by simpa using hne
  simp only [isRequest, h, hmethod, Bool.not_false, Bool.and_true]

theorem docChange?_of_not_notification {e : Envelope}
    (h : (Method.ofName e.method).isNotification = false) : e.docChange? = none := by
  cases hm : Method.ofName e.method with
  | didOpen | didChange | didClose =>
    rw [hm] at h
    cases h
  | _ => simp only [docChange?, hm]

end Envelope

/-! ## One message -/

namespace Server

/-- The remarks on a document that follow a change of it; a closed document has none. -/
def remarksOn (s : Server) (c : DocChange) : List Diagnostic :=
  c.text.elim [] fun t => Diagnostic.collect s.catalog t s.style

/-- What a message with a method can make a server send. -/
inductive Sends (s : Server) (e : Envelope) : Option Json → Prop where
  | nothing : e.isRequest = false → e.docChange? = none → Sends s e none
  | remarks (c : DocChange) : e.isRequest = false → e.docChange? = some c →
      Sends s e (some (publish c.uri (s.remarksOn c)))
  | result (id : MessageId) (j : Json) : e.isRequest = true → e.docChange? = none →
      e.id = some id → e.badParams = false → Sends s e (some (response id j))
  | refusal (id : MessageId) (what : String) : e.isRequest = true → e.docChange? = none →
      e.id = some id → e.badParams = true → Sends s e (some (invalidParams id what))

section Sends

variable {s : Server} {e : Envelope} (hne : e.method ≠ [])
  (hm : (Method.ofName e.method).isNotification = false)

include hne hm

theorem sends_answer (hgood : e.badParams = false) (s' : Server) (j : Json) :
    s.Sends e (Reaction.answer s' e.id j).send := by
  have hreq := Envelope.isRequest_of_not_notification hne hm
  have hdoc := Envelope.docChange?_of_not_notification hm
  cases hid : e.id with
  | none => exact .nothing (by rw [hreq, hid]; rfl) hdoc
  | some id => exact .result id j (by rw [hreq, hid]; rfl) hdoc hid hgood

theorem sends_refuse (hbad : e.badParams = true) (s' : Server) (what : String) :
    s.Sends e (Reaction.refuse s' e.id what).send := by
  have hreq := Envelope.isRequest_of_not_notification hne hm
  have hdoc := Envelope.docChange?_of_not_notification hm
  cases hid : e.id with
  | none => exact .nothing (by rw [hreq, hid]; rfl) hdoc
  | some id => exact .refusal id what (by rw [hreq, hid]; rfl) hdoc hid hbad

end Sends

theorem send_remarks (s : Server) (uri text : Text) :
    (Reaction.remarks (s.setText uri text) uri).send =
      some (publish uri (s.remarksOn ⟨uri, some text⟩)) := by
  have htext : (s.setText uri text).text? uri = some text := by simp [text?, setText]
  simp only [Reaction.remarks, htext]
  rfl

theorem handle_sends (s : Server) {e : Envelope} (hne : e.method ≠ []) :
    s.Sends e (s.handle e).send := by
  cases hm : Method.ofName e.method with
  | ready | exit =>
    have hreq := Envelope.isRequest_of_notification (e := e) (by rw [hm]; rfl)
    simp only [handle, hm]
    exact .nothing hreq (by simp only [Envelope.docChange?, hm])
  | didOpen =>
    have hreq := Envelope.isRequest_of_notification (e := e) (by rw [hm]; rfl)
    simp only [handle, hm]
    cases hp : e.params.bind Params.didOpen? with
    | none => exact .nothing hreq (by simp [Envelope.docChange?, hm, hp])
    | some d =>
      rw [send_remarks]
      exact .remarks ⟨d.uri, some d.text⟩ hreq (by simp [Envelope.docChange?, hm, hp])
  | didChange =>
    have hreq := Envelope.isRequest_of_notification (e := e) (by rw [hm]; rfl)
    simp only [handle, hm]
    cases hp : e.params.bind Params.didChange? with
    | none => exact .nothing hreq (by simp [Envelope.docChange?, hm, hp])
    | some p =>
      dsimp only
      cases hlast : p.changes.toList.getLast? with
      | none => exact .nothing hreq (by simp [Envelope.docChange?, hm, hp, hlast])
      | some t =>
        rw [send_remarks]
        exact .remarks ⟨p.uri, some t⟩ hreq (by simp [Envelope.docChange?, hm, hp, hlast])
  | didClose =>
    have hreq := Envelope.isRequest_of_notification (e := e) (by rw [hm]; rfl)
    simp only [handle, hm]
    cases hp : e.params.bind Params.document? with
    | none => exact .nothing hreq (by simp [Envelope.docChange?, hm, hp])
    | some u => exact .remarks ⟨u, none⟩ hreq (by simp [Envelope.docChange?, hm, hp])
  | setup =>
    have hquiet : (Method.ofName e.method).isNotification = false := by rw [hm]; rfl
    simp only [handle, hm]
    cases hp : e.params with
    | none => exact sends_answer hne hquiet (by simp [Envelope.badParams, hm, hp]) _ _
    | some p =>
      dsimp only
      cases hread : Params.setup? p with
      | none => exact sends_refuse hne hquiet (by simp [Envelope.badParams, hm, hp, hread]) _ _
      | some prefs =>
        have hgood : e.badParams = false := by simp [Envelope.badParams, hm, hp, hread]
        cases prefs with
        | none => exact sends_answer hne hquiet hgood _ _
        | some prefs => exact sends_answer hne hquiet hgood _ _
  | shutdown | other =>
    simp only [handle, hm]
    exact sends_answer hne (by rw [hm]; rfl) (by simp only [Envelope.badParams, hm]) _ _
  | completion | hover =>
    have hquiet : (Method.ofName e.method).isNotification = false := by rw [hm]; rfl
    simp only [handle, hm]
    cases hp : e.params.bind Params.place? with
    | none => exact sends_refuse hne hquiet (by simp [Envelope.badParams, hm, hp]) _ _
    | some p => exact sends_answer hne hquiet (by simp [Envelope.badParams, hm, hp]) _ _
  | formatting =>
    have hquiet : (Method.ofName e.method).isNotification = false := by rw [hm]; rfl
    simp only [handle, hm]
    cases hp : e.params.bind Params.formatting? with
    | none => exact sends_refuse hne hquiet (by simp [Envelope.badParams, hm, hp]) _ _
    | some p =>
      have hgood : e.badParams = false := by simp [Envelope.badParams, hm, hp]
      dsimp only
      cases s.text? p.uri with
      | none => exact sends_answer hne hquiet hgood s (.arr [])
      | some t => exact sends_answer hne hquiet hgood _ _
  | semanticTokens =>
    have hquiet : (Method.ofName e.method).isNotification = false := by rw [hm]; rfl
    simp only [handle, hm]
    cases hp : e.params.bind Params.document? with
    | none => exact sends_refuse hne hquiet (by simp [Envelope.badParams, hm, hp]) _ _
    | some u => exact sends_answer hne hquiet (by simp [Envelope.badParams, hm, hp]) _ _

/-- The messages that a server sends while it handles others. -/
def sent (s : Server) : List Text → List Json
  | [] => []
  | body :: rest => (s.react body).2.send.toList ++ (s.react body).2.server.sent rest

theorem after_append (s : Server) (front back : List Text) :
    s.after (front ++ back) = (s.after front).after back := by
  simp [after]

theorem sent_append (s : Server) (front back : List Text) :
    s.sent (front ++ back) = s.sent front ++ (s.after front).sent back := by
  induction front generalizing s with
  | nil => rfl
  | cons b bs ih => simp only [List.cons_append, sent, ih, after, List.foldl_cons,
      List.append_assoc]

end Server

/-! ## The sink -/

namespace Sink

/-- The chunks that a sink takes out of those it is given one after another. -/
def accepted (k : Sink) (chunks : List Text) : List Text :=
  k.room.elim chunks chunks.take

@[simp] theorem accepted_nil (k : Sink) : k.accepted [] = [] := by
  obtain ⟨room⟩ := k
  cases room <;> simp [accepted]

/-- The sink after it was given chunks. -/
def given (k : Sink) (count : Nat) : Sink := ⟨k.room.map (· - count)⟩

@[simp] theorem given_zero (k : Sink) : k.given 0 = k := by
  obtain ⟨room⟩ := k
  cases room <;> rfl

theorem writeAll_fst (k : Sink) (chunks : List Text) :
    (k.writeAll chunks).1 = k.accepted chunks := by
  induction chunks generalizing k with
  | nil => simp [writeAll]
  | cons c cs ih =>
    obtain ⟨room⟩ := k
    rcases room with _ | _ | n
    · simp [writeAll, write, ih, accepted]
    · simp [writeAll, write, accepted]
    · simp [writeAll, write, ih, accepted]

theorem writeAll_sink (k : Sink) (chunks : List Text) :
    (k.writeAll chunks).2.2 = k.given chunks.length := by
  induction chunks generalizing k with
  | nil => simp [writeAll]
  | cons c cs ih =>
    obtain ⟨room⟩ := k
    rcases room with _ | _ | n
    · simp [writeAll, write, ih, given]
    · simp [writeAll, write, given]
    · simp [writeAll, write, ih, given]

theorem given_given (k : Sink) (m n : Nat) : (k.given m).given n = k.given (m + n) := by
  obtain ⟨room⟩ := k
  cases room with
  | none => rfl
  | some r => simp [given, Nat.sub_sub]

theorem accepted_append (k : Sink) (front back : List Text) :
    k.accepted (front ++ back) = k.accepted front ++ (k.given front.length).accepted back := by
  obtain ⟨room⟩ := k
  cases room with
  | none => rfl
  | some n => exact List.take_append

end Sink

namespace Session

theorem deliver_output (server : Server) (sink : Sink) (body : Text) :
    (deliver server sink body).2.2.1.chunks =
      sink.accepted ((server.react body).2.send.toList.flatMap chunksOf) ∧
    (deliver server sink body).2.1 =
      sink.given ((server.react body).2.send.toList.flatMap chunksOf).length := by
  simp only [deliver]
  cases (server.react body).2.send with
  | none => simp
  | some message => simp [Sink.writeAll_fst, Sink.writeAll_sink]

/-- What goes out is what the sink takes of the messages that are sent. -/
theorem deliverEach_output (server : Server) (sink : Sink) (bodies : List Text) :
    (deliverEach server sink bodies).2.2.chunks =
      sink.accepted ((server.sent bodies).flatMap chunksOf) ∧
    (deliverEach server sink bodies).2.1 =
      sink.given ((server.sent bodies).flatMap chunksOf).length := by
  induction bodies generalizing server sink with
  | nil => simp [deliverEach, Server.sent]
  | cons b bs ih =>
    obtain ⟨hchunks, hsink⟩ := deliver_output server sink b
    have hrest := ih (deliver server sink b).1 (deliver server sink b).2.1
    rw [hsink, deliver_server] at hrest
    simp only [deliverEach, Transcript.append, hsink, deliver_server, hrest, hchunks, Server.sent,
      List.flatMap_append, Sink.accepted_append, List.length_append, Sink.given_given, and_self]

/-- Without write failures the output is the frames of the messages that are sent. -/
theorem deliverEach_out (server : Server) (bodies : List Text) :
    (deliverEach server {} bodies).2.2.out =
      Frame.stream ((server.sent bodies).map Json.toText) := by
  have hframe : ∀ j, (chunksOf j).flatten = Frame.encode j.toText := by
    intro j
    simp [chunksOf, Frame.encode]
  rw [Transcript.out, (deliverEach_output server {} bodies).1]
  show ((server.sent bodies).flatMap chunksOf).flatten = _
  induction server.sent bodies with
  | nil => rfl
  | cons j js ih =>
    rw [List.flatMap_cons, List.flatten_append, hframe, ih, List.map_cons, Frame.stream_cons]

/-- Two runs on the same input differ in what becomes of their output at most. -/
theorem run_other_sink (server : Server) (sink sink' : Sink) (input : Text) :
    (run { server := server, sink := sink' } input).1 =
      { (run { server := server, sink := sink } input).1 with
        sink := (run { server := server, sink := sink' } input).1.sink } := by
  obtain ⟨bodies, tail, hsplit⟩ : ∃ bodies tail, Frame.split input = (bodies, tail) :=
    ⟨_, _, rfl⟩
  simp only [run_eq server _ hsplit, deliverEach_server]
  split
  · rfl
  · cases tail <;> rfl

/-- **Write failures never change what a server does.** Of two runs on one input, let the first
`n` writes of one succeed and no later one, and all writes of the other. Both handle the same
messages and have the same server after each of them, and they end alike. The chunks written in
the failing run are the first `n` of the other run, which writes header and body of each message
it sends. -/
theorem write_failures_invisible (server : Server) (input : Text) (n : Nat) :
    let messages := untilExit (Frame.split input).1
    let whole := run { server := server } input
    let failing := run { server := server, sink := ⟨some n⟩ } input
    (whole.1.server, whole.1.sink, whole.2) = deliverEach server {} messages ∧
    (failing.1.server, failing.1.sink, failing.2) = deliverEach server ⟨some n⟩ messages ∧
    (∀ k : Nat,
      (deliverEach server ⟨some n⟩ (messages.take k)).1 =
        (deliverEach server {} (messages.take k)).1) ∧
    failing.1 = { whole.1 with sink := failing.1.sink } ∧
    failing.1.finish = whole.1.finish ∧
    whole.2.chunks = (server.sent messages).flatMap chunksOf ∧
    failing.2.chunks = whole.2.chunks.take n ∧
    failing.2.out <+: whole.2.out := by
  intro messages whole failing
  have hwhole := run_steps server {} input
  have hfailing := run_steps server ⟨some n⟩ input
  have hsame : failing.1 = { whole.1 with sink := failing.1.sink } :=
    run_other_sink server {} ⟨some n⟩ input
  have hchunks : whole.2.chunks = (server.sent messages).flatMap chunksOf := by
    have h := (deliverEach_output server {} messages).1
    rw [← hwhole] at h
    exact h
  have htake : failing.2.chunks = whole.2.chunks.take n := by
    have h := (deliverEach_output server ⟨some n⟩ messages).1
    rw [← hfailing, ← hchunks] at h
    exact h
  refine ⟨hwhole, hfailing, ?_, hsame, ?_, hchunks, htake, ?_⟩
  · intro k
    rw [deliverEach_server, deliverEach_server]
  · rw [hsame]
    rfl
  · obtain ⟨back, hback⟩ := List.take_prefix n whole.2.chunks
    refine ⟨back.flatten, ?_⟩
    rw [Transcript.out, Transcript.out, htake, ← List.flatten_append, hback]

end Session

end RuleLang
