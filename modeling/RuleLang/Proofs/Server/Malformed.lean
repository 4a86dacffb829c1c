import RuleLang.Proofs.Json.Members
import RuleLang.Proofs.Server.Output
import RuleLang.Proofs.Server.Removal

/-!
# RuleLang.Proofs.Server.Malformed

Malformed messages leave a server as it is. At most they are answered by an error
(`Server.react_malformed`), and those that are not answered can be taken out of a stream without
any effect on the rest of the run (`Session.malformed_leave_no_trace`).
-/

namespace RuleLang

/-- A body that is no JSON text, or no message, or has no method or not the parameters of its
method. -/
def malformed (body : Text) : Bool :=
  (Json.read? body).isNone ||
    match Envelope.read? body with
    | none => true
    | some e => e.method.isEmpty || e.badParams

def asksAnswer (body : Text) : Bool := (Envelope.read? body).any Envelope.isRequest

/-- A malformed message that gets no answer. -/
def inert (body : Text) : Bool := malformed body && !asksAnswer body

theorem malformed_cases {body : Text} (h : malformed body = true) :
    Envelope.read? body = none ∨
      ∃ e, Envelope.read? body = some e ∧ (e.method = [] ∨ e.badParams = true) := by
  cases hread : Envelope.read? body with
  | none => exact .inl rfl
  | some e =>
    have hjson : (Json.read? body).isNone = false := by
      cases hjson : Json.read? body with
      | none => rw [Envelope.read?_eq_none_of_not_json hjson] at hread; cases hread
      | some v => rfl
    refine .inr ⟨e, rfl, ?_⟩
    simpa [malformed, hread, hjson] using h

theorem Envelope.docChange?_of_badParams {e : Envelope} (h : e.badParams = true) :
    e.docChange? = none := by
  cases hm : Method.ofName e.method with
  | didOpen | didChange | didClose =>
    simp only [badParams, hm, Option.isNone_iff_eq_none] at h
    simp [docChange?, hm, h]
  | _ => simp only [docChange?, hm]

theorem asksExit_of_malformed {body : Text} (h : malformed body = true) :
    asksExit body = false := by
  rcases malformed_cases h with hread | ⟨e, hread, hempty | hbad⟩
  · simp [asksExit, hread]
  · simp [asksExit, hread, hempty, Method.ofName_nil]
  · have hne : Method.ofName e.method ≠ .exit := by
      intro hm
      simp only [Envelope.badParams, hm] at hbad
      cases hbad
    simp [asksExit, hread, hne]

theorem inert_iff {body : Text} :
    inert body = true ↔ malformed body = true ∧ asksAnswer body = false := by
  simp [inert]

namespace Server

theorem handle_of_badParams (s : Server) {e : Envelope} (h : e.badParams = true) :
    (s.handle e).server = s := by
  cases hm : Method.ofName e.method with
  | ready | shutdown | exit | other =>
    simp only [Envelope.badParams, hm] at h
    cases h
  | setup =>
    simp only [Envelope.badParams, hm, Option.any_eq_true, Option.isNone_iff_eq_none] at h
    obtain ⟨p, hp, hread⟩ := h
    simp only [handle, hm, hp, hread]
    rfl
  | didOpen | didChange | didClose =>
    simp only [Envelope.badParams, hm, Option.isNone_iff_eq_none] at h
    simp only [handle, hm, h]
  | completion | hover | formatting | semanticTokens =>
    simp only [Envelope.badParams, hm, Option.isNone_iff_eq_none] at h
    simp only [handle, hm, h]
    rfl

/-- A malformed message changes nothing, and is answered by an error if it is a request. -/
theorem react_malformed (s : Server) {body : Text} (h : malformed body = true) :
    (s.react body).2.server = s ∧
    (asksAnswer body = false ∧ (s.react body).2.send = none ∨
      ∃ e id what, Envelope.read? body = some e ∧ e.isRequest = true ∧ e.id = some id ∧
        (s.react body).2.send = some (invalidParams id what)) := by
  rcases malformed_cases h with hread | ⟨e, hread, hbad⟩
  · simp [react, asksAnswer, hread]
  · by_cases hempty : e.method = []
    · simp [react, asksAnswer, hread, hempty, Envelope.isRequest]
    · have hbad : e.badParams = true := hbad.resolve_left hempty
      have hsends := s.handle_sends hempty
      simp only [react, asksAnswer, hread, List.isEmpty_iff, hempty, if_false, Option.any_some]
      refine ⟨s.handle_of_badParams hbad, ?_⟩
      generalize (s.handle e).send = message at hsends ⊢
      cases hsends with
      | nothing hreq => exact .inl ⟨hreq, rfl⟩
      | remarks c _ hdoc =>
        rw [Envelope.docChange?_of_badParams hbad] at hdoc
        cases hdoc
      | result id j _ _ _ hgood =>
        rw [hbad] at hgood
        cases hgood
      | refusal id what hreq _ hid => exact .inr ⟨e, id, what, rfl, hreq, hid, rfl⟩

theorem react_inert (s : Server) {body : Text} (h : inert body = true) :
    (s.react body).2.server = s ∧ (s.react body).2.send = none := by
  obtain ⟨hbad, hquiet⟩ := inert_iff.1 h
  obtain ⟨hserver, ⟨-, hsend⟩ | ⟨e, id, what, hread, hreq, -⟩⟩ := s.react_malformed hbad
  · exact ⟨hserver, hsend⟩
  · simp [asksAnswer, hread, hreq] at hquiet

/-! ## Runs without inert messages -/

theorem after_filter_inert (s : Server) (bodies : List Text) :
    s.after (bodies.filter fun b => !inert b) = s.after bodies := by
  induction bodies generalizing s with
  | nil => rfl
  | cons b bs ih =>
    cases hb : inert b with
    | true =>
      have hreact : s.after (b :: bs) = s.after bs := by
        rw [after, List.foldl_cons, (s.react_inert hb).1]
        rfl
      simp [hb, hreact, ih]
    | false =>
      rw [List.filter_cons_of_pos (by simp [hb])]
      exact ih _

theorem sent_filter_inert (s : Server) (bodies : List Text) :
    s.sent (bodies.filter fun b => !inert b) = s.sent bodies := by
  induction bodies generalizing s with
  | nil => rfl
  | cons b bs ih =>
    cases hb : inert b with
    | true =>
      obtain ⟨hserver, hsend⟩ := s.react_inert hb
      simp [sent, hb, hserver, hsend, ih]
    | false => simp [sent, hb, ih]

end Server

theorem untilExit_filter_inert (bodies : List Text) :
    untilExit (bodies.filter fun b => !inert b) =
      (untilExit bodies).filter fun b => !inert b := by
  induction bodies with
  | nil => rfl
  | cons b bs ih =>
    cases hb : inert b with
    | true => simp [untilExit, hb, asksExit_of_malformed (inert_iff.1 hb).1, ih]
    | false => cases hx : asksExit b <;> simp [untilExit, hb, hx, ih]

theorem any_asksExit_filter_inert (bodies : List Text) :
    (bodies.filter fun b => !inert b).any asksExit = bodies.any asksExit := by
  induction bodies with
  | nil => rfl
  | cons b bs ih =>
    cases hb : inert b with
    | true => simp [hb, asksExit_of_malformed (inert_iff.1 hb).1, ih]
    | false => simp [hb, ih]

namespace Session

section Without

variable (server : Server) (sink : Sink)

theorem deliverEach_filter_inert (bodies : List Text) :
    let whole := deliverEach server sink bodies
    let kept := deliverEach server sink (bodies.filter fun b => !inert b)
    kept.1 = whole.1 ∧ kept.2.1 = whole.2.1 ∧ kept.2.2.chunks = whole.2.2.chunks := by
  intro whole kept
  obtain ⟨hchunks, hsink⟩ := deliverEach_output server sink bodies
  obtain ⟨hchunks', hsink'⟩ := deliverEach_output server sink (bodies.filter fun b => !inert b)
  rw [Server.sent_filter_inert] at hchunks' hsink'
  refine ⟨?_, hsink'.trans hsink.symm, hchunks'.trans hchunks.symm⟩
  simp only [whole, kept, deliverEach_server, Server.after_filter_inert]

/-- A stream without its inert messages ends a run in the same session, after the same output. -/
theorem run_without_inert (input : Text) :
    let whole := run { server := server, sink := sink } input
    let kept := run { server := server, sink := sink } (Frame.without inert input)
    kept.1 = whole.1 ∧ kept.2.chunks = whole.2.chunks := by
  intro whole kept
  obtain ⟨bodies, tail, hsplit⟩ : ∃ bodies tail, Frame.split input = (bodies, tail) :=
    ⟨_, _, rfl⟩
  have hrest : Frame.split (Frame.without inert input) =
      (bodies.filter fun b => !inert b, tail) := by
    rw [Frame.split_without, hsplit]
  obtain ⟨hserver, hsink, hchunks⟩ := deliverEach_filter_inert server sink (untilExit bodies)
  constructor
  · simp only [whole, kept, run_eq server sink hsplit, run_eq server sink hrest,
      untilExit_filter_inert, any_asksExit_filter_inert, hserver, hsink]
    split
    · rfl
    · cases tail <;> rfl
  · simp only [whole, kept, run_eq server sink hsplit, run_eq server sink hrest,
      untilExit_filter_inert, hchunks]

end Without

/-- **Malformed messages leave a server exactly as it was.** Handling one keeps the documents, the
style, the cache and the shutdown flag, and goes on; written is nothing, or the one error if it is
a request. Taking those that get no answer out of a stream changes neither the output nor the
session at the end of it, and after each message of the run the server is the one after the
messages that remain of it. -/
theorem malformed_leave_no_trace :
    (∀ (s : Server) (sink : Sink) (body : Text), malformed body = true →
      let result := deliver s sink body
      result.1 = s ∧ result.2.2.2 = false ∧
      (asksAnswer body = false ∧ result.2.1 = sink ∧ result.2.2.1.chunks = [] ∨
        ∃ e id what, Envelope.read? body = some e ∧ e.isRequest = true ∧ e.id = some id ∧
          result.2.2.1.chunks =
            (sink.writeAll (chunksOf (Server.invalidParams id what))).1)) ∧
    ∀ (server : Server) (sink : Sink) (input : Text),
      let rest := Frame.without inert input
      let messages := untilExit (Frame.split input).1
      (run { server := server, sink := sink } rest).2.chunks =
        (run { server := server, sink := sink } input).2.chunks ∧
      (run { server := server, sink := sink } rest).1 =
        (run { server := server, sink := sink } input).1 ∧
      untilExit (Frame.split rest).1 = messages.filter (fun b => !inert b) ∧
      ∀ k : Nat, server.after ((messages.take k).filter fun b => !inert b) =
        server.after (messages.take k) := by
  refine ⟨?_, ?_⟩
  · intro s sink body h result
    obtain ⟨hserver, hsend⟩ := s.react_malformed h
    obtain ⟨hchunks, hsink⟩ := deliver_output s sink body
    refine ⟨(deliver_server s sink body).trans hserver, ?_, ?_⟩
    · rw [deliver_exit]
      exact asksExit_of_malformed h
    · rcases hsend with ⟨hquiet, hsend⟩ | ⟨e, id, what, hread, hreq, hid, hsend⟩
      · rw [hsend] at hchunks hsink
        exact .inl ⟨hquiet, by simpa using hsink, by simpa using hchunks⟩
      · rw [hsend] at hchunks
        refine .inr ⟨e, id, what, hread, hreq, hid, ?_⟩
        rw [Sink.writeAll_fst]
        simpa using hchunks
  · intro server sink input rest messages
    obtain ⟨hsession, hchunks⟩ := run_without_inert server sink input
    refine ⟨hchunks, hsession, ?_, ?_⟩
    · rw [Frame.split_without, untilExit_filter_inert]
    · intro k
      exact server.after_filter_inert (messages.take k)

/-- A message that opens a document, with a name that decodes and then a text that does not. -/
def lateFault : Json :=
  .record [("method", .lit "textDocument/didOpen"),
    ("params", .record [("textDocument", .record [("uri", .lit "a"), ("text", .int 1)])])]

theorem malformed_leave_no_trace_late_fault :
    malformed lateFault.toText = true ∧ asksAnswer lateFault.toText = false ∧
      ∀ (s : Server) (sink : Sink),
        (deliver s sink lateFault.toText).1 = s ∧
        (deliver s sink lateFault.toText).2.2.1.chunks = [] := by
  have hbad : malformed lateFault.toText = true := by decide +kernel
  have hquiet : asksAnswer lateFault.toText = false := by decide +kernel
  refine ⟨hbad, hquiet, ?_⟩
  intro s sink
  obtain ⟨hserver, -, ⟨-, -, hchunks⟩ | ⟨e, id, what, hread, hreq, -⟩⟩ :=
    malformed_leave_no_trace.1 s sink lateFault.toText hbad
  · exact ⟨hserver, hchunks⟩
  · simp [asksAnswer, hread, hreq] at hquiet

end Session

end RuleLang
