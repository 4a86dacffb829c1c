import Mathlib.Data.List.Forall2
import RuleLang.Proofs.Server.Output

/-!
# RuleLang.Proofs.Server.Answers

Every request of a run gets one answer, and nothing else does.

The answer to a message carries its id and holds a result, or an error if the parameters are not
those of the method (`Answers`). One message is answered if it is a request and not otherwise
(`Server.react_answers`); the answers of a run therefore match its requests one by one
(`Session.requests_answered_in_order`).
-/

namespace RuleLang

/-- Is a message that a server sends an answer? The others are notifications. -/
def Json.isAnswer (j : Json) : Bool := (j.member? "result").isSome || (j.member? "error").isSome

/-- An answer carries the id of the message, and either a result or an error. -/
structure Answers (e : Envelope) (j : Json) : Prop where
  id : ∃ id, e.id = some id ∧ j.member? "id" = some id.echo
  result : (j.member? "result").isSome = !e.badParams
  error : (j.member? "error").isSome = e.badParams
  code : ∀ err, j.member? "error" = some err → err.member? "code" = some (.int (-32602))

/-- The requests among messages, in order. -/
def requestsOf (bodies : List Text) : List Envelope :=
  (bodies.filterMap Envelope.read?).filter Envelope.isRequest

theorem requestsOf_cons (body : Text) (bodies : List Text) :
    requestsOf (body :: bodies) =
      (Envelope.read? body).toList.filter Envelope.isRequest ++ requestsOf bodies := by
  cases h : Envelope.read? body with
  | none => simp [requestsOf, h]
  | some e => cases hreq : e.isRequest <;> simp [requestsOf, h, hreq]

/-- Parameters are refused for five methods, each with its own reader. Only `initialize` accepts
that there are none. -/
theorem Envelope.badParams_iff {e : Envelope} (hreq : e.isRequest = true) :
    e.badParams = true ↔
      (e.method = txt "initialize" ∧ ∃ p, e.params = some p ∧ Params.setup? p = none) ∨
      (e.method = txt "textDocument/completion" ∧ e.params.bind Params.place? = none) ∨
      (e.method = txt "textDocument/hover" ∧ e.params.bind Params.place? = none) ∨
      (e.method = txt "textDocument/formatting" ∧ e.params.bind Params.formatting? = none) ∨
      (e.method = txt "textDocument/semanticTokens/full" ∧
        e.params.bind Params.document? = none) := by
  have hquiet : (Method.ofName e.method).isNotification = false := by
    rw [Bool.eq_false_iff]
    intro h
    rw [isRequest_of_notification h] at hreq
    cases hreq
  simp only [← Method.ofName_eq_iff (n := "initialize") (m := .setup) (by decide),
    ← Method.ofName_eq_iff (n := "textDocument/completion") (m := .completion) (by decide),
    ← Method.ofName_eq_iff (n := "textDocument/hover") (m := .hover) (by decide),
    ← Method.ofName_eq_iff (n := "textDocument/formatting") (m := .formatting) (by decide),
    ← Method.ofName_eq_iff (n := "textDocument/semanticTokens/full") (m := .semanticTokens)
      (by decide)]
  cases hm : Method.ofName e.method <;>
    simp_all [badParams, Method.isNotification, Option.any_eq_true]

namespace Server

theorem isAnswer_publish (u : Text) (ds : List Diagnostic) : (publish u ds).isAnswer = false := rfl

theorem isAnswer_response (id : MessageId) (j : Json) : (response id j).isAnswer = true := rfl

theorem isAnswer_invalidParams (id : MessageId) (what : String) :
    (invalidParams id what).isAnswer = true := rfl

theorem answers_response {e : Envelope} {id : MessageId} (hid : e.id = some id)
    (hgood : e.badParams = false) (j : Json) : Answers e (response id j) where
  id := ⟨id, hid, rfl⟩
  result := by rw [hgood]; rfl
  error := by rw [hgood]; rfl
  code := by rintro err ⟨⟩

theorem answers_invalidParams {e : Envelope} {id : MessageId} (hid : e.id = some id)
    (hbad : e.badParams = true) (what : String) : Answers e (invalidParams id what) where
  id := ⟨id, hid, rfl⟩
  result := by rw [hbad]; rfl
  error := by rw [hbad]; rfl
  code := by rintro err ⟨⟩; rfl

/-- A message is answered, once, if it is a request, and not otherwise. -/
theorem react_answers (s : Server) (body : Text) :
    List.Forall₂ Answers ((Envelope.read? body).toList.filter Envelope.isRequest)
      ((s.react body).2.send.toList.filter Json.isAnswer) := by
  cases hread : Envelope.read? body with
  | none => simp [react, hread]
  | some e =>
    by_cases hempty : e.method = []
    · have hreq : e.isRequest = false := by simp [Envelope.isRequest, hempty]
      simp [react, hread, hempty, hreq]
    · have hsends := s.handle_sends hempty
      simp only [react, hread, List.isEmpty_iff, hempty, if_false]
      generalize (s.handle e).send = message at hsends ⊢
      cases hsends with
      | nothing hreq => simp [hreq]
      | remarks c hreq => simp [hreq, isAnswer_publish]
      | result id j hreq _ hid hgood =>
        rw [Option.toList_some, Option.toList_some, List.filter_cons_of_pos hreq,
          List.filter_cons_of_pos (isAnswer_response id j)]
        exact .cons (answers_response hid hgood j) .nil
      | refusal id what hreq _ hid hbad =>
        rw [Option.toList_some, Option.toList_some, List.filter_cons_of_pos hreq,
          List.filter_cons_of_pos (isAnswer_invalidParams id what)]
        exact .cons (answers_invalidParams hid hbad what) .nil

theorem sent_answers (s : Server) (bodies : List Text) :
    List.Forall₂ Answers (requestsOf bodies) ((s.sent bodies).filter Json.isAnswer) := by
  induction bodies generalizing s with
  | nil => exact .nil
  | cons b bs ih =>
    rw [requestsOf_cons, sent, List.filter_append]
    exact List.rel_append (s.react_answers b) (ih _)

end Server

/-- **Exactly one answer per request, none per notification.** In a run without write failures
the answers that were sent after each message match the requests handled up to then one by one and
in order. Each carries the id of its request, and an error in place of a result exactly if the
parameters do not decode, which five methods ask for. A message without an id, or of a method of
notifications, is not answered. -/
theorem Session.requests_answered_in_order (catalog : Catalog) (version : Text) (style : Style)
    (cacheSize : Int) (input : Text) :
    let start := Server.start catalog version style cacheSize
    let messages := untilExit (Frame.split input).1
    (run { server := start } input).2 = (deliverEach start {} messages).2.2 ∧
    (∀ k : Nat,
      let done := messages.take k
      let sent := start.sent done
      (deliverEach start {} done).2.2.out = Frame.stream (sent.map Json.toText) ∧
      List.Forall₂ Answers (requestsOf done) (sent.filter Json.isAnswer)) ∧
    (∀ e : Envelope, e.isRequest = true → (e.badParams = true ↔
      (e.method = txt "initialize" ∧ ∃ p, e.params = some p ∧ Params.setup? p = none) ∨
      (e.method = txt "textDocument/completion" ∧ e.params.bind Params.place? = none) ∨
      (e.method = txt "textDocument/hover" ∧ e.params.bind Params.place? = none) ∨
      (e.method = txt "textDocument/formatting" ∧ e.params.bind Params.formatting? = none) ∨
      (e.method = txt "textDocument/semanticTokens/full" ∧
        e.params.bind Params.document? = none))) ∧
    ∀ (s : Server) (body : Text) (e : Envelope) (j : Json), Envelope.read? body = some e →
      e.id = none ∨ e.method ∈ Method.notifications.map txt →
      (s.react body).2.send = some j → j.isAnswer = false := by
  intro start messages
  refine ⟨congrArg (fun r => r.2.2) (run_steps start {} input), ?_, ?_, ?_⟩
  · intro k done sent
    exact ⟨deliverEach_out start done, start.sent_answers done⟩
  · intro e hreq
    exact Envelope.badParams_iff hreq
  · intro s body e j hread hquiet hsend
    have hreq : e.isRequest = false := by
      rcases hquiet with hid | hmethod
      · simp [Envelope.isRequest, hid]
      · simp only [Envelope.isRequest, hmethod, decide_true, Bool.not_true, Bool.and_false]
    have hnone := s.react_answers body
    rw [hread, hsend] at hnone
    simpa [hreq] using hnone

end RuleLang
