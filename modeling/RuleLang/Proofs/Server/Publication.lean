import RuleLang.Proofs.Server.Documents
import RuleLang.Proofs.Server.Output

/-!
# RuleLang.Proofs.Server.Publication

The remarks that a client has been sent are those on the text that the server holds.

A message makes the server publish remarks exactly if it is about a document, and then on that
document (`Server.react_published`). So the last remarks on a document that were published belong
to the last message about it, which is also the message that gave the document its text
(`Session.remarks_never_stale`).
-/

namespace RuleLang

/-- The document and the remarks in a message that publishes remarks. -/
def published? (j : Json) : Option (Text × List Json) :=
  let param (name : String) := (j.member? "params").bind (Json.member? name)
  match j.member? "method", param "uri", param "diagnostics" with
  | some (.str m), some (.str u), some (.arr ds) =>
    if m = txt "textDocument/publishDiagnostics" then some (u, ds) else none
  | _, _, _ => none

/-- The remarks on one document in a message that publishes them. -/
def publishedOn? (u : Text) (j : Json) : Option (List Json) :=
  ((published? j).filter fun p => p.1 = u).map Prod.snd

/-- The lists of remarks on one document that are published, in order. -/
def publicationsOn (u : Text) (messages : List Json) : List (List Json) :=
  messages.filterMap (publishedOn? u)

theorem publicationsOn_append (u : Text) (front back : List Json) :
    publicationsOn u (front ++ back) = publicationsOn u front ++ publicationsOn u back :=
  List.filterMap_append

theorem changesOf_append (u : Text) (front back : List Text) :
    changesOf u (front ++ back) = changesOf u front ++ changesOf u back := by
  simp [changesOf]

theorem changesOf_cons (u body : Text) (bodies : List Text) :
    changesOf u (body :: bodies) =
      ((docChange? body).filter fun c => c.uri = u).toList ++ changesOf u bodies := by
  have hone := changesOf_concat u [] body
  rw [← List.singleton_append, changesOf_append]
  exact congrArg (· ++ changesOf u bodies) hone

/-- The last message about a document, if there is one. -/
theorem exists_last_change (u : Text) (bodies : List Text) :
    changesOf u bodies = [] ∨ ∃ front body back c, bodies = front ++ body :: back ∧
      docChange? body = some c ∧ c.uri = u ∧ changesOf u back = [] := by
  induction bodies with
  | nil => exact .inl rfl
  | cons b bs ih =>
    rcases ih with hnone | ⟨front, body, back, c, rfl, hc, hu, hback⟩
    · cases hb : (docChange? b).filter fun c => c.uri = u with
      | none => exact .inl (by rw [changesOf_cons, hb, hnone]; rfl)
      | some c =>
        obtain ⟨hc, hu⟩ := Option.filter_eq_some_iff.1 hb
        exact .inr ⟨[], b, bs, c, rfl, hc, by simpa using hu, hnone⟩
    · exact .inr ⟨b :: front, body, back, c, rfl, hc, hu, hback⟩

/-- Does a message ask the server to take over the preferences of a client? -/
def asksSetup (body : Text) : Bool :=
  (Envelope.read? body).any fun e => e.method = txt "initialize"

theorem asksSetup_of_docChange {body : Text} {c : DocChange} (h : docChange? body = some c) :
    asksSetup body = false := by
  obtain ⟨e, hread, hc⟩ := Option.bind_eq_some_iff.1 h
  rw [Bool.eq_false_iff]
  intro hsetup
  have hname : e.method = txt "initialize" := by simpa [asksSetup, hread] using hsetup
  have hm := (Method.ofName_eq_iff (m := .setup) (by decide) e.method).2 hname
  simp only [Envelope.docChange?, hm] at hc
  cases hc

namespace Server

theorem published?_publish (u : Text) (ds : List Diagnostic) :
    published? (publish u ds) = some (u, ds.map Diagnostic.toJson) := by
  rfl

theorem published?_response (id : MessageId) (j : Json) : published? (response id j) = none := by
  rfl

theorem published?_invalidParams (id : MessageId) (what : String) :
    published? (invalidParams id what) = none := by
  rfl

/-- A message publishes remarks exactly if it is about a document, and then on that document. -/
theorem react_published (s : Server) (body : Text) :
    (s.react body).2.send.bind published? =
      (docChange? body).map fun c => (c.uri, (s.remarksOn c).map Diagnostic.toJson) := by
  cases hread : Envelope.read? body with
  | none => simp [react, docChange?, hread]
  | some e =>
    by_cases hempty : e.method = []
    · simp [react, docChange?, hread, hempty, Envelope.docChange?, Method.ofName_nil]
    · have hsends := s.handle_sends hempty
      simp only [react, docChange?, hread, List.isEmpty_iff, hempty, if_false, Option.bind_some]
      generalize (s.handle e).send = message at hsends ⊢
      cases hsends with
      | nothing _ hdoc => simp [hdoc]
      | remarks c _ hdoc => simp [hdoc, published?_publish]
      | result id j _ hdoc => simp [hdoc, published?_response]
      | refusal id what _ hdoc => simp [hdoc, published?_invalidParams]

theorem publicationsOn_send (s : Server) (body u : Text) :
    publicationsOn u (s.react body).2.send.toList =
      (((docChange? body).filter fun c => c.uri = u).map fun c =>
        (s.remarksOn c).map Diagnostic.toJson).toList := by
  have hpub := s.react_published body
  generalize (s.react body).2.send = message at hpub ⊢
  generalize docChange? body = change at hpub ⊢
  have hon : publicationsOn u message.toList =
      (((message.bind published?).filter fun p => p.1 = u).map Prod.snd).toList := by
    cases message with
    | none => rfl
    | some j =>
      show [j].filterMap (publishedOn? u) = (publishedOn? u j).toList
      cases h : publishedOn? u j <;> simp [h]
  rw [hon, hpub]
  cases change with
  | none => rfl
  | some c =>
    by_cases hu : c.uri = u
    · simp [Option.filter, hu]
    · simp [Option.filter, hu]

/-- Messages about other documents publish nothing on a document. -/
theorem publicationsOn_sent_of_unchanged {u : Text} {bodies : List Text}
    (h : changesOf u bodies = []) (s : Server) : publicationsOn u (s.sent bodies) = [] := by
  induction bodies generalizing s with
  | nil => rfl
  | cons b bs ih =>
    rw [changesOf_cons, List.append_eq_nil_iff, Option.toList_eq_nil_iff] at h
    rw [sent, publicationsOn_append, publicationsOn_send, h.1, ih h.2]
    rfl

theorem handle_style (s : Server) {e : Envelope} (h : Method.ofName e.method ≠ .setup) :
    (s.handle e).server.style = s.style := by
  cases hm : Method.ofName e.method <;> simp only [handle, hm] <;> repeat' split
  all_goals first | exact absurd hm h | rfl | simp only [Reaction.remarks_server]; rfl

theorem react_style (s : Server) {body : Text} (h : asksSetup body = false) :
    (s.react body).2.server.style = s.style := by
  cases hread : Envelope.read? body with
  | none => simp only [react, hread]
  | some e =>
    by_cases hempty : e.method = []
    · simp only [react, hread, hempty, List.isEmpty_nil, if_true]
    · simp only [react, hread, List.isEmpty_iff, hempty, if_false]
      apply handle_style
      rw [Ne, Method.ofName_eq_iff (n := "initialize") (by decide)]
      simpa [asksSetup, hread] using h

theorem after_style (s : Server) {bodies : List Text}
    (h : ∀ body ∈ bodies, asksSetup body = false) : (s.after bodies).style = s.style :=
  after_induction (P := fun s' => s'.style = s.style) rfl fun s' body hbody hs' =>
    (s'.react_style (h body hbody)).trans hs'

theorem after_catalog (s : Server) (bodies : List Text) :
    (s.after bodies).catalog = s.catalog :=
  after_induction (P := fun s' => s'.catalog = s.catalog) rfl fun s' body _ hs' => by
    have hstep := s'.react_step body
    generalize (s'.react body).2.server = s'' at hstep ⊢
    generalize docChange? body = change at hstep
    cases hstep with
    | keep | prefer | shutDown | lookUp => exact hs'
    | amend c =>
      obtain ⟨uri, _ | t⟩ := c
      · exact hs'
      · exact hs'

/-- The last message about a document gave it its text, and its remarks were published last. -/
theorem last_publication (s : Server) (front : List Text) {u body : Text} {back : List Text}
    {c : DocChange} (hc : docChange? body = some c) (hu : c.uri = u)
    (hback : changesOf u back = []) :
    (s.after (front ++ body :: back)).text? u = c.text ∧
    (publicationsOn u (s.sent (front ++ body :: back))).getLast? =
      some (((s.after front).remarksOn c).map Diagnostic.toJson) := by
  have hlast : (docChange? body).filter (fun c => c.uri = u) = some c := by
    simp [hc, Option.filter, hu]
  constructor
  · rw [text?_after, changesOf_append, changesOf_cons, hlast, hback]
    simp
  · rw [sent_append, publicationsOn_append, sent, publicationsOn_append, publicationsOn_send, hlast,
      publicationsOn_sent_of_unchanged hback]
    simp

end Server

/-- **The client's view never goes stale.** After each message of a run without write failures,
the remarks last published on an open document were sent while handling the message that gave the
document its text, and are the remarks on that text in the style of that moment. On a document that
is not open nothing was published, or last the empty list. So if no `initialize` comes after the
first message that sets a document, the remarks last published on an open document are those on its
text in the current style. -/
theorem Session.remarks_never_stale (catalog : Catalog) (version : Text) (style : Style)
    (cacheSize : Int) (input : Text) :
    let start := Server.start catalog version style cacheSize
    let messages := untilExit (Frame.split input).1
    (run { server := start } input).2 = (deliverEach start {} messages).2.2 ∧
    ∀ (k : Nat) (u : Text),
      let done := messages.take k
      let s := (deliverEach start {} done).1
      let sent := start.sent done
      let remarks := fun t style => (Diagnostic.collect catalog t style).map Diagnostic.toJson
      (deliverEach start {} done).2.2.out = Frame.stream (sent.map Json.toText) ∧
      (∀ t, s.text? u = some t → ∃ front body back, done = front ++ body :: back ∧
        docChange? body = some ⟨u, some t⟩ ∧ changesOf u back = [] ∧
        ((start.after front).react body).2.send.bind published? =
          some (u, remarks t (start.after front).style) ∧
        publicationsOn u ((start.after (front ++ [body])).sent back) = [] ∧
        (publicationsOn u sent).getLast? = some (remarks t (start.after front).style)) ∧
      (s.text? u = none →
        publicationsOn u sent = [] ∨ (publicationsOn u sent).getLast? = some []) ∧
      ((done.Pairwise fun a b =>
          (∃ c, docChange? a = some c ∧ c.text ≠ none) → asksSetup b = false) →
        ∀ t, s.text? u = some t →
          (publicationsOn u sent).getLast? = some (remarks t s.style)) := by
  intro start messages
  refine ⟨congrArg (fun r => r.2.2) (run_steps start {} input), ?_⟩
  intro k u done s sent remarks
  have hs : s = start.after done := deliverEach_server start {} done
  have hcatalog : ∀ bodies, (start.after bodies).catalog = catalog := start.after_catalog
  have hopen : ∀ t, s.text? u = some t → ∃ front body back, done = front ++ body :: back ∧
      docChange? body = some ⟨u, some t⟩ ∧ changesOf u back = [] ∧
      (publicationsOn u sent).getLast? = some (remarks t (start.after front).style) := by
    intro t ht
    rw [hs] at ht
    rcases exists_last_change u done with hnone | ⟨front, body, back, c, hdone, hc, hu, hback⟩
    · rw [Server.text?_after, hnone] at ht
      cases ht
    · obtain ⟨htext, hpub⟩ := start.last_publication front hc hu hback
      rw [← hdone] at htext hpub
      obtain ⟨uri, text⟩ := c
      obtain rfl : uri = u := hu
      obtain rfl : text = some t := htext.symm.trans ht
      refine ⟨front, body, back, hdone, hc, hback, hpub.trans ?_⟩
      simp only [Server.remarksOn, hcatalog, Option.elim_some, remarks]
  refine ⟨deliverEach_out start done, ?_, ?_, ?_⟩
  · intro t ht
    obtain ⟨front, body, back, hdone, hc, hback, hlast⟩ := hopen t ht
    refine ⟨front, body, back, hdone, hc, hback, ?_, ?_, hlast⟩
    · rw [Server.react_published, hc]
      simp only [Server.remarksOn, hcatalog, Option.map_some, Option.elim_some, remarks]
    · exact Server.publicationsOn_sent_of_unchanged hback _
  · intro hnone
    rw [hs] at hnone
    rcases exists_last_change u done with hfree | ⟨front, body, back, c, hdone, hc, hu, hback⟩
    · exact .inl (Server.publicationsOn_sent_of_unchanged hfree start)
    · obtain ⟨htext, hpub⟩ := start.last_publication front hc hu hback
      rw [← hdone] at htext hpub
      rw [hnone] at htext
      right
      rw [hpub, Server.remarksOn, ← htext]
      rfl
  · intro hsetup t ht
    obtain ⟨front, body, back, hdone, hc, hback, hlast⟩ := hopen t ht
    -- nothing changed the style after the message that set the document
    have hquiet : ∀ b ∈ body :: back, asksSetup b = false := by
      rw [hdone] at hsetup
      have hrest := List.pairwise_cons.1 (List.pairwise_append.1 hsetup).2.1
      intro b hb
      rcases List.mem_cons.1 hb with rfl | hb
      · exact asksSetup_of_docChange hc
      · exact hrest.1 b hb ⟨_, hc, by simp⟩
    rw [hlast, hs, hdone, Server.after_append, Server.after_style _ hquiet]

/-- A message that opens a document. -/
def opening : Json :=
  .record [("method", .lit "textDocument/didOpen"),
    ("params", .record [("textDocument", .record [("uri", .lit "a"), ("text", .lit "x")])])]

theorem Session.remarks_never_stale_opened :
    docChange? opening.toText = some ⟨txt "a", some (txt "x")⟩ ∧
    ∀ (catalog : Catalog) (style : Style),
      let s := Server.start catalog [] style 1
      (s.after [opening.toText]).text? (txt "a") = some (txt "x") ∧
      (publicationsOn (txt "a") (s.sent [opening.toText])).getLast? =
        some ((Diagnostic.collect catalog (txt "x") s.style).map Diagnostic.toJson) := by
  have hchange : docChange? opening.toText = some ⟨txt "a", some (txt "x")⟩ := by decide +kernel
  have hmessages : untilExit (Frame.split (Frame.stream [opening.toText] ++ [])).1 =
      [opening.toText] := by
    have hreads : Frame.Reads _ [opening.toText] [] :=
      Frame.reads_stream_append (by decide +kernel) []
    rw [Frame.split_of_reads hreads]
    decide +kernel
  refine ⟨hchange, ?_⟩
  intro catalog style s
  have hserver : (deliverEach s {} [opening.toText]).1 = s.after [opening.toText] :=
    deliverEach_server s {} _
  have htext : (s.after [opening.toText]).text? (txt "a") = some (txt "x") := by
    rw [Server.text?_after, changesOf_cons, hchange]
    rfl
  have hstyle : (s.after [opening.toText]).style = s.style :=
    s.react_style (asksSetup_of_docChange hchange)
  have hrun := (remarks_never_stale catalog [] style 1
    (Frame.stream [opening.toText] ++ [])).2 1 (txt "a")
  rw [hmessages] at hrun
  obtain ⟨-, -, -, hcurrent⟩ := hrun
  have hlast := hcurrent (List.pairwise_singleton _ _) (txt "x")
    ((congrArg (Server.text? · (txt "a")) hserver).trans htext)
  refine ⟨htext, hlast.trans ?_⟩
  show some ((Diagnostic.collect catalog (txt "x") (deliverEach s {} [opening.toText]).1.style).map
    Diagnostic.toJson) = _
  rw [hserver, hstyle]

end RuleLang
