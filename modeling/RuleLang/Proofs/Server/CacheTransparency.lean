import Mathlib.Data.Set.Function
import RuleLang.Catalog.Builtin
import RuleLang.Proofs.Server.Documents

/-!
# RuleLang.Proofs.Server.CacheTransparency

The edit cache of a server cannot be seen from outside, as long as no two document texts of a run
have one digest.

* `EditCache.Sound`: every entry holds the edits of every text of the run that has its digest.
  Looking up a text of the run keeps this and gives its edits (`EditCache.Sound.get`).
* `Server.Coherent`: the cache is sound, and the open documents have texts of the run. Every
  message of the run keeps it (`Server.Coherent.react`).
* `Server.Coherent.deliverEach_withCache`: of two coherent servers that differ in the cache only,
  one does what the other does, up to the cache it ends with.
-/

namespace RuleLang

/-- The texts that messages give to documents. -/
def documentTexts (bodies : List Text) : List Text :=
  (bodies.filterMap docChange?).filterMap DocChange.text

theorem mem_documentTexts {bodies : List Text} {body t : Text} {c : DocChange}
    (hbody : body ∈ bodies) (hc : docChange? body = some c) (ht : c.text = some t) :
    t ∈ documentTexts bodies :=
  List.mem_filterMap.2 ⟨c, List.mem_filterMap.2 ⟨body, hbody, hc⟩, ht⟩

theorem documentTexts_subset {bodies bodies' : List Text} (h : bodies ⊆ bodies') :
    documentTexts bodies ⊆ documentTexts bodies' :=
  List.filterMap_subset _ (List.filterMap_subset _ h)

/-! ## The cache -/

namespace EditCache

def Sound (k : EditCache) (c : Catalog) (texts : List Text) : Prop :=
  ∀ entry ∈ k.entries, ∀ t ∈ texts, entry.1.digest = t.sha256 →
    entry.2 = Edit.compute c t.lines entry.1.style

theorem sound_empty (size : Int) (c : Catalog) (texts : List Text) :
    (empty size).Sound c texts := by
  intro entry hentry
  simp [empty] at hentry

variable {k : EditCache} {c : Catalog} {texts : List Text} {t : Text}

/-- The cache gives back only what is stored under the key, and stores it under no other. -/
theorem get_cases (k : EditCache) (c : Catalog) (t : Text) (s : Style) :
    ((⟨⟨t.sha256, s⟩, (k.get c t s).1⟩ ∈ k.entries) ∨
      (k.get c t s).1 = Edit.compute c t.lines s) ∧
    ∀ entry ∈ (k.get c t s).2.entries,
      entry = ⟨⟨t.sha256, s⟩, (k.get c t s).1⟩ ∨ entry ∈ k.entries := by
  rcases k.found_or_added c t s with hfound | ⟨-, hcomputed, hadded⟩
  · exact ⟨.inl hfound.stored, fun entry hentry => .inr (hfound.entries entry hentry)⟩
  · exact ⟨.inr hcomputed, hadded.entries⟩

theorem Sound.get_fst (h : k.Sound c texts) (ht : t ∈ texts) (s : Style) :
    (k.get c t s).1 = Edit.compute c t.lines s := by
  rcases (k.get_cases c t s).1 with hmem | heq
  · exact h _ hmem t ht rfl
  · exact heq

theorem Sound.get (h : k.Sound c texts) (hdigest : Set.InjOn Text.sha256 {t | t ∈ texts})
    (ht : t ∈ texts) (s : Style) : (k.get c t s).2.Sound c texts := by
  intro entry hentry t' ht' hd
  rcases (k.get_cases c t s).2 entry hentry with rfl | hold
  · -- one digest, so one text
    obtain rfl : t = t' := hdigest ht ht' hd
    exact h.get_fst ht s
  · exact h entry hold t' ht' hd

end EditCache

/-! ## The server -/

namespace Server

structure Coherent (c : Catalog) (texts : List Text) (s : Server) : Prop where
  catalog : s.catalog = c
  docs : ∀ u t, s.text? u = some t → t ∈ texts
  cache : s.cache.Sound c texts

theorem coherent_start (c : Catalog) (version : Text) (style : Style) (size : Int)
    (texts : List Text) : (start c version style size).Coherent c texts where
  catalog := rfl
  docs := by simp [text?_start]
  cache := EditCache.sound_empty size c texts

@[simp] theorem amend_catalog (s : Server) (c : DocChange) : (s.amend c).catalog = s.catalog := by
  obtain ⟨uri, _ | t⟩ := c <;> rfl

@[simp] theorem amend_cache (s : Server) (c : DocChange) : (s.amend c).cache = s.cache := by
  obtain ⟨uri, _ | t⟩ := c <;> rfl

variable {c : Catalog} {texts : List Text} {s s' : Server}

theorem Coherent.react (h : s.Coherent c texts)
    (hdigest : Set.InjOn Text.sha256 {t | t ∈ texts}) {body : Text}
    (hbody : ∀ d t, docChange? body = some d → d.text = some t → t ∈ texts) :
    (s.react body).2.server.Coherent c texts := by
  have hstep := s.react_step body
  generalize (s.react body).2.server = s' at hstep ⊢
  generalize docChange? body = change at hstep hbody
  cases hstep with
  | keep => exact h
  | prefer p => exact ⟨h.catalog, h.docs, h.cache⟩
  | shutDown => exact ⟨h.catalog, h.docs, h.cache⟩
  | amend d =>
    refine ⟨by rw [amend_catalog, h.catalog], ?_, by rw [amend_cache]; exact h.cache⟩
    intro u t ht
    rw [text?_amend] at ht
    split at ht
    · exact hbody d t rfl ht
    · exact h.docs u t ht
  | lookUp uri t style ht =>
    refine ⟨h.catalog, h.docs, ?_⟩
    rw [h.catalog]
    exact h.cache.get hdigest (h.docs uri t ht) style

theorem Coherent.after (h : s.Coherent c texts)
    (hdigest : Set.InjOn Text.sha256 {t | t ∈ texts}) {bodies : List Text}
    (hbodies : documentTexts bodies ⊆ texts) : (s.after bodies).Coherent c texts :=
  after_induction h fun _ _ hbody hs =>
    hs.react hdigest fun _ _ hd ht => hbodies (mem_documentTexts hbody hd ht)

/-- What a formatting request for an open document gets. -/
theorem Coherent.handle_formatting (h : s.Coherent c texts) {e : Envelope}
    {p : Params.Formatting} {t : Text} (hm : Method.ofName e.method = .formatting)
    (hp : e.params.bind Params.formatting? = some p) (ht : s.text? p.uri = some t) :
    s.handle e = .answer { s with cache := (s.cache.get s.catalog t p.options.bounded).2 } e.id
      (.arr ((Edit.compute c t.lines p.options.bounded).map fun e =>
        (TextEdit.ofEdit e).toJson)) := by
  have hedits := h.cache.get_fst (h.docs _ t ht) p.options.bounded
  simp only [handle, hm, hp, ht, h.catalog, hedits]

/-! ## Two servers -/

def withCache (s : Server) (k : EditCache) : Server := { s with cache := k }

def Reaction.withCache (r : Reaction) (k : EditCache) : Reaction :=
  { r with server := r.server.withCache k }

theorem remarks_withCache (s : Server) (k : EditCache) (uri : Text) :
    Reaction.remarks (s.withCache k) uri = (Reaction.remarks s uri).withCache k := by
  have htext : (s.withCache k).text? uri = s.text? uri := rfl
  simp only [Reaction.remarks, htext]
  cases s.text? uri <;> rfl

/-- Only a formatting request looks at the cache. -/
theorem handle_withCache (s : Server) (k : EditCache) {e : Envelope}
    (hne : Method.ofName e.method ≠ .formatting) :
    (s.withCache k).handle e = (s.handle e).withCache k := by
  cases hm : Method.ofName e.method with
  | formatting => exact absurd hm hne
  | setup =>
    simp only [handle, hm]
    cases e.params with
    | none => rfl
    | some p =>
      dsimp only
      cases Params.setup? p with
      | none => rfl
      | some prefs => cases prefs <;> rfl
  | didOpen =>
    simp only [handle, hm]
    cases e.params.bind Params.didOpen? with
    | none => rfl
    | some d => exact remarks_withCache (s.setText d.uri d.text) k d.uri
  | didChange =>
    simp only [handle, hm]
    cases e.params.bind Params.didChange? with
    | none => rfl
    | some p =>
      dsimp only
      cases p.changes.toList.getLast? with
      | none => rfl
      | some t => exact remarks_withCache (s.setText p.uri t) k p.uri
  | didClose =>
    simp only [handle, hm]
    cases e.params.bind Params.document? <;> rfl
  | completion | hover =>
    simp only [handle, hm]
    cases e.params.bind Params.place? <;> rfl
  | semanticTokens =>
    simp only [handle, hm]
    cases e.params.bind Params.document? <;> rfl
  | ready | shutdown | exit | other =>
    simp only [handle, hm]
    rfl

section OtherCache

variable {k : EditCache} (h : s.Coherent c texts) (h' : (s.withCache k).Coherent c texts)

include h h'

/-- A server with another cache does the same, up to the cache it ends with. -/
theorem Coherent.handle_withCache (e : Envelope) :
    ∃ k', (s.withCache k).handle e = (s.handle e).withCache k' := by
  by_cases hm : Method.ofName e.method = .formatting
  · cases hp : e.params.bind Params.formatting? with
    | none => exact ⟨k, by simp only [handle, hm, hp]; rfl⟩
    | some p =>
      cases ht : s.text? p.uri with
      | none =>
        have ht' : (s.withCache k).text? p.uri = none := ht
        exact ⟨k, by simp only [handle, hm, hp, ht, ht']; rfl⟩
      | some t =>
        exact ⟨_, by rw [h.handle_formatting hm hp ht, h'.handle_formatting hm hp ht]; rfl⟩
  · exact ⟨k, s.handle_withCache k hm⟩

theorem Coherent.react_withCache (body : Text) :
    ∃ k', (s.withCache k).react body = ((s.react body).1, (s.react body).2.withCache k') := by
  cases hread : Envelope.read? body with
  | none => exact ⟨k, by simp only [Server.react, hread]; rfl⟩
  | some e =>
    by_cases hempty : e.method = []
    · exact ⟨k, by simp only [Server.react, hread, hempty, List.isEmpty_nil, if_true]; rfl⟩
    · obtain ⟨k', hk'⟩ := h.handle_withCache h' e
      refine ⟨k', ?_⟩
      simp only [Server.react, hread, List.isEmpty_iff, hempty, if_false, hk']

theorem Coherent.deliver_withCache (sink : Sink) (body : Text) :
    ∃ k', Session.deliver (s.withCache k) sink body =
      ((Session.deliver s sink body).1.withCache k', (Session.deliver s sink body).2) := by
  obtain ⟨k', hk'⟩ := h.react_withCache h' body
  refine ⟨k', ?_⟩
  have hsend : ((s.react body).2.withCache k').send = (s.react body).2.send := rfl
  simp only [Session.deliver, hk', hsend]
  cases (s.react body).2.send <;> rfl

theorem Coherent.deliverEach_withCache (hdigest : Set.InjOn Text.sha256 {t | t ∈ texts})
    (sink : Sink) {bodies : List Text} (hbodies : documentTexts bodies ⊆ texts) :
    ∃ k', Session.deliverEach (s.withCache k) sink bodies =
      ((Session.deliverEach s sink bodies).1.withCache k',
        (Session.deliverEach s sink bodies).2) := by
  induction bodies generalizing s k sink with
  | nil => exact ⟨k, rfl⟩
  | cons b bs ih =>
    have hfirst : ∀ d t, docChange? b = some d → d.text = some t → t ∈ texts :=
      fun d t hd ht => hbodies (mem_documentTexts List.mem_cons_self hd ht)
    have hrest : documentTexts bs ⊆ texts :=
      List.Subset.trans (documentTexts_subset (List.subset_cons_self b bs)) hbodies
    obtain ⟨k1, hk1⟩ := h.deliver_withCache h' sink b
    -- both servers are coherent after the first message, so the induction goes on from them
    have hnext : (Session.deliver s sink b).1.Coherent c texts := by
      rw [Session.deliver_server]
      exact h.react hdigest hfirst
    have hnext' : ((Session.deliver s sink b).1.withCache k1).Coherent c texts := by
      have hserver : (Session.deliver (s.withCache k) sink b).1 =
          (Session.deliver s sink b).1.withCache k1 := congrArg Prod.fst hk1
      rw [← hserver, Session.deliver_server]
      exact h'.react hdigest hfirst
    obtain ⟨k2, hk2⟩ := ih hnext hnext' (Session.deliver s sink b).2.1 hrest
    exact ⟨k2, by simp only [Session.deliverEach, hk1, hk2]⟩

end OtherCache

end Server

/-- **The edit cache is invisible.** If no two document texts of a run have one digest, every
formatting request for an open document is answered by the edits of its current text, whatever
messages came before. So two servers that differ only in the size of their cache put out the same
bytes and log lines, and after each message have the same documents, style and shutdown flag. -/
theorem Session.cache_invisible (catalog : Catalog) (version : Text) (style : Style) (sink : Sink)
    (input : Text)
    (hdigest : Set.InjOn Text.sha256 {t | t ∈ documentTexts (untilExit (Frame.split input).1)}) :
    let start := Server.start catalog version style
    let messages := untilExit (Frame.split input).1
    (∀ (size : Int) (k : Nat) (body : Text) (e : Envelope) (id : MessageId)
        (p : Params.Formatting) (t : Text),
      let s := ((start size).after (messages.take k))
      messages[k]? = some body → Envelope.read? body = some e →
      Method.ofName e.method = .formatting → e.id = some id →
      e.params.bind Params.formatting? = some p → s.text? p.uri = some t →
      (s.react body).2.send = some (Server.response id
        (.arr ((Edit.compute catalog t.lines p.options.bounded).map fun e =>
          (TextEdit.ofEdit e).toJson)))) ∧
    ∀ size size' : Int,
      (run { server := start size, sink := sink } input).2 =
        (run { server := start size', sink := sink } input).2 ∧
      ∀ k : Nat,
        let s := (start size).after (messages.take k)
        let s' := (start size').after (messages.take k)
        s.docs = s'.docs ∧ s.style = s'.style ∧ s.shuttingDown = s'.shuttingDown := by
  intro start messages
  have hstart : ∀ size, (start size).Coherent catalog (documentTexts messages) :=
    fun size => Server.coherent_start catalog version style size _
  have htake : ∀ k, documentTexts (messages.take k) ⊆ documentTexts messages :=
    fun k => documentTexts_subset (List.take_subset k messages)
  refine ⟨?_, ?_⟩
  · intro size k body e id p t s _ hread hm hid hp ht
    have hs : s.Coherent catalog (documentTexts messages) :=
      (hstart size).after hdigest (htake k)
    have hmethod : ¬ e.method = [] := by
      intro hempty
      rw [hempty, Method.ofName_nil] at hm
      cases hm
    simp only [Server.react, hread, List.isEmpty_iff, hmethod, if_false,
      hs.handle_formatting hm hp ht, hid]
    rfl
  · intro size size'
    have hother : start size' = (start size).withCache (.empty size') := rfl
    have hstart' := hstart size'
    rw [hother] at hstart'
    constructor
    · obtain ⟨k', hk'⟩ := (hstart size).deliverEach_withCache hstart' hdigest sink
        (List.Subset.refl (documentTexts messages))
      have hout : (deliverEach (start size') sink messages).2 =
          (deliverEach (start size) sink messages).2 := by rw [hother, hk']
      have hrun : ∀ size, (run { server := start size, sink := sink } input).2 =
          (deliverEach (start size) sink messages).2.2 :=
        fun size => congrArg (fun r => r.2.2) (run_steps (start size) sink input)
      rw [hrun, hrun, hout]
    · intro k s s'
      obtain ⟨k', hk'⟩ := (hstart size).deliverEach_withCache hstart' hdigest sink (htake k)
      have hserver := congrArg Prod.fst hk'
      rw [deliverEach_server, deliverEach_server, ← hother] at hserver
      have hs' : s' = s.withCache k' := hserver
      rw [hs']
      exact ⟨rfl, rfl, rfl⟩

/-- A client that opens two documents and has them formatted in turn. -/
def twoDocuments : List Json :=
  let opening (uri text : String) := Json.record [
    ("method", .lit "textDocument/didOpen"),
    ("params", .record [("textDocument", .record [("uri", .lit uri), ("text", .lit text)])])]
  let formatting (id : Int) (uri : String) := Json.record [
    ("id", .int id), ("method", .lit "textDocument/formatting"),
    ("params", .record [("textDocument", .record [("uri", .lit uri)])])]
  [opening "a" "rules:\n- id: x", opening "b" "  rules:",
    formatting 1 "a", formatting 2 "b", formatting 3 "a"]

/-- A cache for one text forgets the first document before it is formatted again. -/
theorem Session.cache_invisible_two_documents :
    let input := (twoDocuments.flatMap chunksOf).flatten
    let start := Server.start Catalog.builtin [] {}
    documentTexts (untilExit (Frame.split input).1) = [txt "rules:\n- id: x", txt "  rules:"] ∧
      (txt "rules:\n- id: x").sha256 ≠ (txt "  rules:").sha256 ∧
      (run { server := start 1 } input).2 = (run { server := start 128 } input).2 := by
  intro input start
  have htexts : documentTexts (untilExit (Frame.split input).1) =
      [txt "rules:\n- id: x", txt "  rules:"] := by decide +kernel
  have hdigest : (txt "rules:\n- id: x").sha256 ≠ (txt "  rules:").sha256 := by decide +kernel
  refine ⟨htexts, hdigest, ((cache_invisible Catalog.builtin [] {} {} input ?_).2 1 128).1⟩
  rw [htexts]
  simp [Set.InjOn, hdigest, hdigest.symm]

end RuleLang
