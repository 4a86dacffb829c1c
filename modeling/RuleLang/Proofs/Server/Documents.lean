import Mathlib.Data.List.Induction
import RuleLang.Proofs.Server.Run

/-!
# RuleLang.Proofs.Server.Documents

The document store of a server as a function of the messages it has handled: a URI has the text
that the last message about it gave it (`Server.text?_after`). A step either is about the URI or
leaves its text alone (`Server.text?_react`), whatever becomes of the answer.
-/

namespace RuleLang

/-- The changes of one document among messages, in order. -/
def changesOf (u : Text) (bodies : List Text) : List DocChange :=
  (bodies.filterMap docChange?).filter fun c => c.uri = u

theorem changesOf_concat (u : Text) (bodies : List Text) (body : Text) :
    changesOf u (bodies ++ [body]) =
      changesOf u bodies ++ ((docChange? body).filter fun c => c.uri = u).toList := by
  cases h : docChange? body with
  | none => simp [changesOf, h]
  | some c =>
    by_cases hu : c.uri = u
    · simp [changesOf, h, hu, Option.filter]
    · simp [changesOf, h, hu, Option.filter]

namespace Server

theorem text?_close (s : Server) (uri u : Text) :
    (s.close uri).text? u = if uri = u then none else s.text? u := by
  unfold close text?
  dsimp only
  induction s.docs with
  | nil => simp
  | cons d ds ih =>
    by_cases hd : d.1 = uri
    · rw [List.filter_cons_of_neg (by simpa using hd), ih, List.lookup_cons]
      by_cases hu : uri = u
      · simp [hu]
      · have hne : (u == d.1) = false := by simpa [hd] using Ne.symm hu
        simp [hu, hne]
    · rw [List.filter_cons_of_pos (by simpa using hd), List.lookup_cons, List.lookup_cons, ih]
      by_cases hu : uri = u
      · have hne : (u == d.1) = false := by simpa [← hu] using Ne.symm hd
        simp [hu, hne]
      · simp [hu]

theorem text?_setText (s : Server) (uri text u : Text) :
    (s.setText uri text).text? u = if uri = u then some text else s.text? u := by
  by_cases hu : uri = u
  · simp [setText, text?, hu]
  · have hne : (u == uri) = false := by simpa using Ne.symm hu
    have hclose := s.text?_close uri u
    rw [if_neg hu] at hclose ⊢
    rw [← hclose]
    simp only [setText, text?, List.lookup_cons, hne]

theorem text?_amend (s : Server) (c : DocChange) (u : Text) :
    (s.amend c).text? u = if c.uri = u then c.text else s.text? u := by
  obtain ⟨uri, text⟩ := c
  cases text with
  | none => exact s.text?_close uri u
  | some t => exact s.text?_setText uri t u

/-- A message sets the text of the document it is about, and of no other. -/
theorem text?_react (s : Server) (body u : Text) :
    (s.react body).2.server.text? u =
      match (docChange? body).filter fun c => c.uri = u with
      | some c => c.text
      | none => s.text? u := by
  have hstep := s.react_step body
  generalize (s.react body).2.server = s' at hstep ⊢
  generalize docChange? body = change at hstep ⊢
  cases hstep with
  | keep | prefer | shutDown | lookUp => rfl
  | amend c =>
    rw [text?_amend]
    by_cases hu : c.uri = u
    · simp [Option.filter, hu]
    · simp [Option.filter, hu]

theorem text?_after (s : Server) (bodies : List Text) (u : Text) :
    (s.after bodies).text? u =
      match (changesOf u bodies).getLast? with
      | some c => c.text
      | none => s.text? u := by
  induction bodies using List.reverseRecOn with
  | nil => rfl
  | append_singleton bodies body ih =>
    rw [after_concat, text?_react, changesOf_concat]
    cases (docChange? body).filter fun c => c.uri = u with
    | none => simp [ih]
    | some c => simp

theorem text?_start (c : Catalog) (version : Text) (style : Style) (size : Int) (u : Text) :
    (start c version style size).text? u = none := rfl

end Server

/-- **The store is what the last message about a document made it.** After each message of a run,
a document is open if and only if some message opened, changed or closed it and the last of them
did not close it; its text is then the one in that message. Handling a message that is not about a
document, or is about another one, leaves its text alone, even if the answer cannot be written. -/
theorem Session.text?_eq_last_change (catalog : Catalog) (version : Text) (style : Style)
    (cacheSize : Int) (sink : Sink) (input : Text) :
    let start := Server.start catalog version style cacheSize
    let messages := untilExit (Frame.split input).1
    (run { server := start, sink := sink } input).1.server =
      (deliverEach start sink messages).1 ∧
    (∀ (k : Nat) (u : Text),
      let s := (deliverEach start sink (messages.take k)).1
      let changes := changesOf u (messages.take k)
      ((s.text? u).isSome = true ↔ ∃ c, changes.getLast? = some c ∧ c.text ≠ none) ∧
      ∀ t, s.text? u = some t ↔ ∃ c, changes.getLast? = some c ∧ c.text = some t) ∧
    ∀ (s : Server) (sink : Sink) (body u : Text),
      (∀ c, docChange? body = some c → c.uri ≠ u) →
      (deliver s sink body).1.text? u = s.text? u := by
  intro start messages
  refine ⟨?_, ?_, ?_⟩
  · exact congrArg Prod.fst (run_steps start sink input)
  · intro k u s changes
    have htext : s.text? u = changes.getLast?.bind DocChange.text := by
      have hafter := start.text?_after (messages.take k) u
      rw [← deliverEach_server start sink] at hafter
      refine hafter.trans ?_
      cases changes.getLast? with
      | none => rfl
      | some c => rfl
    constructor
    · rw [htext]
      cases changes.getLast? with
      | none => simp
      | some c => simp [Option.isSome_iff_ne_none]
    · intro t
      rw [htext, Option.bind_eq_some_iff]
  · intro s sink body u hother
    have hnone : ((docChange? body).filter fun c => c.uri = u) = none := by
      rw [Option.filter_eq_none_iff]
      intro c hc
      simpa using hother c hc
    rw [deliver_server, Server.text?_react, hnone]

end RuleLang
