import RuleLang.Catalog.Builtin
import RuleLang.Proofs.Json.Source
import RuleLang.Proofs.Numeral.ExactDouble
import RuleLang.Proofs.Server.Answers

/-!
# RuleLang.Proofs.Server.EchoedIds

Answers are matched to requests by id. An id is an integer or a string, and has JSON texts that it
can be written as (`RequestId.WrittenAs`), which no other id has (`RequestId.WrittenAs.unique`).

On its way into an answer an id is read, brought to normal form and written. A string comes through
whatever its escapes are, and an integer if a double holds it and all integers below it
(`RequestId.IsExact`): it is sent back as it was written (`MessageId.echo_of_int`). So the answer
carries the id of the request, and different ids stay different (`Server.answered_with_id`).
Larger integers may be rounded into each other (`Server.answered_rounded_id`).
-/

namespace RuleLang

inductive RequestId where
  | int (n : Int)
  | str (cs : List Char)
deriving Repr, DecidableEq

namespace RequestId

/-- The JSON texts of an id: digits without needless zeros, perhaps after a minus sign, or a string
literal. -/
inductive WrittenAs : RequestId → Text → Prop where
  | nonneg (n : Nat) : WrittenAs (.int n) (Text.ofNat n)
  | neg (n : Nat) : WrittenAs (.int (-n)) (45 :: Text.ofNat n)
  | str {body : Text} {cs : List Char} : Json.StringLiteral body cs →
      WrittenAs (.str cs) (34 :: (body ++ [34]))

/-- Integers within the precision of doubles, and all strings. -/
def IsExact : RequestId → Prop
  | .int n => n.natAbs ≤ 2 ^ 53
  | .str _ => True

instance (x : RequestId) : Decidable x.IsExact :=
  match x with
  | .int n => inferInstanceAs (Decidable (n.natAbs ≤ 2 ^ 53))
  | .str _ => inferInstanceAs (Decidable True)

theorem WrittenAs.unique {x y : RequestId} {t : Text} (hx : x.WrittenAs t) (hy : y.WrittenAs t) :
    x = y := by
  generalize ht : t = u at hy
  cases hx with
  | nonneg n =>
    cases hy with
    | nonneg m => rw [Text.ofNat_inj ht]
    | neg m => exact absurd ht (Text.ofNat_ne_cons (by decide))
    | str _ => exact absurd ht (Text.ofNat_ne_cons (by decide))
  | neg n =>
    cases hy with
    | nonneg m => exact absurd ht.symm (Text.ofNat_ne_cons (by decide))
    | neg m => rw [Text.ofNat_inj (List.cons.inj ht).2]
    | str _ => exact absurd (List.cons.inj ht).1 (by decide)
  | str hbody =>
    cases hy with
    | nonneg m => exact absurd ht.symm (Text.ofNat_ne_cons (by decide))
    | neg m => exact absurd (List.cons.inj ht).1 (by decide)
    | str hbody' =>
      have hsame := List.append_cancel_right (List.cons.inj ht).2
      rw [hbody.unique (hsame ▸ hbody')]

end RequestId

/-! ## The way of an id into an answer -/

namespace MessageId

variable {id : MessageId}

/-- An integer that is exact is sent back as it was written. -/
theorem echo_of_int {n : Int} (hread : id.value.ReadFrom id.source)
    (h : RequestId.WrittenAs (.int n) id.source) (hexact : n.natAbs ≤ 2 ^ 53) :
    id.echo = .num id.source := by
  obtain ⟨value, source⟩ := id
  dsimp only at hread h
  cases h with
  | nonneg n =>
    have hvalue : value = .num (Text.ofNat n) := by
      cases hn : Text.ofNat n with
      | nil => exact absurd hn (Text.ofNat_ne_nil n)
      | cons b t =>
        rw [hn] at hread
        exact Json.eq_num_of_readFrom (.inr (Text.isDigit_of_mem_ofNat (n := n) (by simp [hn])))
          hread
    have hwritten := Double.toText_ofDecimal? (n := n) (by simpa using hexact) false
    obtain ⟨d, hd, htext⟩ := Option.map_eq_some_iff.1 hwritten
    simp [echo, hvalue, Json.normal?, Decimal.ofLiteral_ofNat, hd, htext]
  | neg n =>
    have hvalue : value = .num (45 :: Text.ofNat n) :=
      Json.eq_num_of_readFrom (.inl rfl) hread
    have hwritten := Double.toText_ofDecimal? (n := n) (by simpa using hexact) true
    have hminus : txt "-" = [45] := by decide
    obtain ⟨d, hd, htext⟩ := Option.map_eq_some_iff.1 hwritten
    simp [echo, hvalue, Json.normal?, Decimal.ofLiteral_neg_ofNat, hd, htext, hminus]

theorem echo_of_str {cs : List Char} (hread : id.value.ReadFrom id.source)
    (h : RequestId.WrittenAs (.str cs) id.source) :
    id.echo = .str (cs.flatMap String.utf8EncodeChar) := by
  obtain ⟨value, source⟩ := id
  dsimp only at hread h
  cases h with
  | str hbody =>
    rw [Json.eq_str_of_readFrom hbody hread]
    rfl

theorem writtenAs_echo {x : RequestId} (hread : id.value.ReadFrom id.source)
    (h : x.WrittenAs id.source) (hexact : x.IsExact) : x.WrittenAs id.echo.toText := by
  cases x with
  | int n =>
    rw [echo_of_int hread h hexact]
    exact h
  | str cs =>
    obtain ⟨body, hquoted, hbody⟩ := Json.exists_literal_of_quoted cs
    rw [echo_of_str hread h]
    have htext : (Json.str (cs.flatMap String.utf8EncodeChar)).toText = 34 :: (body ++ [34]) :=
      hquoted
    rw [htext]
    exact .str hbody

end MessageId

/-! ## Answers -/

/-- An answer from its beginning to its id. -/
def answerStart : Text := txt "\x7b\"jsonrpc\":\"2.0\",\"id\":"

theorem toText_answer (v r : Json) (name : String) :
    ∃ more, (Json.record [("jsonrpc", .lit "2.0"), ("id", v), (name, r)]).toText =
      answerStart ++ (v.toText ++ 44 :: more) := by
  have hstart : answerStart = txt "\x7b" ++ Json.quoted true (txt "jsonrpc") ++ txt ":" ++
      Json.quoted true (txt "2.0") ++ txt "," ++ Json.quoted true (txt "id") ++ txt ":" := by
    decide +kernel
  have hcomma : txt "," = [44] := by decide
  refine ⟨Json.quoted true (txt name) ++ txt ":" ++ r.toText ++ txt "\x7d", ?_⟩
  rw [hstart]
  simp [Json.toText, Json.record, Json.compact, Json.compactMembers, Json.lit, hcomma]

namespace Server

/-- A server answers the message in `body`, which has an id, with `j`. -/
structure Answered (s : Server) (body : Text) (id : MessageId) (j : Json) : Prop where
  hasId : ∃ e, Envelope.read? body = some e ∧ e.id = some id
  sends : (s.react body).2.send = some j
  isAnswer : j.isAnswer = true

variable {s : Server} {body : Text} {id : MessageId} {j : Json}

theorem Answered.eq_record (h : s.Answered body id j) :
    ∃ name r, j = .record [("jsonrpc", .lit "2.0"), ("id", id.echo), (name, r)] ∧
      j.member? "id" = some id.echo := by
  obtain ⟨e, hread, hid⟩ := h.hasId
  have hsend := h.sends
  by_cases hempty : e.method = []
  · simp [react, hread, hempty] at hsend
  · have hsends := s.handle_sends hempty
    simp only [react, hread, List.isEmpty_iff, hempty, if_false] at hsend
    rw [hsend] at hsends
    cases hsends with
    | remarks c => cases h.isAnswer
    | result id' r _ _ hid' =>
      rw [hid'] at hid
      cases hid
      exact ⟨"result", r, rfl, rfl⟩
    | refusal id' what _ _ hid' =>
      rw [hid'] at hid
      cases hid
      exact ⟨"error", _, rfl, rfl⟩

theorem Answered.readFrom (h : s.Answered body id j) : id.value.ReadFrom id.source := by
  obtain ⟨e, hread, hid⟩ := h.hasId
  exact Envelope.source_of_read? hread hid

/-- The id of an answer is that of the request, for strings and for integers up to `2 ^ 53`.
Answers to requests with different such ids have ids that are different as well: nothing is
written as both. -/
theorem answered_with_id {x : RequestId} (h : s.Answered body id j) (hx : x.WrittenAs id.source)
    (hexact : x.IsExact) :
    (∃ v more, j.member? "id" = some v ∧ j.toText = answerStart ++ (v.toText ++ 44 :: more) ∧
      x.WrittenAs v.toText) ∧
    ∀ {s' : Server} {body' : Text} {id' : MessageId} {j' : Json} {y : RequestId},
      s'.Answered body' id' j' → y.WrittenAs id'.source → y.IsExact → y ≠ x →
      ∀ v v', j.member? "id" = some v → j'.member? "id" = some v' →
        ∀ z : RequestId, z.WrittenAs v.toText → ¬ z.WrittenAs v'.toText := by
  have hecho := MessageId.writtenAs_echo h.readFrom hx hexact
  obtain ⟨name, r, hj, hmember⟩ := h.eq_record
  constructor
  · obtain ⟨more, htext⟩ := toText_answer id.echo r name
    exact ⟨id.echo, more, hmember, hj ▸ htext, hecho⟩
  · intro s' body' id' j' y h' hy hexact' hne v v' hv hv' z hz hz'
    have hecho' := MessageId.writtenAs_echo h'.readFrom hy hexact'
    obtain ⟨-, -, -, hmember'⟩ := h'.eq_record
    rw [hmember] at hv
    rw [hmember'] at hv'
    cases hv
    cases hv'
    exact hne (hecho'.unique hz' |>.trans (hecho.unique hz).symm)

/-- A request with the given id, of a method that is not known. -/
def plainRequest (id : Text) : Text := txt "\x7b\"id\":" ++ id ++ txt ",\"method\":\"x\"\x7d"

def plainAnswer (id : Text) : Text := answerStart ++ id ++ txt ",\"result\":null\x7d"

theorem answered_of_texts {source text : Text}
    (hid : ((Envelope.read? body).bind Envelope.id).map MessageId.source = some source)
    (hsend : ((s.react body).2.send.filter Json.isAnswer).map Json.toText = some text) :
    ∃ id j, s.Answered body id j ∧ id.source = source ∧ j.toText = text := by
  obtain ⟨id, hbind, hsource⟩ := Option.map_eq_some_iff.1 hid
  obtain ⟨j, hfilter, htext⟩ := Option.map_eq_some_iff.1 hsend
  obtain ⟨hj, hanswer⟩ := Option.filter_eq_some_iff.1 hfilter
  exact ⟨id, j, ⟨Option.bind_eq_some_iff.1 hbind, hj, hanswer⟩, hsource, htext⟩

/-- A string is sent back with other escapes than it came with, and is still told from the largest
exact integer. -/
theorem answered_with_id_escapes :
    let s := start .builtin [] {} 1
    let smile := RequestId.str ['é', '😀', '<']
    let large := RequestId.int (2 ^ 53)
    ∃ id j id' j', s.Answered (plainRequest (txt "\"\\u00e9\\ud83d\\ude00<\"")) id j ∧
      smile.WrittenAs id.source ∧ smile.IsExact ∧ j.toText = plainAnswer (txt "\"é😀\\u003c\"") ∧
      (∃ v, j.member? "id" = some v ∧ smile.WrittenAs v.toText) ∧
      s.Answered (plainRequest (txt "9007199254740992")) id' j' ∧
      large.WrittenAs id'.source ∧ large.IsExact ∧ large ≠ smile ∧
      ∀ v v', j.member? "id" = some v → j'.member? "id" = some v' →
        ∀ z : RequestId, z.WrittenAs v.toText → ¬ z.WrittenAs v'.toText := by
  intro s smile large
  have hliteral : Json.StringLiteral (txt "\\u00e9\\ud83d\\ude00<") ['é', '😀', '<'] := by
    have hhigh : Json.hex4? 100 56 51 100 = some 0xD83D := by decide
    have hlow : Json.hex4? 100 101 48 48 = some 0xDE00 := by decide
    exact .code (by decide) (.pair hhigh (by decide) (by decide) hlow (by decide) (by decide)
      (by decide) (.plain (by decide) (by decide) (by decide) .nil))
  have hsource : smile.WrittenAs (txt "\"\\u00e9\\ud83d\\ude00<\"") := .str hliteral
  have hsource' : large.WrittenAs (txt "9007199254740992") := .nonneg (2 ^ 53)
  have hexact : large.IsExact := by decide
  have hne : large ≠ smile := by decide
  obtain ⟨id, j, h, hid, htext⟩ : ∃ id j,
      s.Answered (plainRequest (txt "\"\\u00e9\\ud83d\\ude00<\"")) id j ∧
      id.source = txt "\"\\u00e9\\ud83d\\ude00<\"" ∧ j.toText = plainAnswer (txt "\"é😀\\u003c\"") :=
    answered_of_texts (by decide +kernel) (by decide +kernel)
  obtain ⟨id', j', h', hid', -⟩ : ∃ id j, s.Answered (plainRequest (txt "9007199254740992")) id j ∧
      id.source = txt "9007199254740992" ∧ j.toText = plainAnswer (txt "9007199254740992") :=
    answered_of_texts (by decide +kernel) (by decide +kernel)
  rw [← hid] at hsource
  rw [← hid'] at hsource'
  obtain ⟨⟨v, -, hv, -, hwritten⟩, hdistinct⟩ := answered_with_id h hsource trivial
  exact ⟨id, j, id', j', h, hsource, trivial, htext, ⟨v, hv, hwritten⟩, h', hsource', hexact, hne,
    hdistinct h' hsource' hexact hne⟩

/-- Two integers of which the larger one is no double get the same answer. -/
theorem answered_rounded_id :
    let s := start .builtin [] {} 1
    ∃ id j id' j', s.Answered (plainRequest (txt "9007199254740992")) id j ∧
      (RequestId.int 9007199254740992).WrittenAs id.source ∧
      j.toText = plainAnswer (txt "9007199254740992") ∧
      s.Answered (plainRequest (txt "9007199254740993")) id' j' ∧
      (RequestId.int 9007199254740993).WrittenAs id'.source ∧
      j'.toText = plainAnswer (txt "9007199254740992") := by
  intro s
  obtain ⟨id, j, h, hid, htext⟩ : ∃ id j, s.Answered (plainRequest (txt "9007199254740992")) id j ∧
      id.source = txt "9007199254740992" ∧ j.toText = plainAnswer (txt "9007199254740992") :=
    answered_of_texts (by decide +kernel) (by decide +kernel)
  obtain ⟨id', j', h', hid', htext'⟩ : ∃ id j,
      s.Answered (plainRequest (txt "9007199254740993")) id j ∧
      id.source = txt "9007199254740993" ∧ j.toText = plainAnswer (txt "9007199254740992") :=
    answered_of_texts (by decide +kernel) (by decide +kernel)
  refine ⟨id, j, id', j', h, ?_, htext, h', ?_, htext'⟩
  · rw [hid]
    exact .nonneg 9007199254740992
  · rw [hid']
    exact .nonneg 9007199254740993

end Server

end RuleLang
