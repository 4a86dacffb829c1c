import RuleLang.Proofs.Numeral.ReadBack
import RuleLang.Proofs.Server.Run

/-!
# RuleLang.Proofs.Server.Framing

Frames that are written are read back, wherever the stream is cut off.

`Frame.stream` writes bodies one after another, and `Frame.Reads` reads frames one after another.
A frame in front of anything is read as its body (`Frame.first_encode_append`), a frame that is cut
off is waited for (`Frame.first_of_partial`), and by induction on the bodies every beginning of a
stream is read as the bodies whose frames it holds (`Frame.reads_of_prefix`).
`Session.run_prefix_of_stream` says what a server does with such a beginning.
-/

namespace RuleLang

namespace Frame

/-- A body with its header, as it is written. -/
def encode (body : Text) : Text := header body ++ body

def stream (bodies : List Text) : Text := bodies.flatMap encode

/-- Reading frames one after another takes the bodies off a text and leaves the rest. -/
inductive Reads : Text → List Text → Text → Prop where
  | done (t : Text) : Reads t [] t
  | frame {t b r : Text} {bs : List Text} {rest : Text} :
      first t = .frame b r → Reads r bs rest → Reads t (b :: bs) rest

/-! ## Header lines -/

theorem readHead_of_not_mem (fuel : Nat) (length : Option Int) {t : Text} (h : 10 ∉ t) :
    readHead fuel length t = .incomplete := by
  cases fuel with
  | zero => rfl
  | succ fuel =>
    have hline : t.takeWhile (· ≠ 10) = t := by
      rw [List.takeWhile_eq_self_iff]
      intro b hb
      have hne : b ≠ 10 := fun heq => h (heq ▸ hb)
      simp [hne]
    simp only [readHead, hline, List.drop_length]

theorem takeWhile_line {line : Text} (rest : Text) (h : 10 ∉ line) :
    (line ++ 10 :: rest).takeWhile (· ≠ 10) = line := by
  rw [List.takeWhile_append_of_pos, List.takeWhile_cons_of_neg (by simp), List.append_nil]
  intro b hb
  have hne : b ≠ 10 := fun heq => h (heq ▸ hb)
  simp [hne]

/-- The line with a length, up to its line feed. -/
def lengthLine (n : Nat) : Text := txt "Content-Length: " ++ Text.ofNat n ++ [13]

theorem header_eq (body : Text) : header body = lengthLine body.length ++ 10 :: [13, 10] := by
  have hend : txt "\r\n\r\n" = [13, 10, 13, 10] := by decide
  simp [header, lengthLine, hend]

theorem not_mem_lengthLine (n : Nat) : 10 ∉ lengthLine n := by
  intro hmem
  rcases List.mem_append.1 hmem with hmem | hmem
  · rcases List.mem_append.1 hmem with hmem | hmem
    · revert hmem
      decide
    · exact absurd (Text.isDigit_of_mem_ofNat hmem) (by decide)
  · simp at hmem

theorem lengthValue?_lengthLine (n : Nat) :
    lengthValue? (txt "Content-Length: " ++ Text.ofNat n) = some (Text.ofNat n) := by
  have hname : txt "Content-Length: " = txt "Content-Length:" ++ [32] := by decide
  have hlength : (txt "content-length:").length = (txt "Content-Length:").length := by decide
  have hlower : (txt "Content-Length:").map Text.lowerByte = txt "content-length:" := by decide
  have hspace : Text.IsPadding [32] := by simp [Text.IsPadding]
  have htrim := Text.trim_padding_append hspace fun b => Text.isDigit_of_mem_ofNat (n := n)
  rw [lengthValue?, hname, hlength, List.append_assoc, List.take_left, List.drop_left,
    if_pos hlower, htrim]

theorem readHead_lengthLine (fuel : Nat) (length : Option Int) (rest : Text) {n : Nat}
    (h : n < 2 ^ 63) :
    readHead (fuel + 1) length (lengthLine n ++ 10 :: rest) = readHead fuel (some n) rest := by
  -- the line ends in a digit before its carriage return
  obtain ⟨ds, d, hds⟩ : ∃ ds d, Text.ofNat n = ds ++ [d] :=
    ⟨_, _, (List.dropLast_concat_getLast (Text.ofNat_ne_nil n)).symm⟩
  have hd : d ≠ 13 := by
    rintro rfl
    have hmem : 13 ∈ Text.ofNat n := by simp [hds]
    exact absurd (Text.isDigit_of_mem_ofNat hmem) (by decide)
  have hstrip : ((lengthLine n).reverse.dropWhile (· = 13)).reverse
      = txt "Content-Length: " ++ Text.ofNat n := by
    simp [lengthLine, hds, hd]
  have hne : (txt "Content-Length: " ++ Text.ofNat n).isEmpty = false := by
    simp [Text.ofNat_ne_nil]
  simp only [readHead, takeWhile_line rest (not_mem_lengthLine n), List.drop_left, hstrip, hne,
    Bool.false_eq_true, if_false, lengthValue?_lengthLine, Numeral.decimal?_ofNat h]

theorem readHead_emptyLine (fuel n : Nat) (rest : Text) :
    readHead (fuel + 1) (some n) (13 :: 10 :: rest) = .complete n rest := rfl

theorem readHead_header_append {body : Text} (h : body.length < 2 ^ 63) (rest : Text) :
    readHead (header body ++ rest).length none (header body ++ rest) =
      .complete body.length rest := by
  obtain ⟨fuel, hfuel⟩ : ∃ fuel, (header body ++ rest).length = fuel + 2 := by
    refine ⟨(header body ++ rest).length - 2, ?_⟩
    have : 2 ≤ (header body ++ rest).length := by
      rw [header_eq]
      simp only [List.length_append, List.length_cons]
      omega
    omega
  have hsplit : header body ++ rest = lengthLine body.length ++ 10 :: 13 :: 10 :: rest := by
    simp [header_eq]
  rw [hfuel, hsplit, readHead_lengthLine _ _ _ h, readHead_emptyLine]

theorem readHead_of_partial_header (fuel : Nat) {body p : Text} (h : body.length < 2 ^ 63)
    (hp : p <+: header body) (hne : p ≠ header body) : readHead fuel none p = .incomplete := by
  rw [header_eq] at hp hne
  obtain ⟨back, hback⟩ := hp
  rcases List.append_eq_append_iff.1 hback with ⟨as, hline, -⟩ | ⟨q, rfl, hq⟩
  · apply readHead_of_not_mem
    intro hmem
    exact not_mem_lengthLine body.length (hline ▸ List.mem_append_left as hmem)
  · cases q with
    | nil =>
      rw [List.append_nil]
      exact readHead_of_not_mem _ _ (not_mem_lengthLine _)
    | cons b q =>
      obtain ⟨rfl, hq⟩ : 10 = b ∧ [13, 10] = q ++ back := by simpa using hq
      have hfree : 10 ∉ q := by
        rcases q with _ | ⟨x, _ | ⟨y, q⟩⟩
        · simp
        · obtain ⟨rfl, -⟩ : 13 = x ∧ [10] = back := by simpa using hq
          decide
        · -- then the whole header is there
          obtain ⟨rfl, rfl, hnil⟩ : 13 = x ∧ 10 = y ∧ [] = q ++ back := by simpa using hq
          obtain ⟨rfl, -⟩ := List.append_eq_nil_iff.1 hnil.symm
          exact absurd rfl hne
      cases fuel with
      | zero => rfl
      | succ fuel => rw [readHead_lengthLine _ _ _ h, readHead_of_not_mem _ _ hfree]

/-! ## One frame -/

theorem first_encode_append {body : Text} (h : body.length < 2 ^ 63) (rest : Text) :
    first (encode body ++ rest) = .frame body rest := by
  rw [encode, List.append_assoc, first, readHead_header_append h]
  simp

/-- A frame that is cut off is waited for, and is in its body from the first byte of it on. -/
theorem first_of_partial {body p : Text} (h : body.length < 2 ^ 63) (hp : p <+: encode body)
    (hne : p ≠ encode body) : first p = .wait (decide ((header body).length < p.length)) := by
  obtain ⟨back, hback⟩ := hp
  rcases List.append_eq_append_iff.1 hback with ⟨as, hhead, hrest⟩ | ⟨q, rfl, hq⟩
  · by_cases hall : p = header body
    · -- the header is complete and nothing of the body is there
      have hbody : body ≠ [] := by
        rintro rfl
        exact hne (by rw [hall, encode, List.append_nil])
      have hhead := readHead_header_append h []
      rw [List.append_nil, ← hall] at hhead
      have hlen : ¬ 0 = body.length := by simpa [eq_comm] using hbody
      simp [first, hhead, hlen, ← hall]
    · have hhead' := readHead_of_partial_header p.length h ⟨as, hhead.symm⟩ hall
      have hlen : ¬ (header body).length < p.length := by
        rw [hhead, List.length_append]
        omega
      simp [first, hhead', hlen]
  · have hlt : q.length < body.length := by
      have hback' : back ≠ [] := by
        rintro rfl
        exact hne (by rw [encode, hq, List.append_nil])
      rw [hq, List.length_append]
      have := List.length_pos_of_ne_nil hback'
      omega
    have htake : q.take body.length = q := List.take_of_length_le (by omega)
    have hlen : ¬ q.length = body.length := by omega
    have hin : (!q.isEmpty) = decide ((header body).length < (header body ++ q).length) := by
      cases q with
      | nil => simp
      | cons b q => simp
    simp only [first, readHead_header_append h, htake, if_neg hlen, hin]

theorem readHead_complete_length {fuel : Nat} {length : Option Int} {t : Text} {n : Nat}
    {rest : Text} (h : readHead fuel length t = .complete n rest) : rest.length < t.length := by
  induction fuel generalizing length t with
  | zero => cases h
  | succ fuel ih =>
    simp only [readHead] at h
    split at h
    · cases h
    · rename_i b tail htail
      have hlt : tail.length < t.length := by
        have hlen := congrArg List.length htail
        simp only [List.length_drop, List.length_cons] at hlen
        omega
      split at h
      · split at h
        · cases h
          exact hlt
        · cases h
      · split at h
        · exact Nat.lt_trans (ih h) hlt
        · split at h
          · exact Nat.lt_trans (ih h) hlt
          · cases h

theorem first_frame_length {t b r : Text} (h : first t = .frame b r) : r.length < t.length := by
  unfold first at h
  split at h
  · cases h
  · cases h
  · rename_i n rest hhead
    have hlt := readHead_complete_length hhead
    dsimp only at h
    split at h
    · cases h
      rw [List.length_drop]
      omega
    · cases h

/-! ## Many frames -/

/-- Fuel beyond the length of the text is never used. -/
theorem splitFrom_fuel {n m : Nat} {t : Text} (hn : t.length < n) (hm : t.length < m) :
    splitFrom n t = splitFrom m t := by
  induction n generalizing m t with
  | zero => omega
  | succ n ih =>
    cases m with
    | zero => omega
    | succ m =>
      simp only [splitFrom]
      cases hf : first t with
      | frame b r =>
        have hlt := first_frame_length hf
        simp only [ih (m := m) (t := r) (by omega) (by omega)]
      | wait inBody => rfl
      | faulty e => rfl

theorem split_of_frame {t b r : Text} (h : first t = .frame b r) :
    split t = (b :: (split r).1, (split r).2) := by
  have hlt := first_frame_length h
  have hfuel : splitFrom t.length r = split r := splitFrom_fuel hlt (Nat.lt_succ_self _)
  simp only [split] at hfuel ⊢
  simp only [splitFrom, h, hfuel]

theorem split_of_wait {t : Text} {inBody : Bool} (h : first t = .wait inBody) :
    split t = ([], .wait t inBody) := by
  simp only [split, splitFrom, h]

theorem split_of_reads {t : Text} {bs : List Text} {rest : Text} (h : Reads t bs rest) :
    split t = (bs ++ (split rest).1, (split rest).2) := by
  induction h with
  | done t => rfl
  | frame hf _ ih => rw [split_of_frame hf, ih]; rfl

theorem stream_cons (b : Text) (bs : List Text) : stream (b :: bs) = encode b ++ stream bs :=
  List.flatMap_cons

theorem reads_stream_append {bodies : List Text} (h : ∀ b ∈ bodies, b.length < 2 ^ 63)
    (rest : Text) : Reads (stream bodies ++ rest) bodies rest := by
  induction bodies with
  | nil => exact .done rest
  | cons b bs ih =>
    rw [stream_cons, List.append_assoc]
    exact .frame (first_encode_append (h b List.mem_cons_self) _)
      (ih fun b' hb' => h b' (List.mem_cons_of_mem b hb'))

/-- After `k` whole frames nothing is left, or the beginning of the next frame. -/
def Leftover (bodies : List Text) (k : Nat) (rest : Text) : Prop :=
  k = bodies.length ∧ rest = [] ∨
    ∃ b, bodies[k]? = some b ∧ rest <+: encode b ∧ rest ≠ encode b

/-- A beginning of a stream is read as the bodies of its whole frames. -/
theorem reads_of_prefix {bodies : List Text} (h : ∀ b ∈ bodies, b.length < 2 ^ 63) {p : Text}
    (hp : p <+: stream bodies) :
    ∃ (k : Nat) (rest : Text), k ≤ bodies.length ∧ p = stream (bodies.take k) ++ rest ∧
      Reads p (bodies.take k) rest ∧ Leftover bodies k rest := by
  induction bodies generalizing p with
  | nil =>
    obtain rfl : p = [] := List.prefix_nil.1 hp
    exact ⟨0, [], Nat.le_refl 0, rfl, .done [], .inl ⟨rfl, rfl⟩⟩
  | cons b bs ih =>
    have hb := h b List.mem_cons_self
    have hwhole : (∃ q, p = encode b ++ q ∧ q <+: stream bs) ∨ p <+: encode b ∧ p ≠ encode b := by
      obtain ⟨back, hback⟩ := hp
      rw [stream_cons] at hback
      rcases List.append_eq_append_iff.1 hback with ⟨as, hfront, -⟩ | ⟨q, rfl, hq⟩
      · by_cases hall : p = encode b
        · exact .inl ⟨[], by rw [hall, List.append_nil], List.nil_prefix⟩
        · exact .inr ⟨⟨as, hfront.symm⟩, hall⟩
      · exact .inl ⟨q, rfl, ⟨back, hq.symm⟩⟩
    rcases hwhole with ⟨q, rfl, hq⟩ | ⟨hpart, hne⟩
    · obtain ⟨k, rest, hk, hsplit, hreads, hnext⟩ :=
        ih (fun b' hb' => h b' (List.mem_cons_of_mem b hb')) hq
      refine ⟨k + 1, rest, Nat.succ_le_succ hk, ?_, ?_, ?_⟩
      · rw [List.take_succ_cons, stream_cons, List.append_assoc, ← hsplit]
      · exact .frame (first_encode_append hb q) hreads
      · rcases hnext with ⟨rfl, hrest⟩ | ⟨b', hb', hrest⟩
        · exact .inl ⟨rfl, hrest⟩
        · exact .inr ⟨b', hb', hrest⟩
    · exact ⟨0, p, Nat.zero_le _, rfl, .done p, .inr ⟨b, rfl, hpart, hne⟩⟩

theorem length_stream_take_le (bodies : List Text) {j k : Nat} (h : j ≤ k) :
    (stream (bodies.take j)).length ≤ (stream (bodies.take k)).length := by
  obtain ⟨back, hback⟩ := List.take_prefix_take_left (l := bodies) h
  rw [← hback, stream, stream, List.flatMap_append, List.length_append]
  omega

theorem stream_take_succ {bodies : List Text} {k : Nat} {b : Text} (h : bodies[k]? = some b) :
    stream (bodies.take (k + 1)) = stream (bodies.take k) ++ encode b := by
  rw [List.take_add_one, h, stream, List.flatMap_append]
  simp [stream]

section Leftover

variable {bodies : List Text} {k : Nat} {rest : Text}

/-- Exactly the first `k` frames lie in what was read and what is left. -/
theorem Leftover.le_iff (h : Leftover bodies k rest) {j : Nat} (hj : j ≤ bodies.length) :
    j ≤ k ↔ (stream (bodies.take j)).length ≤ (stream (bodies.take k) ++ rest).length := by
  rw [List.length_append]
  constructor
  · intro hle
    have := length_stream_take_le bodies hle
    omega
  · intro hle
    by_contra hgt
    rcases h with ⟨rfl, -⟩ | ⟨b, hb, hpart, hne⟩
    · omega
    · have hlt : rest.length < (encode b).length :=
        Nat.lt_of_le_of_ne hpart.length_le fun heq => hne (hpart.eq_of_length heq)
      have hnext := length_stream_take_le bodies (j := k + 1) (k := j) (by omega)
      rw [stream_take_succ hb, List.length_append] at hnext
      omega

/-- What is left is waited for. -/
theorem Leftover.first_eq_wait (hsize : ∀ b ∈ bodies, b.length < 2 ^ 63)
    (h : Leftover bodies k rest) :
    ∃ inBody, first rest = .wait inBody ∧
      (inBody = true ↔ ∃ b, bodies[k]? = some b ∧
        (stream (bodies.take k)).length + (header b).length <
          (stream (bodies.take k) ++ rest).length ∧
        (stream (bodies.take k) ++ rest).length <
          (stream (bodies.take k)).length + (header b).length + b.length) := by
  rcases h with ⟨rfl, rfl⟩ | ⟨b, hb, hpart, hne⟩
  · refine ⟨false, rfl, ?_⟩
    simp
  · have hlt : rest.length < (header b).length + b.length := by
      rw [← List.length_append]
      exact Nat.lt_of_le_of_ne hpart.length_le fun heq => hne (hpart.eq_of_length heq)
    refine ⟨_, first_of_partial (hsize b (List.mem_of_getElem? hb)) hpart hne, ?_⟩
    rw [decide_eq_true_iff, List.length_append]
    constructor
    · intro hin
      exact ⟨b, hb, by omega, by omega⟩
    · rintro ⟨b', hb', hin, -⟩
      obtain rfl : b = b' := Option.some.inj (hb.symm.trans hb')
      omega

end Leftover

end Frame

/-! ## A server on a stream that is cut off -/

theorem any_untilExit (bodies : List Text) :
    (untilExit bodies).any asksExit = bodies.any asksExit := by
  induction bodies with
  | nil => rfl
  | cons b bs ih =>
    cases hb : asksExit b with
    | true => simp [untilExit, hb]
    | false => simp [untilExit, hb, ih]

theorem mem_of_mem_untilExit {bodies : List Text} {b : Text} (h : b ∈ untilExit bodies) :
    b ∈ bodies := by
  induction bodies with
  | nil => exact h
  | cons b' bs ih =>
    rw [untilExit] at h
    split at h
    · rw [List.mem_singleton.1 h]
      exact List.mem_cons_self
    · rcases List.mem_cons.1 h with rfl | h
      · exact List.mem_cons_self
      · exact List.mem_cons_of_mem b' (ih h)

theorem untilExit_append {bodies : List Text} (h : bodies.any asksExit = true)
    (more : List Text) : untilExit (untilExit bodies ++ more) = untilExit bodies := by
  induction bodies with
  | nil => simp at h
  | cons b bs ih =>
    cases hb : asksExit b with
    | true => simp [untilExit, hb]
    | false =>
      have hbs : bs.any asksExit = true := by simpa [hb] using h
      simp [untilExit, hb, ih hbs]

namespace Session

/-- A run that meets an exit is settled by the frames up to it. -/
theorem run_stream_append_of_exit (server : Server) (sink : Sink) {bodies : List Text}
    (hsize : ∀ b ∈ bodies, b.length < 2 ^ 63) (hexit : bodies.any asksExit = true)
    (more : Text) :
    run { server := server, sink := sink } (Frame.stream (untilExit bodies) ++ more) =
      ({ server := (deliverEach server sink (untilExit bodies)).1,
         sink := (deliverEach server sink (untilExit bodies)).2.1, ending := some .exit },
       (deliverEach server sink (untilExit bodies)).2.2) := by
  have hreads := Frame.reads_stream_append
    (fun b hb => hsize b (mem_of_mem_untilExit hb)) more
  have hany : (untilExit bodies ++ (Frame.split more).1).any asksExit = true := by
    rw [List.any_append, any_untilExit, hexit, Bool.true_or]
  rw [run_eq server sink (Frame.split_of_reads hreads), if_pos hany, untilExit_append hexit]

/-- **Framing survives any cut of the stream.** Of a beginning `p` of the frames of `bodies`, the
first `k` frames that lie in it are read as their bodies, and nothing else is. Reading then fails:
within a body if some but not all bytes of the next body are there, at the end of the stream
otherwise. A server handles the bodies that are read up to the first exit and no others; it
returns an error only in the first case, and what follows the exit does not matter to it. Lengths
are signed 64-bit numbers. -/
theorem run_prefix_of_stream (bodies : List Text) (hsize : ∀ b ∈ bodies, b.length < 2 ^ 63)
    {p : Text} (hp : p <+: Frame.stream bodies) :
    ∃ (k : Nat) (rest : Text) (inBody : Bool), k ≤ bodies.length ∧
      (∀ j ≤ bodies.length, j ≤ k ↔ (Frame.stream (bodies.take j)).length ≤ p.length) ∧
      Frame.Reads p (bodies.take k) rest ∧ Frame.first rest = .wait inBody ∧
      (inBody = true ↔ ∃ b, bodies[k]? = some b ∧
        (Frame.stream (bodies.take k)).length + (Frame.header b).length < p.length ∧
        p.length < (Frame.stream (bodies.take k)).length + (Frame.header b).length + b.length) ∧
      ∀ (server : Server) (sink : Sink),
        let messages := untilExit (bodies.take k)
        let result := run { server := server, sink := sink } p
        (result.1.server, result.1.sink, result.2) = deliverEach server sink messages ∧
        result.1.finish.map FrameError.message =
          (if messages.any asksExit then none
            else if inBody then some (txt "unexpected EOF") else none) ∧
        (messages.any asksExit = true → ∀ more,
          run { server := server, sink := sink } (Frame.stream messages ++ more) = result) := by
  obtain ⟨k, rest, hk, rfl, hreads, hleft⟩ := Frame.reads_of_prefix hsize hp
  obtain ⟨inBody, hwait, hbody⟩ := hleft.first_eq_wait hsize
  refine ⟨k, rest, inBody, hk, fun j hj => hleft.le_iff hj, hreads, hwait, hbody, ?_⟩
  intro server sink messages result
  have hsplit : Frame.split (Frame.stream (bodies.take k) ++ rest) =
      (bodies.take k, .wait rest inBody) := by
    rw [Frame.split_of_reads hreads, Frame.split_of_wait hwait, List.append_nil]
  have hwhole : ∀ b ∈ bodies.take k, b.length < 2 ^ 63 :=
    fun b hb => hsize b (List.mem_of_mem_take hb)
  have hsteps := run_steps server sink (Frame.stream (bodies.take k) ++ rest)
  rw [hsplit] at hsteps
  refine ⟨hsteps, ?_⟩
  simp only [result, messages, any_untilExit, run_eq server sink hsplit]
  cases hexit : (bodies.take k).any asksExit with
  | true => exact ⟨rfl, fun _ more => run_stream_append_of_exit server sink hwhole hexit more⟩
  | false =>
    refine ⟨?_, by simp⟩
    cases inBody with
    | true => rfl
    | false => rfl

/-- Bodies that look like headers, and a cut before the last byte. -/
theorem run_prefix_of_stream_header_bodies :
    let body := txt "Content-Length: 9\r\n\r\n"
    let p := (Frame.stream [body, txt "\n\r"]).dropLast
    (∃ rest, Frame.Reads p [body] rest ∧ Frame.first rest = .wait true) ∧
      ∀ (server : Server) (sink : Sink),
        (run { server := server, sink := sink } p).2 = (deliverEach server sink [body]).2.2 ∧
        (run { server := server, sink := sink } p).1.finish.map FrameError.message =
          some (txt "unexpected EOF") := by
  intro body p
  obtain ⟨k, rest, inBody, hk, hwhole, hreads, hwait, hbody, hrun⟩ :=
    run_prefix_of_stream [body, txt "\n\r"] (by decide) (List.dropLast_prefix _)
  obtain rfl : k = 1 := by
    have hone : 1 ≤ k := (hwhole 1 (by decide)).2 (by decide)
    have htwo : ¬ 2 ≤ k := fun h => absurd ((hwhole 2 (by decide)).1 h) (by decide)
    omega
  obtain rfl : inBody = true := hbody.2 ⟨txt "\n\r", rfl, by decide, by decide⟩
  have hexit : asksExit body = false := by decide +kernel
  refine ⟨⟨rest, hreads, hwait⟩, ?_⟩
  intro server sink
  obtain ⟨hsteps, hfinish, -⟩ := hrun server sink
  have hmessages : untilExit [body] = [body] := by simp [untilExit, hexit]
  rw [List.take_succ_cons, List.take_zero, hmessages] at hsteps hfinish
  rw [List.any_cons, hexit] at hfinish
  exact ⟨by rw [← hsteps], hfinish⟩

end Session

end RuleLang
