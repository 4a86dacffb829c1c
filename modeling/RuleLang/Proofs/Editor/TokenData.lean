import RuleLang.Proofs.Editor.SpanLayout

/-!
# RuleLang.Proofs.Editor.TokenData

An editor that adds up the numbers it is sent finds the spans again.

The numbers are differences from span to span, as words of 32 bits. Nothing wraps around, because
spans come in the order of their lines and, within a line, of their UTF-16 starts. In byte columns
they were sorted so; in UTF-16 columns the order is the same since every span begins at a character
(`Span.utf16_sorted`). `Span.decodeFrom_encodeFrom` is the induction over the spans, and
`Span.decode_tokens` the result for whole documents.
-/

namespace RuleLang
namespace Span

/-! ## The editor -/

/-- Read tokens after a token at the given place: line and start are counted from there, the start
from the beginning of the line if the line is another one. Each span comes with its modifiers. -/
def decodeFrom : (line start : Nat) → List UInt32 → Option (List (Span × UInt32))
  | _, _, [] => some []
  | line, start, lineDelta :: startDelta :: length :: kind :: modifiers :: rest =>
    let line := line + lineDelta.toNat
    let start := if lineDelta = 0 then start + startDelta.toNat else startDelta.toNat
    match SpanKind.legend[kind.toNat]?, decodeFrom line start rest with
    | some kind, some tokens => some ((⟨line, start, length.toNat, kind⟩, modifiers) :: tokens)
    | _, _ => none
  | _, _, _ => none

def decode (data : List UInt32) : Option (List (Span × UInt32)) := decodeFrom 0 0 data

/-! ## Reading back -/

theorem toNat_ofInt_natCast {n : Nat} (h : n < 2 ^ 32) : (UInt32.ofInt n).toNat = n := by
  have hmod : ((n : Int) % 2 ^ 32).toNat = n := by omega
  rw [UInt32.ofInt, hmod, UInt32.toNat_ofNat_of_lt' h]

theorem legend_code (k : SpanKind) : SpanKind.legend[(UInt32.ofNat k.code).toNat]? = some k := by
  cases k <;> rfl

/-- The numbers of the span fit into their words. -/
structure Fits (s : Span) : Prop where
  line : s.line < 2 ^ 32
  start : s.start < 2 ^ 32
  length : s.length < 2 ^ 32

theorem decodeFrom_delta_append {line start : Nat} {s : Span} (hs : s.Fits)
    (hline : line ≤ s.line) (hstart : line = s.line → start ≤ s.start) (rest : List UInt32) :
    decodeFrom line start (delta line start s ++ rest) =
      (decodeFrom s.line s.start rest).map ((s, 0) :: ·) := by
  have hlen : (UInt32.ofNat s.length).toNat = s.length := UInt32.toNat_ofNat_of_lt' hs.length
  have hsub : (s.line : Int) - line = ((s.line - line : Nat) : Int) := by omega
  have hword : (UInt32.ofInt ((s.line - line : Nat) : Int)).toNat = s.line - line :=
    toNat_ofInt_natCast (Nat.lt_of_le_of_lt (Nat.sub_le _ _) hs.line)
  have hzero : UInt32.ofInt ((s.line - line : Nat) : Int) = 0 ↔ s.line - line = 0 := by
    rw [← UInt32.toNat_inj, hword]
    rfl
  have hsum : line + (s.line - line) = s.line := by omega
  simp only [delta, hsub, List.cons_append, List.nil_append, decodeFrom, hword, hzero, hsum, hlen,
    legend_code]
  rcases Nat.lt_or_eq_of_le hline with hlt | rfl
  · -- on a later line the start is counted from the beginning of the line
    have hnat : ¬ s.line - line = 0 := by omega
    have hint : ¬ ((s.line - line : Nat) : Int) = 0 := by omega
    rw [if_neg hint, if_neg hnat, toNat_ofInt_natCast hs.start]
    cases decodeFrom s.line s.start rest <;> rfl
  · have hle := hstart rfl
    have hnat : s.line - s.line = 0 := Nat.sub_self _
    have hint : ((s.line - s.line : Nat) : Int) = 0 := by omega
    have hcol : (s.start : Int) - start = ((s.start - start : Nat) : Int) := by omega
    rw [if_pos hint, if_pos hnat, hcol,
      toNat_ofInt_natCast (Nat.lt_of_le_of_lt (Nat.sub_le _ _) hs.start), Nat.add_sub_cancel' hle]
    cases decodeFrom s.line s.start rest <;> rfl

theorem decodeFrom_encodeFrom {line start : Nat} {ss : List Span} (hfits : ∀ s ∈ ss, s.Fits)
    (hfirst : ∀ s ∈ ss, line ≤ s.line ∧ (line = s.line → start ≤ s.start))
    (hsorted : ss.Pairwise fun a b => a.line < b.line ∨ a.line = b.line ∧ a.start ≤ b.start) :
    decodeFrom line start (encodeFrom line start ss) = some (ss.map fun s => (s, 0)) := by
  induction ss generalizing line start with
  | nil => rfl
  | cons s ss ih =>
    obtain ⟨hlater, hsorted⟩ := List.pairwise_cons.1 hsorted
    obtain ⟨hline, hstart⟩ := hfirst s List.mem_cons_self
    have hnext : ∀ s' ∈ ss, s.line ≤ s'.line ∧ (s.line = s'.line → s.start ≤ s'.start) := by
      intro s' hs'
      have := hlater s' hs'
      omega
    rw [encodeFrom, decodeFrom_delta_append (hfits s List.mem_cons_self) hline hstart,
      ih (fun s' hs' => hfits s' (List.mem_cons_of_mem s hs')) hnext hsorted]
    rfl

theorem length_encodeFrom (line start : Nat) (ss : List Span) :
    (encodeFrom line start ss).length = 5 * ss.length := by
  induction ss generalizing line start with
  | nil => rfl
  | cons s ss ih =>
    rw [encodeFrom, List.length_append, ih, List.length_cons, Nat.mul_add, Nat.add_comm]
    rfl

/-! ## Documents -/

section Document

variable (c : Catalog) (t : Text)

/-- Spans in order of their bytes are in order of their UTF-16 columns. -/
theorem utf16_sorted :
    ((ofText c t).map (toUtf16 t.lines)).Pairwise fun a b =>
      a.line < b.line ∨ a.line = b.line ∧ a.start ≤ b.start := by
  rw [List.pairwise_map]
  refine (ofText_sorted c t).imp_of_mem ?_
  rintro a b ha hb (hlt | ⟨heq, hle⟩)
  · left
    simpa using hlt
  · obtain ⟨line, hline, hline', hplaced, hplaced'⟩ := placed_of_line_eq c t ha hb heq
    right
    rw [toUtf16_start hline, toUtf16_start hline']
    exact ⟨by simpa using heq,
      Text.utf16Col_le hplaced.start_boundary hplaced'.start_boundary hle⟩

variable {c t}

theorem fits_toUtf16 (hlines : t.lines.length < 2 ^ 32)
    (hunits : ∀ line ∈ t.lines, line.utf16Col line.length < 2 ^ 32) {s : Span}
    (hs : s ∈ ofText c t) : (toUtf16 t.lines s).Fits := by
  obtain ⟨line, hline, hplaced, -⟩ := mem_ofText c t hs
  have hindex := (List.getElem?_eq_some_iff.1 hline).1
  have hstop := toUtf16_stop_le hline hplaced
  have hwidth := hunits line (List.mem_of_getElem? hline)
  exact ⟨by rw [toUtf16_line]; omega, by omega, by omega⟩

/-- **Token data decodes to the spans.** In a text with fewer than 2³² lines of fewer than 2³²
UTF-16 units each, an editor reads the spans in UTF-16 columns back, without modifiers. No span
comes before the one that its numbers are counted from, and none ends before it begins, so no
difference is negative. -/
theorem decode_tokens (c : Catalog) (t : Text) (hlines : t.lines.length < 2 ^ 32)
    (hunits : ∀ line ∈ t.lines, line.utf16Col line.length < 2 ^ 32) :
    let spans := (ofText c t).map (toUtf16 t.lines)
    (tokens c t).length = 5 * (ofText c t).length ∧
    decode (tokens c t) = some (spans.map fun s => (s, 0)) ∧
    spans.Pairwise (fun a b => a.line < b.line ∨ a.line = b.line ∧ a.start ≤ b.start) ∧
    ∀ s ∈ ofText c t, ∃ line, t.lines[s.line]? = some line ∧
      line.utf16Col s.start ≤ line.utf16Col (s.start + s.length) := by
  intro spans
  have hsorted := utf16_sorted c t
  refine ⟨?_, ?_, hsorted, ?_⟩
  · rw [tokens, encode, length_encodeFrom, List.length_map]
  · apply decodeFrom_encodeFrom _ (fun s _ => ⟨Nat.zero_le _, fun _ => Nat.zero_le _⟩) hsorted
    intro s' hs'
    obtain ⟨s, hs, rfl⟩ := List.mem_map.1 hs'
    exact fits_toUtf16 hlines hunits hs
  · intro s hs
    obtain ⟨line, hline, hplaced, -⟩ := mem_ofText c t hs
    exact ⟨line, hline, Text.utf16Col_le hplaced.start_boundary hplaced.stop_boundary
      (Nat.le_add_right _ _)⟩

end Document

/-- A comment behind a character outside the first plane, and a severity two lines below. -/
theorem decode_tokens_surrogate_pair :
    let t := txt "😀: $A # é\n\nseverity: ERROR"
    t.lines.length < 2 ^ 32 ∧ (∀ line ∈ t.lines, line.utf16Col line.length < 2 ^ 32) ∧
    decode (tokens .builtin t) = some (((ofText .builtin t).map (toUtf16 t.lines)).map (·, 0)) := by
  intro t
  have hlines : t.lines.length < 2 ^ 32 := by decide +kernel
  have hunits : ∀ line ∈ t.lines, line.utf16Col line.length < 2 ^ 32 := by decide +kernel
  exact ⟨hlines, hunits, (decode_tokens .builtin t hlines hunits).2.1⟩

end Span
end RuleLang
