import RuleLang.Editor.TextEdit
import RuleLang.Proofs.Indent.FormatText

/-!
# RuleLang.Proofs.Editor.ClientEdits

An editor that is sent the edits of a document ends up with the formatted text.

The editor knows nothing of rows, characters and carriage returns. It cuts the document at line
feeds, counts columns in UTF-16 units (`Position.offsetIn`) and replaces byte ranges. It may
read all ranges on the document as it was, refusing ranges that overlap (`TextEdit.applyAll?`), or
carry out one edit after the other, each on the document as it is by then (`TextEdit.applyTo`).

* `TextEdit.cut_applyBack`: edits that open lines change one piece each.
* `TextEdit.spliceFrom_eq`: in line order, replacing all ranges at once is replacing them one by
  one from the last to the first.
* `TextEdit.clientEdits_eq_formatText`: both ways, in every order of the edits, give
  `formatText`.
-/

namespace RuleLang

/-! ## The editor -/

/-- The lines before line `n`, with their line feeds. -/
def Text.before (t : Text) (n : Nat) : Text := ((t.cut 10).take n).flatMap (· ++ [10])

/-- The byte at which a place stands. A place past the last line is the end of the text. -/
def Position.offsetIn (t : Text) (p : Position) : Nat :=
  match (t.cut 10)[p.line.toNat]? with
  | some piece => (t.before p.line.toNat).length + piece.byteOffset p.character
  | none => t.length

namespace TextEdit

/-- The byte range of an edit. -/
def startIn (t : Text) (e : TextEdit) : Nat := e.range.start.offsetIn t
def stopIn (t : Text) (e : TextEdit) : Nat := e.range.stop.offsetIn t

/-- Replace one range. -/
def applyTo (t : Text) (e : TextEdit) : Text :=
  t.take (e.startIn t) ++ e.newText ++ t.drop (max (e.startIn t) (e.stopIn t))

/-- The text from byte `pos` on with the ranges replaced, for edits in the order of their ranges.
There is no result if a range begins before the last one ends. -/
def spliceFrom (t : Text) : (pos : Nat) → List TextEdit → Option Text
  | pos, [] => some (t.drop pos)
  | pos, e :: es =>
    if pos ≤ e.startIn t ∧ e.startIn t ≤ e.stopIn t then
      (spliceFrom t (e.stopIn t) es).map fun rest =>
        (t.take (e.startIn t)).drop pos ++ e.newText ++ rest
    else none

/-- Replace all ranges, whatever order the edits come in. -/
def applyAll? (t : Text) (es : List TextEdit) : Option Text :=
  spliceFrom t 0 (es.mergeSort fun e e' => e.startIn t ≤ e'.startIn t)

end TextEdit

/-! ## Around a piece -/

namespace Text

theorem join_append_cons (front : List Text) (p : Text) (rest : List Text) :
    join [10] (front ++ p :: rest) =
      front.flatMap (· ++ [10]) ++ p ++ rest.flatMap (10 :: ·) := by
  induction front with
  | nil =>
    rw [List.nil_append, List.flatMap_nil, List.nil_append]
    induction rest generalizing p with
    | nil => simp [join, List.intercalate]
    | cons p' rest ih => rw [join_cons_cons, ih]; simp
  | cons q front ih =>
    cases hf : front ++ p :: rest with
    | nil => simp at hf
    | cons p' ps =>
      rw [List.cons_append, hf, join_cons_cons, ← hf, ih]
      simp

/-- A text around one of its pieces. With another piece in its place it is cut the same way
everywhere else. -/
theorem eq_before_append {t : Text} {i : Nat} {p : Text} (h : (t.cut 10)[i]? = some p) :
    ∃ post, t = t.before i ++ p ++ post ∧
      ∀ f, 10 ∉ f p → (t.before i ++ f p ++ post).cut 10 = (t.cut 10).modify i f := by
  obtain ⟨hi, rfl⟩ := List.getElem?_eq_some_iff.1 h
  have hsplit : t.cut 10 = (t.cut 10).take i ++ (t.cut 10)[i] :: (t.cut 10).drop (i + 1) := by
    rw [List.getElem_cons_drop, List.take_append_drop]
  refine ⟨((t.cut 10).drop (i + 1)).flatMap (10 :: ·), ?_, ?_⟩
  · rw [before, ← join_append_cons, ← hsplit, join_cut]
  · intro f hf
    rw [before, ← join_append_cons, List.modify_eq_take_cons_drop hi, cut_join (by simp)]
    intro r hr
    rcases List.mem_append.1 hr with hr | hr
    · exact not_mem_of_mem_cut (List.mem_of_mem_take hr)
    · rcases List.mem_cons.1 hr with rfl | hr
      · exact hf
      · exact not_mem_of_mem_cut (List.mem_of_mem_drop hr)

theorem take_of_eq_append {t b p post : Text} (ht : t = b ++ p ++ post) : t.take b.length = b := by
  rw [ht, List.append_assoc, List.take_left]

theorem drop_of_eq_append {t b p post : Text} {k : Nat} (ht : t = b ++ p ++ post)
    (hk : k ≤ p.length) : t.drop (b.length + k) = p.drop k ++ post := by
  rw [ht, List.append_assoc, List.drop_length_add_append, List.drop_append_of_le_length hk]

theorem byteOffset_zero (t : Text) : t.byteOffset 0 = 0 := by
  rw [byteOffset, Int.toNat_zero]
  exact (bytesWithin_of_units (n := 0) (by simp)).trans rfl

theorem bytesWithin_le (n : Nat) (rs : List TextChar) :
    bytesWithin n rs ≤ (ofChars rs).length := by
  induction rs generalizing n with
  | nil => simp [bytesWithin]
  | cons r rs ih =>
    rw [bytesWithin, ofChars, List.flatMap_cons, List.length_append, ← ofChars]
    split
    · have := ih (n - r.units)
      omega
    · omega

theorem byteOffset_le_length (t : Text) (col : Int) : t.byteOffset col ≤ t.length := by
  have h := bytesWithin_le col.toNat t.chars
  rwa [ofChars_chars] at h

theorem before_congr {s t : Text} {n : Nat}
    (h : ∀ i < n, (s.cut 10)[i]? = (t.cut 10)[i]?) : s.before n = t.before n := by
  have htake : (s.cut 10).take n = (t.cut 10).take n := by
    apply List.ext_getElem?
    intro i
    rw [List.getElem?_take, List.getElem?_take]
    split
    · rename_i hi; exact h i hi
    · rfl
  rw [before, before, htake]

/-- A line ends before the next lines begin. -/
theorem length_before_lt {t p : Text} {i j : Nat} (hij : i < j) (hp : (t.cut 10)[i]? = some p) :
    (t.before i).length + p.length < (t.before j).length := by
  obtain ⟨back, hback⟩ := List.take_prefix_take_left (l := t.cut 10) (Nat.succ_le_of_lt hij)
  have hsucc : (t.cut 10).take (i + 1) = (t.cut 10).take i ++ [p] := by
    rw [List.take_add_one, hp]
    rfl
  have hlen : t.before j = t.before i ++ (p ++ [10]) ++ back.flatMap (· ++ [10]) := by
    rw [before, ← hback, Nat.succ_eq_add_one, hsucc, List.flatMap_append,
      List.flatMap_append, List.flatMap_singleton, ← before]
  rw [hlen]
  simp only [List.length_append, List.length_singleton]
  omega

end Text

/-! ## Columns of rows and of their pieces -/

namespace Row

variable (r : Row) {n : Nat}

/-- Within the leading white space, what a client reads as a column of the piece is that column of
the line. -/
theorem byteOffset_toPiece (hn : n ≤ r.body.leadingChars.length) :
    r.toPiece.byteOffset n = r.body.charOffset n := by
  have hfresh : Utf8.Fresh (if r.cr then [13] else []) := by
    split
    · exact Utf8.fresh_cons [] (by decide)
    · exact Utf8.fresh_nil
  rw [toPiece_eq_append, Text.byteOffset_append_eq_charOffset r.body hfresh hn]

theorem utf16Col_toPiece (hn : n ≤ r.body.leadingChars.length) :
    r.toPiece.utf16Col (r.body.charOffset n) = n := by
  rw [toPiece_eq_append, Text.utf16Col_append_charOffset r.body _ hn]

theorem drop_leading_toPiece :
    r.toPiece.drop (r.body.charOffset r.body.leadingChars.length) =
      r.body.trimLeft ++ if r.cr then [13] else [] := by
  have hle : r.body.charOffset r.body.leadingChars.length ≤ r.body.length := by
    rw [Text.charOffset_leading]
    conv_rhs => rw [← Text.ofChars_leadingChars_append r.body, List.length_append]
    exact Nat.le_add_right _ _
  rw [toPiece_eq_append, List.drop_append_of_le_length hle, Text.drop_charOffset_leading]

end Row

/-! ## One edit at the beginning of a line -/

namespace TextEdit

def line (e : TextEdit) : Nat := e.range.start.line.toNat

/-- The edit replaces the beginning of one of `n` lines by a text without line feed. -/
structure OpensLine (n : Nat) (e : TextEdit) : Prop where
  line_lt : e.line < n
  same_line : e.range.stop.line = e.range.start.line
  at_start : e.range.start.character = 0
  no_feed : 10 ∉ e.newText

/-- The piece of the line after such an edit. -/
def inPiece (e : TextEdit) (p : Text) : Text :=
  e.newText ++ p.drop (p.byteOffset e.range.stop.character)

section OneEdit

variable {t p : Text} {e : TextEdit} {n : Nat}

theorem OpensLine.exists_piece (h : e.OpensLine (t.cut 10).length) :
    ∃ p, (t.cut 10)[e.line]? = some p :=
  ⟨_, List.getElem?_eq_getElem h.line_lt⟩

theorem startIn_eq (h : e.OpensLine n) (hp : (t.cut 10)[e.line]? = some p) :
    e.startIn t = (t.before e.line).length := by
  unfold line at hp ⊢
  simp only [startIn, Position.offsetIn, hp, h.at_start, Text.byteOffset_zero, Nat.add_zero]

theorem stopIn_eq (h : e.OpensLine n) (hp : (t.cut 10)[e.line]? = some p) :
    e.stopIn t = (t.before e.line).length + p.byteOffset e.range.stop.character := by
  unfold line at hp ⊢
  simp only [stopIn, Position.offsetIn, h.same_line, hp]

theorem applyTo_eq (h : e.OpensLine n) (hp : (t.cut 10)[e.line]? = some p) {post : Text}
    (ht : t = t.before e.line ++ p ++ post) :
    applyTo t e = t.before e.line ++ e.inPiece p ++ post := by
  rw [applyTo, startIn_eq h hp, stopIn_eq h hp, Nat.max_eq_right (Nat.le_add_right _ _),
    Text.take_of_eq_append ht, Text.drop_of_eq_append ht (p.byteOffset_le_length _), inPiece]
  simp only [List.append_assoc]

theorem not_mem_inPiece (h : e.OpensLine n) (hp : 10 ∉ p) : 10 ∉ e.inPiece p := by
  intro hmem
  rcases List.mem_append.1 hmem with hm | hm
  · exact h.no_feed hm
  · exact hp (List.mem_of_mem_drop hm)

theorem cut_applyTo (h : e.OpensLine (t.cut 10).length) :
    (applyTo t e).cut 10 = (t.cut 10).modify e.line e.inPiece := by
  obtain ⟨p, hp⟩ := h.exists_piece
  obtain ⟨post, ht, hcut⟩ := Text.eq_before_append hp
  have hfree : 10 ∉ p := Text.not_mem_of_mem_cut (List.mem_of_getElem? hp)
  rw [applyTo_eq h hp ht, hcut _ (not_mem_inPiece h hfree)]

end OneEdit

/-! ## Many edits -/

/-- Carry out edits one after the other, the last edit first. -/
def applyBack (t : Text) (es : List TextEdit) : Text := es.foldr (fun e doc => applyTo doc e) t

/-- What this does to the pieces, if the edits are at the beginning of lines. -/
def revise (es : List TextEdit) (ps : List Text) : List Text :=
  es.foldr (fun e ps => ps.modify e.line e.inPiece) ps

section ManyEdits

variable {t : Text} {es : List TextEdit}

theorem length_revise (es : List TextEdit) (ps : List Text) :
    (revise es ps).length = ps.length := by
  induction es with
  | nil => rfl
  | cons e es ih => rw [revise, List.foldr_cons, List.length_modify, ← revise, ih]

theorem getElem?_revise_of_ne (ps : List Text) {i : Nat} (h : ∀ e ∈ es, e.line ≠ i) :
    (revise es ps)[i]? = ps[i]? := by
  induction es with
  | nil => rfl
  | cons e es ih =>
    rw [revise, List.foldr_cons, List.getElem?_modify_ne _ _ (h e List.mem_cons_self), ← revise]
    exact ih fun e' he' => h e' (List.mem_cons_of_mem e he')

theorem getElem?_revise_of_mem (ps : List Text) (hd : es.Pairwise fun e e' => e.line ≠ e'.line)
    {e : TextEdit} (he : e ∈ es) : (revise es ps)[e.line]? = ps[e.line]?.map e.inPiece := by
  induction es with
  | nil => simp at he
  | cons e' es ih =>
    obtain ⟨hhead, htail⟩ := List.pairwise_cons.1 hd
    rw [revise, List.foldr_cons, ← revise]
    rcases List.mem_cons.1 he with rfl | he
    · rw [List.getElem?_modify_eq, getElem?_revise_of_ne ps fun x hx => (hhead x hx).symm]
      rfl
    · rw [List.getElem?_modify_ne _ _ (hhead e he), ih htail he]

theorem cut_applyBack (h : ∀ e ∈ es, e.OpensLine (t.cut 10).length) :
    (applyBack t es).cut 10 = revise es (t.cut 10) := by
  induction es with
  | nil => rfl
  | cons e es ih =>
    have hrest := ih fun e' he' => h e' (List.mem_cons_of_mem e he')
    have hopens : e.OpensLine ((applyBack t es).cut 10).length := by
      rw [hrest, length_revise]
      exact h e List.mem_cons_self
    calc (applyTo (applyBack t es) e).cut 10
        = ((applyBack t es).cut 10).modify e.line e.inPiece := cut_applyTo hopens
      _ = (revise es (t.cut 10)).modify e.line e.inPiece := by rw [hrest]

theorem startIn_le_stopIn {e : TextEdit} (h : e.OpensLine (t.cut 10).length) :
    e.startIn t ≤ e.stopIn t := by
  obtain ⟨p, hp⟩ := h.exists_piece
  rw [startIn_eq h hp, stopIn_eq h hp]
  exact Nat.le_add_right _ _

/-- The range of an edit ends before the next lines begin. -/
theorem stopIn_lt_startIn {e e' : TextEdit} (h : e.OpensLine (t.cut 10).length)
    (h' : e'.OpensLine (t.cut 10).length) (hlt : e.line < e'.line) :
    e.stopIn t < e'.startIn t := by
  obtain ⟨p, hp⟩ := h.exists_piece
  obtain ⟨p', hp'⟩ := h'.exists_piece
  have hline := Text.length_before_lt hlt hp
  have hrange := p.byteOffset_le_length e.range.stop.character
  rw [stopIn_eq h hp, startIn_eq h' hp']
  omega

/-- Edits of later lines leave the text up to a line alone. -/
theorem applyBack_frame {n : Nat} {p : Text} (h : ∀ e ∈ es, e.OpensLine (t.cut 10).length)
    (hlater : ∀ e ∈ es, n < e.line) (hp : (t.cut 10)[n]? = some p) :
    ((applyBack t es).cut 10)[n]? = some p ∧ (applyBack t es).before n = t.before n := by
  have hsame : ∀ i ≤ n, ((applyBack t es).cut 10)[i]? = (t.cut 10)[i]? := by
    intro i hi
    rw [cut_applyBack h, getElem?_revise_of_ne]
    intro e he
    have := hlater e he
    omega
  refine ⟨(hsame n (Nat.le_refl n)).trans hp, ?_⟩
  exact Text.before_congr fun i hi => hsame i (Nat.le_of_lt hi)

/-- For edits in line order, replacing all ranges at once is replacing them from the last one
back: what comes later in the text does not move what comes earlier. -/
theorem spliceFrom_eq (h : ∀ e ∈ es, e.OpensLine (t.cut 10).length)
    (hs : es.Pairwise fun e e' => e.line < e'.line) {pos : Nat}
    (hpos : ∀ e ∈ es.head?, pos ≤ e.startIn t) :
    spliceFrom t pos es = some ((applyBack t es).drop pos) := by
  induction es generalizing pos with
  | nil => rfl
  | cons e es ih =>
    have he := h e List.mem_cons_self
    have hes : ∀ e' ∈ es, e'.OpensLine (t.cut 10).length :=
      fun e' he' => h e' (List.mem_cons_of_mem e he')
    obtain ⟨hlater, htail⟩ := List.pairwise_cons.1 hs
    obtain ⟨p, hp⟩ := he.exists_piece
    let k := p.byteOffset e.range.stop.character
    have hk : k ≤ p.length := p.byteOffset_le_length _
    let doc := applyBack t es
    obtain ⟨hpdoc, hbefore⟩ :
        (doc.cut 10)[e.line]? = some p ∧ doc.before e.line = t.before e.line :=
      applyBack_frame hes hlater hp
    obtain ⟨post, ht, -⟩ := Text.eq_before_append hp
    obtain ⟨post', hdoc, -⟩ := Text.eq_before_append hpdoc
    have happly := applyTo_eq he hpdoc hdoc
    rw [hbefore] at hdoc happly
    have hstart := startIn_eq he hp
    have hstop : e.stopIn t = (t.before e.line).length + k := stopIn_eq he hp
    have hposle : pos ≤ e.startIn t := hpos e rfl
    have hrest := ih hes htail fun e' he' =>
      have hmem := List.mem_of_mem_head? he'
      Nat.le_of_lt (stopIn_lt_startIn he (hes e' hmem) (hlater e' hmem))
    rw [spliceFrom, if_pos ⟨hposle, startIn_le_stopIn he⟩, hrest, Option.map_some, hstart,
      Text.take_of_eq_append ht]
    rw [hstart] at hposle
    refine congrArg some ?_
    calc (t.before e.line).drop pos ++ e.newText ++ doc.drop (e.stopIn t)
        = (t.before e.line).drop pos ++ (e.inPiece p ++ post') := by
          rw [hstop, Text.drop_of_eq_append hdoc hk, inPiece]
          simp only [List.append_assoc]
          rfl
      _ = (t.before e.line ++ (e.inPiece p ++ post')).drop pos :=
          (List.drop_append_of_le_length hposle).symm
      _ = (applyTo doc e).drop pos := by rw [happly, List.append_assoc]

/-- Sorting by ranges restores the line order. -/
theorem mergeSort_eq {base : List TextEdit} (h : ∀ e ∈ base, e.OpensLine (t.cut 10).length)
    (hs : base.Pairwise fun e e' => e.line < e'.line) (hp : es.Perm base) :
    es.mergeSort (fun e e' => e.startIn t ≤ e'.startIn t) = base := by
  have hperm := (List.mergeSort_perm es fun e e' => e.startIn t ≤ e'.startIn t).trans hp
  have hbase : base.Pairwise fun e e' => e.startIn t < e'.startIn t :=
    hs.imp_of_mem fun he he' hlt =>
      Nat.lt_of_le_of_lt (startIn_le_stopIn (h _ he)) (stopIn_lt_startIn (h _ he) (h _ he') hlt)
  -- no two edits start at the same byte, so what is sorted is sorted strictly
  have hne := (hbase.imp Nat.ne_of_lt).perm hperm.symm Ne.symm
  have hle : (es.mergeSort fun e e' => e.startIn t ≤ e'.startIn t).Pairwise
      fun e e' => decide (e.startIn t ≤ e'.startIn t) = true :=
    List.pairwise_mergeSort (fun _ _ _ => by simpa using Nat.le_trans)
      (fun _ _ => by simpa using Nat.le_total _ _) es
  have hsorted := (hle.and hne).imp fun h => Nat.lt_of_le_of_ne (of_decide_eq_true h.1) h.2
  exact hperm.eq_of_pairwise (fun _ _ _ _ hlt hgt => absurd hgt (Nat.lt_asymm hlt)) hsorted hbase

end ManyEdits

/-! ## The edits of a document -/

section Formatting

variable (c : Catalog) (t : Text) (s : Style)

theorem mem_formatting (e : TextEdit) :
    e ∈ (Edit.compute c t.lines s).map ofEdit ↔
      ∃ (i : Nat) (raw : Text) (d : Depth), t.lines[i]? = some raw ∧
        (Line.depths c .root t.lines)[i]? = some d ∧
        raw.leadingChars.length ≠ (s.indentation d.level).length ∧
        e = ⟨.inLine i 0 raw.leadingChars.length, s.indentation d.level⟩ := by
  rw [List.mem_map]
  constructor
  · rintro ⟨e', he', rfl⟩
    obtain ⟨i, raw, d, hraw, hd, hne, rfl⟩ := (Edit.mem_compute c t.lines s e').1 he'
    exact ⟨i, raw, d, hraw, hd, hne, rfl⟩
  · rintro ⟨i, raw, d, hraw, hd, hne, rfl⟩
    exact ⟨_, (Edit.mem_compute c t.lines s _).2 ⟨i, raw, d, hraw, hd, hne, rfl⟩, rfl⟩

theorem opensLine_formatting :
    ∀ e ∈ (Edit.compute c t.lines s).map ofEdit, e.OpensLine (t.cut 10).length := by
  intro e he
  obtain ⟨i, raw, d, hraw, -, -, rfl⟩ := (mem_formatting c t s e).1 he
  obtain ⟨ps, tail, hcut, hlines, -⟩ := exists_cut_formatText c t s
  have hlt : i < t.lines.length := (List.getElem?_eq_some_iff.1 hraw).1
  rw [hlines, List.length_map] at hlt
  refine ⟨?_, rfl, rfl, (s.indentation_isPadding _).not_mem (by decide) (by decide)⟩
  rw [hcut, List.length_append]
  exact Nat.lt_of_lt_of_le hlt (Nat.le_add_right _ _)

theorem formatting_pairwise :
    ((Edit.compute c t.lines s).map ofEdit).Pairwise fun e e' => e.line < e'.line := by
  rw [List.pairwise_map]
  refine (Edit.compute_pairwise c t.lines s).imp_of_mem ?_
  intro e e' he he' hlt
  obtain ⟨i, _, _, _, _, _, rfl⟩ := (Edit.mem_compute c t.lines s e).1 he
  obtain ⟨j, _, _, _, _, _, rfl⟩ := (Edit.mem_compute c t.lines s e').1 he'
  exact Int.ofNat_lt.1 hlt

end Formatting

/-- The edit that brings a row to a depth, if it has one, does so on the piece of the row: the
carriage return is behind its range. -/
theorem inPiece_toPiece (s : Style) (d : Depth) (r : Row) (line : Int)
    (h : r.body.leadingChars.length ≠ (s.indentation d.level).length) :
    inPiece ⟨.inLine line 0 r.body.leadingChars.length, s.indentation d.level⟩ r.toPiece =
      (reindentRow s d r).toPiece := by
  rw [inPiece, Range.inLine, r.byteOffset_toPiece (Nat.le_refl _), r.drop_leading_toPiece,
    Row.toPiece_eq_append, reindentRow, reindent, if_neg h, List.append_assoc]

section AnyOrder

variable {c : Catalog} {t : Text} {s : Style} {es : List TextEdit}

/-- A line that is right as it is has no edit; any other has the one that makes it right. -/
theorem getElem?_revise_line (h : es.Perm ((Edit.compute c t.lines s).map ofEdit)) {i : Nat}
    {r : Row} {d : Depth} (hp : (t.cut 10)[i]? = some r.toPiece)
    (hline : t.lines[i]? = some r.body) (hd : (Line.depths c .root t.lines)[i]? = some d) :
    (revise es (t.cut 10))[i]? = some (reindentRow s d r).toPiece := by
  have hmem := fun e => h.mem_iff.trans (mem_formatting c t s e)
  by_cases hl : r.body.leadingChars.length = (s.indentation d.level).length
  · have hnone : ∀ e ∈ es, e.line ≠ i := by
      intro e he heq
      obtain ⟨j, raw, d', hraw, hd', hne, rfl⟩ := (hmem e).1 he
      obtain rfl : j = i := heq
      rw [hline] at hraw
      rw [hd] at hd'
      cases hraw
      cases hd'
      exact hne hl
    rw [getElem?_revise_of_ne _ hnone, hp, reindentRow, reindent, if_pos hl]
  · have hdistinct : es.Pairwise fun e e' => e.line ≠ e'.line :=
      ((formatting_pairwise c t s).imp Nat.ne_of_lt).perm h.symm Ne.symm
    have he := (hmem _).2 ⟨i, r.body, d, hline, hd, hl, rfl⟩
    have hrev := getElem?_revise_of_mem (t.cut 10) hdistinct he
    rw [← inPiece_toPiece s d r i hl]
    exact hrev.trans (congrArg (Option.map _) hp)

theorem getElem?_revise_of_length_le (h : es.Perm ((Edit.compute c t.lines s).map ofEdit)) {i : Nat}
    (hi : t.lines.length ≤ i) : (revise es (t.cut 10))[i]? = (t.cut 10)[i]? := by
  apply getElem?_revise_of_ne
  intro e he heq
  obtain ⟨j, raw, d, hraw, -, -, rfl⟩ := (mem_formatting c t s e).1 (h.mem_iff.1 he)
  obtain rfl : j = i := heq
  have hlt := (List.getElem?_eq_some_iff.1 hraw).1
  omega

theorem revise_eq_cut_formatText (h : es.Perm ((Edit.compute c t.lines s).map ofEdit)) :
    revise es (t.cut 10) = (formatText c t s).cut 10 := by
  obtain ⟨ps, tail, hcut, hlines, hafter⟩ := exists_cut_formatText c t s
  have hlen : (formatPieces c s ps).length = ps.length := by
    simp [formatPieces, reindentRows]
  have hlenl : t.lines.length = ps.length := by rw [hlines, List.length_map]
  apply List.ext_getElem?
  intro i
  rw [hafter]
  by_cases hi : i < ps.length
  · have hp : ps[i]? = some ps[i] := List.getElem?_eq_getElem hi
    obtain ⟨d, hd⟩ : ∃ d, (Line.depths c .root t.lines)[i]? = some d := by
      have hlt : i < (Line.depths c .root t.lines).length := by rwa [Line.length_depths, hlenl]
      exact ⟨_, List.getElem?_eq_getElem hlt⟩
    have hzip : (ps.zip (Line.depths c .root t.lines))[i]? = some (ps[i], d) :=
      List.getElem?_zip_eq_some.2 ⟨hp, hd⟩
    rw [List.getElem?_append_left (hlen ▸ hi), getElem?_formatPieces, ← hlines, hzip,
      Option.map_some]
    apply getElem?_revise_line h
    · rw [hcut, List.getElem?_append_left hi, hp, Row.toPiece_ofPiece]
    · rw [hlines, List.getElem?_map, hp, Option.map_some]
    · exact hd
  · rw [getElem?_revise_of_length_le h (by omega), hcut, List.getElem?_append_right (by omega),
      List.getElem?_append_right (by omega), hlen]

theorem applyBack_eq_formatText (h : es.Perm ((Edit.compute c t.lines s).map ofEdit)) :
    applyBack t es = formatText c t s := by
  apply Text.eq_of_cut_eq 10
  rw [cut_applyBack fun e he => opensLine_formatting c t s e (h.mem_iff.1 he),
    revise_eq_cut_formatText h]

end AnyOrder

/-- **Editors and the formatter agree.** Whatever order the edits of a document come in, an editor
that replaces all their ranges at once gets the formatted text, and so does one that carries them
out one after the other. The columns of the edits are counted in characters on the lines and read
in UTF-16 units on the pieces, which is the same place within the leading white space. -/
theorem clientEdits_eq_formatText (c : Catalog) (t : Text) (s : Style) (es : List TextEdit)
    (h : es.Perm ((Edit.compute c t.lines s).map ofEdit)) :
    applyAll? t es = some (formatText c t s) ∧
    es.foldl applyTo t = formatText c t s ∧
    (∀ (i : Nat) (line p : Text), t.lines[i]? = some line → (t.cut 10)[i]? = some p →
      ∀ n ≤ line.leadingChars.length,
        p.byteOffset n = line.charOffset n ∧ p.utf16Col (line.charOffset n) = n) := by
  have hopens := opensLine_formatting c t s
  have hsorted := formatting_pairwise c t s
  refine ⟨?_, ?_, ?_⟩
  · rw [applyAll?, mergeSort_eq hopens hsorted h, spliceFrom_eq hopens hsorted (by simp),
      List.drop_zero, applyBack_eq_formatText (List.Perm.refl _)]
  · rw [List.foldl_eq_foldr_reverse]
    exact applyBack_eq_formatText (es.reverse_perm.trans h)
  · intro i line p hline hp n hn
    obtain ⟨ps, tail, hcut, hlines, -⟩ := exists_cut_formatText c t s
    have hlt : i < ps.length := by
      rw [← List.length_map, ← hlines]
      exact (List.getElem?_eq_some_iff.1 hline).1
    rw [hcut, List.getElem?_append_left hlt] at hp
    rw [hlines, List.getElem?_map, hp] at hline
    obtain rfl : (Row.ofPiece p).body = line := Option.some.inj hline
    have hbyte := (Row.ofPiece p).byteOffset_toPiece hn
    have hcol := (Row.ofPiece p).utf16Col_toPiece hn
    rw [Row.toPiece_ofPiece] at hbyte hcol
    exact ⟨hbyte, hcol⟩

/-- Three lines, indented by a wide blank, not at all and by a tab, with the edits in no order. -/
theorem clientEdits_eq_formatText_three :
    let c := Catalog.assemble { root := [⟨txt "rules:", [], []⟩] }
    let t : Text := [0xE3, 0x80, 0x80] ++ txt "rules:\r\nx\r\n\t\r"
    let es : List TextEdit :=
      [⟨.inLine 1 0 0, txt "  "⟩, ⟨.inLine 2 0 1, txt "  "⟩, ⟨.inLine 0 0 1, []⟩]
    let t' : Text := txt "rules:\r\n  x\r\n  \r"
    es.Perm ((Edit.compute c t.lines {}).map ofEdit) ∧
      applyAll? t es = some t' ∧ es.foldl applyTo t = t' := by
  intro c t es t'
  have hperm : es.Perm ((Edit.compute c t.lines {}).map ofEdit) := by decide +kernel
  have hresult : formatText c t {} = t' := by decide +kernel
  obtain ⟨hall, hfold, -⟩ := clientEdits_eq_formatText c t {} es hperm
  exact ⟨hperm, hresult ▸ hall, hresult ▸ hfold⟩

end TextEdit

end RuleLang
