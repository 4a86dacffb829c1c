import RuleLang.Proofs.Numeral.Spelling
import RuleLang.Proofs.Server.Removal
import RuleLang.Proofs.Text.Trimming

/-!
# RuleLang.Proofs.Server.HeaderGrammar

The grammar of frame headers. A `HeaderBlock` is a row of lines and the empty line after them; of
its lines only those that name a content length say anything (`HeaderBlock.values`). Reading such a
block takes its lines one by one (`Frame.readHead_block`), so the outcome depends on the values and
on the text behind the block alone (`Frame.judge`), and a head that is complete is such a block
(`Frame.exists_block_of_complete`).

`Frame.first_header_grammar` puts both directions together: which streams hold a frame, and when a
complete block is refused, with which fault.
-/

namespace RuleLang

/-! ## Line ends are white space -/

namespace Text

theorem dropWhile_rdropWhile_append {α : Type} {p : α → Bool} (xs : List α) {ys : List α}
    (h : ∀ y ∈ ys, p y = true) :
    ((xs ++ ys).dropWhile p).rdropWhile p = (xs.dropWhile p).rdropWhile p := by
  induction ys using List.reverseRecOn with
  | nil => rw [List.append_nil]
  | append_singleton ys y ih =>
    have hy : p y = true := h y (by simp)
    rw [← ih fun z hz => h z (by simp [hz]), ← List.append_assoc, List.dropWhile_append]
    split
    · rename_i hempty
      simp [List.isEmpty_iff.1 hempty, hy]
    · exact List.rdropWhile_concat_pos p _ y hy

theorem trim_eq (t : Text) :
    t.trim = ofChars ((t.chars.dropWhile TextChar.isBlank).rdropWhile TextChar.isBlank) := by
  rw [← chars_trimLeft, ← chars_trim, ofChars_chars]

/-- Carriage returns and line feeds at the end of a text are trimmed, whatever is before them: they
do not complete a sequence of bytes. -/
theorem trim_append_of_lineEnd (s : Text) {w : Text} (h : ∀ b ∈ w, b = 13 ∨ b = 10) :
    (s ++ w).trim = s.trim := by
  have hascii : ∀ b ∈ w, b < 0x80 := by
    intro b hb
    rcases h b hb with rfl | rfl <;> decide
  have hfresh : Utf8.Fresh w := by
    cases w with
    | nil => exact Utf8.fresh_nil
    | cons b w => exact Utf8.fresh_cons w (hascii b List.mem_cons_self)
  have hblank : ∀ r ∈ w.chars, r.isBlank = true := by
    rw [chars_ascii hascii]
    intro r hr
    obtain ⟨b, hb, rfl⟩ := List.mem_map.1 hr
    rcases h b hb with rfl | rfl <;> decide
  rw [trim_eq, trim_eq, chars_append s hfresh, dropWhile_rdropWhile_append _ hblank]

end Text

/-! ## Header blocks -/

/-- A line that ends in its only line feed, with more than carriage returns before it. -/
def IsHeaderLine (l : Text) : Prop := ∃ s, l = s ++ [10] ∧ 10 ∉ s ∧ ∃ b ∈ s, b ≠ 13

/-- Header lines, and how many carriage returns the line after them has before its line feed. -/
structure HeaderBlock where
  lines : List Text
  returns : Nat
  isLine : ∀ l ∈ lines, IsHeaderLine l

namespace HeaderBlock

def lengthName : Text := txt "content-length:"

/-- Does the line begin with the name, in whatever case? -/
def namesLength (l : Text) : Bool := lengthName.isPrefixOf (l.map Text.lowerByte)

def lengthText (l : Text) : Text := Text.trim (l.drop lengthName.length)

/-- What the lines that name a content length give for it. -/
def values (h : HeaderBlock) : List Text := (h.lines.filter namesLength).map lengthText

def text (h : HeaderBlock) : Text := h.lines.flatten ++ (List.replicate h.returns 13 ++ [10])

/-- The integers that the values spell. -/
def Lengths (h : HeaderBlock) (ns : List Int) : Prop :=
  List.Forall₂ Numeral.SpellsWord h.values ns

theorem namesLength_append {u w : Text} (h : ∀ b ∈ w, b = 13 ∨ b = 10) :
    namesLength (u ++ w) = true ↔ (u.take lengthName.length).map Text.lowerByte = lengthName := by
  unfold namesLength
  rw [List.isPrefixOf_iff_prefix, List.map_append]
  constructor
  · intro hpre
    rcases List.prefix_or_prefix_of_prefix hpre (List.prefix_append _ _) with hu | ⟨v, hv⟩
    · rw [List.map_take]
      exact (List.prefix_iff_eq_take.1 hu).symm
    · -- the name has no line end, so none of it is left for `w`
      rw [← hv, List.prefix_append_right_inj] at hpre
      cases v with
      | nil =>
        rw [List.append_nil] at hv
        rw [List.take_of_length_le (by rw [← hv, List.length_map]), hv]
      | cons b v =>
        obtain ⟨c, hc, rfl⟩ := List.mem_map.1 (hpre.subset List.mem_cons_self)
        have hname : Text.lowerByte c ∈ lengthName := by
          rw [← hv]
          simp
        rcases h c hc with rfl | rfl <;> exact absurd hname (by decide)
  · intro hname
    rw [List.map_take] at hname
    exact (hname ▸ List.take_prefix _ _).trans (List.prefix_append _ _)

/-- Line ends do not count: the value is that of the line without them. -/
theorem lengthValue?_of_line {s : Text} :
    Frame.lengthValue? (s.reverse.dropWhile (· = 13)).reverse =
      if namesLength (s ++ [10]) then some (lengthText (s ++ [10])) else none := by
  generalize hu : (s.reverse.dropWhile (· = 13)).reverse = u
  obtain ⟨w, rfl, hw⟩ : ∃ w, s = u ++ w ∧ ∀ b ∈ w, b = 13 := by
    refine ⟨s.rtakeWhile (· = 13), ?_, fun b hb => ?_⟩
    · rw [← hu]
      exact (List.rdropWhile_append_rtakeWhile).symm
    · simpa using List.mem_rtakeWhile_imp hb
  have hend : ∀ b ∈ w ++ [10], b = 13 ∨ b = 10 := by
    intro b hb
    rcases List.mem_append.1 hb with hb | hb
    · exact .inl (hw b hb)
    · exact .inr (List.mem_singleton.1 hb)
  rw [List.append_assoc]
  have hnames := namesLength_append (u := u) hend
  by_cases hname : (u.take lengthName.length).map Text.lowerByte = lengthName
  · have hlen : lengthName.length ≤ u.length := by
      have h := congrArg List.length hname
      rw [List.length_map, List.length_take] at h
      omega
    rw [if_pos (hnames.2 hname), lengthText, List.drop_append_of_le_length hlen,
      Text.trim_append_of_lineEnd _ hend]
    exact if_pos hname
  · rw [if_neg (fun h => hname (hnames.1 h))]
    exact if_neg hname

end HeaderBlock

namespace Frame

open HeaderBlock

/-- What the last length makes of the text behind the header block. -/
def conclude : (length : Option Int) → (rest : Text) → Head
  | some (.ofNat n), rest => .complete n rest
  | _, _ => .faulty .missingLength

/-- What the values of a header block make of the text behind it; `length` is the last length
before them. -/
def judge (length : Option Int) : (values : List Text) → (rest : Text) → Head
  | [], rest => conclude length rest
  | v :: vs, rest =>
    match Numeral.decimal? v with
    | .ok n => judge (some n) vs rest
    | .error f => .faulty (.badLength v f)

theorem readHead_headerLine {s : Text} (hfeed : 10 ∉ s) (hmore : ∃ b ∈ s, b ≠ 13) (fuel : Nat)
    (length : Option Int) (rest : Text) :
    readHead (fuel + 1) length (s ++ 10 :: rest) =
      match (if namesLength (s ++ [10]) then some (lengthText (s ++ [10])) else none) with
      | none => readHead fuel length rest
      | some v =>
        match Numeral.decimal? v with
        | .ok n => readHead fuel (some n) rest
        | .error f => .faulty (.badLength v f) := by
  obtain ⟨b, hb, hne⟩ := hmore
  have hfull : (s.reverse.dropWhile (· = 13)).reverse.isEmpty = false := by
    rw [List.isEmpty_eq_false_iff]
    intro hnil
    have hall := List.rdropWhile_eq_nil_iff.1 hnil
    exact hne (by simpa using hall b hb)
  rw [readHead_line hfeed]
  dsimp only
  rw [hfull, ← lengthValue?_of_line]
  rfl

theorem readHead_endLine (fuel : Nat) (length : Option Int) (k : Nat) (rest : Text) :
    readHead (fuel + 1) length (List.replicate k 13 ++ 10 :: rest) = conclude length rest := by
  have hfeed : (10 : UInt8) ∉ List.replicate k 13 := by simp [List.mem_replicate]
  have hempty : ((List.replicate k (13 : UInt8)).reverse.dropWhile (· = 13)).reverse = [] :=
    List.rdropWhile_eq_nil_iff.2 (by simp [List.mem_replicate])
  rw [readHead_line hfeed]
  dsimp only
  rw [hempty, List.isEmpty_nil, if_pos rfl]
  rcases length with _ | n | n <;> rfl

/-- A block is read line by line, whatever is behind it. -/
theorem readHead_lines {lines : List Text} (h : ∀ l ∈ lines, IsHeaderLine l) (k : Nat)
    (rest : Text) {fuel : Nat} (hfuel : lines.length < fuel) (length : Option Int) :
    readHead fuel length (lines.flatten ++ (List.replicate k 13 ++ 10 :: rest)) =
      judge length ((lines.filter namesLength).map lengthText) rest := by
  induction lines generalizing fuel length with
  | nil =>
    obtain ⟨fuel, rfl⟩ : ∃ f, fuel = f + 1 := ⟨fuel - 1, by simp at hfuel; omega⟩
    exact readHead_endLine fuel length k rest
  | cons l lines ih =>
    obtain ⟨fuel, rfl⟩ : ∃ f, fuel = f + 1 := ⟨fuel - 1, by simp at hfuel; omega⟩
    have hshorter : lines.length < fuel := by
      simp at hfuel
      omega
    have hrest := ih (fun l hl => h l (by simp [hl])) hshorter
    obtain ⟨s, rfl, hfeed, hmore⟩ := h l List.mem_cons_self
    rw [List.flatten_cons, List.append_assoc, List.append_assoc, List.singleton_append,
      readHead_headerLine hfeed hmore]
    by_cases hnames : namesLength (s ++ [10]) = true
    · rw [List.filter_cons_of_pos hnames, if_pos hnames, List.map_cons]
      simp only [judge]
      cases Numeral.decimal? (lengthText (s ++ [10])) with
      | ok n => exact hrest (some n)
      | error f => rfl
    · rw [List.filter_cons_of_neg hnames, if_neg hnames]
      exact hrest length

theorem length_le_flatten {lines : List Text} (h : ∀ l ∈ lines, IsHeaderLine l) :
    lines.length ≤ lines.flatten.length := by
  induction lines with
  | nil => exact Nat.le_refl _
  | cons l lines ih =>
    have hlines := ih fun l hl => h l (by simp [hl])
    obtain ⟨s, rfl, -, -⟩ := h l List.mem_cons_self
    simp only [List.length_cons, List.flatten_cons, List.length_append, List.length_nil]
    omega

theorem readHead_block (h : HeaderBlock) (rest : Text) :
    readHead (h.text ++ rest).length none (h.text ++ rest) = judge none h.values rest := by
  have hlines := length_le_flatten h.isLine
  have htext : h.text ++ rest =
      h.lines.flatten ++ (List.replicate h.returns 13 ++ 10 :: rest) := by
    simp [HeaderBlock.text]
  rw [htext, readHead_lines h.isLine, HeaderBlock.values]
  simp only [List.length_append, List.length_cons]
  omega

theorem exists_block_of_complete {fuel : Nat} {length : Option Int} {t : Text} {n : Nat}
    {rest : Text} (h : readHead fuel length t = .complete n rest) :
    ∃ block : HeaderBlock, t = block.text ++ rest := by
  induction fuel generalizing length t with
  | zero => cases h
  | succ fuel ih =>
    by_cases hfeed : 10 ∈ t
    · obtain ⟨s, rest', rfl, hs⟩ := List.eq_append_cons_of_mem hfeed
      by_cases hmore : ∃ b ∈ s, b ≠ 13
      · obtain ⟨length', hrest⟩ : ∃ length', readHead fuel length' rest' = .complete n rest := by
          rw [readHead_headerLine hs hmore] at h
          split at h
          · exact ⟨_, h⟩
          · split at h
            · exact ⟨_, h⟩
            · cases h
        obtain ⟨block, rfl⟩ := ih hrest
        refine ⟨⟨(s ++ [10]) :: block.lines, block.returns, ?_⟩, ?_⟩
        · intro l hl
          rcases List.mem_cons.1 hl with rfl | hl
          · exact ⟨s, rfl, hs, hmore⟩
          · exact block.isLine l hl
        · simp [HeaderBlock.text]
      · have hreturns : s = List.replicate s.length 13 := by
          rw [List.eq_replicate_iff]
          exact ⟨rfl, fun b hb => by_contra fun hne => hmore ⟨b, hb, hne⟩⟩
        rw [hreturns, readHead_endLine] at h
        refine ⟨⟨[], s.length, by simp⟩, ?_⟩
        unfold conclude at h
        split at h
        · cases h
          rw [hreturns]
          simp [HeaderBlock.text]
        · cases h
    · rw [readHead_of_not_mem _ _ hfeed] at h
      cases h

/-! ## What the values decide -/

theorem exists_lengths_or (h : HeaderBlock) :
    (∃ ns, h.Lengths ns) ∨ ∃ v ∈ h.values, ∀ n, ¬ Numeral.SpellsWord v n := by
  unfold HeaderBlock.Lengths
  induction h.values with
  | nil => exact .inl ⟨[], .nil⟩
  | cons v vs ih =>
    by_cases hv : ∃ n, Numeral.SpellsWord v n
    · obtain ⟨n, hn⟩ := hv
      rcases ih with ⟨ns, hns⟩ | ⟨v', hmem, hbad⟩
      · exact .inl ⟨n :: ns, .cons hn hns⟩
      · exact .inr ⟨v', by simp [hmem], hbad⟩
    · exact .inr ⟨v, by simp, fun n hn => hv ⟨n, hn⟩⟩

theorem nonneg_or_neg (length : Option Int) :
    (∃ n : Nat, length = some (n : Int)) ∨ ∀ n ∈ length, n < 0 := by
  cases length with
  | none => exact .inr (by simp)
  | some n =>
    cases n with
    | ofNat n => exact .inl ⟨n, rfl⟩
    | negSucc n => exact .inr (by simp [Int.negSucc_lt_zero])

theorem conclude_of_neg {length : Option Int} (h : ∀ n ∈ length, n < 0) (rest : Text) :
    conclude length rest = .faulty .missingLength := by
  unfold conclude
  split
  · rename_i n
    exact absurd (h n rfl) (by omega)
  · rfl

/-- Where all values are integers, the last of them counts. -/
theorem judge_of_forall₂ {vs : List Text} {ns : List Int}
    (h : List.Forall₂ Numeral.SpellsWord vs ns) (length : Option Int) (rest : Text) :
    judge length vs rest = conclude (ns.getLast?.or length) rest := by
  induction h generalizing length with
  | nil => rfl
  | @cons v n vs ns hv _ ih =>
    simp only [judge, Numeral.decimal?_eq_ok_iff.2 hv]
    rw [ih, List.getLast?_cons]
    cases ns.getLast? <;> rfl

/-- Where some value is no integer, the first such value is the fault. -/
theorem judge_of_bad {vs : List Text} (h : ∃ v ∈ vs, ∀ n, ¬ Numeral.SpellsWord v n)
    (length : Option Int) (rest : Text) :
    ∃ v f, judge length vs rest = .faulty (.badLength v f) := by
  induction vs generalizing length with
  | nil =>
    obtain ⟨v, hmem, -⟩ := h
    cases hmem
  | cons v vs ih =>
    simp only [judge]
    cases hv : Numeral.decimal? v with
    | error f => exact ⟨v, f, rfl⟩
    | ok n =>
      obtain ⟨v', hmem, hbad⟩ := h
      rcases List.mem_cons.1 hmem with rfl | hmem
      · exact absurd (Numeral.decimal?_eq_ok_iff.1 hv) (hbad n)
      · exact ih ⟨v', hmem, hbad⟩ (some n)

/-! ## Frames behind header blocks -/

section

variable {h : HeaderBlock} {ns : List Int}

theorem first_of_length (hns : h.Lengths ns) {n : Nat} (hn : ns.getLast? = some (n : Int))
    (rest : Text) :
    first (h.text ++ rest) = if (rest.take n).length = n then .frame (rest.take n) (rest.drop n)
      else .wait (!(rest.take n).isEmpty) := by
  unfold first
  rw [readHead_block, judge_of_forall₂ hns, hn]
  rfl

theorem first_of_missing (hns : h.Lengths ns) (hneg : ∀ n ∈ ns.getLast?, n < 0) (rest : Text) :
    first (h.text ++ rest) = .faulty .missingLength := by
  unfold first
  rw [readHead_block, judge_of_forall₂ hns, Option.or_none, conclude_of_neg hneg]

theorem first_of_bad (hbad : ∃ v ∈ h.values, ∀ n, ¬ Numeral.SpellsWord v n) (rest : Text) :
    ∃ v f, first (h.text ++ rest) = .faulty (.badLength v f) := by
  obtain ⟨v, f, hfault⟩ := judge_of_bad hbad none rest
  refine ⟨v, f, ?_⟩
  unfold first
  rw [readHead_block, hfault]

end

/-- The outcomes for a complete block, by what its values are. -/
theorem first_block_cases (h : HeaderBlock) (rest : Text) :
    (∃ ns, ∃ n : Nat, h.Lengths ns ∧ ns.getLast? = some (n : Int) ∧
      first (h.text ++ rest) = if (rest.take n).length = n then .frame (rest.take n) (rest.drop n)
        else .wait (!(rest.take n).isEmpty)) ∨
    (∃ ns, h.Lengths ns ∧ (∀ n ∈ ns.getLast?, n < 0) ∧
      first (h.text ++ rest) = .faulty .missingLength) ∨
    ((∃ v ∈ h.values, ∀ n, ¬ Numeral.SpellsWord v n) ∧
      ∃ v f, first (h.text ++ rest) = .faulty (.badLength v f)) := by
  rcases exists_lengths_or h with ⟨ns, hns⟩ | hbad
  · rcases nonneg_or_neg ns.getLast? with ⟨n, hn⟩ | hneg
    · exact .inl ⟨ns, n, hns, hn, first_of_length hns hn rest⟩
    · exact .inr (.inl ⟨ns, hns, hneg, first_of_missing hns hneg rest⟩)
  · exact .inr (.inr ⟨hbad, first_of_bad hbad rest⟩)

theorem first_eq_frame_iff {t b rest : Text} :
    first t = .frame b rest ↔ ∃ (h : HeaderBlock) (ns : List Int),
      t = h.text ++ (b ++ rest) ∧ h.Lengths ns ∧ ns.getLast? = some (b.length : Int) := by
  constructor
  · intro hfirst
    obtain ⟨h, back, rfl⟩ : ∃ (h : HeaderBlock) (back : Text), t = h.text ++ back := by
      unfold first at hfirst
      split at hfirst
      · cases hfirst
      · cases hfirst
      · rename_i hread
        obtain ⟨h, ht⟩ := exists_block_of_complete hread
        exact ⟨h, _, ht⟩
    rcases first_block_cases h back with ⟨ns, n, hns, hn, heq⟩ | ⟨-, -, -, heq⟩ | ⟨-, v, f, heq⟩
    · rw [heq] at hfirst
      split at hfirst
      · rename_i hlen
        cases hfirst
        exact ⟨h, ns, by rw [List.take_append_drop], hns, by rw [hn, hlen]⟩
      · cases hfirst
    · rw [heq] at hfirst
      cases hfirst
    · rw [heq] at hfirst
      cases hfirst
  · rintro ⟨h, ns, rfl, hns, hlast⟩
    rw [first_of_length hns hlast, List.take_left, List.drop_left, if_pos rfl]

theorem first_eq_badLength_iff (h : HeaderBlock) (rest : Text) :
    (∃ v f, first (h.text ++ rest) = .faulty (.badLength v f)) ↔
      ∃ v ∈ h.values, ∀ n, ¬ Numeral.SpellsWord v n := by
  refine ⟨?_, fun hbad => first_of_bad hbad rest⟩
  rintro ⟨v, f, hfault⟩
  rcases first_block_cases h rest with ⟨-, n, -, -, heq⟩ | ⟨-, -, -, heq⟩ | ⟨hbad, -⟩
  · rw [heq] at hfault
    split at hfault <;> cases hfault
  · rw [heq] at hfault
    cases hfault
  · exact hbad

theorem first_eq_missingLength_iff (h : HeaderBlock) (rest : Text) :
    first (h.text ++ rest) = .faulty .missingLength ↔
      ∃ ns, h.Lengths ns ∧ ∀ n ∈ ns.getLast?, n < 0 := by
  refine ⟨fun hmissing => ?_, fun ⟨ns, hns, hneg⟩ => first_of_missing hns hneg rest⟩
  rcases first_block_cases h rest with ⟨-, n, -, -, heq⟩ | ⟨ns, hns, hneg, -⟩ | ⟨-, v, f, heq⟩
  · rw [heq] at hmissing
    split at hmissing <;> cases hmissing
  · exact ⟨ns, hns, hneg⟩
  · rw [heq] at hmissing
    cases hmissing

/-- A stream holds a frame if and only if it is a header block with lengths, a body as long as the
last of them, and the rest. A complete block is refused for an invalid length if and only if some
value spells no 64-bit integer, and for a missing one if and only if all do, but the last is
negative or there is none. Lines that name no length never matter. -/
theorem first_header_grammar :
    (∀ t b rest, first t = .frame b rest ↔ ∃ (h : HeaderBlock) (ns : List Int),
      t = h.text ++ (b ++ rest) ∧ h.Lengths ns ∧ ns.getLast? = some (b.length : Int)) ∧
    (∀ h : HeaderBlock, ∀ rest,
      ((∃ v f, first (h.text ++ rest) = .faulty (.badLength v f)) ↔
        ∃ v ∈ h.values, ∀ n, ¬ Numeral.SpellsWord v n) ∧
      (first (h.text ++ rest) = .faulty .missingLength ↔
        ∃ ns, h.Lengths ns ∧ ∀ n ∈ ns.getLast?, n < 0)) ∧
    (∀ h h' : HeaderBlock, ∀ rest, h.values = h'.values →
      first (h.text ++ rest) = first (h'.text ++ rest)) ∧
    (∀ v f, txt "invalid Content-Length " <+: (FrameError.badLength v f).message) ∧
    FrameError.missingLength.message = txt "missing Content-Length header" := by
  refine ⟨fun t b rest => first_eq_frame_iff, fun h rest =>
    ⟨first_eq_badLength_iff h rest, first_eq_missingLength_iff h rest⟩, ?_, ?_, rfl⟩
  · intro h h' rest hvalues
    unfold first
    rw [readHead_block, readHead_block, hvalues]
  · intro v f
    simp only [FrameError.message, List.append_assoc]
    exact List.prefix_append _ _

theorem first_header_grammar_other_line :
    ∃ h h' : HeaderBlock, h.text = txt "Content-Length: 2\r\n\r\n" ∧
      h'.text = txt "X-Content-Length: 9\ncONTENT-lENGTH:\t2 \r\r\n\r\r\n" ∧ h.values = h'.values ∧
      first (h.text ++ txt "ok") = first (h'.text ++ txt "ok") := by
  have hline : IsHeaderLine (txt "Content-Length: 2\r\n") :=
    ⟨txt "Content-Length: 2\r", by decide, by decide, 67, by decide, by decide⟩
  have hother : IsHeaderLine (txt "X-Content-Length: 9\n") :=
    ⟨txt "X-Content-Length: 9", by decide, by decide, 88, by decide, by decide⟩
  have hcased : IsHeaderLine (txt "cONTENT-lENGTH:\t2 \r\r\n") :=
    ⟨txt "cONTENT-lENGTH:\t2 \r\r", by decide, by decide, 99, by decide, by decide⟩
  refine ⟨⟨[txt "Content-Length: 2\r\n"], 1, by simpa using hline⟩,
    ⟨[txt "X-Content-Length: 9\n", txt "cONTENT-lENGTH:\t2 \r\r\n"], 2, by simp [hother, hcased]⟩,
    rfl, rfl, ?_, first_header_grammar.2.2.1 _ _ _ ?_⟩
  all_goals
    simp only [values]
    decide +kernel

end Frame

end RuleLang
