import Mathlib.Order.Bounds.Basic
import RuleLang.Proofs.Editor.LineParts

/-!
# RuleLang.Proofs.Editor.LineGrammar

The grammars that the scanners of a line recognise.

* A comment begins at a `#` outside quotation marks, at the beginning or after a blank
  (`Text.CommentAt`). What stands outside quotation marks is told by the text before it: it is plain
  bytes and closed quotations (`Text.Unquoted`). The scanner carries the open quotation mark along
  (`quoteAfter`), which comes to the same (`Text.unquoted_iff`), and so it stops at the first place
  where a comment can begin (`splitComment_isLeast`).
* A key stands behind an optional `- ` and before a colon that ends the line or is followed by a
  blank (`KeyForm`). A line has this form in one way at most (`KeyForm.unique`), and the scanner finds
  it (`KeyForm.splitKey?_eq`, `exists_keyForm`).
-/

namespace RuleLang

/-! ## Quotations -/

namespace Text

/-- Plain bytes and closed quotations: a quotation mark opens a quotation, and the next mark of its
kind closes it. -/
inductive Unquoted : Text → Prop where
  | nil : Unquoted []
  | plain {b : UInt8} {t : Text} : b ≠ 34 → b ≠ 39 → Unquoted t → Unquoted (b :: t)
  | quotation {q : UInt8} {s t : Text} :
      q = 34 ∨ q = 39 → q ∉ s → Unquoted t → Unquoted (q :: (s ++ q :: t))

/-- A comment can begin at byte `i`: there is a `#`, at the beginning or after a blank, and no
quotation is open. -/
structure CommentAt (s : Text) (i : Nat) : Prop where
  mark : s[i]? = some 35
  after_blank : i = 0 ∨ ∃ k b, i = k + 1 ∧ s[k]? = some b ∧ (b = 32 ∨ b = 9)
  unquoted : Unquoted (s.take i)

end Text

/-- The quotation mark that is open behind a byte. -/
def quoteStep : Option UInt8 → UInt8 → Option UInt8
  | some q, b => if b = q then none else some q
  | none, b => if b = 34 || b = 39 then some b else none

/-- The quotation mark that is open behind a text. -/
def quoteAfter (quote : Option UInt8) (t : Text) : Option UInt8 := t.foldl quoteStep quote

theorem quoteAfter_quotation {q : UInt8} {s : Text} (h : q ∉ s) (t : Text) :
    quoteAfter (some q) (s ++ q :: t) = quoteAfter none t := by
  induction s with
  | nil => simp [quoteAfter, quoteStep]
  | cons b s ih =>
    rw [List.mem_cons, not_or] at h
    have hb : b ≠ q := fun heq => h.1 heq.symm
    have hrest := ih h.2
    simpa [quoteAfter, quoteStep, hb] using hrest

/-- An open quotation is closed by the first mark of its kind. -/
theorem exists_quotation {q : UInt8} {t : Text} (h : quoteAfter (some q) t = none) :
    ∃ s u, t = s ++ q :: u ∧ q ∉ s ∧ quoteAfter none u = none := by
  induction t with
  | nil => cases h
  | cons b t ih =>
    by_cases hb : b = q
    · subst hb
      exact ⟨[], t, rfl, by simp, by simpa [quoteAfter, quoteStep] using h⟩
    · obtain ⟨s, u, rfl, hs, hu⟩ := ih (by simpa [quoteAfter, quoteStep, hb] using h)
      exact ⟨b :: s, u, rfl, by simp [hs, Ne.symm hb], hu⟩

theorem Text.unquoted_iff (t : Text) : t.Unquoted ↔ quoteAfter none t = none := by
  constructor
  · intro h
    induction h with
    | nil => rfl
    | plain hd hs _ ih => simpa [quoteAfter, quoteStep, hd, hs] using ih
    | @quotation q s t hq hs _ ih =>
      have hopen : quoteAfter none (q :: (s ++ q :: t)) = quoteAfter (some q) (s ++ q :: t) := by
        simp [quoteAfter, quoteStep, hq]
      rw [hopen, quoteAfter_quotation hs, ih]
  · -- a quotation is cut off as a whole, so the induction is on the length
    generalize hn : t.length = n
    induction n using Nat.strongRecOn generalizing t with
    | ind n ih =>
      intro h
      cases t with
      | nil => exact .nil
      | cons b t =>
        rw [List.length_cons] at hn
        by_cases hb : b = 34 ∨ b = 39
        · have hopen : quoteAfter (some b) t = none := by simpa [quoteAfter, quoteStep, hb] using h
          obtain ⟨s, u, rfl, hs, hu⟩ := exists_quotation hopen
          rw [List.length_append, List.length_cons] at hn
          exact .quotation hb hs (ih u.length (by omega) u rfl hu)
        · obtain ⟨hd, hs⟩ := not_or.1 hb
          have hrest : quoteAfter none t = none := by simpa [quoteAfter, quoteStep, hd, hs] using h
          exact .plain hd hs (ih t.length (by omega) t rfl hrest)

/-! ## The comment -/

/-- Can a comment begin at byte `i`, if the mark `quote` is open before the text, and `fresh` tells
that a blank or nothing at all stands there? -/
def CommentFrom : (quote : Option UInt8) → (fresh : Bool) → Text → (i : Nat) → Prop
  | _, _, [], _ => False
  | quote, fresh, b :: _, 0 => b = 35 ∧ fresh = true ∧ quote = none
  | quote, _, b :: t, i + 1 => CommentFrom (quoteStep quote b) (isSpaceOrTab b) t i

theorem commentFrom_iff (quote : Option UInt8) (fresh : Bool) (s : Text) (i : Nat) :
    CommentFrom quote fresh s i ↔ s[i]? = some 35 ∧
      (i = 0 ∧ fresh = true ∨ ∃ k b, i = k + 1 ∧ s[k]? = some b ∧ isSpaceOrTab b = true) ∧
      quoteAfter quote (s.take i) = none := by
  induction s generalizing quote fresh i with
  | nil => simp [CommentFrom]
  | cons b t ih =>
    cases i with
    | zero => simp [CommentFrom, quoteAfter]
    | succ i =>
      rw [CommentFrom, ih]
      cases i with
      | zero => simp [quoteAfter]
      | succ i => simp [quoteAfter]

theorem commentFrom_none_iff (s : Text) (i : Nat) : CommentFrom none true s i ↔ s.CommentAt i := by
  have hblank : ∀ b, isSpaceOrTab b = true ↔ b = 32 ∨ b = 9 := by simp [isSpaceOrTab]
  rw [commentFrom_iff, ← Text.unquoted_iff]
  simp only [hblank, and_true]
  exact ⟨fun ⟨hmark, hfresh, hquote⟩ => ⟨hmark, hfresh, hquote⟩,
    fun h => ⟨h.mark, h.after_blank, h.unquoted⟩⟩

theorem splitCommentFrom_stop (t : Text) : splitCommentFrom none true (35 :: t) = ([], 35 :: t) := by
  simp [splitCommentFrom]

theorem splitCommentFrom_go {quote : Option UInt8} {fresh : Bool} {b : UInt8} (t : Text)
    (h : ¬ CommentFrom quote fresh (b :: t) 0) :
    splitCommentFrom quote fresh (b :: t) =
      (b :: (splitCommentFrom (quoteStep quote b) (isSpaceOrTab b) t).1,
        (splitCommentFrom (quoteStep quote b) (isSpaceOrTab b) t).2) := by
  cases quote with
  | some q => rfl
  | none =>
    have hgo : ¬ (b = 35 && fresh) = true := by simpa [CommentFrom] using h
    rw [splitCommentFrom, if_neg hgo]
    rfl

/-- The scanner takes bytes as long as no comment can begin. -/
theorem splitCommentFrom_isLeast (quote : Option UInt8) (fresh : Bool) (s : Text) :
    (∀ i < (splitCommentFrom quote fresh s).1.length, ¬ CommentFrom quote fresh s i) ∧
    ((splitCommentFrom quote fresh s).2 ≠ [] →
      CommentFrom quote fresh s (splitCommentFrom quote fresh s).1.length) := by
  induction s generalizing quote fresh with
  | nil => simp [splitCommentFrom]
  | cons b t ih =>
    by_cases hstop : CommentFrom quote fresh (b :: t) 0
    · obtain ⟨rfl, rfl, rfl⟩ := hstop
      rw [splitCommentFrom_stop]
      exact ⟨fun i hi => absurd hi (Nat.not_lt_zero i), fun _ => ⟨rfl, rfl, rfl⟩⟩
    · rw [splitCommentFrom_go t hstop]
      obtain ⟨hbefore, hthere⟩ := ih (quoteStep quote b) (isSpaceOrTab b)
      refine ⟨?_, hthere⟩
      intro i hi
      cases i with
      | zero => exact hstop
      | succ i => exact hbefore i (Nat.lt_of_succ_lt_succ hi)

/-- The comment begins at the first place where one can begin; without such a place there is
none. -/
theorem splitComment_isLeast (s : Text) :
    ((splitComment s).2 = [] ∧ ∀ i, ¬ s.CommentAt i) ∨
    ((splitComment s).2 ≠ [] ∧ IsLeast {i | s.CommentAt i} (splitComment s).1.length) := by
  have happend := splitComment_append s
  obtain ⟨hbefore, hthere⟩ := splitCommentFrom_isLeast none true s
  simp only [commentFrom_none_iff] at hbefore hthere
  by_cases hnone : (splitComment s).2 = []
  · refine .inl ⟨hnone, fun i hi => ?_⟩
    rw [hnone, List.append_nil] at happend
    have hlt : i < s.length := (List.getElem?_eq_some_iff.1 hi.mark).1
    rw [← happend] at hlt
    exact hbefore i hlt hi
  · refine .inr ⟨hnone, hthere hnone, fun i hi => ?_⟩
    by_contra hlt
    exact hbefore i (Nat.lt_of_not_le hlt) hi

/-! ## The key -/

/-- The bytes that a key may consist of. -/
def keyBytes : Text :=
  txt "ABCDEFGHIJKLMNOPQRSTUVWXYZabcdefghijklmnopqrstuvwxyz0123456789_-"

theorem isKeyByte_iff (b : UInt8) : isKeyByte b = true ↔ b ∈ keyBytes := by
  have hall : ∀ n < 256, isKeyByte (UInt8.ofNat n) = true ↔ UInt8.ofNat n ∈ keyBytes := by
    decide +kernel
  have hb := hall b.toNat b.toNat_lt
  rwa [UInt8.ofNat_toNat] at hb

/-- The line is a key, a colon and a value, perhaps behind a dash and a space. -/
structure KeyForm (body dash key value : Text) : Prop where
  parts : body = dash ++ (key ++ 58 :: value)
  dash : dash = [] ∨ dash = txt "- "
  key_ne_nil : key ≠ []
  key_bytes : ∀ b ∈ key, b ∈ keyBytes
  value : value = [] ∨ ∃ b t, value = b :: t ∧ (b = 32 ∨ b = 9)

namespace KeyForm

variable {body dash key value : Text} (h : KeyForm body dash key value)

include h

/-- The colon is no key byte, so it ends the key. -/
theorem takeWhile_key : (key ++ 58 :: value).takeWhile isKeyByte = key := by
  have hkey : ∀ b ∈ key, isKeyByte b = true := fun b hb => (isKeyByte_iff b).2 (h.key_bytes b hb)
  have hcolon : ¬ isKeyByte 58 = true := by decide
  rw [List.takeWhile_append_of_pos hkey, List.takeWhile_cons_of_neg hcolon, List.append_nil]

/-- A dash before the key is followed by a space, a dash within the key is not. -/
theorem offset : (if body.startsWith (txt "- ") then 2 else 0) = dash.length := by
  rcases h.dash with hdash | hdash
  · have hno : ¬ body.startsWith (txt "- ") = true := by
      intro hstart
      obtain ⟨rest, hrest⟩ := List.isPrefixOf_iff_prefix.1 hstart
      obtain ⟨b, key, rfl⟩ := List.exists_cons_of_ne_nil h.key_ne_nil
      have hparts : 45 :: 32 :: rest = b :: (key ++ 58 :: value) := by
        rw [← List.cons_append, ← List.nil_append (b :: key ++ _), ← hdash, ← h.parts]
        exact hrest
      obtain ⟨-, hsecond⟩ := List.cons.inj hparts
      cases key with
      | nil => cases hsecond
      | cons b' key =>
        obtain ⟨rfl, -⟩ := List.cons.inj hsecond
        exact absurd (h.key_bytes 32 (by simp)) (by decide)
    rw [if_neg hno, hdash]
    rfl
  · have hyes : body.startsWith (txt "- ") = true := by
      rw [h.parts, hdash]
      exact List.isPrefixOf_iff_prefix.2 (List.prefix_append _ _)
    rw [if_pos hyes, hdash]
    rfl

theorem splitKey?_eq :
    splitKey? body = some ⟨key, dash.length, value, dash.length + key.length + 1⟩ := by
  have hrest : body.drop dash.length = key ++ 58 :: value := by rw [h.parts, List.drop_left]
  have hvalue : value.head?.all isSpaceOrTab = true := by
    rcases h.value with rfl | ⟨b, t, rfl, rfl | rfl⟩ <;> rfl
  have hkey : key.isEmpty = false := by simpa using h.key_ne_nil
  unfold splitKey?
  simp only [h.offset, hrest, h.takeWhile_key, List.drop_left, hvalue, hkey]
  rfl

theorem unique {dash' key' value' : Text} (h' : KeyForm body dash' key' value') :
    dash = dash' ∧ key = key' ∧ value = value' := by
  have heq := h.splitKey?_eq.symm.trans h'.splitKey?_eq
  rw [Option.some.injEq, KeyValue.mk.injEq] at heq
  obtain ⟨hkey, hlen, hvalue, -⟩ := heq
  subst hkey hvalue
  exact ⟨List.append_cancel_right (h.parts.symm.trans h'.parts), rfl, rfl⟩

end KeyForm

theorem splitKey?_value {body : Text} {kv : KeyValue} (h : splitKey? body = some kv) :
    kv.value = [] ∨ ∃ b t, kv.value = b :: t ∧ (b = 32 ∨ b = 9) := by
  simp only [splitKey?] at h
  generalize (if body.startsWith (txt "- ") then 2 else 0) = offset at h
  split at h
  · rename_i value _
    split at h
    · cases h
    · rename_i hok
      cases h
      cases value with
      | nil => exact .inl rfl
      | cons b t =>
        have hblank : isSpaceOrTab b = true := by
          rw [Bool.or_eq_true, not_or] at hok
          simpa using hok.2
        exact .inr ⟨b, t, rfl, by simpa [isSpaceOrTab] using hblank⟩
  · cases h

/-- What the scanner finds has the form of a key and a value. -/
theorem exists_keyForm {body : Text} {kv : KeyValue} (h : splitKey? body = some kv) :
    ∃ dash, KeyForm body dash kv.key kv.value ∧ kv.keyOffset = dash.length := by
  obtain ⟨dash, hdash, hparts, hoffset, -, hne, hbytes⟩ := splitKey?_eq_some h
  refine ⟨dash, ⟨hparts, hdash, hne, ?_, splitKey?_value h⟩, hoffset⟩
  intro b hb
  exact (isKeyByte_iff b).1 (hbytes b hb)

/-- **Comments and keys are found by their grammars.** Body and comment of a line are the line. The
comment begins at the first `#` that stands outside quotations, at the beginning or after a blank,
and is empty if there is none. A key and a value are found in a body if and only if it has the form
of one, an optional dash, the key, a colon and the value; it has this form in one way only, and the
offsets tell where in the body the key and the value stand. -/
theorem splitComment_splitKey?_grammar (s body : Text) :
    ((splitComment s).1 ++ (splitComment s).2 = s ∧
      (((splitComment s).2 = [] ∧ ∀ i, ¬ s.CommentAt i) ∨
        ((splitComment s).2 ≠ [] ∧ IsLeast {i | s.CommentAt i} (splitComment s).1.length))) ∧
    ((splitKey? body).isSome ↔ ∃ dash key value, KeyForm body dash key value) ∧
    (∀ dash key value, KeyForm body dash key value →
      (∀ dash' key' value', KeyForm body dash' key' value' →
        dash = dash' ∧ key = key' ∧ value = value') ∧
      splitKey? body = some ⟨key, dash.length, value, dash.length + key.length + 1⟩) ∧
    (∀ kv, splitKey? body = some kv → kv.key ≠ [] ∧
      (body.drop kv.keyOffset).take kv.key.length = kv.key ∧
      body.drop kv.valueOffset = kv.value) := by
  refine ⟨⟨splitComment_append s, splitComment_isLeast s⟩, ?_, ?_, ?_⟩
  · rw [Option.isSome_iff_exists]
    constructor
    · rintro ⟨kv, h⟩
      obtain ⟨dash, hform, -⟩ := exists_keyForm h
      exact ⟨dash, kv.key, kv.value, hform⟩
    · rintro ⟨dash, key, value, hform⟩
      exact ⟨_, hform.splitKey?_eq⟩
  · intro dash key value hform
    exact ⟨fun _ _ _ hform' => hform.unique hform', hform.splitKey?_eq⟩
  · intro kv h
    obtain ⟨dash, hform, hkey⟩ := exists_keyForm h
    refine ⟨hform.key_ne_nil, ?_, (splitKey?_cut h).1⟩
    rw [hkey, hform.parts, List.drop_left, List.take_left]

/-- A `#` in a quotation, one without a blank before it and one that begins the comment; a key with
dashes behind a dash, and a second colon in its value. -/
theorem splitComment_splitKey?_grammar_colons :
    let s := txt "a: ' #' b#c # d"
    let body := txt "- x-y: p: q"
    splitComment s = (txt "a: ' #' b#c ", txt "# d") ∧
      IsLeast {i | s.CommentAt i} 12 ∧
      KeyForm body (txt "- ") (txt "x-y") (txt " p: q") ∧
      splitKey? body = some ⟨txt "x-y", 2, txt " p: q", 6⟩ ∧
      (body.drop 2).take 3 = txt "x-y" ∧ body.drop 6 = txt " p: q" := by
  intro s body
  obtain ⟨⟨-, hcomment⟩, -, hkey, hplace⟩ := splitComment_splitKey?_grammar s body
  have hsplit : splitComment s = (txt "a: ' #' b#c ", txt "# d") := by decide
  have hform : KeyForm body (txt "- ") (txt "x-y") (txt " p: q") :=
    ⟨by decide, by decide, by decide, by decide +kernel,
      .inr ⟨32, txt "p: q", by decide, .inl rfl⟩⟩
  have hfound := (hkey _ _ _ hform).2
  obtain ⟨-, hkeyPlace, hvaluePlace⟩ := hplace _ hfound
  rw [hsplit] at hcomment
  rcases hcomment with ⟨hnone, -⟩ | ⟨-, hleast⟩
  · cases hnone
  · exact ⟨hsplit, hleast, hform, hfound, hkeyPlace, hvaluePlace⟩

end RuleLang
