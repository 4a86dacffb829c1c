import Mathlib.Data.List.DropRight
import RuleLang.Editor.Span
import RuleLang.Proofs.Text.Boundary

/-!
# RuleLang.Proofs.Editor.LineParts

Where the parts of a line stand that the scanners find: the comment, the key, the words of a value
and the metavariables.

* `splitComment_append`: body and comment are the line; a comment begins with `#`.
* `splitKey?_eq_some`: a key stands before its colon and its value, after an optional `- `.
* `segmentsFrom`: words and metavariables are scanned alike. Segments follow one another without
  overlap (`segmentsFrom_pairwise`), each at the place it is reported at (`mem_segmentsFrom`).
* `isRun_of_mem_words`: words are maximal runs of word bytes.
-/

namespace RuleLang

/-! ## Byte classes -/

theorem ascii_of_isWordByte {b : UInt8} (h : isWordByte b = true) : b < 0x80 := by
  simp only [isWordByte, Text.isLetter, Text.isUpper, Text.isLower, Text.isDigit,
    Bool.or_eq_true, Bool.and_eq_true, decide_eq_true_eq] at h
  grind

theorem ascii_of_isKeyByte {b : UInt8} (h : isKeyByte b = true) : b < 0x80 := by
  simp only [isKeyByte, Text.isLetter, Text.isUpper, Text.isLower, Text.isDigit,
    Bool.or_eq_true, Bool.and_eq_true, decide_eq_true_eq] at h
  grind

theorem isWordByte_of_isMetavarByte {b : UInt8} (h : isMetavarByte b = true) :
    isWordByte b = true := by
  grind [isMetavarByte, isMetavarStart, isWordByte, Text.isLetter]

/-! ## Places -/

namespace Text

/-- Does `w` stand at byte `i` of the text? -/
def StandsAt (t : Text) (i : Nat) (w : Text) : Prop := w <+: t.drop i

namespace StandsAt

variable {t w : Text} {i : Nat}

theorem getElem? (h : t.StandsAt i w) {k : Nat} (hk : k < w.length) : t[i + k]? = w[k]? := by
  obtain ⟨rest, hrest⟩ := h
  rw [← List.getElem?_drop, ← hrest, List.getElem?_append_left hk]

theorem add_length_le (h : t.StandsAt i w) (hw : w ≠ []) : i + w.length ≤ t.length := by
  have hlen := h.length_le
  have hpos := List.length_pos_iff.2 hw
  rw [List.length_drop] at hlen
  omega

theorem append_left (h : t.StandsAt i w) (p : Text) : (p ++ t).StandsAt (p.length + i) w := by
  rwa [StandsAt, List.drop_length_add_append]

theorem append_right (h : t.StandsAt i w) (s : Text) : (t ++ s).StandsAt i w := by
  rw [StandsAt, List.drop_append]
  exact h.trans (List.prefix_append _ _)

theorem of_drop {v : Nat} (h : StandsAt (t.drop v) i w) : t.StandsAt (v + i) w := by
  rwa [StandsAt, List.drop_drop] at h

theorem exists_last (h : t.StandsAt i w) (hw : w ≠ []) :
    ∃ b ∈ w, t[i + w.length - 1]? = some b := by
  have hpos := List.length_pos_iff.2 hw
  have hlast : t[i + (w.length - 1)]? = some (w.getLast hw) := by
    rw [h.getElem? (by omega), ← List.getLast?_eq_getElem?, List.getLast?_eq_some_getLast hw]
  refine ⟨w.getLast hw, List.getLast_mem hw, ?_⟩
  rwa [← Nat.add_sub_assoc hpos] at hlast

theorem exists_head (h : t.StandsAt i w) (hw : w ≠ []) : ∃ b ∈ w, t[i]? = some b := by
  obtain ⟨b, w, rfl⟩ := List.exists_cons_of_ne_nil hw
  exact ⟨b, List.mem_cons_self, h.getElem? (k := 0) (by simp)⟩

theorem isBoundary (h : t.StandsAt i w) (hw : w ≠ []) (hascii : ∀ b ∈ w, b < 0x80) :
    t.IsBoundary i := by
  obtain ⟨b, hb, hhead⟩ := h.exists_head hw
  exact isBoundary_of_ascii hhead (hascii b hb)

theorem isBoundary_end (h : t.StandsAt i w) (hw : w ≠ []) (hascii : ∀ b ∈ w, b < 0x80) :
    t.IsBoundary (i + w.length) := by
  obtain ⟨b, hb, hlast⟩ := h.exists_last hw
  have hpos := List.length_pos_iff.2 hw
  have hend := isBoundary_succ_of_ascii hlast (hascii b hb)
  rwa [Nat.sub_add_cancel (by omega)] at hend

end StandsAt

theorem standsAt_append (a w b : Text) : (a ++ (w ++ b)).StandsAt a.length w := by
  rw [StandsAt, List.drop_left]
  exact List.prefix_append _ _

end Text

/-! ## Comment and key -/

theorem splitCommentFrom_append (quote : Option UInt8) (fresh : Bool) (s : Text) :
    (splitCommentFrom quote fresh s).1 ++ (splitCommentFrom quote fresh s).2 = s := by
  fun_induction splitCommentFrom quote fresh s with
  | case1 => rfl
  | case2 q _ b t body comment heq ih => simp_all
  | case3 => rfl
  | case4 fresh b t hb body comment heq ih => simp_all

theorem splitComment_append (s : Text) : (splitComment s).1 ++ (splitComment s).2 = s :=
  splitCommentFrom_append none true s

theorem splitCommentFrom_comment (quote : Option UInt8) (fresh : Bool) (s : Text) :
    ∀ b ∈ (splitCommentFrom quote fresh s).2.head?, b = 35 := by
  fun_induction splitCommentFrom quote fresh s with
  | case1 => simp
  | case2 q _ b t body comment heq ih => simp_all
  | case3 fresh b t hb => simp_all
  | case4 fresh b t hb body comment heq ih => simp_all

theorem splitComment_comment (s : Text) : ∀ b ∈ (splitComment s).2.head?, b = 35 :=
  splitCommentFrom_comment none true s

theorem splitKey?_eq_some {body : Text} {kv : KeyValue} (h : splitKey? body = some kv) :
    ∃ dash : Text, (dash = [] ∨ dash = txt "- ") ∧ body = dash ++ (kv.key ++ 58 :: kv.value) ∧
      kv.keyOffset = dash.length ∧ kv.valueOffset = dash.length + kv.key.length + 1 ∧
      kv.key ≠ [] ∧ ∀ b ∈ kv.key, isKeyByte b = true := by
  obtain ⟨dash, hdash, hbody, hoffset⟩ : ∃ dash : Text, (dash = [] ∨ dash = txt "- ") ∧
      dash ++ body.drop (if body.startsWith (txt "- ") then 2 else 0) = body ∧
      (if body.startsWith (txt "- ") then 2 else 0) = dash.length := by
    by_cases hd : body.startsWith (txt "- ") = true
    · obtain ⟨rest, rfl⟩ := List.isPrefixOf_iff_prefix.1 hd
      exact ⟨txt "- ", .inr rfl, by rw [if_pos hd]; rfl, by rw [if_pos hd]; rfl⟩
    · exact ⟨[], .inl rfl, by rw [if_neg hd]; rfl, by rw [if_neg hd]; rfl⟩
  refine ⟨dash, hdash, ?_⟩
  simp only [splitKey?, hoffset] at h hbody
  generalize body.drop dash.length = rest at h hbody
  split at h
  · rename_i value hvalue
    split at h
    · cases h
    · rename_i hok
      cases h
      have hrest : rest.takeWhile isKeyByte ++ 58 :: value = rest := by
        rw [← hvalue, ← List.prefix_iff_eq_append]
        exact List.takeWhile_prefix _
      refine ⟨by rw [hrest, hbody], rfl, rfl, ?_, ?_⟩
      · intro hkey
        dsimp only at hkey
        simp [hkey] at hok
      · intro b hb
        exact List.mem_takeWhile_imp hb
  · cases h

/-- The value offset parts a body behind the colon. -/
theorem splitKey?_cut {body : Text} {kv : KeyValue} (h : splitKey? body = some kv) :
    body.drop kv.valueOffset = kv.value ∧ ∃ dash : Text, (dash = [] ∨ dash = txt "- ") ∧
      body.take kv.valueOffset = dash ++ (kv.key ++ [58]) ∧ kv.keyOffset = dash.length := by
  obtain ⟨dash, hdash, hbody, hoffset, hvalue, -⟩ := splitKey?_eq_some h
  have hlen : kv.valueOffset = (dash ++ (kv.key ++ [58])).length := by
    simp only [List.length_append, List.length_cons, List.length_nil]
    omega
  have hcut : body = (dash ++ (kv.key ++ [58])) ++ kv.value := by
    rw [hbody]
    simp
  generalize kv.valueOffset = v at hlen ⊢
  subst hlen
  refine ⟨?_, dash, hdash, ?_, hoffset⟩
  · conv_lhs => rw [hcut, List.drop_left]
  · conv_lhs => rw [hcut, List.take_left]

theorem splitKey?_key {body : Text} {kv : KeyValue} (h : splitKey? body = some kv) :
    kv.key ≠ [] ∧ ∀ b ∈ kv.key, isKeyByte b = true := by
  obtain ⟨_, -, -, -, -, hkey⟩ := splitKey?_eq_some h
  exact hkey

/-! ## Words and metavariables -/

/-- Segments of a text with their offsets: one begins where `opens` holds of a byte and of what
follows it, and goes on with bytes that satisfy `p`. -/
def segmentsFrom (opens : UInt8 → Text → Bool) (p : UInt8 → Bool) :
    (pos skip : Nat) → Text → List (Nat × Text)
  | _, _, [] => []
  | pos, skip + 1, _ :: t => segmentsFrom opens p (pos + 1) skip t
  | pos, 0, b :: t =>
    if opens b t then
      (pos, b :: t.takeWhile p) :: segmentsFrom opens p (pos + 1) (t.takeWhile p).length t
    else segmentsFrom opens p (pos + 1) 0 t

theorem runsFrom_eq_segmentsFrom (p : UInt8 → Bool) (pos skip : Nat) (t : Text) :
    runsFrom p pos skip t = segmentsFrom (fun b _ => p b) p pos skip t := by
  induction t generalizing pos skip with
  | nil => cases skip <;> rfl
  | cons b t ih => cases skip <;> simp [runsFrom, segmentsFrom, ih]

theorem metavarsFrom_eq_segmentsFrom (pos skip : Nat) (t : Text) :
    metavarsFrom pos skip t =
      segmentsFrom (fun b t => b = 36 && t.head?.any isMetavarStart) isMetavarByte pos skip t := by
  induction t generalizing pos skip with
  | nil => cases skip <;> rfl
  | cons b t ih => cases skip <;> simp [metavarsFrom, segmentsFrom, ih]

section Segments

variable {opens : UInt8 → Text → Bool} {p : UInt8 → Bool} {pos skip : Nat} {t : Text}

theorem mem_segmentsFrom {i : Nat} {w : Text} (h : (i, w) ∈ segmentsFrom opens p pos skip t) :
    ∃ k b rest, i = pos + k ∧ skip ≤ k ∧ t.drop k = b :: rest ∧ opens b rest = true ∧
      w = b :: rest.takeWhile p := by
  induction t generalizing pos skip with
  | nil => cases skip <;> simp [segmentsFrom] at h
  | cons a t ih =>
    cases skip with
    | succ skip =>
      obtain ⟨k, b, rest, rfl, hk, hdrop, hb, hw⟩ := ih h
      exact ⟨k + 1, b, rest, by omega, by omega, hdrop, hb, hw⟩
    | zero =>
      rw [segmentsFrom] at h
      split at h
      · rename_i ha
        rcases List.mem_cons.1 h with heq | h
        · cases heq
          exact ⟨0, a, t, rfl, Nat.le_refl 0, rfl, ha, rfl⟩
        · obtain ⟨k, b, rest, rfl, -, hdrop, hb, hw⟩ := ih h
          exact ⟨k + 1, b, rest, by omega, by omega, hdrop, hb, hw⟩
      · obtain ⟨k, b, rest, rfl, -, hdrop, hb, hw⟩ := ih h
        exact ⟨k + 1, b, rest, by omega, by omega, hdrop, hb, hw⟩

/-- A segment begins behind the end of every segment before it. -/
theorem segmentsFrom_pairwise :
    (segmentsFrom opens p pos skip t).Pairwise fun x y => x.1 + x.2.length ≤ y.1 := by
  induction t generalizing pos skip with
  | nil => cases skip <;> exact .nil
  | cons a t ih =>
    cases skip with
    | succ skip => exact ih
    | zero =>
      rw [segmentsFrom]
      split
      · refine .cons ?_ ih
        rintro ⟨i, w⟩ hmem
        obtain ⟨k, _, _, rfl, hk, -⟩ := mem_segmentsFrom hmem
        simp only [List.length_cons]
        omega
      · exact ih

theorem standsAt_of_mem_segmentsFrom {i : Nat} {w : Text}
    (h : (i, w) ∈ segmentsFrom opens p 0 0 t) : t.StandsAt i w := by
  obtain ⟨k, b, rest, rfl, -, hdrop, -, rfl⟩ := mem_segmentsFrom h
  rw [Nat.zero_add, Text.StandsAt, hdrop]
  exact List.prefix_cons_inj b |>.2 (List.takeWhile_prefix p)

end Segments

/-- `w` stands at byte `i`, its bytes satisfy `p`, and its neighbours do not. -/
structure Text.IsRun (p : UInt8 → Bool) (t : Text) (i : Nat) (w : Text) : Prop where
  standsAt : t.StandsAt i w
  ne_nil : w ≠ []
  bytes : ∀ b ∈ w, p b = true
  before : ∀ k b, i = k + 1 → t[k]? = some b → p b = false
  after : ∀ b, t[i + w.length]? = some b → p b = false

/-- The byte behind the longest beginning of bytes that satisfy `p`. -/
theorem Text.getElem?_length_takeWhile {p : UInt8 → Bool} {t : Text} {b : UInt8}
    (h : t[(t.takeWhile p).length]? = some b) : p b = false := by
  induction t with
  | nil => simp at h
  | cons a t ih =>
    by_cases ha : p a = true
    · rw [List.takeWhile_cons_of_pos ha] at h
      exact ih h
    · rw [List.takeWhile_cons_of_neg ha] at h
      obtain rfl : a = b := by simpa using h
      simpa using ha

/-- A run does not begin right behind a byte of its own kind. The first `skip` bytes belong to a run
that ends there. -/
theorem not_before_run {p : UInt8 → Bool} {pos skip : Nat} {t : Text} {i k : Nat} {w : Text}
    {x : UInt8} (h : (i, w) ∈ runsFrom p pos skip t) (hi : i = pos + k + 1)
    (hskip : ∀ b, 0 < skip → t[skip]? = some b → p b = false) (hx : t[k]? = some x) :
    p x = false := by
  rw [runsFrom_eq_segmentsFrom] at h
  induction t generalizing pos skip k with
  | nil => simp at hx
  | cons a t ih =>
    -- the byte that opens the run is not the one that closes the run before
    have hnext : ∀ n, (i, w) ∈ segmentsFrom (fun b _ => p b) p (pos + 1) n t → k = 0 →
        n = 0 ∧ ∃ b, t[0]? = some b ∧ p b = true := by
      intro n hmem hk
      obtain ⟨j, b, rest, hj, hn, hdrop, hb, -⟩ := mem_segmentsFrom hmem
      obtain rfl : j = 0 := by omega
      exact ⟨by omega, b, by rw [← List.drop_zero (l := t), hdrop]; rfl, hb⟩
    cases skip with
    | succ skip =>
      rw [segmentsFrom] at h
      cases k with
      | zero =>
        obtain ⟨rfl, b, hb, hpb⟩ := hnext skip h rfl
        rw [hskip b (by omega) hb] at hpb
        cases hpb
      | succ k =>
        refine ih h (by omega) ?_ hx
        intro b _ hb
        exact hskip b (by omega) hb
    | zero =>
      rw [segmentsFrom] at h
      split at h
      · rename_i ha
        rcases List.mem_cons.1 h with heq | h
        · obtain ⟨rfl, rfl⟩ := Prod.mk.inj heq
          omega
        · cases k with
          | zero =>
            obtain ⟨hlen, b, hb, hpb⟩ := hnext _ h rfl
            have hb' : t[(t.takeWhile p).length]? = some b := by rw [hlen, hb]
            rw [Text.getElem?_length_takeWhile hb'] at hpb
            cases hpb
          | succ k =>
            refine ih h (by omega) ?_ hx
            intro b _ hb
            exact Text.getElem?_length_takeWhile hb
      · rename_i ha
        cases k with
        | zero =>
          obtain rfl : a = x := by simpa using hx
          simpa using ha
        | succ k =>
          exact ih h (by omega) (by simp) hx

theorem isRun_of_mem_words {t : Text} {i : Nat} {w : Text} (h : (i, w) ∈ words t) :
    t.IsRun isWordByte i w := by
  have hseg := h
  rw [words, runsFrom_eq_segmentsFrom] at hseg
  have hstands := standsAt_of_mem_segmentsFrom hseg
  obtain ⟨k, b, rest, hk, -, hdrop, hb, rfl⟩ := mem_segmentsFrom hseg
  obtain rfl : i = k := by omega
  refine ⟨hstands, List.cons_ne_nil _ _, ?_, ?_, ?_⟩
  · intro x hx
    rcases List.mem_cons.1 hx with rfl | hx
    · exact hb
    · exact List.mem_takeWhile_imp hx
  · rintro j x rfl hx
    exact not_before_run h (by omega) (by simp) hx
  · intro x hx
    apply Text.getElem?_length_takeWhile (t := rest)
    rw [List.length_cons, ← List.getElem?_drop, hdrop, List.getElem?_cons_succ] at hx
    exact hx

theorem words_pairwise (t : Text) : (words t).Pairwise fun x y => x.1 + x.2.length ≤ y.1 := by
  rw [words, runsFrom_eq_segmentsFrom]
  exact segmentsFrom_pairwise

theorem metavars_pairwise (t : Text) :
    (metavars t).Pairwise fun x y => x.1 + x.2.length ≤ y.1 := by
  rw [metavars, metavarsFrom_eq_segmentsFrom]
  exact segmentsFrom_pairwise

/-- A metavariable stands at a dollar sign and has only word bytes. -/
theorem standsAt_of_mem_metavars {t : Text} {i : Nat} {w : Text} (h : (i, w) ∈ metavars t) :
    t.StandsAt i w ∧ t[i]? = some 36 ∧ w ≠ [] ∧ ∀ b ∈ w, isWordByte b = true := by
  rw [metavars, metavarsFrom_eq_segmentsFrom] at h
  have hstands := standsAt_of_mem_segmentsFrom h
  obtain ⟨k, b, rest, -, -, -, hb, rfl⟩ := mem_segmentsFrom h
  obtain ⟨hdollar, -⟩ := Bool.and_eq_true_iff.1 hb
  obtain rfl : b = 36 := by simpa using hdollar
  refine ⟨hstands, hstands.getElem? (k := 0) (by simp), List.cons_ne_nil _ _, ?_⟩
  intro x hx
  rcases List.mem_cons.1 hx with rfl | hx
  · decide
  · exact isWordByte_of_isMetavarByte (List.mem_takeWhile_imp hx)

end RuleLang
