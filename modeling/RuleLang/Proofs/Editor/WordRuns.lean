import RuleLang.Editor.Hover
import RuleLang.Proofs.Editor.LineParts
import RuleLang.Proofs.Text.Cursor

/-!
# RuleLang.Proofs.Editor.WordRuns

Maximal runs of bytes of one kind. Words are found in two ways, by scanning a text from its start
and by looking to the left and to the right of a byte; both find the maximal runs, and all of them.

* `isRun_iff_append`: a run parts a text in three, and neither neighbour is of its kind.
* `IsRun.append`, `IsRun.of_append`: runs of a line and runs of a part of the line.
* `mem_words_iff`: the words of a text are its runs of word bytes.
* `wordAt?_eq_some_iff`: the word at a byte is the run that the byte touches.
-/

namespace RuleLang

theorem takeWhile_append_of_head {p : UInt8 → Bool} {w g : Text} (hw : ∀ b ∈ w, p b = true)
    (hg : ∀ b ∈ g.head?, p b = false) : (w ++ g).takeWhile p = w := by
  rw [List.takeWhile_append_of_pos hw]
  cases g with
  | nil => simp
  | cons b g => simp [hg b rfl]

theorem exists_getElem?_of_lt_takeWhile {p : UInt8 → Bool} {t : Text} {k : Nat}
    (hk : k < (t.takeWhile p).length) : ∃ b, t[k]? = some b ∧ p b = true := by
  refine ⟨(t.takeWhile p)[k], ?_, List.mem_takeWhile_imp (List.getElem_mem hk)⟩
  have h := congrArg (·[k]?) (List.takeWhile_append_dropWhile (p := p) (l := t))
  rw [← h, List.getElem?_append_left hk, List.getElem?_eq_getElem hk]

namespace Text

section Runs

variable {p : UInt8 → Bool} {t : Text} {i : Nat} {w : Text}

theorem isRun_iff_append :
    t.IsRun p i w ↔ ∃ f g : Text, t = f ++ (w ++ g) ∧ f.length = i ∧ w ≠ [] ∧
      (∀ b ∈ w, p b = true) ∧ (∀ b ∈ f.getLast?, p b = false) ∧ ∀ b ∈ g.head?, p b = false := by
  constructor
  · intro h
    obtain ⟨g, hg⟩ := h.standsAt
    have hle := h.standsAt.add_length_le h.ne_nil
    have hlen : (t.take i).length = i := List.length_take_of_le (by omega)
    have ht : t = t.take i ++ (w ++ g) := by rw [hg, List.take_append_drop]
    refine ⟨t.take i, g, ht, hlen, h.ne_nil, h.bytes, ?_, ?_⟩
    · intro b hb
      rw [Option.mem_def, List.getLast?_eq_getElem?, hlen] at hb
      have hpos : 0 < i := by
        have := (List.getElem?_eq_some_iff.1 hb).1
        omega
      rw [List.getElem?_take_of_lt (by omega)] at hb
      exact h.before (i - 1) b (by omega) hb
    · intro b hb
      rw [Option.mem_def, List.head?_eq_getElem?] at hb
      apply h.after b
      rw [← List.getElem?_drop, ← hg, List.getElem?_append_right (Nat.le_refl _), Nat.sub_self, hb]
  · rintro ⟨f, g, rfl, rfl, hne, hbytes, hbefore, hafter⟩
    refine ⟨standsAt_append f w g, hne, hbytes, ?_, ?_⟩
    · intro k b hk hb
      rw [List.getElem?_append_left (by omega)] at hb
      apply hbefore b
      rw [Option.mem_def, List.getLast?_eq_getElem?, hk, Nat.add_sub_cancel, hb]
    · intro b hb
      rw [← List.getElem?_drop, List.drop_left, List.getElem?_append_right (Nat.le_refl _),
        Nat.sub_self] at hb
      exact hafter b (by rw [Option.mem_def, List.head?_eq_getElem?, hb])

/-- A run of a part is a run of the whole if the bytes around the part are of another kind. -/
theorem IsRun.append {a b : Text} (h : t.IsRun p i w) (ha : ∀ x ∈ a.getLast?, p x = false)
    (hb : ∀ x ∈ b.head?, p x = false) : (a ++ (t ++ b)).IsRun p (a.length + i) w := by
  obtain ⟨f, g, rfl, rfl, hne, hbytes, hbefore, hafter⟩ := isRun_iff_append.1 h
  refine isRun_iff_append.2 ⟨a ++ f, g ++ b, by simp, by simp, hne, hbytes, ?_, ?_⟩
  · intro x hx
    rcases List.eq_nil_or_concat f with rfl | ⟨f, y, rfl⟩
    · exact ha x (by simpa using hx)
    · exact hbefore x (by simpa using hx)
  · intro x hx
    cases g with
    | nil => exact hb x hx
    | cons y g => exact hafter x hx

theorem IsRun.of_append {a b : Text} (h : (a ++ (t ++ b)).IsRun p (a.length + i) w)
    (hle : i + w.length ≤ t.length) : t.IsRun p i w := by
  have hbyte : ∀ k x, t[k]? = some x → (a ++ (t ++ b))[a.length + k]? = some x := by
    intro k x hx
    have hk := (List.getElem?_eq_some_iff.1 hx).1
    rw [← List.getElem?_drop, List.drop_left, List.getElem?_append_left hk, hx]
  refine ⟨?_, h.ne_nil, h.bytes, ?_, ?_⟩
  · have hstands := h.standsAt
    rw [StandsAt, List.drop_length_add_append, List.drop_append_of_le_length (by omega)] at hstands
    refine List.prefix_of_prefix_length_le hstands (List.prefix_append _ _) ?_
    rw [List.length_drop]
    omega
  · intro k x hk hx
    exact h.before (a.length + k) x (by omega) (hbyte k x hx)
  · intro x hx
    apply h.after x
    rw [Nat.add_assoc]
    exact hbyte _ x hx

theorem IsRun.add_length_le (h : t.IsRun p i w) : i + w.length ≤ t.length :=
  h.standsAt.add_length_le h.ne_nil

end Runs

/-! ## Columns of ASCII bytes -/

section Columns

variable {t w : Text} {i k : Nat} (h : t.StandsAt i w) (hascii : ∀ b ∈ w, b < 0x80)

include h hascii

theorem StandsAt.isBoundary_add (hk : k ≤ w.length) (hw : w ≠ []) : t.IsBoundary (i + k) := by
  rcases Nat.lt_or_eq_of_le hk with hlt | rfl
  · have hbyte := h.getElem? hlt
    rw [List.getElem?_eq_getElem hlt] at hbyte
    exact isBoundary_of_ascii hbyte (hascii _ (List.getElem_mem hlt))
  · exact h.isBoundary_end hw hascii

theorem StandsAt.utf16Col_add (hk : k ≤ w.length) : t.utf16Col (i + k) = t.utf16Col i + k := by
  induction k with
  | zero => rfl
  | succ k ih =>
    have hbyte := h.getElem? hk
    rw [List.getElem?_eq_getElem hk] at hbyte
    rw [← Nat.add_assoc, utf16Col_succ_of_ascii hbyte (hascii _ (List.getElem_mem hk)),
      ih (by omega), Nat.add_assoc]

theorem StandsAt.byteOffset_add (hk : k ≤ w.length) (hw : w ≠ []) :
    t.byteOffset (t.utf16Col i + k : Nat) = i + k := by
  rw [← h.utf16Col_add hascii hk]
  exact byteOffset_utf16Col (h.isBoundary_add hascii hk hw)

end Columns

end Text

/-! ## Scanning -/

/-- Every run is found that begins behind the `skip` bytes of the run before. -/
theorem mem_runsFrom {p : UInt8 → Bool} {t rest : Text} {b : UInt8} {pos skip k : Nat}
    (hdrop : t.drop k = b :: rest) (hb : p b = true) (hk : skip ≤ k)
    (hbefore : ∀ j x, k = j + 1 → skip ≤ j → t[j]? = some x → p x = false) :
    (pos + k, b :: rest.takeWhile p) ∈ runsFrom p pos skip t := by
  induction t generalizing pos skip k with
  | nil => simp at hdrop
  | cons a t ih =>
    cases skip with
    | succ skip =>
      obtain ⟨k, rfl⟩ : ∃ k', k = k' + 1 := ⟨k - 1, by omega⟩
      rw [runsFrom, Nat.add_comm k 1, ← Nat.add_assoc]
      refine ih hdrop (by omega) ?_
      intro j x hj hle hx
      exact hbefore (j + 1) x (by omega) (by omega) hx
    | zero =>
      rw [runsFrom]
      split
      · rename_i ha
        cases k with
        | zero =>
          obtain ⟨rfl, rfl⟩ := List.cons.inj hdrop
          exact List.mem_cons_self
        | succ k =>
          have hbehind : (t.takeWhile p).length ≤ k := by
            by_contra hlt
            obtain ⟨x, hx, hpx⟩ := exists_getElem?_of_lt_takeWhile (p := p) (t := a :: t) (k := k)
              (by rw [List.takeWhile_cons_of_pos ha, List.length_cons]; omega)
            rw [hbefore k x rfl (Nat.zero_le _) hx] at hpx
            cases hpx
          rw [Nat.add_comm k 1, ← Nat.add_assoc]
          refine List.mem_cons_of_mem _ (ih hdrop hbehind ?_)
          intro j x hj _ hx
          exact hbefore (j + 1) x (by omega) (Nat.zero_le _) hx
      · rename_i ha
        cases k with
        | zero =>
          obtain ⟨rfl, rfl⟩ := List.cons.inj hdrop
          exact absurd hb ha
        | succ k =>
          rw [Nat.add_comm k 1, ← Nat.add_assoc]
          refine ih hdrop (Nat.zero_le _) ?_
          intro j x hj _ hx
          exact hbefore (j + 1) x (by omega) (Nat.zero_le _) hx

theorem mem_words_iff {t : Text} {i : Nat} {w : Text} :
    (i, w) ∈ words t ↔ t.IsRun isWordByte i w := by
  constructor
  · exact isRun_of_mem_words
  · intro h
    obtain ⟨f, g, rfl, rfl, hne, hbytes, -, hafter⟩ := Text.isRun_iff_append.1 h
    obtain ⟨b, w, rfl⟩ := List.exists_cons_of_ne_nil hne
    have hmem : (0 + f.length, b :: (w ++ g).takeWhile isWordByte) ∈ words (f ++ (b :: w ++ g)) :=
      mem_runsFrom (by simp) (hbytes b List.mem_cons_self) (Nat.zero_le _)
        fun j x hj _ hx => h.before j x hj hx
    rwa [takeWhile_append_of_head (fun x hx => hbytes x (List.mem_cons_of_mem b hx)) hafter,
      Nat.zero_add] at hmem

/-! ## Looking around -/

section Around

variable {f u v g : Text} (hword : ∀ b ∈ u ++ v, isWordByte b = true)
  (hbefore : ∀ b ∈ f.getLast?, isWordByte b = false)
  (hafter : ∀ b ∈ g.head?, isWordByte b = false)

include hword hbefore hafter

/-- What is found between `u` and `v`, if `u ++ v` goes as far as there are word bytes. -/
theorem wordAt?_append :
    wordAt? (f ++ (u ++ v ++ g)) (f.length + u.length : Nat) =
      if u ++ v = [] then none else some ⟨u ++ v, f.length, f.length + (u ++ v).length⟩ := by
  have hmin : min (f.length + u.length) (f ++ (u ++ v ++ g)).length = f.length + u.length := by
    apply Nat.min_eq_left
    simp only [List.length_append]
    omega
  have htake : (f ++ (u ++ v ++ g)).take (f.length + u.length) = f ++ u := by
    rw [← List.length_append, List.append_assoc u, ← List.append_assoc f, List.take_left]
  have hdrop : (f ++ (u ++ v ++ g)).drop (f.length + u.length) = v ++ g := by
    rw [← List.length_append, List.append_assoc u, ← List.append_assoc f, List.drop_left]
  have hleft : (f ++ u).reverse.takeWhile isWordByte = u.reverse := by
    rw [List.reverse_append]
    apply takeWhile_append_of_head
    · intro b hb
      exact hword b (List.mem_append_left v (List.mem_reverse.1 hb))
    · rwa [List.head?_reverse]
  have hright : (v ++ g).takeWhile isWordByte = v :=
    takeWhile_append_of_head (fun b hb => hword b (List.mem_append_right u hb)) hafter
  have hlen : f.length + u.length + v.length - f.length = (u ++ v).length := by
    rw [List.length_append]
    omega
  have hempty : f.length = f.length + u.length + v.length ↔ u ++ v = [] := by
    rw [← List.length_eq_zero_iff, List.length_append]
    omega
  simp only [wordAt?, Int.toNat_natCast, hmin, htake, hdrop, hleft, hright, List.length_reverse,
    Nat.add_sub_cancel, List.drop_left, hlen, List.take_left, hempty]
  rw [List.length_append, Nat.add_assoc]

end Around

theorem wordAt?_of_isRun {line w : Text} {i o : Nat} (h : line.IsRun isWordByte i w) (hi : i ≤ o)
    (ho : o ≤ i + w.length) : wordAt? line o = some ⟨w, i, i + w.length⟩ := by
  obtain ⟨f, g, rfl, rfl, hne, hbytes, hbefore, hafter⟩ := Text.isRun_iff_append.1 h
  obtain ⟨u, v, rfl, rfl⟩ : ∃ u v, w = u ++ v ∧ o = f.length + u.length :=
    ⟨w.take (o - f.length), w.drop (o - f.length), (List.take_append_drop _ _).symm, by
      rw [List.length_take]; omega⟩
  rw [wordAt?_append hbytes hbefore hafter, if_neg hne]

/-- Around every offset there is a longest stretch of word bytes, which may be empty. -/
theorem exists_stretch {line : Text} {o : Nat} (ho : o ≤ line.length) :
    ∃ f u v g : Text, line = f ++ (u ++ v ++ g) ∧ o = f.length + u.length ∧
      (∀ b ∈ u ++ v, isWordByte b = true) ∧ (∀ b ∈ f.getLast?, isWordByte b = false) ∧
      ∀ b ∈ g.head?, isWordByte b = false := by
  have hleft := List.rdropWhile_append_rtakeWhile (p := isWordByte) (l := line.take o)
  have hright := List.takeWhile_append_dropWhile (p := isWordByte) (l := line.drop o)
  refine ⟨(line.take o).rdropWhile isWordByte, (line.take o).rtakeWhile isWordByte,
    (line.drop o).takeWhile isWordByte, (line.drop o).dropWhile isWordByte, ?_, ?_, ?_, ?_, ?_⟩
  · rw [List.append_assoc, hright, ← List.append_assoc, hleft, List.take_append_drop]
  · rw [← List.length_append, hleft, List.length_take_of_le ho]
  · intro b hb
    rcases List.mem_append.1 hb with hb | hb
    · exact List.mem_rtakeWhile_imp hb
    · exact List.mem_takeWhile_imp hb
  · intro b hb
    obtain ⟨hne, rfl⟩ := List.mem_getLast?_eq_getLast hb
    simpa using List.rdropWhile_last_not isWordByte _ hne
  · intro b hb
    have hhead := List.head?_dropWhile_not isWordByte (line.drop o)
    rw [Option.mem_def.1 hb] at hhead
    exact hhead

/-- Whatever is found is a run, and the offset touches it. -/
theorem wordAt?_eq_some_iff {line : Text} {o : Nat} (ho : o ≤ line.length) {x : WordSpan} :
    wordAt? line o = some x ↔
      line.IsRun isWordByte x.left x.word ∧ x.right = x.left + x.word.length ∧
        x.left ≤ o ∧ o ≤ x.right := by
  constructor
  · intro h
    obtain ⟨f, u, v, g, rfl, rfl, hword, hbefore, hafter⟩ := exists_stretch ho
    rw [wordAt?_append hword hbefore hafter] at h
    split at h
    · cases h
    · rename_i hne
      cases h
      refine ⟨Text.isRun_iff_append.2 ⟨f, g, rfl, rfl, hne, hword, hbefore, hafter⟩, rfl, ?_, ?_⟩
      · exact Nat.le_add_right _ _
      · dsimp only
        rw [List.length_append]
        omega
  · rintro ⟨hrun, hright, hle, hge⟩
    obtain ⟨word, left, right⟩ := x
    dsimp only at hrun hright hle hge
    subst hright
    exact wordAt?_of_isRun hrun hle hge

end RuleLang
