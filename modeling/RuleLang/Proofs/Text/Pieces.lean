import Mathlib.Data.List.Basic
import RuleLang.Text.Document
import RuleLang.Proofs.Text.LeadingSpace

/-!
# RuleLang.Proofs.Text.Pieces

A text is the list of its pieces between line feeds, and the list of pieces is the text:
`cut` and `join` are inverse to each other on pieces without line feeds, so a text is known by
its pieces (`eq_of_cut_eq`), and its last piece tells how it ends (`endsWith_lineFeed_iff`).

A document is read off the pieces. Every piece is a row, except an empty last one, which only
says that the row before it is closed (`Document.ofText_of_cut_concat_nil`,
`Document.ofText_of_cut`). A row is given back by its piece if it is `Row.Settled`: its body does
not end in a carriage return that belongs to the ending.
-/

namespace RuleLang
namespace Text

theorem cut_eq_splitOn (sep : UInt8) (t : Text) : cut sep t = t.splitOn sep := by
  induction t with
  | nil => rfl
  | cons b t ih =>
    rw [List.splitOn_cons_eq_if_modifyHead, cut, ih]
    by_cases h : b = sep
    · rw [if_pos h, if_pos (by simpa using h)]
    · rw [if_neg h, if_neg (by simpa using h)]
      cases hs : t.splitOn sep with
      | nil => exact absurd hs (List.splitOn_ne_nil sep t)
      | cons l ls => rfl

theorem cut_append_cons (sep : UInt8) (s t : Text) :
    cut sep (s ++ sep :: t) = cut sep s ++ cut sep t := by
  induction s with
  | nil => simp [cut]
  | cons b s ih =>
    simp only [List.cons_append, cut, ih]
    split
    · rfl
    · cases hc : cut sep s with
      | nil => exact absurd hc (cut_ne_nil sep s)
      | cons l ls => rfl

@[simp] theorem join_singleton (sep p : Text) : join sep [p] = p := by
  simp [join, List.intercalate]

theorem cut_join {sep : UInt8} {ps : List Text} (hne : ps ≠ []) (h : ∀ p ∈ ps, sep ∉ p) :
    cut sep (join [sep] ps) = ps := by
  rw [cut_eq_splitOn]
  exact List.splitOn_intercalate sep h hne

theorem cut_of_not_mem {p : Text} (h : 10 ∉ p) : p.cut 10 = [p] := by
  conv_lhs => rw [← join_singleton [10] p]
  exact cut_join (List.cons_ne_nil p []) (by simpa using h)

theorem eq_of_cut_eq (sep : UInt8) {s t : Text} (h : cut sep s = cut sep t) : s = t := by
  rw [← join_cut sep s, h, join_cut]

theorem not_mem_of_mem_cut {sep : UInt8} {t p : Text} (h : p ∈ cut sep t) : sep ∉ p := by
  induction t generalizing p with
  | nil =>
    obtain rfl : p = [] := by simpa [cut] using h
    simp
  | cons b t ih =>
    rw [cut] at h
    split at h
    · rcases List.mem_cons.1 h with rfl | h
      · simp
      · exact ih h
    · rename_i hb
      cases hc : cut sep t with
      | nil => exact absurd hc (cut_ne_nil sep t)
      | cons l ls =>
        rw [hc] at h ih
        rcases List.mem_cons.1 h with rfl | h
        · have hl := ih List.mem_cons_self
          simp [hl, Ne.symm hb]
        · exact ih (List.mem_cons_of_mem l h)

/-- There is one piece more than there are separators. -/
theorem length_cut (sep : UInt8) (t : Text) : (cut sep t).length = t.count sep + 1 := by
  induction t with
  | nil => rfl
  | cons b t ih =>
    rw [cut]
    split
    · rename_i h
      rw [List.length_cons, ih, h, List.count_cons_self]
    · rename_i h
      rw [List.count_cons_of_ne h]
      cases hc : cut sep t with
      | nil => exact absurd hc (cut_ne_nil sep t)
      | cons l ls => rw [hc] at ih; exact ih

theorem join_cons_cons (sep p p' : Text) (ps : List Text) :
    join sep (p :: p' :: ps) = p ++ sep ++ join sep (p' :: ps) := by
  simp [join, List.intercalate]

theorem join_append (sep : Text) {ps qs : List Text} (hps : ps ≠ []) (hqs : qs ≠ []) :
    join sep (ps ++ qs) = join sep ps ++ sep ++ join sep qs := by
  induction ps with
  | nil => exact absurd rfl hps
  | cons p ps ih =>
    cases ps with
    | nil =>
      cases qs with
      | nil => exact absurd rfl hqs
      | cons q qs => rw [List.singleton_append, join_cons_cons, join_singleton]
    | cons p' ps =>
      rw [List.cons_append, List.cons_append, join_cons_cons, ← List.cons_append,
        ih (List.cons_ne_nil p' ps), join_cons_cons]
      simp only [List.append_assoc]

/-- A last empty piece puts a separator at the end. -/
theorem join_concat_nil (sep : Text) {ps : List Text} (h : ps ≠ []) :
    join sep (ps ++ [[]]) = join sep ps ++ sep := by
  rw [join_append sep h (List.cons_ne_nil [] [])]
  exact List.append_nil _

theorem endsWith_iff {t s : Text} : t.endsWith s = true ↔ ∃ u, u ++ s = t :=
  List.isSuffixOf_iff_suffix

theorem endsWith_singleton {t : Text} {b : UInt8} :
    t.endsWith [b] = true ↔ t.getLast? = some b := by
  rw [endsWith_iff]
  constructor
  · rintro ⟨u, rfl⟩
    simp
  · intro h
    exact ⟨t.dropLast, List.dropLast_append_getLast? b h⟩

/-- Padding in front of a text never makes it end in a carriage return. -/
theorem endsWith_padding_append {p : Text} (hp : IsPadding p) (t : Text) :
    (p ++ t).endsWith [13] = t.endsWith [13] := by
  rw [Bool.eq_iff_iff, endsWith_singleton, endsWith_singleton, List.getLast?_append]
  cases ht : t.getLast? with
  | some b => rfl
  | none =>
    refine iff_of_false (fun hlast => ?_) (by simp)
    exact absurd (List.mem_of_getLast? hlast) (hp.not_mem (by decide) (by decide))

theorem endsWith_lineFeed_iff {t p : Text} {ps : List Text} (h : t.cut 10 = ps ++ [p]) :
    t.endsWith [10] = true ↔ ps ≠ [] ∧ p = [] := by
  constructor
  · intro ht
    obtain ⟨u, rfl⟩ := endsWith_iff.1 ht
    rw [cut_append_sep] at h
    obtain ⟨rfl, hp⟩ := List.append_inj' h rfl
    exact ⟨cut_ne_nil 10 u, by simpa using hp.symm⟩
  · rintro ⟨hps, rfl⟩
    rw [endsWith_iff]
    exact ⟨join [10] ps, by rw [← join_concat_nil _ hps, ← h, join_cut]⟩

/-- A text whose last piece comes after a line feed. -/
theorem eq_append_last_iff {t p : Text} {ps : List Text} (h : t.cut 10 = ps ++ [p])
    (last : Text) :
    (∃ front, t = front ++ 10 :: last ∧ 10 ∉ last) ↔ ps ≠ [] ∧ last = p := by
  constructor
  · rintro ⟨front, rfl, hlast⟩
    rw [cut_append_cons, cut_of_not_mem hlast] at h
    obtain ⟨rfl, hp⟩ := List.append_inj' h rfl
    exact ⟨cut_ne_nil 10 front, by simpa using hp⟩
  · rintro ⟨hps, rfl⟩
    refine ⟨join [10] ps, ?_, not_mem_of_mem_cut (t := t) (by simp [h])⟩
    rw [← join_cut 10 t, h, join_append [10] hps (List.cons_ne_nil last []), join_singleton,
      List.append_assoc, List.singleton_append]

end Text

/-! ## Rows -/

namespace Row

/-- A carriage return at the end of the body would be read as part of the ending. -/
def Settled (r : Row) : Prop := r.cr = false → r.body.endsWith [13] = false

theorem ofPiece_settled (p : Text) : (ofPiece p).Settled := by
  intro hcr
  unfold ofPiece at hcr ⊢
  split at hcr
  · cases hcr
  · rename_i h
    rw [if_neg h]
    simpa using h

theorem ofPiece_toPiece {r : Row} (h : r.Settled) : ofPiece r.toPiece = r := by
  obtain ⟨body, cr⟩ := r
  cases cr with
  | false =>
    have hb : ¬ body.endsWith [13] = true := by simpa using h rfl
    simp [toPiece, ofPiece, hb]
  | true =>
    have hb : (body ++ [13]).endsWith [13] = true := Text.endsWith_iff.2 ⟨body, rfl⟩
    simp [toPiece, ofPiece, hb]

theorem cr_ofPiece (p : Text) : (ofPiece p).cr = p.endsWith [13] := by
  unfold ofPiece
  split
  · rename_i h; exact h.symm
  · rename_i h; simpa using h

theorem toPiece_eq_append (r : Row) : r.toPiece = r.body ++ if r.cr then [13] else [] := by
  unfold toPiece
  split
  · rfl
  · rw [List.append_nil]

theorem not_mem_toPiece {r : Row} (h : 10 ∉ r.body) : 10 ∉ r.toPiece := by
  unfold toPiece
  split
  · simpa using h
  · exact h

theorem not_mem_body_ofPiece {p : Text} (h : 10 ∉ p) : 10 ∉ (ofPiece p).body := by
  unfold ofPiece
  split
  · exact fun hm => h (List.dropLast_subset p hm)
  · exact h

theorem toPiece_eq_nil_iff (r : Row) : r.toPiece = [] ↔ r.cr = false ∧ r.body = [] := by
  unfold toPiece
  cases r.cr <;> simp

theorem body_ofPiece {p : Text} (h : p.endsWith [13] = false) : (ofPiece p).body = p := by
  rw [ofPiece, if_neg (by simp [h])]

end Row

/-! ## Documents -/

namespace Document

/-- The rows of a text whose last piece is empty. -/
theorem ofText_of_cut_concat_nil {t : Text} {ps : List Text} (h : t.cut 10 = ps ++ [[]]) :
    ofText t = ⟨ps.map Row.ofPiece, !ps.isEmpty⟩ := by
  have ht : Text.join [10] (ps ++ [[]]) = t := by rw [← h, Text.join_cut]
  cases ps with
  | nil =>
    obtain rfl : t = [] := ht.symm
    rfl
  | cons p ps =>
    rw [Text.join_concat_nil _ (List.cons_ne_nil p ps)] at ht
    have hclosed : t.endsWith [10] = true := Text.endsWith_iff.2 ⟨_, ht⟩
    have hempty : ¬ t.isEmpty = true := by
      rw [← ht]
      simp
    rw [ofText, if_neg hempty, if_pos hclosed, h, List.dropLast_concat]
    rfl

/-- The rows of a text whose last piece is not empty. -/
theorem ofText_of_cut {t : Text} {ps : List Text} {p : Text} (h : t.cut 10 = ps ++ [p])
    (hp : p ≠ []) : ofText t = ⟨(ps ++ [p]).map Row.ofPiece, false⟩ := by
  have hempty : ¬ t.isEmpty = true := by
    intro ht
    rw [List.isEmpty_iff.1 ht] at h
    have hlast := congrArg List.getLast? h
    simp [Text.cut, Ne.symm hp] at hlast
  have hopen : ¬ t.endsWith [10] = true := by
    intro ht
    obtain ⟨u, rfl⟩ := Text.endsWith_iff.1 ht
    rw [Text.cut_append_sep] at h
    have hlast := congrArg List.getLast? h
    simp [Ne.symm hp] at hlast
  rw [ofText, if_neg hempty, if_neg hopen, h]

end Document
end RuleLang
