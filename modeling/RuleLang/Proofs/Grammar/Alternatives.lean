import Mathlib.Data.List.Perm.Basic
import RuleLang.Proofs.Catalog.TableRoundTrip
import RuleLang.Proofs.Grammar.MetavariableMatches
import RuleLang.Proofs.Text.Pieces

/-!
# RuleLang.Proofs.Grammar.Alternatives

The words of a grammar expression can be read back from it, and of several words that stand at one
place the longest is matched.

* `alternatives` reads an expression: it is cut at the bars that no backslash escapes (`cutBars`), and
  the escaping backslashes are dropped (`unescape`). Escaped words are read back whatever bytes they
  have (`cutBars_escapeWord_append`, `unescape_escapeWord`), so the alternatives of words that are
  joined by bars are these words again (`alternatives_join`).
* As regular expressions, the alternatives match the words and nothing else
  (`Expression.beginnings_literal`). They are tried in order, so the first that matches is the longest
  (`Expression.head?_choice_literal`).
* `sortedUnique_pairwise`, `mem_sortedUnique`: the lists of words that go into a grammar are sorted
  and have no repetitions.
-/

namespace RuleLang

namespace Grammar

/-! ## Reading an expression -/

/-- The parts of an expression between its bars. A bar or a backslash is `escaped` if an escaping
backslash stands right before it. -/
def cutBars : (escaped : Bool) → Text → List Text
  | _, [] => [[]]
  | escaped, b :: t =>
    if b = 124 && !escaped then [] :: cutBars false t
    else (cutBars (b = 92 && !escaped) t).modifyHead (b :: ·)

/-- A part of an expression without its escaping backslashes. -/
def unescape : (escaped : Bool) → Text → Text
  | _, [] => []
  | escaped, b :: t => if b = 92 && !escaped then unescape true t else b :: unescape false t

/-- The words that an expression lists; the empty expression lists none. -/
def alternatives (e : Text) : List Text :=
  if e.isEmpty then [] else (cutBars false e).map (unescape false)

theorem escapeWord_cons (b : UInt8) (w : Text) :
    escapeWord (b :: w) = (if isSpecial b then [92, b] else [b]) ++ escapeWord w := rfl

theorem ne_of_not_special {b : UInt8} (h : ¬ isSpecial b = true) : b ≠ 92 ∧ b ≠ 124 := by
  constructor <;> rintro rfl <;> exact h (by decide)

theorem cutBars_escapeWord_append (w t : Text) :
    cutBars false (escapeWord w ++ t) = (cutBars false t).modifyHead (escapeWord w ++ ·) := by
  induction w with
  | nil => cases h : cutBars false t <;> simp [escapeWord, h]
  | cons b w ih =>
    rw [escapeWord_cons, List.append_assoc]
    by_cases hb : isSpecial b = true
    · simp [hb, cutBars, ih, Function.comp_def]
    · obtain ⟨hslash, hbar⟩ := ne_of_not_special hb
      simp [hb, cutBars, hslash, hbar, ih, Function.comp_def]

theorem unescape_escapeWord (w : Text) : unescape false (escapeWord w) = w := by
  induction w with
  | nil => rfl
  | cons b w ih =>
    rw [escapeWord_cons]
    by_cases hb : isSpecial b = true
    · simp [hb, unescape, ih]
    · obtain ⟨hslash, -⟩ := ne_of_not_special hb
      simp [hb, unescape, hslash, ih]

theorem cutBars_join {ws : List Text} (h : ws ≠ []) :
    cutBars false (Text.join (txt "|") (ws.map escapeWord)) = ws.map escapeWord := by
  induction ws with
  | nil => exact absurd rfl h
  | cons w ws ih =>
    cases ws with
    | nil =>
      have hword := cutBars_escapeWord_append w []
      simpa [cutBars] using hword
    | cons w' ws =>
      have hbar : ∀ t, cutBars false (txt "|" ++ t) = [] :: cutBars false t := fun _ => rfl
      have hrest := ih (List.cons_ne_nil w' ws)
      rw [List.map_cons] at hrest
      rw [List.map_cons, List.map_cons, Text.join_cons_cons, List.append_assoc,
        cutBars_escapeWord_append, hbar, hrest]
      simp

theorem escapeWord_ne_nil {w : Text} (h : w ≠ []) : escapeWord w ≠ [] := by
  obtain ⟨b, w, rfl⟩ := List.exists_cons_of_ne_nil h
  rw [escapeWord_cons]
  split <;> simp

theorem alternatives_join {ws : List Text} (h : ∀ w ∈ ws, w ≠ []) :
    alternatives (Text.join (txt "|") (ws.map escapeWord)) = ws := by
  cases ws with
  | nil => rfl
  | cons w ws =>
    have hne : ¬ (Text.join (txt "|") ((w :: ws).map escapeWord)).isEmpty = true := by
      have hw := escapeWord_ne_nil (h w List.mem_cons_self)
      cases ws with
      | nil => simpa using hw
      | cons w' ws => simp [Text.join_cons_cons, hw]
    rw [alternatives, if_neg hne, cutBars_join (List.cons_ne_nil w ws), List.map_map]
    simp [Function.comp_def, unescape_escapeWord]

/-! ## The order of the words -/

theorem longer_trans (a b c : Text) (hab : decide (b.length ≤ a.length) = true)
    (hbc : decide (c.length ≤ b.length) = true) : decide (c.length ≤ a.length) = true := by
  rw [decide_eq_true_eq] at hab hbc ⊢
  omega

theorem longer_total (a b : Text) :
    (decide (b.length ≤ a.length) || decide (a.length ≤ b.length)) = true := by
  rw [Bool.or_eq_true, decide_eq_true_eq, decide_eq_true_eq]
  omega

section LongestFirst

variable (ws : List Text)

theorem longestFirst_perm : (longestFirst ws).Perm ws := List.mergeSort_perm _ _

theorem longestFirst_pairwise : (longestFirst ws).Pairwise fun a b => b.length ≤ a.length := by
  have hsorted := List.pairwise_mergeSort longer_trans longer_total ws
  exact hsorted.imp of_decide_eq_true

/-- Words of one length keep their order. -/
theorem filter_longestFirst (n : Nat) :
    (longestFirst ws).filter (·.length = n) = ws.filter (·.length = n) := by
  have hties : (ws.filter (·.length = n)).Pairwise fun a b => decide (b.length ≤ a.length) = true := by
    rw [List.pairwise_filter]
    refine List.pairwise_of_forall fun a b ha hb => ?_
    rw [decide_eq_true_eq] at ha hb ⊢
    omega
  have hsub : (ws.filter (·.length = n)).Sublist (longestFirst ws) :=
    List.sublist_mergeSort longer_trans longer_total hties List.filter_sublist
  have hkept := hsub.filter (·.length = n)
  rw [List.filter_filter] at hkept
  simp only [Bool.and_self] at hkept
  exact (hkept.eq_of_length ((longestFirst_perm ws).filter _).length_eq.symm).symm

end LongestFirst

/-! ## Matching -/

namespace Expression

/-- The expression that matches just this word. -/
def literal (w : Text) : Expression := w.map fun b => .one [(b, b)]

theorem written_literal (w : Text) : (literal w).written = escapeWord w := by
  induction w with
  | nil => rfl
  | cons b w ih =>
    have hbyte : ByteClass.written [(b, b)] = escapeWord [b] := by simp [ByteClass.written]
    rw [literal, List.map_cons, written, List.flatMap_cons, ← written, ← literal, ih]
    simp [hbyte, escapeWord]

theorem holds_single (b x : UInt8) : ByteClass.holds [(b, b)] x = decide (b = x) := by
  rw [Bool.eq_iff_iff]
  simp only [ByteClass.holds, List.any_cons, List.any_nil, Bool.or_false, Bool.and_eq_true,
    decide_eq_true_eq, UInt8.le_iff_toNat_le, ← UInt8.toNat_inj]
  omega

theorem beginnings_literal (w : Text) (before : Option UInt8) (t : Text) :
    (literal w).beginnings before t = if t.startsWith w then [w] else [] := by
  induction w generalizing before t with
  | nil => simp [literal, beginnings, Text.startsWith]
  | cons b w ih =>
    cases t with
    | nil => simp [literal, beginnings, Text.startsWith]
    | cons x t =>
      rw [literal, List.map_cons, beginnings, holds_single, ← literal, ih]
      by_cases hb : b = x
      · subst hb
        have hstart : Text.startsWith (b :: t) (b :: w) = Text.startsWith t w := by
          simp [Text.startsWith]
        rw [hstart, decide_eq_true rfl, if_pos rfl]
        split <;> rfl
      · simp [Text.startsWith, hb]

/-- The beginnings of a text that one of the expressions matches, the preferred one first: the
expressions are tried in their order. -/
def choice (es : List Expression) (before : Option UInt8) (t : Text) : List Text :=
  es.flatMap fun e => e.beginnings before t

/-- Of words that come longest first, the longest that stands at a place is preferred there. -/
theorem head?_choice_literal {ws : List Text} (h : ws.Pairwise fun a b => b.length ≤ a.length)
    (before : Option UInt8) (t w : Text) :
    (choice (ws.map literal) before t).head? = some w ↔
      w ∈ ws ∧ w <+: t ∧ ∀ v ∈ ws, v <+: t → v.length ≤ w.length := by
  induction ws with
  | nil => simp [choice]
  | cons v ws ih =>
    rw [List.pairwise_cons] at h
    rw [choice, List.map_cons, List.flatMap_cons, beginnings_literal, ← choice]
    by_cases hv : t.startsWith v = true
    · rw [if_pos hv, List.singleton_append, List.head?_cons, Option.some.injEq]
      rw [Text.startsWith_iff] at hv
      constructor
      · rintro rfl
        refine ⟨List.mem_cons_self, hv, ?_⟩
        intro u hu _
        rcases List.mem_cons.1 hu with rfl | hu
        · exact Nat.le_refl _
        · exact h.1 u hu
      · rintro ⟨hw, hwt, hmax⟩
        have hle := hmax v List.mem_cons_self hv
        have hge : w.length ≤ v.length := by
          rcases List.mem_cons.1 hw with rfl | hw
          · exact Nat.le_refl _
          · exact h.1 w hw
        -- two beginnings of one length are the same
        exact List.IsPrefix.eq_of_length (List.prefix_of_prefix_length_le hv hwt hle) (by omega)
    · rw [if_neg hv, List.nil_append, ih h.2]
      rw [Text.startsWith_iff] at hv
      constructor
      · rintro ⟨hw, hwt, hmax⟩
        refine ⟨List.mem_cons_of_mem v hw, hwt, ?_⟩
        intro u hu hut
        rcases List.mem_cons.1 hu with rfl | hu
        · exact absurd hut hv
        · exact hmax u hu hut
      · rintro ⟨hw, hwt, hmax⟩
        refine ⟨?_, hwt, fun u hu => hmax u (List.mem_cons_of_mem v hu)⟩
        rcases List.mem_cons.1 hw with rfl | hw
        · exact absurd hwt hv
        · exact hw

end Expression

end Grammar

/-! ## Sorted words -/

namespace Text

theorem cons_le_cons (x y : UInt8) (a b : Text) :
    le (x :: a) (y :: b) = true ↔ x < y ∨ x = y ∧ a.le b = true := by
  rw [le]
  split
  · rename_i hlt
    exact iff_of_true rfl (.inl hlt)
  · split
    · rename_i hge hgt
      refine iff_of_false (by decide) ?_
      rintro (hlt | ⟨rfl, -⟩)
      · exact hge hlt
      · exact hge hgt
    · rename_i hge hle
      have heq : x = y := by
        rw [UInt8.lt_iff_toNat_lt] at hge hle
        rw [← UInt8.toNat_inj]
        omega
      simp [heq]

theorem le_iff (a b : Text) : a.le b = true ↔ a < b ∨ a = b := by
  induction a generalizing b with
  | nil => cases b <;> simp [le]
  | cons x a ih =>
    cases b with
    | nil => simp [le]
    | cons y b =>
      rw [cons_le_cons, List.cons_lt_cons_iff, List.cons.injEq, ih]
      grind

theorem le_trans (a b c : Text) (hab : a.le b = true) (hbc : b.le c = true) : a.le c = true := by
  induction a generalizing b c with
  | nil => cases c <;> rfl
  | cons x a ih =>
    cases b with
    | nil => cases hab
    | cons y b =>
      cases c with
      | nil => cases hbc
      | cons z c =>
        rw [cons_le_cons] at hab hbc ⊢
        rcases hab with hab | ⟨rfl, hab⟩
        · rcases hbc with hbc | ⟨rfl, -⟩
          · exact .inl (UInt8.lt_trans hab hbc)
          · exact .inl hab
        · rcases hbc with hbc | ⟨rfl, hbc⟩
          · exact .inl hbc
          · exact .inr ⟨rfl, ih b c hab hbc⟩

theorem le_total (a b : Text) : (a.le b || b.le a) = true := by
  rw [Bool.or_eq_true]
  induction a generalizing b with
  | nil => cases b <;> simp [le]
  | cons x a ih =>
    cases b with
    | nil => simp [le]
    | cons y b =>
      rw [cons_le_cons, cons_le_cons]
      grind

end Text

namespace Grammar

theorem nodup_eraseDups (ws : List Text) : ws.eraseDups.Nodup := by
  generalize hn : ws.length = n
  induction n using Nat.strongRecOn generalizing ws with
  | ind n ih =>
    cases ws with
    | nil => exact List.nodup_nil
    | cons w ws =>
      rw [List.eraseDups_cons, List.nodup_cons, List.mem_eraseDups, List.mem_filter]
      have hlen := List.length_filter_le (fun v => !v == w) ws
      rw [List.length_cons] at hn
      exact ⟨by simp, ih _ (by omega) _ rfl⟩

theorem sortedUnique_pairwise (ws : List Text) : (sortedUnique ws).Pairwise (· < ·) := by
  have hsorted := List.pairwise_mergeSort Text.le_trans Text.le_total ws.eraseDups
  have hdistinct : (sortedUnique ws).Nodup :=
    (List.mergeSort_perm _ _).nodup_iff.2 (nodup_eraseDups ws)
  refine (hsorted.and hdistinct).imp ?_
  rintro a b ⟨hle, hne⟩
  exact ((Text.le_iff a b).1 hle).resolve_right hne

theorem mem_sortedUnique {ws : List Text} {w : Text} : w ∈ sortedUnique ws ↔ w ∈ ws := by
  rw [sortedUnique, List.mem_mergeSort, List.mem_eraseDups]

/-- A list without repetitions is only put in order. -/
theorem sortedUnique_perm {ws : List Text} (h : ws.Nodup) : (sortedUnique ws).Perm ws := by
  have hdistinct : (sortedUnique ws).Nodup :=
    (List.mergeSort_perm _ _).nodup_iff.2 (nodup_eraseDups ws)
  exact (List.perm_ext_iff_of_nodup hdistinct h).2 fun _ => mem_sortedUnique

/-! ## Expressions of words -/

/-- The expression lists the words, longer ones first, and matches the longest of them wherever
several stand. -/
structure ListsWords (e : Text) (ws : List Text) : Prop where
  written : e = Text.join (txt "|") ((alternatives e).map fun w => (Expression.literal w).written)
  perm : (alternatives e).Perm ws
  longest_first : (alternatives e).Pairwise fun a b => b.length ≤ a.length
  ties : ∀ n, (alternatives e).filter (·.length = n) = ws.filter (·.length = n)
  /-- no word comes after a proper beginning of itself -/
  beginnings_later : (alternatives e).Pairwise fun a b => ¬ (a <+: b ∧ a ≠ b)
  longest_match : ∀ (before : Option UInt8) (t w : Text),
    (Expression.choice ((alternatives e).map Expression.literal) before t).head? = some w ↔
      w ∈ ws ∧ w <+: t ∧ ∀ v ∈ ws, v <+: t → v.length ≤ w.length

theorem listsWords_alternation {ws : List Text} (h : ∀ w ∈ ws, w ≠ []) :
    ListsWords (alternation ws) ws := by
  have hmem : ∀ {w}, w ∈ longestFirst ws ↔ w ∈ ws := (longestFirst_perm ws).mem_iff
  have hread : alternatives (alternation ws) = longestFirst ws :=
    alternatives_join fun w hw => h w (hmem.1 hw)
  have hsorted := longestFirst_pairwise ws
  refine ⟨?_, ?_, ?_, ?_, ?_, ?_⟩ <;> rw [hread]
  · simp only [Expression.written_literal, alternation]
  · exact longestFirst_perm ws
  · exact hsorted
  · exact filter_longestFirst ws
  · refine hsorted.imp ?_
    rintro a b hle ⟨hbegins, hne⟩
    exact hne (hbegins.eq_of_length_le hle)
  · intro before t w
    simp only [Expression.head?_choice_literal hsorted, hmem]

/-- **Alternations are lossless and prefer the longest word.** The expression for a list of words that
are not empty lists these words. The keys of every depth of a catalog are sorted and are the names of
its keywords as far as these are not empty, and the severities and languages of a catalog are not
empty, so this holds of the expressions for keys, severities and languages. -/
theorem alternation_lossless :
    (∀ ws : List Text, (∀ w ∈ ws, w ≠ []) → ListsWords (alternation ws) ws) ∧
    ∀ (table : KeywordTable) (c : Catalog), Catalog.ofTable table = .ok c →
      (∀ d : Depth, (c.keyNames d).Pairwise (· < ·) ∧
        (∀ name, name ∈ c.keyNames d ↔ name ≠ [] ∧ ∃ e ∈ c.atDepth d, e.keyName = name) ∧
        ListsWords (alternation (c.keyNames d)) (c.keyNames d)) ∧
      ∀ tokens ∈ [c.severities, c.languages],
        (sortedUnique tokens).Pairwise (· < ·) ∧ (sortedUnique tokens).Perm tokens ∧
        ListsWords (alternation (sortedUnique tokens)) (sortedUnique tokens) := by
  refine ⟨fun ws h => listsWords_alternation h, ?_⟩
  intro table c htable
  obtain ⟨rfl, -⟩ := (Catalog.ofTable_eq_ok_iff table c).1 htable
  constructor
  · intro d
    have hnames : ∀ name, name ∈ (Catalog.assemble table).keyNames d ↔
        name ≠ [] ∧ ∃ e ∈ (Catalog.assemble table).atDepth d, e.keyName = name := by
      intro name
      rw [Catalog.keyNames, mem_sortedUnique, List.mem_filter, List.mem_map]
      simp [and_comm]
    refine ⟨sortedUnique_pairwise _, hnames, listsWords_alternation ?_⟩
    intro name hname
    exact ((hnames name).1 hname).1
  · intro tokens htokens
    have htidy : Catalog.Tidy tokens := by
      simp only [List.mem_cons, List.not_mem_nil, or_false] at htokens
      rcases htokens with rfl | rfl <;> exact Catalog.tidy_cleanTokens _
    refine ⟨sortedUnique_pairwise tokens, sortedUnique_perm htidy.nodup, listsWords_alternation ?_⟩
    intro w hw
    exact htidy.ne_nil w (mem_sortedUnique.1 hw)

/-- Words with bars and backslashes, one of them a beginning of others, and the built-in catalog. -/
theorem alternation_lossless_bars :
    let ws := [txt "a", txt "\\", txt "a|", txt "a|b.c", txt "||"]
    let read := alternatives (alternation ws)
    (∀ w ∈ ws, w ≠ []) ∧ read.Perm ws ∧
      read.filter (·.length = 2) = [txt "a|", txt "||"] ∧
      (Expression.choice (read.map Expression.literal) none (txt "a|b,c")).head? = some (txt "a|") ∧
      Catalog.ofTable Catalog.builtinTable = .ok Catalog.builtin ∧
      txt "pattern-either" ∈ Catalog.builtin.keyNames .rule ∧
      ListsWords (alternation (Catalog.builtin.keyNames .rule)) (Catalog.builtin.keyNames .rule) := by
  intro ws read
  have hne : ∀ w ∈ ws, w ≠ [] := by decide
  have hwords := alternation_lossless.1 ws hne
  have hties : ws.filter (·.length = 2) = [txt "a|", txt "||"] := by decide
  have hfirst : (Expression.choice (read.map Expression.literal) none (txt "a|b,c")).head? =
      some (txt "a|") := by
    rw [hwords.longest_match]
    decide
  have htable := Catalog.ofTable_builtinTable
  obtain ⟨-, hnames, hkeys⟩ := (alternation_lossless.2 _ _ htable).1 .rule
  have hkey : txt "pattern-either" ∈ Catalog.builtin.keyNames .rule := by
    rw [hnames]
    decide +kernel
  exact ⟨hne, hwords.perm, (hwords.ties 2).trans hties, hfirst, htable, hkey, hkeys⟩

end Grammar
end RuleLang
