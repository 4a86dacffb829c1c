import RuleLang.Grammar.Highlighting
import RuleLang.Proofs.Editor.SpanLayout

/-!
# RuleLang.Proofs.Grammar.MetavariableMatches

The scanner that colours metavariables, compared with the regular expression of the highlighting
grammar.

`Expression` is the part of regular expressions that the comparison needs, with the text it is
written as and with what it matches: repetitions take as much as they can and give back what they
must (`beginnings`), and the matches in a text are looked for from the left and do not overlap
(`matchesFrom`). The grammar's expression ends with a word boundary, which the scanner does not
ask for, so the scanner finds what the grammar finds and, besides, the capitals with which a name
such as `$Foo` begins (`Grammar.metavars_against_expression`).
-/

namespace RuleLang

namespace Grammar

/-! ## Regular expressions -/

/-- A set of bytes, as ranges from a least to a greatest byte. -/
abbrev ByteClass := List (UInt8 × UInt8)

namespace ByteClass

def holds (c : ByteClass) (b : UInt8) : Bool := c.any fun r => r.1 ≤ b && b ≤ r.2

/-- A single byte stands for itself; other sets are written in brackets. -/
def written (c : ByteClass) : Text :=
  let bytes := c.flatMap fun r => if r.1 = r.2 then [r.1] else [r.1, 45, r.2]
  if bytes.length = 1 then escapeWord bytes else 91 :: bytes ++ [93]

end ByteClass

/-- A byte that takes part in word boundaries: letter, digit or underscore. -/
def isNameByte (b : UInt8) : Bool := Text.isLetter b || Text.isDigit b || b = 95

/-- A part of a regular expression for ASCII texts. -/
inductive Piece where
  /-- one byte of the set -/
  | one (c : ByteClass)
  /-- bytes of the set, as many as possible -/
  | many (c : ByteClass)
  /-- a place with a name byte on one side only -/
  | boundary
deriving Repr, DecidableEq

abbrev Expression := List Piece

namespace Expression

def written (e : Expression) : Text :=
  e.flatMap fun
    | .one c => c.written
    | .many c => c.written ++ txt "*"
    | .boundary => txt "\\b"

/-- Take bytes of the set, more of them first, and go on with `next`. -/
def takeMany (next : Option UInt8 → Text → List Text) (c : ByteClass) :
    (before : Option UInt8) → Text → List Text
  | before, [] => next before []
  | before, b :: t =>
    (if c.holds b then (takeMany next c (some b) t).map (b :: ·) else []) ++ next before (b :: t)

/-- The beginnings of a text that the expression matches, the preferred one first; `before` is the
byte in front of the text. -/
def beginnings : Expression → (before : Option UInt8) → Text → List Text
  | [], _, _ => [[]]
  | .one _ :: _, _, [] => []
  | .one c :: e, _, b :: t => if c.holds b then (beginnings e (some b) t).map (b :: ·) else []
  | .many c :: e, before, t => takeMany (beginnings e) c before t
  | .boundary :: e, before, t =>
    if before.any isNameByte = t.head?.any isNameByte then [] else beginnings e before t

/-- The matches in a text with their offsets, from left to right; `skip` bytes still belong to the
last match. -/
def matchesFrom (e : Expression) : (before : Option UInt8) → (pos skip : Nat) → Text →
    List (Nat × Text)
  | _, _, _, [] => []
  | _, pos, skip + 1, b :: t => matchesFrom e (some b) (pos + 1) skip t
  | before, pos, 0, b :: t =>
    match (beginnings e before (b :: t)).head? with
    | some w => (pos, w) :: matchesFrom e (some b) (pos + 1) (w.length - 1) t
    | none => matchesFrom e (some b) (pos + 1) 0 t

/-- The matches in a text that do not overlap, from left to right. -/
def occurrences (e : Expression) (t : Text) : List (Nat × Text) := matchesFrom e none 0 0 t

end Expression

/-- A capital letter or an underscore. -/
def capital : ByteClass := [(65, 90), (95, 95)]

/-- A capital letter, a digit or an underscore. -/
def capitalOrDigit : ByteClass := [(65, 90), (48, 57), (95, 95)]

/-- A metavariable, whatever follows it. -/
def metavariableName : Expression := [.one [(36, 36)], .one capital, .many capitalOrDigit]

/-- A metavariable that is a word of its own. -/
def metavariable : Expression := metavariableName ++ [.boundary]

/-! ## The classes of bytes -/

theorem holds_dollar (b : UInt8) : ByteClass.holds [(36, 36)] b = decide (b = 36) := by
  rw [Bool.eq_iff_iff]
  simp only [ByteClass.holds, List.any_cons, List.any_nil, Bool.or_false, Bool.and_eq_true,
    decide_eq_true_eq, UInt8.le_iff_toNat_le, ← UInt8.toNat_inj, UInt8.reduceToNat]
  omega

theorem holds_capital (b : UInt8) : capital.holds b = isMetavarStart b := by
  rw [Bool.eq_iff_iff]
  simp only [ByteClass.holds, capital, isMetavarStart, Text.isUpper, List.any_cons, List.any_nil,
    Bool.or_false, Bool.or_eq_true, Bool.and_eq_true, decide_eq_true_eq, UInt8.le_iff_toNat_le,
    ← UInt8.toNat_inj, UInt8.reduceToNat]
  omega

theorem holds_capitalOrDigit (b : UInt8) : capitalOrDigit.holds b = isMetavarByte b := by
  rw [Bool.eq_iff_iff]
  simp only [ByteClass.holds, capitalOrDigit, isMetavarByte, isMetavarStart, Text.isUpper,
    Text.isDigit, List.any_cons, List.any_nil, Bool.or_false, Bool.or_eq_true, Bool.and_eq_true,
    decide_eq_true_eq, UInt8.le_iff_toNat_le, ← UInt8.toNat_inj, UInt8.reduceToNat]
  omega

theorem isNameByte_of_isMetavarByte {b : UInt8} (h : isMetavarByte b = true) :
    isNameByte b = true := by
  grind [isMetavarByte, isMetavarStart, isNameByte, Text.isLetter]

/-- A byte that ends a run of capitals and digits goes on with the name only if it is small. -/
theorem isNameByte_eq_isLower {b : UInt8} (h : isMetavarByte b = false) :
    isNameByte b = Text.isLower b := by
  grind [isMetavarByte, isMetavarStart, isNameByte, Text.isLetter]

/-! ## One match -/

namespace Expression

theorem head?_takeMany (c : ByteClass) (before : Option UInt8) (t : Text) :
    (beginnings [.many c] before t).head? = some (t.takeWhile c.holds) := by
  simp only [beginnings]
  induction t generalizing before with
  | nil => rfl
  | cons b t ih =>
    by_cases hb : c.holds b = true
    · simp [takeMany, hb, ih]
    · simp [takeMany, hb]

/-- Before a boundary nothing can be given back: within a name there is no boundary. -/
theorem beginnings_many_boundary {c : ByteClass} (hc : ∀ b, c.holds b = true → isNameByte b = true)
    {x : UInt8} (hx : isNameByte x = true) (t : Text) :
    beginnings [.many c, .boundary] (some x) t =
      if (t.dropWhile c.holds).head?.any isNameByte then [] else [t.takeWhile c.holds] := by
  simp only [beginnings]
  induction t generalizing x with
  | nil => simp [takeMany, hx]
  | cons b t ih =>
    by_cases hb : c.holds b = true
    · have hname := hc b hb
      simp only [takeMany, hb, if_true, ih hname, Option.any_some, hx, List.head?_cons, hname,
        List.append_nil, List.dropWhile_cons_of_pos, List.takeWhile_cons_of_pos]
      split <;> rfl
    · cases hname : isNameByte b <;> simp [takeMany, hb, hx, hname]

/-- A dollar sign and a capital, then the rest of an expression. -/
theorem beginnings_dollar (e : Expression) (before : Option UInt8) (b s : UInt8) (t : Text) :
    beginnings (.one [(36, 36)] :: .one capital :: e) before (b :: s :: t) =
      if b = 36 ∧ isMetavarStart s = true then (beginnings e (some s) t).map (b :: s :: ·)
      else [] := by
  by_cases hb : b = 36 <;> by_cases hs : isMetavarStart s = true <;>
    simp [beginnings, holds_dollar, holds_capital, hb, hs, Function.comp_def]

/-- Does the scanner see a metavariable begin? -/
def opens (b : UInt8) (t : Text) : Bool := b = 36 && t.head?.any isMetavarStart

theorem takeWhile_of_opens {b : UInt8} {t : Text} (h : opens b t = true) :
    ∃ s t', t = s :: t' ∧ b = 36 ∧ isMetavarStart s = true ∧
      t.takeWhile isMetavarByte = s :: t'.takeWhile isMetavarByte ∧
      t.dropWhile isMetavarByte = t'.dropWhile isMetavarByte := by
  cases t with
  | nil => simp [opens] at h
  | cons s t =>
    obtain ⟨hb, hs⟩ : b = 36 ∧ isMetavarStart s = true := by simpa [opens] using h
    have hbyte : isMetavarByte s = true := by simp [isMetavarByte, hs]
    exact ⟨s, t, rfl, hb, hs, List.takeWhile_cons_of_pos hbyte, List.dropWhile_cons_of_pos hbyte⟩

theorem beginnings_of_not_opens {b : UInt8} {t : Text} (h : opens b t = false) (e : Expression)
    (before : Option UInt8) :
    beginnings (.one [(36, 36)] :: .one capital :: e) before (b :: t) = [] := by
  cases t with
  | nil => simp [beginnings]
  | cons s t =>
    rw [beginnings_dollar, if_neg]
    simpa [opens] using h

/-- Without the boundary, the expression matches where the scanner sees a metavariable. -/
theorem head?_metavariableName (before : Option UInt8) (b : UInt8) (t : Text) :
    (beginnings metavariableName before (b :: t)).head? =
      if opens b t then some (b :: t.takeWhile isMetavarByte) else none := by
  cases ho : opens b t with
  | false => rw [metavariableName, beginnings_of_not_opens ho]; rfl
  | true =>
    obtain ⟨s, t, rfl, hb, hs, htake, -⟩ := takeWhile_of_opens ho
    have hmany := head?_takeMany capitalOrDigit (some s) t
    rw [funext holds_capitalOrDigit] at hmany
    rw [metavariableName, beginnings_dollar, if_pos ⟨hb, hs⟩, List.head?_map, hmany, htake]
    rfl

/-- With the boundary, a small letter behind the metavariable forbids the match. -/
theorem head?_metavariable (before : Option UInt8) (b : UInt8) (t : Text) :
    (beginnings metavariable before (b :: t)).head? =
      if opens b t && !(t.dropWhile isMetavarByte).head?.any Text.isLower then
        some (b :: t.takeWhile isMetavarByte)
      else none := by
  have hexpr : metavariable =
      .one [(36, 36)] :: .one capital :: [.many capitalOrDigit, .boundary] := rfl
  cases ho : opens b t with
  | false => rw [hexpr, beginnings_of_not_opens ho]; rfl
  | true =>
    obtain ⟨s, t, rfl, hb, hs, htake, hdrop⟩ := takeWhile_of_opens ho
    have hname : isNameByte s = true :=
      isNameByte_of_isMetavarByte (by simp [isMetavarByte, hs])
    have hclass : ∀ b, capitalOrDigit.holds b = true → isNameByte b = true := by
      intro b hb
      rw [holds_capitalOrDigit] at hb
      exact isNameByte_of_isMetavarByte hb
    have hend : (t.dropWhile isMetavarByte).head?.any isNameByte =
        (t.dropWhile isMetavarByte).head?.any Text.isLower := by
      have hstop := List.head?_dropWhile_not isMetavarByte t
      cases hd : (t.dropWhile isMetavarByte).head? with
      | none => rfl
      | some y =>
        rw [hd] at hstop
        exact isNameByte_eq_isLower hstop
    have hmany := beginnings_many_boundary hclass hname t
    rw [funext holds_capitalOrDigit, hend] at hmany
    rw [hexpr, beginnings_dollar, if_pos ⟨hb, hs⟩, hmany, htake, hdrop]
    cases (t.dropWhile isMetavarByte).head?.any Text.isLower <;> rfl

/-! ## All matches -/

theorem matchesFrom_metavariableName (before : Option UInt8) (pos skip : Nat) (t : Text) :
    matchesFrom metavariableName before pos skip t = metavarsFrom pos skip t := by
  induction t generalizing before pos skip with
  | nil => cases skip <;> rfl
  | cons b t ih =>
    cases skip with
    | succ skip => exact ih _ _ _
    | zero =>
      rw [matchesFrom, head?_metavariableName, metavarsFrom, ← opens]
      cases opens b t with
      | true => simp only [if_true, ih]
      | false => simp only [Bool.false_eq_true, if_false, ih]

/-- Is the metavariable followed by a small letter? -/
def cutShort (body : Text) (m : Nat × Text) : Bool := body[m.1 + m.2.length]?.any Text.isLower

/-- The scanner skips what it has found, the expression goes on behind the dollar sign if there is
no match. It finds nothing in what the scanner skips, since there is no dollar sign. -/
theorem matchesFrom_metavariable (body : Text) (before : Option UInt8) {pos skip skip' : Nat}
    {t : Text} (hbody : body.drop pos = t) (hskip : skip' = skip ∨ skip' = 0 ∧ 36 ∉ t.take skip) :
    matchesFrom metavariable before pos skip' t =
      (metavarsFrom pos skip t).filter fun m => !cutShort body m := by
  induction t generalizing before pos skip skip' with
  | nil => cases skip <;> cases skip' <;> rfl
  | cons b t ih =>
    have hnext : body.drop (pos + 1) = t := by
      rw [← List.drop_drop, hbody, List.drop_one, List.tail_cons]
    cases skip with
    | succ skip =>
      cases skip' with
      | succ skip' =>
        have hsame : skip' = skip := by
          rcases hskip with hskip | ⟨hskip, -⟩ <;> omega
        exact ih _ hnext (.inl hsame)
      | zero =>
        have hfree : 36 ∉ (b :: t).take (skip + 1) := by
          rcases hskip with hskip | ⟨-, hfree⟩
          · omega
          · exact hfree
        rw [List.take_succ_cons, List.mem_cons, not_or] at hfree
        have hno : opens b t = false := by
          have hb : b ≠ 36 := fun heq => hfree.1 heq.symm
          simp [opens, hb]
        rw [matchesFrom, head?_metavariable, hno]
        exact ih _ hnext (.inr ⟨rfl, hfree.2⟩)
    | zero =>
      obtain rfl : skip' = 0 := by
        rcases hskip with hskip | ⟨hskip, -⟩ <;> exact hskip
      rw [matchesFrom, head?_metavariable, metavarsFrom, ← opens]
      cases ho : opens b t with
      | false =>
        simp only [Bool.false_and, Bool.false_eq_true, if_false]
        exact ih _ hnext (.inl rfl)
      | true =>
        have hcut : cutShort body (pos, b :: t.takeWhile isMetavarByte) =
            (t.dropWhile isMetavarByte).head?.any Text.isLower := by
          have hlen : (t.takeWhile isMetavarByte ++ t.dropWhile isMetavarByte).drop
              (t.takeWhile isMetavarByte).length = t.dropWhile isMetavarByte := List.drop_left
          rw [List.takeWhile_append_dropWhile] at hlen
          rw [cutShort, ← List.getElem?_drop, hbody, List.length_cons, List.getElem?_cons_succ,
            ← hlen, List.head?_drop]
        cases hlow : (t.dropWhile isMetavarByte).head?.any Text.isLower with
        | false =>
          rw [hlow] at hcut
          simp only [Bool.true_and, Bool.not_false, if_true, hcut, List.filter_cons]
          rw [ih _ hnext (.inl rfl)]
        | true =>
          rw [hlow] at hcut
          simp only [Bool.true_and, Bool.not_true, Bool.false_eq_true, if_false, if_true, hcut,
            List.filter_cons]
          refine ih _ hnext (.inr ⟨rfl, ?_⟩)
          intro hmem
          rw [List.length_cons, Nat.add_sub_cancel,
            (List.prefix_iff_eq_take.1 (List.takeWhile_prefix isMetavarByte)).symm] at hmem
          exact absurd (List.mem_takeWhile_imp hmem) (by decide)

end Expression

end Grammar

namespace Span

theorem kind_of_mem_ofWords {line base : Nat} {kind : SpanKind} {accept : Text → Bool} {t : Text}
    {s : Span} (h : s ∈ ofWords line base kind accept t) : s.kind = kind := by
  obtain ⟨i, w, -, -, rfl⟩ := mem_ofWords h
  rfl

/-- No span in front of the metavariables is a variable. -/
theorem exists_ofBody_eq_append (c : Catalog) (inLanguages : Bool) (line base : Nat)
    (body : Text) :
    ∃ front : List Span, (∀ s ∈ front, s.kind ≠ .variableName) ∧
      (ofBody c inLanguages line base body).1 = front ++
        (metavars body).map fun m => ⟨line, base + m.1, m.2.length, .variableName⟩ := by
  have hwords : ∀ {start : Nat} {kind : SpanKind} {accept : Text → Bool} {t : Text} {s : Span},
      kind ≠ .variableName → s ∈ ofWords line start kind accept t → s.kind ≠ .variableName := by
    intro start kind accept t s hkind hs
    rwa [kind_of_mem_ofWords hs]
  cases hkv : splitKey? body with
  | none =>
    by_cases hitem : (inLanguages && body.startsWith [45]) = true
    · refine ⟨_, ?_, by simp only [ofBody, hkv, if_pos hitem, List.nil_append]; rfl⟩
      exact fun s hs => hwords (by decide) hs
    · exact ⟨[], by simp, by simp only [ofBody, hkv, if_neg hitem, List.nil_append]⟩
  | some kv =>
    have hkey : (if (c.match? body).isSome then SpanKind.keyword else .property) ≠
        .variableName := by
      split <;> decide
    by_cases hs : kv.key = txt "severity"
    · refine ⟨_, ?_, by simp only [ofBody, hkv, if_pos hs]; rfl⟩
      intro s hmem
      rcases List.mem_cons.1 hmem with rfl | hmem
      · exact hkey
      · exact hwords (by decide) hmem
    · by_cases hl : kv.key = txt "languages"
      · refine ⟨_, ?_, by simp only [ofBody, hkv, if_neg hs, if_pos hl]; rfl⟩
        intro s hmem
        rcases List.mem_cons.1 hmem with rfl | hmem
        · exact hkey
        · exact hwords (by decide) hmem
      · refine ⟨_, ?_, by simp only [ofBody, hkv, if_neg hs, if_neg hl]; rfl⟩
        intro s hmem
        obtain rfl := List.mem_singleton.1 hmem
        exact hkey

/-- The variables among the spans of a body are its metavariables. -/
theorem variables_ofBody (c : Catalog) (inLanguages : Bool) (line base : Nat) (body : Text) :
    (ofBody c inLanguages line base body).1.filter (·.kind = .variableName) =
      (metavars body).map fun m => ⟨line, base + m.1, m.2.length, .variableName⟩ := by
  obtain ⟨front, hfront, hbody⟩ := exists_ofBody_eq_append c inLanguages line base body
  have hnone : front.filter (·.kind = .variableName) = [] := by
    rw [List.filter_eq_nil_iff]
    simpa using hfront
  rw [hbody, List.filter_append, hnone, List.nil_append, List.filter_eq_self]
  intro s hs
  obtain ⟨m, -, rfl⟩ := List.mem_map.1 hs
  rfl

end Span

namespace Grammar

/-- **The scanner finds the metavariables of the grammar, and beginnings of other names.** The
grammar's section for metavariables has the expression `metavariable`. The variables that are
coloured in a body are the matches of this expression without its word boundary. Those that are
not followed by a small letter are the matches of the whole expression, so the two agree on a body
if and only if no metavariable in it is followed by a small letter. -/
theorem metavars_against_expression (body : Text) :
    (∀ c : Catalog, ⟨"metavariables",
      [.scope "variable.other.metavariable.semgrep" metavariable.written]⟩ ∈ sections c) ∧
    (∀ (c : Catalog) (inLanguages : Bool) (line base : Nat),
      (Span.ofBody c inLanguages line base body).1.filter (·.kind = .variableName) =
        (metavars body).map fun m => ⟨line, base + m.1, m.2.length, .variableName⟩) ∧
    metavars body = metavariableName.occurrences body ∧
    metavariable.occurrences body =
      (metavars body).filter (fun m => !body[m.1 + m.2.length]?.any Text.isLower) ∧
    (metavars body = metavariable.occurrences body ↔
      ∀ m ∈ metavars body, ∀ b, body[m.1 + m.2.length]? = some b → Text.isLower b = false) := by
  have hwritten : metavariable.written = txt "\\$[A-Z_][A-Z0-9_]*\\b" := by decide
  have hmatches : metavariable.occurrences body =
      (metavars body).filter (fun m => !body[m.1 + m.2.length]?.any Text.isLower) :=
    Expression.matchesFrom_metavariable body none rfl (.inl rfl)
  refine ⟨?_, ?_, (Expression.matchesFrom_metavariableName none 0 0 body).symm, hmatches, ?_⟩
  · intro c
    simp [sections, hwritten]
  · intro c inLanguages line base
    exact Span.variables_ofBody c inLanguages line base body
  · rw [hmatches, eq_comm, List.filter_eq_self]
    simp [Option.any_eq_false]

/-- The capital with which a mixed name begins is coloured; the grammar does not match there. -/
theorem metavars_of_mixed_name :
    metavars (txt "$Foo") = [(0, txt "$F")] ∧ metavariable.occurrences (txt "$Foo") = [] := by
  decide

end Grammar

end RuleLang
