import RuleLang.Proofs.Json.Members
import RuleLang.Proofs.Json.StringLiteral
import RuleLang.Proofs.Numeral.ReadBack

/-!
# RuleLang.Proofs.Json.Source

The text that a value was read from. A member of an object keeps the text of its value, and a
message keeps the text of its id (`Envelope.source_of_read?`). What the text says about the value
depends on how it begins: a number is kept as it is written (`Json.eq_num_of_readFrom`), and a
string literal gives its characters (`Json.eq_str_of_readFrom`).
-/

namespace RuleLang

namespace Json

/-- The value was read from `source`, which stood in front of some other text. -/
def ReadFrom (v : Json) (source : Text) : Prop :=
  ∃ fuel depth after rest, readValue? fuel depth (source ++ after) = some (v, rest) ∧
    rest.length = after.length

theorem readFrom_take {fuel depth : Nat} {t rest : Text} {v : Json}
    (h : readValue? fuel depth t = some (v, rest)) :
    ReadFrom v (t.take (t.length - rest.length)) := by
  have hle := (readValue?_length fuel).1 _ _ _ _ h
  refine ⟨fuel, depth, t.drop (t.length - rest.length), rest, ?_, ?_⟩
  · rw [List.take_append_drop]
    exact h
  · rw [List.length_drop]
    omega

/-! ## Numbers -/

theorem readDigits?_append {t ds r : Text} (h : readDigits? t = some (ds, r)) : t = ds ++ r := by
  simp only [readDigits?] at h
  split at h
  · cases h
  · cases h
    exact (List.prefix_iff_eq_append.1 (List.takeWhile_prefix _)).symm

theorem readWhole?_append {t ds r : Text} (h : readWhole? t = some (ds, r)) : t = ds ++ r := by
  unfold readWhole? at h
  split at h
  · cases h
    rfl
  · exact readDigits?_append h

theorem readFraction?_append {t ds r : Text} (h : readFraction? t = some (ds, r)) :
    t = ds ++ r := by
  unfold readFraction? at h
  split at h
  · obtain ⟨⟨ds', r'⟩, hd, heq⟩ := Option.map_eq_some_iff.1 h
    cases heq
    rw [readDigits?_append hd]
    rfl
  · cases h
    rfl

theorem readExponent?_append {t ds r : Text} (h : readExponent? t = some (ds, r)) :
    t = ds ++ r := by
  unfold readExponent? at h
  split at h
  · split at h
    · dsimp only at h
      split at h
      all_goals
        obtain ⟨⟨ds', r'⟩, hd, heq⟩ := Option.map_eq_some_iff.1 h
        cases heq
        have happend := readDigits?_append hd
        simp only [List.length_cons, List.length_nil, Nat.zero_add, List.drop_succ_cons,
          List.drop_zero] at happend
        rw [happend]
        rfl
    · cases h
      rfl
  · cases h
    rfl

theorem readNumber?_append {t l r : Text} (h : readNumber? t = some (l, r)) : t = l ++ r := by
  unfold readNumber? at h
  split at h
  rename_i sign u hsign
  have ht : t = sign ++ u := by
    split at hsign <;> cases hsign <;> rfl
  simp only [Option.bind_eq_bind, Option.bind_eq_some_iff, Option.pure_def,
    Option.some.injEq, Prod.mk.injEq] at h
  obtain ⟨⟨whole, t1⟩, h1, ⟨fraction, t2⟩, h2, ⟨exponent, t3⟩, h3, rfl, rfl⟩ := h
  have hwhole := readWhole?_append h1
  have hfraction := readFraction?_append h2
  have hexponent := readExponent?_append h3
  dsimp only at hfraction hexponent ⊢
  rw [ht, hwhole, hfraction, hexponent]
  simp

theorem readValue?_number {fuel depth : Nat} {b : UInt8} {t : Text}
    (hb : b = 45 ∨ Text.isDigit b = true) :
    readValue? (fuel + 1) depth (b :: t) =
      (readNumber? (b :: t)).map fun (l, r) => (.num l, r) := by
  have hne : ∀ c : UInt8, c ≠ 45 → Text.isDigit c = false → b ≠ c := by
    rintro c hsign hdigit rfl
    rcases hb with hb | hb
    · exact hsign hb
    · rw [hdigit] at hb
      cases hb
  have hskip : skipWhite (b :: t) = b :: t := by
    refine List.dropWhile_cons_of_neg ?_
    simp [isWhite, hne 32 (by decide) (by decide), hne 9 (by decide) (by decide),
      hne 10 (by decide) (by decide), hne 13 (by decide) (by decide)]
  rw [readValue?, hskip]
  split
  case h_1 heq => cases heq
  case h_8 => rfl
  all_goals
    rename_i heq
    cases heq
    exact absurd rfl (hne _ (by decide) (by decide))

theorem eq_num_of_readFrom {v : Json} {b : UInt8} {t : Text}
    (hb : b = 45 ∨ Text.isDigit b = true) (h : ReadFrom v (b :: t)) : v = .num (b :: t) := by
  obtain ⟨fuel, depth, after, rest, hread, hlength⟩ := h
  cases fuel with
  | zero => cases hread
  | succ fuel =>
    rw [List.cons_append, readValue?_number hb] at hread
    obtain ⟨⟨l, r⟩, hnumber, heq⟩ := Option.map_eq_some_iff.1 hread
    cases heq
    have happend := readNumber?_append hnumber
    rw [← List.cons_append] at happend
    have hsame : (b :: t).length = l.length := by
      have hlen := congrArg List.length happend
      simp only [List.length_append] at hlen
      omega
    rw [List.append_inj_left happend hsame]

/-! ## Strings -/

theorem eq_str_of_readFrom {v : Json} {body : Text} {cs : List Char} (hbody : StringLiteral body cs)
    (h : ReadFrom v (34 :: (body ++ [34]))) : v = .str (cs.flatMap String.utf8EncodeChar) := by
  obtain ⟨fuel, depth, after, rest, hread, -⟩ := h
  cases fuel with
  | zero => cases hread
  | succ fuel =>
    have hskip : skipWhite (34 :: (body ++ 34 :: after)) = 34 :: (body ++ 34 :: after) :=
      List.dropWhile_cons_of_neg (by decide)
    have hstring := readString?_literal hbody [] after
    have hvalue : readValue? (fuel + 1) depth (34 :: (body ++ 34 :: after)) =
        (readString? none [] (body ++ 34 :: after)).map fun (s, r) => (.str s, r) := by
      rw [readValue?, hskip]
      rfl
    simp only [List.flatMap_nil, List.reverse_nil, List.nil_append] at hstring
    simp only [List.cons_append, List.append_assoc, List.nil_append] at hread
    rw [hvalue, hstring, Option.map_some] at hread
    cases hread
    rfl

/-! ## Members -/

theorem readFrom_of_mem_readMembersFrom? {n : Nat} {acc ms : List Member} {t r : Text}
    (h : readMembersFrom? n acc t = some (ms, r)) (hacc : ∀ m ∈ acc, ReadFrom m.value m.source) :
    ∀ m ∈ ms, ReadFrom m.value m.source := by
  induction n generalizing acc t with
  | zero => cases h
  | succ n ih =>
    rw [readMembersFrom?] at h
    split at h
    · split at h
      · cases h
      · split at h
        · dsimp only at h
          split at h
          · cases h
          · rename_i hv
            have hnew := readFrom_take hv
            split at h
            · exact ih h (List.forall_mem_cons.2 ⟨hnew, hacc⟩)
            · cases h
              intro m hm
              rcases List.mem_cons.1 (List.mem_reverse.1 hm) with rfl | hm
              · exact hnew
              · exact hacc m hm
            · cases h
        · cases h
    · cases h

theorem readFrom_of_mem_readMembers? {t : Text} {ms : List Member} (h : readMembers? t = some ms) :
    ∀ m ∈ ms, ReadFrom m.value m.source := by
  unfold readMembers? at h
  split at h
  · split at h
    · split at h
      · cases h
        simp
      · cases h
    · split at h
      · rename_i hms
        split at h
        · cases h
          exact readFrom_of_mem_readMembersFrom? hms (by simp)
        · cases h
      · cases h
  · cases h

end Json

namespace Envelope

theorem id_of_field? {e e' : Envelope} {m : Json.Member} (h : e.field? m = some e') :
    e'.id = e.id ∨ e'.id = none ∨ e'.id = some ⟨m.value, m.source⟩ := by
  unfold field? at h
  split at h
  · obtain ⟨-, -, rfl⟩ := Option.map_eq_some_iff.1 h
    exact .inl rfl
  · split at h
    · split at h
      · cases h
        exact .inr (.inl rfl)
      · cases h
        exact .inr (.inr rfl)
    · split at h
      · obtain ⟨-, -, rfl⟩ := Option.map_eq_some_iff.1 h
        exact .inl rfl
      · split at h
        · cases h
          exact .inl rfl
        · cases h
          exact .inl rfl

theorem id_of_fold {ms : List Json.Member} {e e' : Envelope} (h : ms.foldlM field? e = some e')
    {id : MessageId} (hid : e'.id = some id) :
    e.id = some id ∨ ∃ m ∈ ms, id = ⟨m.value, m.source⟩ := by
  induction ms generalizing e with
  | nil =>
    cases h
    exact .inl hid
  | cons m ms ih =>
    rw [List.foldlM_cons] at h
    obtain ⟨e₁, hfield, hrest⟩ := Option.bind_eq_some_iff.1 h
    rcases ih hrest with hid₁ | ⟨m', hm', rfl⟩
    · rcases id_of_field? hfield with hsame | hnone | hnew
      · exact .inl (hsame ▸ hid₁)
      · rw [hnone] at hid₁
        cases hid₁
      · rw [hnew] at hid₁
        cases hid₁
        exact .inr ⟨m, List.mem_cons_self, rfl⟩
    · exact .inr ⟨m', List.mem_cons_of_mem _ hm', rfl⟩

/-- The value of an id was read from its source. -/
theorem source_of_read? {body : Text} {e : Envelope} {id : MessageId} (h : read? body = some e)
    (hid : e.id = some id) : id.value.ReadFrom id.source := by
  unfold read? at h
  split at h
  · rename_i ms hms
    rcases id_of_fold h hid with hnone | ⟨m, hm, rfl⟩
    · cases hnone
    · exact Json.readFrom_of_mem_readMembers? hms m hm
  · split at h
    · cases h
      cases hid
    · cases h

end Envelope

end RuleLang
