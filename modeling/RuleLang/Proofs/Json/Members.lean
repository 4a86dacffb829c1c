import Mathlib.Data.List.DropRight
import RuleLang.Server.Message

/-!
# RuleLang.Proofs.Json.Members

An object that is read member by member is the object that is read as a value
(`Json.read?_of_readMembers?`), so what is no JSON text is no message either
(`Envelope.read?_eq_none_of_not_json`).

Both readers get fuel from the length of a text, at different places. More fuel keeps an answer
(`Json.readValue?_fuel`), and what is left after a value is no longer than the text before it
(`Json.readValue?_length`), so the fuel of the whole text suffices for each member.
-/

namespace RuleLang

namespace Json

/-! ## What is left of a text -/

theorem length_skipWhite_le (t : Text) : (skipWhite t).length ≤ t.length :=
  (List.dropWhile_suffix isWhite).length_le

theorem length_of_skipWhite {t u : Text} {b : UInt8} (h : skipWhite t = b :: u) :
    u.length < t.length := by
  have hle := length_skipWhite_le t
  rw [h, List.length_cons] at hle
  omega

theorem readString?_length {high : Option Nat} {acc t s r : Text}
    (h : readString? high acc t = some (s, r)) : r.length < t.length := by
  fun_induction readString? high acc t <;> simp_all <;> omega

theorem readDigits?_length {t ds r : Text} (h : readDigits? t = some (ds, r)) :
    r.length ≤ t.length := by
  simp only [readDigits?] at h
  split at h
  · cases h
  · cases h
    simp

theorem readWhole?_length {t ds r : Text} (h : readWhole? t = some (ds, r)) :
    r.length ≤ t.length := by
  unfold readWhole? at h
  split at h
  · cases h
    simp
  · exact readDigits?_length h

theorem readFraction?_length {t ds r : Text} (h : readFraction? t = some (ds, r)) :
    r.length ≤ t.length := by
  unfold readFraction? at h
  split at h
  · obtain ⟨⟨ds', r'⟩, hd, heq⟩ := Option.map_eq_some_iff.1 h
    cases heq
    exact Nat.le_succ_of_le (readDigits?_length hd)
  · cases h
    exact Nat.le_refl _

theorem readExponent?_length {t ds r : Text} (h : readExponent? t = some (ds, r)) :
    r.length ≤ t.length := by
  unfold readExponent? at h
  split at h
  · split at h
    · obtain ⟨⟨ds', r'⟩, hd, heq⟩ := Option.map_eq_some_iff.1 h
      cases heq
      have hle := readDigits?_length hd
      rw [List.length_drop] at hle
      rw [List.length_cons]
      omega
    · cases h
      exact Nat.le_refl _
  · cases h
    exact Nat.le_refl _

theorem readNumber?_length {t l r : Text} (h : readNumber? t = some (l, r)) :
    r.length ≤ t.length := by
  unfold readNumber? at h
  split at h
  rename_i sign u hsign
  have hle : u.length ≤ t.length := by
    split at hsign <;> cases hsign <;> simp
  simp only [Option.bind_eq_bind, Option.bind_eq_some_iff, Option.pure_def,
    Option.some.injEq, Prod.mk.injEq] at h
  obtain ⟨⟨whole, t1⟩, h1, ⟨fraction, t2⟩, h2, ⟨exponent, t3⟩, h3, -, rfl⟩ := h
  have hle1 := readWhole?_length h1
  have hle2 := readFraction?_length h2
  have hle3 := readExponent?_length h3
  dsimp only at hle2 hle3 ⊢
  omega

theorem readValue?_length (n : Nat) :
    (∀ d t v r, readValue? n d t = some (v, r) → r.length ≤ t.length) ∧
    (∀ d acc t v r, readItems? n d acc t = some (v, r) → r.length ≤ t.length) ∧
    ∀ d acc t v r, readFields? n d acc t = some (v, r) → r.length ≤ t.length := by
  induction n with
  | zero => refine ⟨?_, ?_, ?_⟩ <;> simp [readValue?, readItems?, readFields?]
  | succ n ih =>
    obtain ⟨ihv, ihi, ihf⟩ := ih
    refine ⟨?_, ?_, ?_⟩
    · intro d t v r h
      have hle := length_skipWhite_le t
      rw [readValue?] at h
      generalize skipWhite t = u at h hle
      split at h
      case h_1 => cases h
      case h_2 t' =>
        obtain ⟨⟨s, r'⟩, hs, heq⟩ := Option.map_eq_some_iff.1 h
        cases heq
        have hlt := readString?_length hs
        rw [List.length_cons] at hle
        omega
      case h_3 t' =>
        split at h
        · cases h
        · have hle' := length_skipWhite_le t'
          rw [List.length_cons] at hle
          split at h
          · rename_i hskip
            cases h
            rw [hskip, List.length_cons] at hle'
            omega
          · have := ihi _ _ _ _ _ h
            omega
      case h_4 t' =>
        split at h
        · cases h
        · have hle' := length_skipWhite_le t'
          rw [List.length_cons] at hle
          split at h
          · rename_i hskip
            cases h
            rw [hskip, List.length_cons] at hle'
            omega
          · have := ihf _ _ _ _ _ h
            omega
      case h_8 =>
        obtain ⟨⟨l, r'⟩, hl, heq⟩ := Option.map_eq_some_iff.1 h
        cases heq
        exact Nat.le_trans (readNumber?_length hl) hle
      all_goals
        cases h
        simp only [List.length_cons] at hle
        omega
    · intro d acc t v r h
      rw [readItems?] at h
      split at h
      · cases h
      · rename_i v' t' hv
        have hle := ihv _ _ _ _ hv
        split at h
        · rename_i hskip
          have := length_of_skipWhite hskip
          have := ihi _ _ _ _ _ h
          omega
        · rename_i hskip
          have := length_of_skipWhite hskip
          cases h
          omega
        · cases h
    · intro d acc t v r h
      rw [readFields?] at h
      split at h
      · rename_i t1 h1
        have hlt1 := length_of_skipWhite h1
        split at h
        · cases h
        · rename_i name t2 hname
          have hlt2 := readString?_length hname
          split at h
          · rename_i t3 h3
            have hlt3 := length_of_skipWhite h3
            split at h
            · cases h
            · rename_i v' t4 hv
              have hle4 := ihv _ _ _ _ hv
              split at h
              · rename_i t5 h5
                have hlt5 := length_of_skipWhite h5
                have := ihf _ _ _ _ _ h
                omega
              · rename_i h5
                have hlt5 := length_of_skipWhite h5
                cases h
                omega
              · cases h
          · cases h
      · cases h

/-! ## Fuel -/

theorem readValue?_mono (n : Nat) :
    (∀ d t x, readValue? n d t = some x → readValue? (n + 1) d t = some x) ∧
    (∀ d acc t x, readItems? n d acc t = some x → readItems? (n + 1) d acc t = some x) ∧
    ∀ d acc t x, readFields? n d acc t = some x → readFields? (n + 1) d acc t = some x := by
  induction n with
  | zero => refine ⟨?_, ?_, ?_⟩ <;> simp [readValue?, readItems?, readFields?]
  | succ n ih =>
    obtain ⟨ihv, ihi, ihf⟩ := ih
    refine ⟨?_, ?_, ?_⟩
    · intro d t x h
      rw [readValue?] at h ⊢
      generalize skipWhite t = u at h ⊢
      revert h
      split
      case h_3 u' t' =>
        split
        · simp
        · generalize skipWhite t' = v
          split
          · exact id
          · exact ihi _ _ _ _
      case h_4 u' t' =>
        split
        · simp
        · generalize skipWhite t' = v
          split
          · exact id
          · exact ihf _ _ _ _
      all_goals exact id
    · intro d acc t x h
      rw [readItems?] at h ⊢
      cases hv : readValue? n d t with
      | none => simp [hv] at h
      | some p =>
        obtain ⟨v, t'⟩ := p
        rw [hv] at h
        rw [ihv _ _ _ hv]
        revert h
        dsimp only
        generalize skipWhite t' = u
        split
        · exact ihi _ _ _ _
        · exact id
        · exact id
    · intro d acc t x h
      rw [readFields?] at h ⊢
      generalize skipWhite t = u at h ⊢
      revert h
      split
      · rename_i t1
        split
        · exact id
        · rename_i name t2 _
          generalize skipWhite t2 = u2
          split
          · rename_i t3
            intro h
            cases hv : readValue? n d t3 with
            | none => simp [hv] at h
            | some p =>
              obtain ⟨v, t4⟩ := p
              rw [hv] at h
              rw [ihv _ _ _ hv]
              revert h
              dsimp only
              generalize skipWhite t4 = u4
              split
              · exact ihf _ _ _ _
              · exact id
              · exact id
          · exact id
      · exact id

theorem readValue?_fuel {n m d : Nat} {t : Text} {x : Json × Text} (hnm : n ≤ m)
    (h : readValue? n d t = some x) : readValue? m d t = some x := by
  induction hnm with
  | refl => exact h
  | step _ ih => exact (readValue?_mono _).1 _ _ _ ih

theorem readValue?_skipWhite (n d : Nat) (t : Text) :
    readValue? n d (skipWhite t) = readValue? n d t := by
  have hskip : skipWhite (skipWhite t) = skipWhite t := List.dropWhile_idempotent _ _
  cases n with
  | zero => rfl
  | succ n => rw [readValue?, readValue?, hskip]

/-! ## Members -/

/-- A member without the text of its value. -/
def Member.pair (m : Member) : Text × Json := (m.name, m.value)

theorem readFields?_of_members {n : Nat} {acc ms : List Member} {t r : Text}
    (h : readMembersFrom? n acc t = some (ms, r)) (fuel : Nat) (hfuel : 2 * t.length < fuel) :
    readFields? fuel (maxDepth - 1) (acc.map Member.pair) t =
      some (.obj (ms.map Member.pair), r) := by
  induction n generalizing acc t fuel with
  | zero => cases h
  | succ n ih =>
    obtain ⟨fuel, rfl⟩ : ∃ f, fuel = f + 1 := ⟨fuel - 1, by omega⟩
    rw [readMembersFrom?] at h
    rw [readFields?]
    split at h
    · rename_i t1 h1
      have hlt1 := length_of_skipWhite h1
      split at h
      · cases h
      · rename_i name t2 hname
        have hlt2 := readString?_length hname
        split at h
        · rename_i t3 h3
          have hlt3 := length_of_skipWhite h3
          dsimp only at h ⊢
          split at h
          · cases h
          · rename_i v rest hv
            rw [readValue?_skipWhite] at hv
            have hle := (readValue?_length _).1 _ _ _ _ hv
            have hskip := length_skipWhite_le t3
            rw [readValue?_fuel (by simp only [fuelFor]; omega) hv]
            dsimp only
            split at h
            · rename_i t5 h5
              have hlt5 := length_of_skipWhite h5
              exact ih h fuel (by omega)
            · cases h
              simp [Member.pair]
            · cases h
        · cases h
    · cases h

theorem readValue?_brace {n d : Nat} {t u : Text} (h : skipWhite t = 123 :: u) :
    readValue? (n + 1) (d + 1) t =
      match skipWhite u with
      | 125 :: r => some (.obj [], r)
      | u => readFields? n d [] u := by
  rw [readValue?, h]
  rfl

theorem read?_of_readMembers? {t : Text} {ms : List Member} (h : readMembers? t = some ms) :
    read? t = some (.obj (ms.map Member.pair)) := by
  unfold readMembers? at h
  split at h
  · rename_i t1 h1
    have hlt := length_of_skipWhite h1
    have hle := length_skipWhite_le t1
    have hvalue : readValue? (fuelFor t) maxDepth t = _ :=
      readValue?_brace (n := 2 * t.length + 1) (d := maxDepth - 1) h1
    rw [read?, hvalue]
    clear hvalue
    generalize skipWhite t1 = u at h hle ⊢
    split at h
    · rename_i r
      split at h
      · rename_i hend
        cases h
        simp [hend]
      · cases h
    · split at h
      · rename_i ms' r hms
        split at h
        · rename_i hend
          cases h
          have hfields := readFields?_of_members hms (2 * t.length + 1) (by omega)
          rw [List.map_nil] at hfields
          simp [hfields, hend]
        · cases h
      · cases h
  · cases h

end Json

/-- A message body is a JSON text. -/
theorem Envelope.read?_eq_none_of_not_json {body : Text} (h : Json.read? body = none) :
    Envelope.read? body = none := by
  unfold Envelope.read?
  split
  · rename_i ms hms
    rw [Json.read?_of_readMembers? hms] at h
    cases h
  · rw [h]

end RuleLang
