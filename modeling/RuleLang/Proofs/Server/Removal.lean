import RuleLang.Proofs.Server.Framing

/-!
# RuleLang.Proofs.Server.Removal

Frames can be taken out of a stream without a trace in the others.

Header lines are read one by one (`Frame.readHead_line`), so a head that is complete is complete in
front of anything (`Frame.readHead_complete_append`), and a frame is a frame in front of anything
(`Frame.first_frame_append`). Hence a stream `without` some of its frames is read as the other
bodies and ends as before (`Frame.split_without`).
-/

namespace RuleLang

namespace Frame

theorem readHead_line {line : Text} (h : 10 ∉ line) (fuel : Nat) (length : Option Int)
    (rest : Text) :
    readHead (fuel + 1) length (line ++ 10 :: rest) =
      (let line := (line.reverse.dropWhile (· = 13)).reverse
       if line.isEmpty then
         match length with
         | some (.ofNat n) => .complete n rest
         | _ => .faulty .missingLength
       else match lengthValue? line with
         | none => readHead fuel length rest
         | some v =>
           match Numeral.decimal? v with
           | .ok n => readHead fuel (some n) rest
           | .error f => .faulty (.badLength v f)) := by
  have hread := readHead.eq_def (fuel + 1) length (line ++ 10 :: rest)
  simp only [takeWhile_line rest h, List.drop_left] at hread
  exact hread

theorem readHead_complete_append {fuel : Nat} {length : Option Int} {t : Text} {n : Nat}
    {rest : Text} (h : readHead fuel length t = .complete n rest) :
    ∃ head, t = head ++ rest ∧ ∀ (fuel' : Nat) (more : Text), head.length ≤ fuel' →
      readHead fuel' length (head ++ more) = .complete n more := by
  induction fuel generalizing length t with
  | zero => cases h
  | succ fuel ih =>
    by_cases hfeed : 10 ∈ t
    · obtain ⟨line, rest', rfl, hline⟩ := List.eq_append_cons_of_mem hfeed
      rw [readHead_line hline] at h
      dsimp only at h
      split at h
      · rename_i hend
        split at h
        · cases h
          refine ⟨line ++ [10], by simp, ?_⟩
          intro fuel' more hfuel
          obtain ⟨f, rfl⟩ : ∃ f, fuel' = f + 1 := ⟨fuel' - 1, by simp at hfuel; omega⟩
          rw [List.append_assoc, List.singleton_append, readHead_line hline]
          dsimp only
          rw [if_pos hend]
        · cases h
      · rename_i hmore
        -- the lines that follow are read with what this one says
        obtain ⟨length', hrest, hstep⟩ : ∃ length', readHead fuel length' rest' = .complete n rest ∧
            ∀ f more, readHead (f + 1) length (line ++ 10 :: more) = readHead f length' more := by
          split at h
          · rename_i hvalue
            refine ⟨length, h, fun f more => ?_⟩
            rw [readHead_line hline]
            dsimp only
            rw [if_neg hmore, hvalue]
          · rename_i v hvalue
            split at h
            · rename_i m hm
              refine ⟨some m, h, fun f more => ?_⟩
              rw [readHead_line hline]
              dsimp only
              rw [if_neg hmore, hvalue]
              dsimp only
              rw [hm]
            · cases h
        obtain ⟨head, rfl, hhead⟩ := ih hrest
        refine ⟨line ++ 10 :: head, by simp, ?_⟩
        intro fuel' more hfuel
        obtain ⟨f, rfl⟩ : ∃ f, fuel' = f + 1 := ⟨fuel' - 1, by simp at hfuel; omega⟩
        rw [List.append_assoc, List.cons_append, hstep]
        exact hhead f more (by simp at hfuel; omega)
    · rw [readHead_of_not_mem _ _ hfeed] at h
      cases h

theorem first_frame_append {t b r : Text} (h : first t = .frame b r) :
    ∃ raw, t = raw ++ r ∧ ∀ more, first (raw ++ more) = .frame b more := by
  unfold first at h
  split at h
  · cases h
  · cases h
  · rename_i n rest hhead
    obtain ⟨head, rfl, hcomplete⟩ := readHead_complete_append hhead
    dsimp only at h
    split at h
    · rename_i hlen
      cases h
      refine ⟨head ++ rest.take n, by simp, ?_⟩
      intro more
      rw [List.append_assoc, first, hcomplete _ _ (by simp)]
      simp [hlen]
    · cases h

/-- A stream without the frames whose bodies satisfy `p`. -/
def without (p : Text → Bool) (t : Text) : Text :=
  match _h : first t with
  | .frame body rest =>
    (if p body then [] else t.take (t.length - rest.length)) ++ without p rest
  | _ => t
termination_by t.length
decreasing_by exact first_frame_length ‹_›

theorem split_without (p : Text → Bool) (t : Text) :
    split (without p t) = ((split t).1.filter fun b => !p b, (split t).2) := by
  fun_induction without p t with
  | case1 t b r hf ih =>
    obtain ⟨raw, rfl, hraw⟩ := first_frame_append hf
    rw [split_of_frame hf]
    by_cases hp : p b = true
    · simp [hp, ih]
    · have hkeep : (raw ++ r).take ((raw ++ r).length - r.length) = raw := by simp
      rw [if_neg hp, hkeep, split_of_frame (hraw _), ih]
      simp [hp]
  | case2 t hf =>
    have hnone : (split t).1 = [] := by
      cases hfirst : first t with
      | frame b r => exact absurd hfirst (hf b r)
      | wait inBody => rw [split_of_wait hfirst]
      | faulty e => simp only [split, splitFrom, hfirst]
    rw [hnone, List.filter_nil, ← hnone]

end Frame

end RuleLang
