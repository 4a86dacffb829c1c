import Mathlib.Data.Finset.Card
import Mathlib.Data.Set.Function
import RuleLang.Catalog.Builtin
import RuleLang.Proofs.Server.CacheTransparency

/-!
# RuleLang.Proofs.Editor.RecentKeys

What the edit cache holds after any number of look-ups.

`recent` lists what was looked up, each text and style once, the latest use first. One look-up
moves its key to the front (`recent_concat`), and the cache does the same with the keys it has room
for (`EditCache.map_fst_get`), because the store below it refreshes a key that it finds and drops its
oldest key for a new one (`EditCache.found_or_added`). By induction on the look-ups, the keys of the
cache are the first ones of `recent` (`EditCache.map_fst_entries_after`), and every entry holds what
was computed when its key came in (`EditCache.Traced`). `EditCache.holds_recent_keys` puts this
together.
-/

namespace RuleLang

/-- One use of the cache. -/
structure Lookup where
  catalog : Catalog
  text : Text
  style : Style

namespace Lookup

/-- What is looked up. The catalog is no part of it. -/
def subject (u : Lookup) : Text × Style := (u.text, u.style)

end Lookup

/-- The texts and styles that were looked up, each at its last use, the latest first. -/
def recent (uses : List Lookup) : List (Text × Style) :=
  (uses.map Lookup.subject).reverse.eraseDups

/-! ## Recency -/

theorem eraseDups_filter {α : Type} [BEq α] [LawfulBEq α] (p : α → Bool) (l : List α) :
    (l.filter p).eraseDups = l.eraseDups.filter p := by
  generalize hn : l.length = n
  induction n using Nat.strongRecOn generalizing l with
  | ind n ih =>
    cases l with
    | nil => rfl
    | cons a l =>
      have hlt : (l.filter fun b => !b == a).length < n := by
        have := List.length_filter_le (fun b => !b == a) l
        rw [← hn, List.length_cons]
        omega
      rw [List.eraseDups_cons]
      by_cases ha : p a = true
      · rw [List.filter_cons_of_pos ha, List.filter_cons_of_pos ha, List.eraseDups_cons,
          ← ih _ hlt _ rfl, List.filter_filter, List.filter_filter]
        simp only [Bool.and_comm]
      · have hskip : l.filter p = (l.filter fun b => !b == a).filter p := by
          rw [List.filter_filter]
          apply List.filter_congr
          intro b _
          cases hb : b == a with
          | false => simp
          | true =>
            obtain rfl := eq_of_beq hb
            simp [ha]
        rw [List.filter_cons_of_neg ha, List.filter_cons_of_neg ha, ← ih _ hlt _ rfl, ← hskip]

theorem recent_concat (uses : List Lookup) (u : Lookup) :
    recent (uses ++ [u]) = u.subject :: (recent uses).filter (· ≠ u.subject) := by
  simp only [recent, List.map_append, List.map_cons, List.map_nil, List.reverse_append,
    List.reverse_cons, List.reverse_nil, List.nil_append, List.singleton_append,
    List.eraseDups_cons, eraseDups_filter]
  congr 1
  apply List.filter_congr
  intro x _
  rw [Bool.eq_iff_iff]
  simp

theorem mem_recent {uses : List Lookup} {x : Text × Style} :
    x ∈ recent uses ↔ ∃ u ∈ uses, u.subject = x := by
  simp [recent, List.mem_eraseDups]

theorem nodup_recent (uses : List Lookup) : (recent uses).Nodup := by
  induction uses using List.reverseRecOn with
  | nil => exact List.nodup_nil
  | append_singleton uses u ih =>
    rw [recent_concat, List.nodup_cons]
    exact ⟨by simp, ih.filter _⟩

theorem length_recent (uses : List Lookup) :
    (recent uses).length = (uses.map Lookup.subject).toFinset.card := by
  rw [← List.toFinset_card_of_nodup (nodup_recent uses)]
  congr 1
  ext x
  simp [mem_recent]

/-! ## The first places of a list -/

section FirstPlaces

variable {α : Type} [DecidableEq α] {l : List α} {a : α} {n : Nat}

theorem filter_ne_of_not_mem (ha : a ∉ l) : l.filter (· ≠ a) = l := by
  rw [List.filter_eq_self]
  intro x hx
  have hne : x ≠ a := fun heq => ha (heq ▸ hx)
  simpa using hne

/-- A member of the first `n` makes room for one fewer when it is taken out. -/
theorem filter_take_of_mem (hl : l.Nodup) (ha : a ∈ l.take n) :
    (l.take n).filter (· ≠ a) = (l.filter (· ≠ a)).take (n - 1) := by
  induction l generalizing n with
  | nil => simp at ha
  | cons x l ih =>
    obtain ⟨n, rfl⟩ : ∃ m, n = m + 1 := by
      cases n with
      | zero => simp at ha
      | succ m => exact ⟨m, rfl⟩
    obtain ⟨hx, hl⟩ := List.nodup_cons.1 hl
    rw [List.take_succ_cons, List.mem_cons] at ha
    rw [List.take_succ_cons, Nat.add_sub_cancel]
    by_cases hxa : x = a
    · subst hxa
      have htake : x ∉ l.take n := fun hmem => hx (List.mem_of_mem_take hmem)
      rw [List.filter_cons_of_neg (by simp), List.filter_cons_of_neg (by simp),
        filter_ne_of_not_mem hx, filter_ne_of_not_mem htake]
    · have hmem : a ∈ l.take n := ha.resolve_left fun heq => hxa heq.symm
      obtain ⟨n, rfl⟩ : ∃ m, n = m + 1 := by
        cases n with
        | zero => simp at hmem
        | succ m => exact ⟨m, rfl⟩
      rw [List.filter_cons_of_pos (by simpa using hxa), List.filter_cons_of_pos (by simpa using hxa),
        List.take_succ_cons, ih hl hmem, Nat.add_sub_cancel]

/-- Taking out what is not among the first `n` leaves these as they are. -/
theorem take_filter_of_not_mem (ha : a ∉ l.take n) :
    (l.filter (· ≠ a)).take n = l.take n := by
  induction l generalizing n with
  | nil => rfl
  | cons x l ih =>
    cases n with
    | zero => rfl
    | succ n =>
      rw [List.take_succ_cons, List.mem_cons, not_or] at ha
      obtain ⟨hxa, ha⟩ := ha
      rw [List.filter_cons_of_pos (by simpa using fun heq => hxa heq.symm), List.take_succ_cons,
        List.take_succ_cons, ih ha]

end FirstPlaces

/-! ## Keys -/

namespace EditCache

/-- The key of a text and a style. -/
def keyOf (x : Text × Style) : EditKey := ⟨x.1.sha256, x.2⟩

/-- The cache after some uses. -/
def after (k : EditCache) (uses : List Lookup) : EditCache :=
  uses.foldl (fun k u => (k.get u.catalog u.text u.style).2) k

theorem after_concat (k : EditCache) (uses : List Lookup) (u : Lookup) :
    k.after (uses ++ [u]) = ((k.after uses).get u.catalog u.text u.style).2 := by
  simp [after]

theorem capacity_get (k : EditCache) (c : Catalog) (t : Text) (s : Style) :
    (k.get c t s).2.capacity = k.capacity := by
  rcases k.found_or_added c t s with hfound | ⟨-, -, hadded⟩
  · exact hfound.capacity
  · exact hadded.capacity

theorem capacity_after (k : EditCache) (uses : List Lookup) :
    (k.after uses).capacity = k.capacity := by
  induction uses using List.reverseRecOn with
  | nil => rfl
  | append_singleton uses u ih => rw [after_concat, capacity_get, ih]

theorem capacity_empty (size : Int) :
    (empty size).capacity = if size ≤ 0 then 128 else size.toNat := rfl

theorem capacity_empty_pos (size : Int) : 0 < (empty size).capacity := by
  rw [capacity_empty]
  split <;> omega

/-- A look-up moves its key to the front; a new key may push the last one out. -/
theorem map_fst_get (k : EditCache) (c : Catalog) (t : Text) (s : Style) :
    (k.get c t s).2.entries.map Prod.fst =
      if keyOf (t, s) ∈ k.entries.map Prod.fst then
        keyOf (t, s) :: (k.entries.map Prod.fst).filter (· ≠ keyOf (t, s))
      else (keyOf (t, s) :: k.entries.map Prod.fst).take k.capacity := by
  rcases k.found_or_added c t s with hfound | ⟨habsent, -, hadded⟩
  · have hmem : keyOf (t, s) ∈ k.entries.map Prod.fst := List.mem_map_of_mem hfound.stored
    rw [if_pos hmem]
    exact hfound.keys
  · have hnew : keyOf (t, s) ∉ k.entries.map Prod.fst := habsent
    rw [if_neg hnew, ← filter_ne_of_not_mem hnew]
    exact hadded.keys

/-- Do the texts of some uses have different digests? -/
def DigestsApart (uses : List Lookup) : Prop :=
  Set.InjOn Text.sha256 {t | ∃ u ∈ uses, u.text = t}

theorem DigestsApart.keyOf_inj {uses : List Lookup} (h : DigestsApart uses) {x y : Text × Style}
    (hx : ∃ u ∈ uses, u.subject = x) (hy : ∃ u ∈ uses, u.subject = y)
    (heq : keyOf x = keyOf y) : x = y := by
  obtain ⟨u, hu, rfl⟩ := hx
  obtain ⟨v, hv, rfl⟩ := hy
  obtain ⟨hdigest, hstyle⟩ := EditKey.mk.inj heq
  have htext : u.text = v.text := h ⟨u, hu, rfl⟩ ⟨v, hv, rfl⟩ hdigest
  exact Prod.ext htext hstyle

theorem DigestsApart.mono {uses uses' : List Lookup} (h : DigestsApart uses)
    (hsub : uses' ⊆ uses) : DigestsApart uses' := by
  apply Set.InjOn.mono _ h
  rintro t ⟨u, hu, rfl⟩
  exact ⟨u, hsub hu, rfl⟩

/-- The keys in the cache are those of the latest subjects, as many as there is room for. -/
theorem map_fst_entries_after (size : Int) {uses : List Lookup} (h : DigestsApart uses) :
    ((empty size).after uses).entries.map Prod.fst =
      ((recent uses).take (empty size).capacity).map keyOf := by
  induction uses using List.reverseRecOn with
  | nil => simp [after, empty, recent]
  | append_singleton uses u ih =>
    have ih := ih (h.mono (List.subset_append_left uses [u]))
    have hpos := capacity_empty_pos size
    have hused : ∀ x ∈ recent uses, ∃ v ∈ uses ++ [u], v.subject = x := by
      intro x hx
      obtain ⟨v, hv, rfl⟩ := mem_recent.1 hx
      exact ⟨v, List.mem_append_left _ hv, rfl⟩
    have hinj : ∀ x ∈ recent uses, keyOf x = keyOf u.subject → x = u.subject :=
      fun x hx heq => h.keyOf_inj (hused x hx) ⟨u, by simp, rfl⟩ heq
    -- a key is in the cache if and only if its subject is among the latest
    have hmem : keyOf u.subject ∈ ((recent uses).take (empty size).capacity).map keyOf ↔
        u.subject ∈ (recent uses).take (empty size).capacity := by
      constructor
      · intro hkey
        obtain ⟨x, hx, heq⟩ := List.mem_map.1 hkey
        rwa [← hinj x (List.mem_of_mem_take hx) heq]
      · exact List.mem_map_of_mem
    have hget := map_fst_get ((empty size).after uses) u.catalog u.text u.style
    rw [← Lookup.subject, ih, capacity_after] at hget
    rw [after_concat, hget, recent_concat]
    generalize (empty size).capacity = n at hmem hpos
    obtain ⟨n, rfl⟩ : ∃ m, n = m + 1 := ⟨n - 1, by omega⟩
    rw [List.take_succ_cons (a := u.subject), List.map_cons]
    by_cases hin : u.subject ∈ (recent uses).take (n + 1)
    · have hfilter : (((recent uses).take (n + 1)).map keyOf).filter (· ≠ keyOf u.subject) =
          (((recent uses).take (n + 1)).filter (· ≠ u.subject)).map keyOf := by
        rw [List.filter_map]
        congr 1
        apply List.filter_congr
        intro x hx
        have hiff : keyOf x = keyOf u.subject ↔ x = u.subject :=
          ⟨hinj x (List.mem_of_mem_take hx), congrArg keyOf⟩
        simp [hiff]
      rw [if_pos (hmem.2 hin), hfilter, filter_take_of_mem (nodup_recent uses) hin,
        Nat.add_sub_cancel]
    · have hout : u.subject ∉ (recent uses).take n :=
        fun hx => hin (List.take_subset_take_left _ (Nat.le_succ n) hx)
      rw [if_neg fun hkey => hin (hmem.1 hkey), List.take_succ_cons, take_filter_of_not_mem hout,
        ← List.map_take, List.take_take, Nat.min_eq_left (Nat.le_succ n)]

/-! ## Edits -/

/-- The subjects that are in a cache for `capacity` keys before use `n`. -/
def heldBefore (capacity : Nat) (uses : List Lookup) (n : Nat) : List (Text × Style) :=
  (recent (uses.take n)).take capacity

/-- Use `j` brought `x` in, and `x` has stayed in the cache until use `i`. -/
structure CameIn (capacity : Nat) (uses : List Lookup) (x : Text × Style) (j i : Nat) : Prop where
  le : j ≤ i
  absent : x ∉ heldBefore capacity uses j
  present : ∀ m, j < m → m ≤ i → x ∈ heldBefore capacity uses m

theorem CameIn.succ {capacity : Nat} {uses : List Lookup} {x : Text × Style} {j i : Nat}
    (h : CameIn capacity uses x j i) (hx : x ∈ heldBefore capacity uses (i + 1)) :
    CameIn capacity uses x j (i + 1) where
  le := Nat.le_succ_of_le h.le
  absent := h.absent
  present m hj hm := by
    rcases Nat.lt_or_eq_of_le hm with hlt | rfl
    · exact h.present m hj (Nat.le_of_lt_succ hlt)
    · exact hx

/-- The edits are those that were computed when `x` came in, last before or at use `i`. -/
def Traced (capacity : Nat) (uses : List Lookup) (i : Nat) (x : Text × Style)
    (edits : List Edit) : Prop :=
  ∃ (j : Nat) (u : Lookup), CameIn capacity uses x j i ∧ uses[j]? = some u ∧ u.subject = x ∧
    edits = Edit.compute u.catalog x.1.lines x.2

theorem get_fst_of_not_mem {k : EditCache} {t : Text} {s : Style}
    (h : keyOf (t, s) ∉ k.entries.map Prod.fst) (c : Catalog) :
    (k.get c t s).1 = Edit.compute c t.lines s := by
  rcases k.found_or_added c t s with hfound | ⟨-, hcomputed, -⟩
  · exact absurd (List.mem_map_of_mem hfound.stored) h
  · exact hcomputed

theorem mem_entries_of_mem {k : EditCache} {t : Text} {s : Style}
    (h : keyOf (t, s) ∈ k.entries.map Prod.fst) (c : Catalog) :
    (keyOf (t, s), (k.get c t s).1) ∈ k.entries := by
  rcases k.found_or_added c t s with hfound | ⟨habsent, -, -⟩
  · exact hfound.stored
  · exact absurd h habsent

section Traced

variable {size : Int} {uses : List Lookup} (h : DigestsApart uses)

include h

theorem map_fst_entries_before (n : Nat) :
    ((empty size).after (uses.take n)).entries.map Prod.fst =
      (heldBefore (empty size).capacity uses n).map keyOf :=
  map_fst_entries_after size (h.mono (List.take_subset n uses))

theorem mem_heldBefore_of_key {n : Nat} {x : Text × Style} (hx : ∃ u ∈ uses, u.subject = x)
    (hkey : keyOf x ∈ ((empty size).after (uses.take n)).entries.map Prod.fst) :
    x ∈ heldBefore (empty size).capacity uses n := by
  rw [map_fst_entries_before h n] at hkey
  obtain ⟨y, hy, heq⟩ := List.mem_map.1 hkey
  obtain ⟨u, hu, rfl⟩ := mem_recent.1 (List.mem_of_mem_take hy)
  rwa [← h.keyOf_inj ⟨u, List.mem_of_mem_take hu, rfl⟩ hx heq]

/-- If the entries can be traced, so can the answer to the next use. -/
theorem traced_answer {i : Nat} {u : Lookup} (hu : uses[i]? = some u)
    (hentries : ∀ entry ∈ ((empty size).after (uses.take i)).entries, ∀ x,
      (∃ v ∈ uses, v.subject = x) → entry.1 = keyOf x →
        Traced (empty size).capacity uses i x entry.2) :
    Traced (empty size).capacity uses i u.subject
      (((empty size).after (uses.take i)).get u.catalog u.text u.style).1 := by
  have hused : ∃ v ∈ uses, v.subject = u.subject := ⟨u, List.mem_of_getElem? hu, rfl⟩
  by_cases hkey : keyOf u.subject ∈ ((empty size).after (uses.take i)).entries.map Prod.fst
  · exact hentries _ (mem_entries_of_mem hkey u.catalog) _ hused rfl
  · have habsent : u.subject ∉ heldBefore (empty size).capacity uses i := by
      intro hx
      rw [map_fst_entries_before h i] at hkey
      exact hkey (List.mem_map_of_mem hx)
    have hcame : CameIn (empty size).capacity uses u.subject i i :=
      ⟨Nat.le_refl i, habsent, fun m hlt hle => absurd hlt (Nat.not_lt_of_le hle)⟩
    exact ⟨i, u, hcame, hu, rfl, get_fst_of_not_mem hkey u.catalog⟩

/-- Every entry holds what was computed when its key came in. -/
theorem traced_entries (n : Nat) :
    ∀ entry ∈ ((empty size).after (uses.take n)).entries, ∀ x,
      (∃ u ∈ uses, u.subject = x) → entry.1 = keyOf x →
        Traced (empty size).capacity uses n x entry.2 := by
  induction n with
  | zero => simp [after, empty]
  | succ n ih =>
    cases hu : uses[n]? with
    | none =>
      -- there is no such use, so nothing changes
      have hlen : uses.length ≤ n := List.getElem?_eq_none_iff.1 hu
      have hsame : uses.take (n + 1) = uses.take n := by
        rw [List.take_of_length_le hlen, List.take_of_length_le (by omega)]
      rw [hsame]
      intro entry hentry x hx hkey
      obtain ⟨j, u, hcame, hj, hsubject, hedits⟩ := ih entry hentry x hx hkey
      refine ⟨j, u, hcame.succ ?_, hj, hsubject, hedits⟩
      rw [heldBefore, hsame]
      exact mem_heldBefore_of_key h hx (hkey ▸ List.mem_map_of_mem hentry)
    | some u =>
      intro entry hentry x hx hkey
      have hstay : x ∈ heldBefore (empty size).capacity uses (n + 1) :=
        mem_heldBefore_of_key h hx (hkey ▸ List.mem_map_of_mem hentry)
      have hold : Traced (empty size).capacity uses n x entry.2 := by
        rw [List.take_add_one, hu, Option.toList_some, after_concat] at hentry
        rcases (get_cases _ _ _ _).2 entry hentry with rfl | hentry
        · have heq : u.subject = x :=
            h.keyOf_inj ⟨u, List.mem_of_getElem? hu, rfl⟩ hx hkey
          rw [← heq]
          exact traced_answer h hu ih
        · exact ih entry hentry x hx hkey
      obtain ⟨j, v, hcame, hj, hsubject, hedits⟩ := hold
      exact ⟨j, v, hcame.succ hstay, hj, hsubject, hedits⟩

end Traced

/-- **The cache holds the most recently used keys.** Its size is the given one, or 128 if that is
not positive. Before each use, and after the last, its keys are those of the latest subjects, as
many as fit, the latest first; their number is that of the different subjects so far or the size,
whichever is less. The answer to a use is what was computed, with the catalog given then, at the
first use of its subject since this was last absent. -/
theorem holds_recent_keys (size : Int) (uses : List Lookup)
    (hdigest : Set.InjOn Text.sha256 {t | ∃ u ∈ uses, u.text = t}) :
    let capacity := if size ≤ 0 then 128 else size.toNat
    (∀ n : Nat,
      let cache := (empty size).after (uses.take n)
      cache.entries.map Prod.fst = (heldBefore capacity uses n).map keyOf ∧
      cache.size = min capacity ((uses.take n).map Lookup.subject).toFinset.card ∧
      cache.size ≤ capacity) ∧
    ∀ (i : Nat) (u : Lookup), uses[i]? = some u →
      ∃ (j : Nat) (v : Lookup), CameIn capacity uses u.subject j i ∧ uses[j]? = some v ∧
        v.subject = u.subject ∧
        (((empty size).after (uses.take i)).get u.catalog u.text u.style).1 =
          Edit.compute v.catalog u.text.lines u.style := by
  intro capacity
  have hcap : capacity = (empty size).capacity := (capacity_empty size).symm
  rw [hcap]
  refine ⟨?_, ?_⟩
  · intro n cache
    have hkeys : cache.entries.map Prod.fst =
        (heldBefore (empty size).capacity uses n).map keyOf := map_fst_entries_before hdigest n
    have hsize : cache.size = min (empty size).capacity
        ((uses.take n).map Lookup.subject).toFinset.card := by
      have hlen := congrArg List.length hkeys
      rwa [List.length_map, List.length_map, heldBefore, List.length_take, length_recent] at hlen
    exact ⟨hkeys, hsize, hsize ▸ Nat.min_le_left _ _⟩
  · intro i u hu
    exact traced_answer hdigest hu (traced_entries hdigest i)

/-- Room for two: the first text is used again before the third comes in, so the second goes. -/
theorem holds_recent_keys_three_texts :
    let use (t : String) : Lookup := ⟨Catalog.builtin, txt t, {}⟩
    let uses := [use "rules:", use "- id:", use "rules:", use "fix:"]
    let cache := (empty 2).after uses
    Set.InjOn Text.sha256 {t | ∃ u ∈ uses, u.text = t} ∧
      cache.entries.map Prod.fst = [keyOf (txt "fix:", {}), keyOf (txt "rules:", {})] ∧
      cache.size = 2 := by
  intro use uses cache
  have hapart : ([txt "rules:", txt "- id:", txt "fix:"].map Text.sha256).Nodup := by
    decide +kernel
  have hdigest : Set.InjOn Text.sha256 {t | ∃ u ∈ uses, u.text = t} := by
    have hsub : ∀ u ∈ uses, u.text ∈ [txt "rules:", txt "- id:", txt "fix:"] := by
      simp [uses, use]
    rintro _ ⟨u, hu, rfl⟩ _ ⟨v, hv, rfl⟩ heq
    exact List.inj_on_of_nodup_map hapart (hsub u hu) (hsub v hv) heq
  obtain ⟨hkeys, hsize, -⟩ := (holds_recent_keys 2 uses hdigest).1 4
  have hheld : heldBefore 2 uses 4 = [(txt "fix:", {}), (txt "rules:", {})] := by decide +kernel
  exact ⟨hdigest, hkeys.trans (congrArg (List.map keyOf) hheld), hsize.trans (by decide +kernel)⟩

end EditCache

end RuleLang
