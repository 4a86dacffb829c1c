/-!
# RuleLang.Editor.Lru

A store with room for a number of values, each under a key. Asking for a key makes it the most recent
one. A value that is added makes its key the most recent one too, and the least recent keys go if
there is no room for them.

What others rely on is stated in `Lru.Found` and `Lru.Added`: a key that is found is refreshed, the
oldest key is dropped for a new one, and every value stays under the key it came in with.
-/

namespace RuleLang

structure Lru (κ ν : Type) where
  capacity : Nat
  /-- most recent first -/
  entries : List (κ × ν)
deriving Repr, DecidableEq

namespace Lru

variable {κ ν : Type} [DecidableEq κ]

/-- The keys, most recent first. -/
def keys (l : Lru κ ν) : List κ := l.entries.map Prod.fst

/-- The entries under all keys but this one. -/
def others (l : Lru κ ν) (key : κ) : List (κ × ν) := l.entries.filter fun e => e.1 ≠ key

/-- The value under a key, and the store after it was asked for. -/
def get? (l : Lru κ ν) (key : κ) : Option (ν × Lru κ ν) :=
  (l.entries.lookup key).map fun v => (v, { l with entries := (key, v) :: l.others key })

/-- Put a value under a key. -/
def add (l : Lru κ ν) (key : κ) (v : ν) : Lru κ ν :=
  { l with entries := ((key, v) :: l.others key).take l.capacity }

/-! ## Laws -/

/-- The value `v` was found under `key`, which is refreshed in `l'`. -/
structure Found (l : Lru κ ν) (key : κ) (v : ν) (l' : Lru κ ν) : Prop where
  capacity : l'.capacity = l.capacity
  stored : (key, v) ∈ l.entries
  keys : l'.keys = key :: l.keys.filter (· ≠ key)
  entries : ∀ e ∈ l'.entries, e ∈ l.entries

/-- The value `v` was added under `key`, and the oldest keys that there is no room for are gone. -/
structure Added (l : Lru κ ν) (key : κ) (v : ν) (l' : Lru κ ν) : Prop where
  capacity : l'.capacity = l.capacity
  keys : l'.keys = (key :: l.keys.filter (· ≠ key)).take l.capacity
  entries : ∀ e ∈ l'.entries, e = (key, v) ∨ e ∈ l.entries

theorem map_fst_others (l : Lru κ ν) (key : κ) :
    (l.others key).map Prod.fst = l.keys.filter (· ≠ key) := by
  rw [others, keys, List.filter_map]
  rfl

theorem mem_of_mem_others {l : Lru κ ν} {key : κ} {e : κ × ν} (h : e ∈ l.others key) :
    e ∈ l.entries :=
  (List.mem_filter.1 h).1

theorem get?_eq_none_iff (l : Lru κ ν) (key : κ) : l.get? key = none ↔ key ∉ l.keys := by
  simp only [get?, Option.map_eq_none_iff, List.lookup_eq_none_iff, bne_iff_ne, keys, List.mem_map,
    not_exists, not_and]
  exact forall₂_congr fun e _ => ne_comm

theorem found_of_get? {l l' : Lru κ ν} {key : κ} {v : ν} (h : l.get? key = some (v, l')) :
    l.Found key v l' := by
  obtain ⟨v', hlookup, heq⟩ := Option.map_eq_some_iff.1 h
  cases heq
  obtain ⟨front, back, hsplit, -⟩ := List.lookup_eq_some_iff.1 hlookup
  have hstored : (key, v) ∈ l.entries := by simp [hsplit]
  refine ⟨rfl, hstored, ?_, ?_⟩
  · rw [keys, List.map_cons, map_fst_others]
  · intro e he
    rcases List.mem_cons.1 he with rfl | he
    · exact hstored
    · exact mem_of_mem_others he

theorem added_add (l : Lru κ ν) (key : κ) (v : ν) : l.Added key v (l.add key v) := by
  refine ⟨rfl, ?_, ?_⟩
  · rw [keys, add, List.map_take, List.map_cons, map_fst_others]
  · intro e he
    rcases List.mem_cons.1 (List.mem_of_mem_take he) with rfl | he
    · exact .inl rfl
    · exact .inr (mem_of_mem_others he)

end Lru

end RuleLang
