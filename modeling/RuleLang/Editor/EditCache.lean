import RuleLang.Text.Document
import RuleLang.Text.Sha256
import RuleLang.Indent.Edit
import RuleLang.Editor.Lru

/-!
# RuleLang.Editor.EditCache

The edits of the most recently formatted texts. A key is the digest of a text together with a
style; the catalog is not part of it, since one cache serves one catalog. A hit gives back the
stored edits; a miss computes the edits and adds them.
-/

namespace RuleLang

structure EditKey where
  digest : Text
  style : Style
deriving Repr, DecidableEq

structure EditCache extends Lru EditKey (List Edit)
deriving Repr, DecidableEq

namespace EditCache

/-- Number of entries where no positive size is given. -/
def defaultCapacity : Nat := 128

def empty (size : Int) : EditCache :=
  ⟨⟨if size ≤ 0 then defaultCapacity else size.toNat, []⟩⟩

def size (k : EditCache) : Nat := k.entries.length

/-- The edits for a text and a style, and the cache after the look-up. -/
def get (k : EditCache) (c : Catalog) (text : Text) (s : Style) : List Edit × EditCache :=
  let key : EditKey := ⟨text.sha256, s⟩
  match k.toLru.get? key with
  | some (edits, store) => (edits, ⟨store⟩)
  | none =>
    let edits := Edit.compute c text.lines s
    (edits, ⟨k.toLru.add key edits⟩)

/-- A look-up finds edits under its key, or computes them and adds them. -/
theorem found_or_added (k : EditCache) (c : Catalog) (t : Text) (s : Style) :
    k.toLru.Found ⟨t.sha256, s⟩ (k.get c t s).1 (k.get c t s).2.toLru ∨
    (⟨t.sha256, s⟩ ∉ k.keys ∧ (k.get c t s).1 = Edit.compute c t.lines s ∧
      k.toLru.Added ⟨t.sha256, s⟩ (k.get c t s).1 (k.get c t s).2.toLru) := by
  cases hfound : k.toLru.get? ⟨t.sha256, s⟩ with
  | some found =>
    left
    simp only [get, hfound]
    exact Lru.found_of_get? hfound
  | none =>
    right
    simp only [get, hfound]
    exact ⟨(Lru.get?_eq_none_iff _ _).1 hfound, trivial, Lru.added_add _ _ _⟩

end EditCache

end RuleLang
