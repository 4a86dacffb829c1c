import RuleLang.Files.Tree

/-!
# RuleLang.Proofs.Files.Rewriting

Files that exist and get another content.

A path is resolved by what is a directory, what is a file and what is missing; what files hold plays
no part. So trees of one shape resolve every path alike (`FileTree.SameShape.resolve`).
`FileTree.Rewritten f ps t t'` says that `t'` is `t` with `f` applied to the files at the places
`ps`; it is kept when one more file is rewritten (`Rewritten.insert`), and tells what is read
afterwards (`Rewritten.read_of_mem`, `Rewritten.read_of_fixed`).
-/

namespace RuleLang

namespace FileNode

def isDirectory : FileNode → Bool
  | directory => true
  | file _ => false

/-- The node with `f` applied to its content. -/
def map (f : Text → Text) : FileNode → FileNode
  | directory => directory
  | file c => file (f c)

@[simp] theorem isDirectory_map (f : Text → Text) (n : FileNode) :
    (n.map f).isDirectory = n.isDirectory := by
  cases n <;> rfl

end FileNode

namespace FileTree

/-! ## Shape -/

/-- Directories and files at the same places, whatever the files hold. -/
structure SameShape (t t' : FileTree) : Prop where
  cwd : t'.cwd = t.cwd
  node : ∀ p, (t'.get? p).map FileNode.isDirectory = (t.get? p).map FileNode.isDirectory

namespace SameShape

variable {t t' : FileTree} (h : SameShape t t')

include h

theorem get?_cases (p : Path) :
    (t.get? p = none ∧ t'.get? p = none) ∨
    (t.get? p = some .directory ∧ t'.get? p = some .directory) ∨
    ∃ c c', t.get? p = some (.file c) ∧ t'.get? p = some (.file c') := by
  have hp := h.node p
  cases ht : t.get? p with
  | none =>
    rw [ht, Option.map_none, Option.map_eq_none_iff] at hp
    exact .inl ⟨rfl, hp⟩
  | some n =>
    rw [ht, Option.map_some] at hp
    obtain ⟨n', ht', hn⟩ := Option.map_eq_some_iff.1 hp
    rw [ht']
    cases n with
    | directory =>
      cases n' with
      | directory => exact .inr (.inl ⟨rfl, rfl⟩)
      | file c' => cases hn
    | file c =>
      cases n' with
      | directory => cases hn
      | file c' => exact .inr (.inr ⟨c, c', rfl, rfl⟩)

theorem walk (here : Path) (names : List Text) : t'.walk here names = t.walk here names := by
  induction names generalizing here with
  | nil => rfl
  | cons name names ih =>
    rw [FileTree.walk, FileTree.walk]
    rcases h.get?_cases here with ⟨ht, ht'⟩ | ⟨ht, ht'⟩ | ⟨_, _, ht, ht'⟩
    · rw [ht, ht']
    · rcases h.get?_cases (here ++ [name]) with ⟨hn, hn'⟩ | ⟨hn, hn'⟩ | ⟨_, _, hn, hn'⟩
      · simp only [ht, ht', hn, hn', ih]
      · simp only [ht, ht', hn, hn', ih]
      · simp only [ht, ht', hn, hn', ih]
    · rw [ht, ht']

theorem resolve (path : Text) : t'.resolve path = t.resolve path := by
  rw [FileTree.resolve, FileTree.resolve, h.cwd, h.walk]

end SameShape

/-! ## Reading and writing -/

theorem read_eq_ok_iff {t : FileTree} {path c : Text} :
    t.read path = .ok c ↔ ∃ p, t.resolve path = .ok p ∧ t.get? p = some (.file c) := by
  unfold read
  cases hr : t.resolve path with
  | error f => simp
  | ok p =>
    cases hg : t.get? p with
    | none => simp [hg]
    | some n => cases n <;> simp [hg]

theorem write_of_file {t : FileTree} {path c : Text} {p : Path} (content : Text)
    (hr : t.resolve path = .ok p) (hg : t.get? p = some (.file c)) :
    t.write path content = .ok (t.insert p (.file content)) := by
  simp only [write, hr, hg]

theorem ne_nil_of_file {t : FileTree} {p : Path} {c : Text} (h : t.get? p = some (.file c)) :
    p ≠ [] := by
  rintro rfl
  cases h

/-- The places that paths name. -/
def places (t : FileTree) (paths : List Text) : List Path :=
  paths.filterMap fun path => (t.resolve path).toOption

theorem mem_places {t : FileTree} {paths : List Text} {p : Path} :
    p ∈ t.places paths ↔ ∃ path ∈ paths, t.resolve path = .ok p := by
  rw [places, List.mem_filterMap]
  refine exists_congr fun path => and_congr_right fun _ => ?_
  cases t.resolve path <;> simp [Except.toOption]

theorem places_cons {t : FileTree} {path : Text} {p : Path} (h : t.resolve path = .ok p)
    (paths : List Text) : t.places (path :: paths) = p :: t.places paths :=
  List.filterMap_cons_some (by rw [h]; rfl)

/-! ## Rewritten files -/

/-- `t'` is `t` with `f` applied to the files at the places `ps`. -/
structure Rewritten (f : Text → Text) (ps : List Path) (t t' : FileTree) : Prop where
  cwd : t'.cwd = t.cwd
  node : ∀ q, t'.get? q = if q ∈ ps then (t.get? q).map (FileNode.map f) else t.get? q

theorem rewritten_nil (f : Text → Text) (t : FileTree) : Rewritten f [] t t :=
  ⟨rfl, fun _ => rfl⟩

namespace Rewritten

variable {f : Text → Text} {ps : List Path} {t t' : FileTree} (h : Rewritten f ps t t')

include h

theorem sameShape : SameShape t t' := by
  refine ⟨h.cwd, ?_⟩
  intro p
  rw [h.node]
  split
  · rw [Option.map_map]
    congr 1
    funext n
    exact FileNode.isDirectory_map f n
  · rfl

theorem get?_of_mem {p : Path} {c : Text} (hp : p ∈ ps) (hc : t.get? p = some (.file c)) :
    t'.get? p = some (.file (f c)) := by
  rw [h.node, if_pos hp, hc]
  rfl

theorem get?_of_not_mem {p : Path} (hp : p ∉ ps) : t'.get? p = t.get? p := by
  rw [h.node, if_neg hp]

/-- Only the members of the list of places count. -/
theorem congr {ps' : List Path} (hps : ∀ q, q ∈ ps ↔ q ∈ ps') : Rewritten f ps' t t' := by
  refine ⟨h.cwd, ?_⟩
  intro q
  simp only [← hps]
  exact h.node q

/-- A file that already has its new content need not be written. -/
theorem keep {p : Path} {c : Text} (hc : t.get? p = some (.file c))
    (hp : t'.get? p = some (.file (f c))) : Rewritten f (p :: ps) t t' := by
  refine ⟨h.cwd, ?_⟩
  intro q
  by_cases hq : q = p
  · subst hq
    rw [if_pos List.mem_cons_self, hp, hc]
    rfl
  · have hmem : q ∈ p :: ps ↔ q ∈ ps := by simp [hq]
    simp only [hmem]
    exact h.node q

theorem insert {p : Path} {c : Text} (hc : t.get? p = some (.file c)) :
    Rewritten f (p :: ps) t (t'.insert p (.file (f c))) := by
  refine ⟨h.cwd, ?_⟩
  intro q
  rw [get?_insert _ _ _ _ (ne_nil_of_file hc)]
  by_cases hq : q = p
  · subst hq
    rw [if_pos rfl, if_pos List.mem_cons_self, hc]
    rfl
  · have hmem : q ∈ p :: ps ↔ q ∈ ps := by simp [hq]
    rw [if_neg hq]
    simp only [hmem]
    exact h.node q

theorem resolve (path : Text) : t'.resolve path = t.resolve path := h.sameShape.resolve path

/-- A file of the old tree is one of the new tree, and `f` takes both contents to the same. -/
theorem exists_get? (hidem : ∀ c, f (f c) = f c) {p : Path} {c : Text}
    (hc : t.get? p = some (.file c)) : ∃ c', t'.get? p = some (.file c') ∧ f c' = f c := by
  by_cases hp : p ∈ ps
  · exact ⟨f c, h.get?_of_mem hp hc, hidem c⟩
  · exact ⟨c, by rw [h.get?_of_not_mem hp, hc], rfl⟩

/-- A file of the new tree was one of the old tree, with the same content or the one before `f`. -/
theorem exists_old {p : Path} {c' : Text} (hc' : t'.get? p = some (.file c')) :
    ∃ c, t.get? p = some (.file c) ∧ (p ∉ ps ∧ c' = c ∨ p ∈ ps ∧ c' = f c) := by
  rw [h.node] at hc'
  split at hc'
  · rename_i hp
    obtain ⟨n, hn, hmap⟩ := Option.map_eq_some_iff.1 hc'
    cases n with
    | directory => cases hmap
    | file c =>
      cases hmap
      exact ⟨c, hn, .inr ⟨hp, rfl⟩⟩
  · rename_i hp
    exact ⟨c', hc', .inl ⟨hp, rfl⟩⟩

theorem read_of_mem {path c : Text} {p : Path} (hr : t.resolve path = .ok p) (hp : p ∈ ps)
    (hc : t.get? p = some (.file c)) : t'.read path = .ok (f c) :=
  read_eq_ok_iff.2 ⟨p, by rw [h.resolve, hr], h.get?_of_mem hp hc⟩

/-- A path reads as before if `f` keeps what stands there. -/
theorem read_of_fixed {path : Text}
    (hfix : ∀ p ∈ ps, t.resolve path = .ok p → (t.get? p).map (FileNode.map f) = t.get? p) :
    t'.read path = t.read path := by
  unfold read
  rw [h.resolve]
  cases hr : t.resolve path with
  | error e => rfl
  | ok p =>
    have hp : t'.get? p = t.get? p := by
      rw [h.node]
      split
      · exact hfix p ‹p ∈ ps› hr
      · rfl
    dsimp only
    rw [hp]

end Rewritten

end FileTree
end RuleLang
