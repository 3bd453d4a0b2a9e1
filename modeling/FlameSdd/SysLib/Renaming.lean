import FlameSdd.SysLib.FileSystem
/-!
# Renaming

`rename` puts a place, and all below it, elsewhere. What any number of renames
does to a tree is a function on places: `Moves f fs fs'` says that every node is
in `fs'` at its place by `f`, that no two come to the same place, and that
nothing else is there. It leaves no choice for `fs'`: `Moves.unique`.
-/

namespace SysLib

/-! ## Places that move -/

namespace Path

/-- The place of `p` once what was at `src` is at `dst`. -/
def rebase (src dst p : Path) : Path := if src <:+ p then p.take (p.length - src.length) ++ dst else p

theorem rebase_append (src dst rest : Path) : rebase src dst (rest ++ src) = rest ++ dst := by
  rw [rebase, if_pos (List.suffix_append rest src), List.length_append, Nat.add_sub_cancel, List.take_left]

theorem rebase_self (src dst : Path) : rebase src dst src = dst := rebase_append src dst []

theorem rebase_of_not {src p : Path} (h : ¬ src <:+ p) (dst : Path) : rebase src dst p = p := if_neg h

theorem rebase_same (src p : Path) : rebase src src p = p := by
  by_cases hs : src <:+ p
  · obtain ⟨rest, rfl⟩ := hs
    exact rebase_append src src rest
  · exact rebase_of_not hs src

end Path

open SysLib.Path

namespace FileSystem

theorem eq_of_node {a b : FileSystem} (h : ∀ p, a.node p = b.node p) : a = b := by
  cases a
  cases b
  congr
  exact funext h

/-- A regular file. -/
def isFile (fs : FileSystem) (p : Path) : Bool :=
  match fs.node p with
  | some (.file _) => true
  | _ => false

theorem isFile_iff {fs : FileSystem} {p : Path} : fs.isFile p = true ↔ ∃ content, fs.node p = some (.file content) := by
  unfold isFile
  split
  · rename_i content h
    exact iff_of_true rfl ⟨content, h⟩
  · rename_i h
    exact iff_of_false nofun fun ⟨content, hc⟩ => h content hc

theorem present_of_isFile {fs : FileSystem} {p : Path} (h : fs.isFile p = true) : fs.present p = true := by
  obtain ⟨content, hnode⟩ := isFile_iff.1 h
  rw [present, hnode]
  rfl

/-- Nothing is below a file. -/
theorem eq_of_suffix_file {fs : FileSystem} {p q : Path} (hp : fs.isFile p = true) (hq : fs.present q = true)
    (h : p <:+ q) : q = p := by
  induction q with
  | nil => exact (List.suffix_nil.1 h).symm
  | cons name q ih =>
    rcases List.suffix_cons_iff.1 h with rfl | h
    · rfl
    · have hdir := fs.parent name q hq
      obtain rfl := ih (by rw [present, hdir]; rfl) h
      simp [isFile, hdir] at hp

theorem node_eq_none_iff {fs : FileSystem} {p : Path} : fs.node p = none ↔ fs.present p = false := by
  rw [present, Option.isSome_eq_false_iff, Option.isNone_iff_eq_none]

/-! ## `rename` -/

/-- Whether `rename` moves `src` to another place: it goes into a directory, not
below itself, and replaces nothing but a file by a file. -/
def canRename (fs : FileSystem) (src dst : Path) : Bool :=
  match dst with
  | [] => false
  | _ :: p =>
    fs.isDir p && !src.isSuffixOf dst && match fs.node src, fs.node dst with
      | some _, none => true
      | some (.file _), some (.file _) => true
      | _, _ => false

/-- The node at a place after `src` went to `dst`. -/
def nodeMoved (fs : FileSystem) (src dst p : Path) : Option Node :=
  if dst <:+ p then fs.node (rebase dst src p) else if src <:+ p then none else fs.node p

theorem canRename_iff {fs : FileSystem} {src dst : Path} :
    fs.canRename src dst = true ↔ fs.present src = true ∧ ¬ src <:+ dst ∧
      (∃ name p, dst = name :: p ∧ fs.isDir p = true) ∧
      (fs.present dst = false ∨ fs.isFile src = true ∧ fs.isFile dst = true) := by
  cases dst with
  | nil => simp [canRename]
  | cons name p =>
    simp only [canRename, present, isFile, Bool.and_eq_true, Bool.not_eq_true', ← Bool.not_eq_true,
      List.isSuffixOf_iff_suffix]
    cases fs.node src with
    | none => simp
    | some n =>
      cases fs.node (name :: p) with
      | none => simp [and_comm]
      | some n' => cases n <;> cases n' <;> simp [and_comm]

theorem nodeMoved_parent {fs : FileSystem} {src dst : Path} (h : fs.canRename src dst = true) (name : Bytes) (p : Path)
    (hsome : (fs.nodeMoved src dst (name :: p)).isSome) : fs.nodeMoved src dst p = some .dir := by
  obtain ⟨-, hbelow, ⟨last, dir, rfl, hdir⟩, -⟩ := canRename_iff.1 h
  unfold nodeMoved at hsome
  split at hsome
  · rename_i hd
    obtain ⟨rest, hrest⟩ := hd
    cases rest with
    | nil =>
      -- the place itself: its directory stays
      obtain ⟨-, rfl⟩ := List.cons.inj hrest
      have hlong : ¬ last :: dir <:+ dir := fun hs => by simpa using hs.length_le
      have hsrc : ¬ src <:+ dir := fun hs => hbelow (hs.trans (List.suffix_cons last dir))
      rw [nodeMoved, if_neg hlong, if_neg hsrc]
      simpa [isDir] using hdir
    | cons name' rest =>
      -- below it: the directory came along
      rw [← hrest, rebase_append, List.cons_append] at hsome
      obtain rfl : rest ++ last :: dir = p := (List.cons.inj hrest).2
      rw [nodeMoved, if_pos (List.suffix_append rest _), rebase_append]
      exact fs.parent _ _ hsome
  · rename_i hd
    split at hsome
    · cases hsome
    · rename_i hs
      have hd' : ¬ last :: dir <:+ p := fun h' => hd (h'.trans (List.suffix_cons name p))
      have hs' : ¬ src <:+ p := fun h' => hs (h'.trans (List.suffix_cons name p))
      rw [nodeMoved, if_neg hd', if_neg hs']
      exact fs.parent name p hsome

theorem nodeMoved_root {fs : FileSystem} {src dst : Path} (h : fs.canRename src dst = true) :
    fs.nodeMoved src dst [] = some .dir := by
  obtain ⟨-, hbelow, ⟨last, dir, rfl, -⟩, -⟩ := canRename_iff.1 h
  have hsrc : ¬ src <:+ [] := fun hs => hbelow (List.suffix_nil.1 hs ▸ List.nil_suffix)
  have hdst : ¬ last :: dir <:+ [] := fun hs => by cases List.suffix_nil.1 hs
  rw [nodeMoved, if_neg hdst, if_neg hsrc, fs.root]

/-- `os.rename`, or the exception it raises. -/
def rename (fs : FileSystem) (src dst : Path) : Option FileSystem :=
  if src = dst then if fs.present src then some fs else none
  else if h : fs.canRename src dst = true then
    some
      { node := fs.nodeMoved src dst
        root := nodeMoved_root h
        parent := nodeMoved_parent h }
  else none

/-! ## Trees up to a function on places -/

/-- Every node of `fs` is in `fs'`, at its place by `f` and alone there, and
nothing else is. -/
structure Moves (f : Path → Path) (fs fs' : FileSystem) : Prop where
  node : ∀ p, fs.present p = true → fs'.node (f p) = fs.node p
  origin : ∀ q, fs'.present q = true → ∃ p, fs.present p = true ∧ f p = q
  apart : ∀ p q, fs.present p = true → fs.present q = true → f p = f q → p = q

variable {f g : Path → Path} {fs fs' fs'' : FileSystem}

theorem Moves.refl (fs : FileSystem) : Moves id fs fs :=
  ⟨fun _ _ => rfl, fun q h => ⟨q, h, rfl⟩, fun _ _ _ _ h => h⟩

theorem Moves.present (h : Moves f fs fs') {p : Path} (hp : fs.present p = true) : fs'.present (f p) = true := by
  rwa [FileSystem.present, h.node p hp]

theorem Moves.trans (hf : Moves f fs fs') (hg : Moves g fs' fs'') : Moves (g ∘ f) fs fs'' where
  node p hp := (hg.node (f p) (hf.present hp)).trans (hf.node p hp)
  origin r hr := by
    obtain ⟨q, hq, rfl⟩ := hg.origin r hr
    obtain ⟨p, hp, rfl⟩ := hf.origin q hq
    exact ⟨p, hp, rfl⟩
  apart p q hp hq h := hf.apart p q hp hq (hg.apart _ _ (hf.present hp) (hf.present hq) h)

/-- Only the places that exist count. -/
theorem Moves.congr (h : Moves f fs fs') (heq : ∀ p, fs.present p = true → f p = g p) : Moves g fs fs' where
  node p hp := heq p hp ▸ h.node p hp
  origin q hq := by
    obtain ⟨p, hp, rfl⟩ := h.origin q hq
    exact ⟨p, hp, (heq p hp).symm⟩
  apart p q hp hq hpq := h.apart p q hp hq (by rw [heq p hp, heq q hq, hpq])

/-- The function and the tree before leave one tree after. -/
theorem Moves.unique (h : Moves f fs fs') (h' : Moves f fs fs'') : fs' = fs'' := by
  have main : ∀ {a b : FileSystem}, Moves f fs a → Moves f fs b → ∀ q n, a.node q = some n → b.node q = some n := by
    intro a b ha hb q n hq
    obtain ⟨p, hp, rfl⟩ := ha.origin q (by rw [FileSystem.present, hq]; rfl)
    rw [hb.node p hp, ← ha.node p hp, hq]
  exact eq_of_node fun q => Option.ext fun n => ⟨main h h' q n, main h' h q n⟩

/-- Where nothing moves, the tree is the same. -/
theorem Moves.eq_of_fixed (h : Moves f fs fs') (hfix : ∀ p, fs.present p = true → f p = p) : fs' = fs :=
  (h.congr hfix).unique (Moves.refl fs)

/-- A place with nothing on it that nothing moves to stays so. -/
theorem Moves.absent (h : Moves f fs fs') {q : Path} (hq : ∀ p, fs.present p = true → f p ≠ q) :
    fs'.present q = false := by
  by_contra hne
  obtain ⟨p, hp, hpq⟩ := h.origin q (by simpa using hne)
  exact hq p hp hpq

/-- What is there after `rename` was there before, or came along. -/
theorem origin_rename {src dst : Path} (h : fs.rename src dst = some fs') {q : Path} (hq : fs'.present q = true) :
    ∃ p, fs.present p = true ∧ rebase src dst p = q := by
  unfold rename at h
  split at h
  · rename_i heq
    subst heq
    split at h
    · obtain rfl := Option.some.inj h
      exact ⟨q, hq, rebase_same src q⟩
    · cases h
  · split at h
    · obtain rfl := Option.some.inj h
      change (fs.nodeMoved src dst q).isSome = true at hq
      unfold nodeMoved at hq
      split at hq
      · rename_i hd
        obtain ⟨rest, rfl⟩ := hd
        rw [rebase_append] at hq
        exact ⟨rest ++ src, hq, rebase_append src dst rest⟩
      · split at hq
        · cases hq
        · rename_i hs
          exact ⟨q, hq, rebase_of_not hs dst⟩
    · cases h

/-- `rename` to a place with nothing on it. -/
theorem moves_rename {src dst : Path} (h : fs.rename src dst = some fs') (hdst : src = dst ∨ fs.present dst = false) :
    Moves (rebase src dst) fs fs' := by
  have horigin : ∀ q, fs'.present q = true → ∃ p, fs.present p = true ∧ rebase src dst p = q := fun q => origin_rename h
  unfold rename at h
  split at h
  · rename_i heq
    subst heq
    split at h
    · obtain rfl := Option.some.inj h
      exact (Moves.refl fs).congr fun p _ => (rebase_same src p).symm
    · cases h
  · rename_i hne
    split at h
    · obtain rfl := Option.some.inj h
      have hfree := hdst.resolve_left hne
      have hbelow : ∀ p, fs.present p = true → ¬ dst <:+ p := by
        intro p hp hs
        rw [present_of_suffix hp hs] at hfree
        cases hfree
      refine ⟨fun p hp => ?_, horigin, fun p q hp hq hpq => ?_⟩
      · change fs.nodeMoved src dst (rebase src dst p) = fs.node p
        by_cases hs : src <:+ p
        · obtain ⟨rest, rfl⟩ := hs
          rw [rebase_append, nodeMoved, if_pos (List.suffix_append rest dst), rebase_append]
        · rw [rebase_of_not hs, nodeMoved, if_neg (hbelow p hp), if_neg hs]
      · by_cases hs : src <:+ p <;> by_cases hs' : src <:+ q
        · obtain ⟨rest, rfl⟩ := hs
          obtain ⟨rest', rfl⟩ := hs'
          rw [rebase_append, rebase_append] at hpq
          rw [List.append_cancel_right hpq]
        · obtain ⟨rest, rfl⟩ := hs
          rw [rebase_append, rebase_of_not hs'] at hpq
          exact absurd ⟨rest, hpq⟩ (hbelow q hq)
        · obtain ⟨rest, rfl⟩ := hs'
          rw [rebase_append, rebase_of_not hs] at hpq
          exact absurd ⟨rest, hpq.symm⟩ (hbelow p hp)
        · rwa [rebase_of_not hs, rebase_of_not hs'] at hpq
    · cases h

/-- A file goes alone. -/
theorem moves_rename_file {src dst : Path} (h : fs.rename src dst = some fs') (hfile : fs.isFile src = true)
    (hdst : src = dst ∨ fs.present dst = false) : Moves (fun p => if p = src then dst else p) fs fs' := by
  refine (moves_rename h hdst).congr fun p hp => ?_
  split
  · rename_i heq
    rw [heq, rebase_self]
  · rename_i hne
    exact rebase_of_not (fun hs => hne (eq_of_suffix_file hfile hp hs)) dst

/-- A file can go to any free name in its directory. -/
theorem rename_sibling {name name' : Bytes} {dir : Path} (hfile : fs.isFile (name :: dir) = true)
    (hfree : fs.present (name' :: dir) = false) : ∃ fs', fs.rename (name :: dir) (name' :: dir) = some fs' := by
  have hpres := present_of_isFile hfile
  have hne : name :: dir ≠ name' :: dir := by
    intro heq
    rw [heq, hfree] at hpres
    cases hpres
  have hcan : fs.canRename (name :: dir) (name' :: dir) = true := by
    refine canRename_iff.2 ⟨hpres, fun hs => hne (hs.eq_of_length (by simp)), ⟨name', dir, rfl, ?_⟩, .inl hfree⟩
    simpa [isDir] using fs.parent name dir hpres
  exact ⟨_, by rw [rename, if_neg hne, dif_pos hcan]⟩

end FileSystem

end SysLib
