import FlameSdd.SysLib.Renaming
import Mathlib.Data.List.Sort
import Mathlib.Data.List.Dedup
/-!
# A disk

A tree with a finite number of places, so that a directory can be listed and
searched for a pattern.
-/

namespace SysLib

/-- A tree, with all places that exist in it among `places`. -/
structure Disk extends FileSystem where
  places : List Path
  mem_places : ∀ p, toFileSystem.present p = true → p ∈ places

namespace Disk

variable {d d' : Disk}

/-! ## Listing -/

/-- The name that `p` has in the directory `dir`. -/
def nameIn (dir : Path) : Path → Option Bytes
  | [] => none
  | name :: p => if p = dir then some name else none

/-- `os.scandir`: the names in a directory, in some order. -/
def names (d : Disk) (dir : Path) : List Bytes := ((d.places.filter d.present).filterMap (nameIn dir)).dedup

theorem mem_names {dir : Path} {name : Bytes} : name ∈ d.names dir ↔ d.present (name :: dir) = true := by
  rw [names, List.mem_dedup, List.mem_filterMap]
  constructor
  · rintro ⟨p, hp, hname⟩
    cases p with
    | nil => cases hname
    | cons name' p =>
      simp only [nameIn] at hname
      split at hname
      · rename_i heq
        obtain rfl := Option.some.inj hname
        subst heq
        exact (List.mem_filter.1 hp).2
      · cases hname
  · intro hp
    exact ⟨name :: dir, List.mem_filter.2 ⟨d.mem_places _ hp, hp⟩, if_pos rfl⟩

/-! ## Patterns with one star -/

def isHidden (name : Bytes) : Bool := name.head? == some 0x2e

/-- `fnmatch` of the pattern `front`, star, `back`. -/
def matchesStar (front back name : Bytes) : Bool :=
  front.isPrefixOf name && back.isSuffixOf (name.drop front.length)

theorem matchesStar_iff {front back name : Bytes} :
    matchesStar front back name = true ↔ ∃ s, name = front ++ (s ++ back) := by
  rw [matchesStar, Bool.and_eq_true, List.isPrefixOf_iff_prefix, List.isSuffixOf_iff_suffix]
  constructor
  · rintro ⟨⟨rest, rfl⟩, s, hs⟩
    rw [List.drop_left] at hs
    exact ⟨s, by rw [hs]⟩
  · rintro ⟨s, rfl⟩
    exact ⟨⟨_, rfl⟩, s, by rw [List.drop_left]⟩

/-- The names that `glob` finds in `dir` for the pattern `front`, star, `back`:
a hidden one only if the pattern asks for it. -/
def globStar (d : Disk) (dir : Path) (front back : Bytes) : List Bytes :=
  (d.names dir).filter fun name => matchesStar front back name && (!isHidden name || isHidden front)

theorem mem_globStar {dir : Path} {front back name : Bytes} (hfront : front ≠ []) :
    name ∈ d.globStar dir front back ↔ d.present (name :: dir) = true ∧ ∃ s, name = front ++ (s ++ back) := by
  rw [globStar, List.mem_filter, mem_names, Bool.and_eq_true, matchesStar_iff]
  constructor
  · rintro ⟨hp, hs, -⟩
    exact ⟨hp, hs⟩
  · rintro ⟨hp, s, rfl⟩
    refine ⟨hp, ⟨s, rfl⟩, ?_⟩
    obtain ⟨c, front, rfl⟩ := List.exists_cons_of_ne_nil hfront
    simp [isHidden]

/-! ## Renaming -/

/-- `os.rename`. -/
def rename (d : Disk) (src dst : Path) : Option Disk :=
  match h : d.toFileSystem.rename src dst with
  | none => none
  | some fs' => some
    { fs' with
      places := d.places.map (Path.rebase src dst)
      mem_places := fun q hq => by
        obtain ⟨p, hp, rfl⟩ := FileSystem.origin_rename h hq
        exact List.mem_map_of_mem (d.mem_places p hp) }

theorem rename_of_some {src dst : Path} {fs' : FileSystem} (h : d.toFileSystem.rename src dst = some fs') :
    ∃ d', d.rename src dst = some d' ∧ d'.toFileSystem = fs' := by
  unfold rename
  split
  · rename_i hnone
    rw [h] at hnone
    cases hnone
  · rename_i fs'' hsome
    obtain rfl := Option.some.inj (h.symm.trans hsome)
    exact ⟨_, rfl, rfl⟩

/-- `shutil.move`: an existing directory takes the source inside. A rename that
fails is not made up for by a copy, which fails for the same reason. -/
def move (d : Disk) (src dst : Path) : Option Disk :=
  if d.isDir dst = true ∧ src ≠ dst then
    match src with
    | [] => none
    | name :: _ => if d.present (name :: dst) = true then none else d.rename src (name :: dst)
  else d.rename src dst

theorem move_of_not_dir {dst : Path} (h : d.isDir dst = false) (src : Path) : d.move src dst = d.rename src dst := by
  unfold move
  rw [if_neg (by simp [h])]

/-! ## Building a disk -/

def empty : Disk where
  toFileSystem := FileSystem.empty
  places := [[]]
  mem_places p hp := by
    by_contra hne
    simp at hne
    simp [FileSystem.present, FileSystem.empty, hne] at hp

/-- A node under a directory. -/
def put (d : Disk) (name : Bytes) (p : Path) (n : Node) : Disk where
  toFileSystem := d.toFileSystem.put name p n
  places := (name :: p) :: d.places
  mem_places q hq := by
    by_cases hput : d.node p = some .dir ∧ d.node (name :: p) ≠ some .dir
    · by_cases heq : q = name :: p
      · exact heq ▸ List.mem_cons_self
      · rw [FileSystem.present, FileSystem.node_put hput.1 hput.2, if_neg heq] at hq
        exact List.mem_cons_of_mem _ (d.mem_places q hq)
    · rw [FileSystem.put, dif_neg hput] at hq
      exact List.mem_cons_of_mem _ (d.mem_places q hq)

/-- The directories that lead to a place. -/
def makedirs (d : Disk) : Path → Disk
  | [] => d
  | name :: p => (d.makedirs p).put name p .dir

/-- The files of a list, and the directories above them. -/
def ofFiles (files : List (Path × Bytes)) (h : FileSystem.Apart files) : Disk where
  toFileSystem := FileSystem.ofFiles files h
  places := [] :: files.flatMap fun e => e.1.tails
  mem_places p hp := by
    rw [List.mem_cons, List.mem_flatMap]
    cases hfile : files.lookup p with
    | some content => exact .inr ⟨_, FileSystem.mem_of_lookup hfile, (List.mem_tails _ _).2 List.suffix_rfl⟩
    | none =>
      by_contra hno
      simp only [not_or, List.mem_tails] at hno
      simp [FileSystem.present, FileSystem.ofFiles, hfile, hno.1, hno.2] at hp

end Disk

end SysLib
