import FlameSdd.SysLib.Bytes
import Mathlib.Data.List.Infix
/-!
# A directory tree

Directories and regular files by their place, without links. Nothing exists
below a place that is not a directory.
-/

namespace SysLib

/-! ## Places -/

/-- A place in the tree: the names that lead to it, the last one first. -/
abbrev Path := List Bytes

namespace Path

/-- One component of a path text: an empty name and `.` stay, `..` leads up. -/
def push (p : Path) (name : Bytes) : Path :=
  if name = [] ∨ name = ascii "." then p else if name = ascii ".." then p.tail else name :: p

/-- The place a text leads to from `p`. -/
def descend (p : Path) (s : Bytes) : Path := (s.splitOn 0x2f).foldl push p

/-- `p / s`: an absolute text starts again at the root. -/
def join (p : Path) (s : Bytes) : Path := descend (if s.head? = some 0x2f then [] else p) s

theorem descend_append (p : Path) (s t : Bytes) : descend p (s ++ 0x2f :: t) = descend (descend p s) t := by
  rw [descend, List.splitOn_append_cons_self, List.foldl_append]
  rfl

/-- From the root, it does not matter whether a text is absolute. -/
theorem join_nil (s : Bytes) : join [] s = descend [] s := by rw [join, ite_self]

theorem join_relative (p : Path) {s : Bytes} (h : s.head? ≠ some 0x2f) : join p s = descend p s := by
  rw [join, if_neg h]

/-- A name for one entry of a directory. -/
def IsName (name : Bytes) : Prop := name ≠ [] ∧ name ≠ ascii "." ∧ name ≠ ascii ".." ∧ 0x2f ∉ name

theorem isName_of_mem {s : Bytes} {c : UInt8} (hc : c ∈ s) (hdot : c ≠ 0x2e) (hslash : (0x2f : UInt8) ∉ s) :
    IsName s := by
  refine ⟨List.ne_nil_of_mem hc, ?_, ?_, hslash⟩ <;> rintro rfl <;> simp [ascii] at hc <;> exact hdot hc

/-- `os.path.splitext`: the extension starts at the last dot of the last name,
unless there are only dots before it. -/
def splitext (s : Bytes) : Bytes × Bytes :=
  let name := s.reverse.takeWhile (· ≠ 0x2f)
  let ext := name.takeWhile (· ≠ 0x2e)
  match name.drop ext.length with
  | 0x2e :: stem =>
    if stem.all (· = 0x2e) then (s, [])
    else (s.take (s.length - (ext.length + 1)), s.drop (s.length - (ext.length + 1)))
  | _ => (s, [])

theorem splitext_name {stem ext : Bytes} (hstem : ∃ c ∈ stem, c ≠ 0x2e) (hslash : (0x2f : UInt8) ∉ stem ++ ext)
    (hdot : (0x2e : UInt8) ∉ ext) : splitext (stem ++ 0x2e :: ext) = (stem, 0x2e :: ext) := by
  have hrev : (stem ++ 0x2e :: ext).reverse = ext.reverse ++ 0x2e :: stem.reverse := by simp
  have hname : (ext.reverse ++ 0x2e :: stem.reverse).takeWhile (· ≠ 0x2f) = ext.reverse ++ 0x2e :: stem.reverse := by
    refine List.takeWhile_eq_self_iff.2 fun c hc => ?_
    have hne : c ≠ 0x2f := by
      rintro rfl
      simp at hc hslash
      exact hc.elim hslash.2 hslash.1
    simpa using hne
  have hext : (ext.reverse ++ 0x2e :: stem.reverse).takeWhile (· ≠ 0x2e) = ext.reverse := by
    rw [List.takeWhile_append_of_pos]
    · simp
    · intro c hc
      have hne : c ≠ 0x2e := fun heq => hdot (heq ▸ List.mem_reverse.1 hc)
      simpa using hne
  have hlen : (stem ++ 0x2e :: ext).length - (ext.reverse.length + 1) = stem.length := by
    simp only [List.length_append, List.length_cons, List.length_reverse]
    omega
  obtain ⟨c, hc, hne⟩ := hstem
  have hall : (stem.reverse.all (· = 0x2e)) = false := by
    rw [List.all_eq_false]
    exact ⟨c, List.mem_reverse.2 hc, by simpa using hne⟩
  simp only [splitext, hrev, hname, hext, List.drop_left, hall, Bool.false_eq_true, if_false, hlen, List.take_left]

theorem descend_name (p : Path) {name : Bytes} (h : IsName name) : descend p name = name :: p := by
  obtain ⟨hnil, hdot, hup, hslash⟩ := h
  rw [descend, List.splitOn_eq_singleton hslash]
  simp [push, hnil, hdot, hup]

theorem join_name (p : Path) {name : Bytes} (h : IsName name) : join p name = name :: p := by
  have hhead : name.head? ≠ some 0x2f := fun heq => h.2.2.2 (List.mem_of_mem_head? heq)
  rw [join_relative p hhead, descend_name p h]

end Path

/-! ## The tree -/

inductive Node where
  | dir
  | file (content : Bytes)
  deriving DecidableEq

structure FileSystem where
  node : Path → Option Node
  root : node [] = some .dir
  parent : ∀ name p, (node (name :: p)).isSome → node p = some .dir

namespace FileSystem

/-- `fs::exists`. -/
def present (fs : FileSystem) (p : Path) : Bool := (fs.node p).isSome

def isDir (fs : FileSystem) (p : Path) : Bool := fs.node p == some .dir

/-- A disk with nothing on it. -/
def empty : FileSystem where
  node p := if p = [] then some .dir else none
  root := rfl
  parent _ _ h := by simp at h

/-- A node under a directory, in place of any file there. -/
def put (fs : FileSystem) (name : Bytes) (p : Path) (n : Node) : FileSystem :=
  if h : fs.node p = some .dir ∧ fs.node (name :: p) ≠ some .dir then
    { node := fun q => if q = name :: p then some n else fs.node q
      root := by simp [fs.root]
      parent := by
        intro name' p' hsome
        have hp' : fs.node p' = some .dir := by
          by_cases heq : name' :: p' = name :: p
          · obtain ⟨-, rfl⟩ := List.cons.inj heq
            exact h.1
          · rw [if_neg heq] at hsome
            exact fs.parent name' p' hsome
        have hne : p' ≠ name :: p := fun heq => h.2 (heq ▸ hp')
        rw [if_neg hne, hp'] }
  else fs

theorem node_put {fs : FileSystem} {name : Bytes} {p : Path} {n : Node} (hp : fs.node p = some .dir)
    (hn : fs.node (name :: p) ≠ some .dir) (q : Path) :
    (fs.put name p n).node q = if q = name :: p then some n else fs.node q := by
  rw [put, dif_pos ⟨hp, hn⟩]

theorem node_put_of_ne {name : Bytes} {p q : Path} (h : q ≠ name :: p) (fs : FileSystem) (n : Node) :
    (fs.put name p n).node q = fs.node q := by
  by_cases hput : fs.node p = some .dir ∧ fs.node (name :: p) ≠ some .dir
  · rw [node_put hput.1 hput.2, if_neg h]
  · rw [put, dif_neg hput]

theorem present_put_of_present (fs : FileSystem) (name : Bytes) (p : Path) (n : Node) {q : Path}
    (h : fs.present q = true) : (fs.put name p n).present q = true := by
  by_cases hput : fs.node p = some .dir ∧ fs.node (name :: p) ≠ some .dir
  · rw [present, node_put hput.1 hput.2]
    split
    · rfl
    · exact h
  · rwa [put, dif_neg hput]

/-- What is above something that exists, exists. -/
theorem present_of_suffix {fs : FileSystem} {p q : Path} (hp : fs.present p = true) (h : q <:+ p) :
    fs.present q = true := by
  induction p with
  | nil => rwa [List.suffix_nil.1 h]
  | cons name p ih =>
    rcases List.suffix_cons_iff.1 h with rfl | h
    · exact hp
    · refine ih ?_ h
      rw [present, fs.parent name p hp]
      rfl

/-- Nothing exists below what does not. -/
theorem node_below {fs : FileSystem} {p : Path} (name : Bytes) (h : fs.present p = false) :
    fs.node (name :: p) = none := by
  by_contra hne
  have hdir := fs.parent name p (Option.isSome_iff_ne_none.2 hne)
  simp [present, hdir] at h

/-! ## A tree from its files -/

/-- No file lies at the root or below another one. -/
def Apart (files : List (Path × Bytes)) : Prop :=
  ∀ e ∈ files, e.1 ≠ [] ∧ ∀ e' ∈ files, e.1 <:+ e'.1 → e.1 = e'.1

instance (files : List (Path × Bytes)) : Decidable (Apart files) := inferInstanceAs (Decidable (∀ e ∈ files, _ ∧ _))

theorem mem_of_lookup {files : List (Path × Bytes)} {p : Path} {content : Bytes}
    (h : files.lookup p = some content) : (p, content) ∈ files := by
  obtain ⟨l₁, l₂, rfl, -⟩ := List.lookup_eq_some_iff.1 h
  exact List.mem_append_right _ List.mem_cons_self

/-- The files and the directories above them. -/
def ofFiles (files : List (Path × Bytes)) (h : Apart files) : FileSystem where
  node p :=
    match files.lookup p with
    | some content => some (.file content)
    | none => if p = [] ∨ ∃ e ∈ files, p <:+ e.1 then some .dir else none
  root := by
    cases hroot : files.lookup [] with
    | none => simp
    | some content => exact absurd rfl (h _ (mem_of_lookup hroot)).1
  parent name p hsome := by
    -- the place is above a file, so what is above it is no file
    obtain ⟨e, he, hsuf⟩ : ∃ e ∈ files, name :: p <:+ e.1 := by
      cases hfile : files.lookup (name :: p) with
      | some content => exact ⟨_, mem_of_lookup hfile, List.suffix_rfl⟩
      | none => simpa [hfile] using hsome
    have habove : p <:+ e.1 := (List.suffix_cons name p).trans hsuf
    cases hp : files.lookup p with
    | some content =>
      have heq : p = e.1 := (h _ (mem_of_lookup hp)).2 e he habove
      exact absurd hsuf.length_le (by rw [← heq, List.length_cons]; omega)
    | none => exact if_pos (.inr ⟨e, he, habove⟩)

/-- Where no file lies below, there is a file of the list or nothing. -/
theorem node_ofFiles {files : List (Path × Bytes)} (h : Apart files) {p : Path} (hp : p ≠ [])
    (hlow : ∀ e ∈ files, p <:+ e.1 → p = e.1) : (ofFiles files h).node p = (files.lookup p).map .file := by
  cases hfile : files.lookup p with
  | some content => simp [ofFiles, hfile]
  | none =>
    have hno : ¬ ∃ e ∈ files, p <:+ e.1 := by
      rintro ⟨e, he, hsuf⟩
      obtain rfl := hlow e he hsuf
      simpa using List.lookup_eq_none_iff.1 hfile e he
    simp [ofFiles, hfile, hp, hno]

/-! ## Directories -/

/-- `fs::create_directories`: the missing directories, from the top, and whether
all could be made; `fault` says where `mkdir` fails. -/
def createDirectories (fault : Path → Bool) (fs : FileSystem) : Path → FileSystem × Bool
  | [] => (fs, true)
  | name :: p =>
    match fs.node (name :: p) with
    | some .dir => (fs, true)
    | some (.file _) => (fs, false)
    | none =>
      match createDirectories fault fs p with
      | (fs', false) => (fs', false)
      | (fs', true) => if fault (name :: p) then (fs', false) else (fs'.put name p .dir, true)

/-- After `create_directories`, the place is a directory, and what exists is
what existed before and everything above the place. -/
theorem createDirectories_spec {fault : Path → Bool} {fs fs' : FileSystem} {p : Path}
    (h : createDirectories fault fs p = (fs', true)) :
    fs'.node p = some .dir ∧ ∀ q, fs'.present q = true ↔ fs.present q = true ∨ q <:+ p := by
  induction p generalizing fs' with
  | nil =>
    obtain ⟨rfl, -⟩ := Prod.mk.inj h
    refine ⟨fs.root, fun q => ⟨Or.inl, ?_⟩⟩
    rintro (hq | hq)
    · exact hq
    · rw [List.suffix_nil.1 hq, present, fs.root]
      rfl
  | cons name p ih =>
    unfold createDirectories at h
    split at h
    · rename_i hdir
      obtain ⟨rfl, -⟩ := Prod.mk.inj h
      refine ⟨hdir, fun q => ⟨Or.inl, ?_⟩⟩
      rintro (hq | hq)
      · exact hq
      · exact present_of_suffix (by rw [present, hdir]; rfl) hq
    · simp at h
    · rename_i hnone
      split at h
      · simp at h
      · rename_i mid heq
        obtain ⟨hmid, hpres⟩ := ih heq
        split at h
        · simp at h
        · obtain ⟨rfl, -⟩ := Prod.mk.inj h
          have hfree : mid.node (name :: p) ≠ some .dir := by
            intro hdir
            have hp : mid.present (name :: p) = true := by rw [present, hdir]; rfl
            rcases (hpres _).1 hp with hold | hsuf
            · simp [present, hnone] at hold
            · have := hsuf.length_le
              simp at this
          refine ⟨by rw [node_put hmid hfree, if_pos rfl], fun q => ?_⟩
          rw [present, node_put hmid hfree, List.suffix_cons_iff]
          by_cases hq : q = name :: p
          · simp [hq]
          · rw [if_neg hq, ← present, hpres]
            simp [hq]

/-- `create_directories` changes nothing that exists. -/
theorem createDirectories_keeps {fault : Path → Bool} {fs : FileSystem} {q : Path} {n : Node}
    (h : fs.node q = some n) (p : Path) : (createDirectories fault fs p).1.node q = some n := by
  induction p with
  | nil => exact h
  | cons name p ih =>
    unfold createDirectories
    split
    · exact h
    · exact h
    · rename_i hnone
      split
      · rename_i mid heq
        rwa [heq] at ih
      · rename_i mid heq
        rw [heq] at ih
        split
        · exact ih
        · by_cases hput : mid.node p = some .dir ∧ mid.node (name :: p) ≠ some .dir
          · have hq : q ≠ name :: p := by
              rintro rfl
              rw [hnone] at h
              cases h
            rw [node_put hput.1 hput.2, if_neg hq]
            exact ih
          · rw [put, dif_neg hput]
            exact ih

/-- All it can do to a place is to make a directory there. -/
theorem createDirectories_node (fault : Path → Bool) (fs : FileSystem) (p q : Path) :
    (createDirectories fault fs p).1.node q = fs.node q ∨
      fs.node q = none ∧ (createDirectories fault fs p).1.node q = some .dir := by
  induction p with
  | nil => exact .inl rfl
  | cons name p ih =>
    unfold createDirectories
    split
    · exact .inl rfl
    · exact .inl rfl
    · rename_i hnone
      split
      · rename_i heq
        rwa [heq] at ih
      · rename_i mid heq
        rw [heq] at ih
        split
        · exact ih
        · by_cases hq : q = name :: p
          · subst hq
            by_cases hput : mid.node p = some .dir ∧ mid.node (name :: p) ≠ some .dir
            · exact .inr ⟨hnone, by rw [node_put hput.1 hput.2, if_pos rfl]⟩
            · rw [put, dif_neg hput]
              exact ih
          · rw [node_put_of_ne hq]
            exact ih

/-- And nothing that is not above the place. -/
theorem createDirectories_other (fault : Path → Bool) (fs : FileSystem) {p q : Path} (h : ¬ q <:+ p) :
    (createDirectories fault fs p).1.node q = fs.node q := by
  induction p with
  | nil => rfl
  | cons name p ih =>
    rw [List.suffix_cons_iff, not_or] at h
    have hrest := ih h.2
    unfold createDirectories
    split
    · rfl
    · rfl
    · split
      · rename_i heq
        rwa [heq] at hrest
      · rename_i heq
        rw [heq] at hrest
        split
        · exact hrest
        · rw [node_put_of_ne h.1, hrest]

/-! ## Files -/

/-- Whether a file can be opened for writing, as far as the tree decides it. -/
def canOpen (fs : FileSystem) : Path → Bool
  | [] => false
  | name :: p => fs.isDir p && !fs.isDir (name :: p)

/-- The content of a file that could be opened; otherwise nothing is written. -/
def writeFile (fs : FileSystem) (path : Path) (content : Bytes) : FileSystem :=
  match path with
  | [] => fs
  | name :: p => fs.put name p (.file content)

theorem node_writeFile {fs : FileSystem} {path : Path} (h : fs.canOpen path = true) (content : Bytes) (q : Path) :
    (fs.writeFile path content).node q = if q = path then some (.file content) else fs.node q := by
  cases path with
  | nil => simp [canOpen] at h
  | cons name p =>
    simp only [canOpen, isDir, Bool.and_eq_true, Bool.not_eq_true', beq_iff_eq, beq_eq_false_iff_ne] at h
    exact node_put h.1 h.2 q

theorem node_writeFile_of_ne {path q : Path} (h : q ≠ path) (fs : FileSystem) (content : Bytes) :
    (fs.writeFile path content).node q = fs.node q := by
  cases path with
  | nil => rfl
  | cons name p => exact node_put_of_ne h fs _

/-- A new file is the one new thing. -/
theorem present_writeFile {fs : FileSystem} {name : Bytes} {p : Path} (hp : fs.node p = some .dir)
    (hn : fs.node (name :: p) = none) (content : Bytes) (q : Path) :
    (fs.writeFile (name :: p) content).present q = true ↔ fs.present q = true ∨ q = name :: p := by
  have hfree : fs.node (name :: p) ≠ some .dir := by rw [hn]; exact nofun
  rw [writeFile, present, node_put hp hfree]
  by_cases hq : q = name :: p
  · simp [hq]
  · rw [if_neg hq, present]
    simp [hq]

/-! ## Shapes -/

/-- What is where, but for what the files hold: whether there is a directory. -/
def shape (fs : FileSystem) (p : Path) : Option Bool := (fs.node p).map (· == .dir)

theorem present_eq_shape (fs : FileSystem) (p : Path) : fs.present p = (fs.shape p).isSome := by
  rw [present, shape, Option.isSome_map]

theorem node_eq_dir_iff_shape (fs : FileSystem) (p : Path) : fs.node p = some .dir ↔ fs.shape p = some true := by
  rw [shape]
  cases fs.node p with
  | none => simp
  | some n => simp

theorem node_eq_none_iff_shape (fs : FileSystem) (p : Path) : fs.node p = none ↔ fs.shape p = none := by
  rw [shape, Option.map_eq_none_iff]

variable {fs fs' : FileSystem}

/-- Trees of one shape get the same shape, whatever the files hold. -/
theorem shape_put (h : fs.shape = fs'.shape) (name : Bytes) (p : Path) {n n' : Node} (hn : (n == .dir) = (n' == .dir)) :
    (fs.put name p n).shape = (fs'.put name p n').shape := by
  by_cases hput : fs.node p = some .dir ∧ fs.node (name :: p) ≠ some .dir
  · have hput' : fs'.node p = some .dir ∧ fs'.node (name :: p) ≠ some .dir := by
      rwa [node_eq_dir_iff_shape, Ne, node_eq_dir_iff_shape, ← h, ← node_eq_dir_iff_shape, ← node_eq_dir_iff_shape]
    funext q
    rw [shape, shape, node_put hput.1 hput.2, node_put hput'.1 hput'.2]
    split
    · simpa using hn
    · exact congrFun h q
  · have hput' : ¬ (fs'.node p = some .dir ∧ fs'.node (name :: p) ≠ some .dir) := by
      rwa [node_eq_dir_iff_shape, Ne, node_eq_dir_iff_shape, ← h, ← node_eq_dir_iff_shape, ← node_eq_dir_iff_shape]
    rw [put, put, dif_neg hput, dif_neg hput']
    exact h

theorem shape_createDirectories (h : fs.shape = fs'.shape) (fault : Path → Bool) (p : Path) :
    (createDirectories fault fs p).1.shape = (createDirectories fault fs' p).1.shape ∧
      (createDirectories fault fs p).2 = (createDirectories fault fs' p).2 := by
  induction p with
  | nil => exact ⟨h, rfl⟩
  | cons name p ih =>
    have hshape : fs.shape (name :: p) = fs'.shape (name :: p) := congrFun h _
    unfold createDirectories
    rcases hnode : fs.node (name :: p) with - | - | c
    · have hnode' : fs'.node (name :: p) = none := by rwa [node_eq_none_iff_shape, ← hshape, ← node_eq_none_iff_shape]
      rw [hnode']
      rcases hmk : createDirectories fault fs p with ⟨mid, made⟩
      rcases hmk' : createDirectories fault fs' p with ⟨mid', made'⟩
      rw [hmk, hmk'] at ih
      obtain ⟨hmid, hmade⟩ := ih
      obtain rfl : made = made' := hmade
      cases made with
      | false => exact ⟨hmid, rfl⟩
      | true =>
        dsimp only
        split
        · exact ⟨hmid, rfl⟩
        · exact ⟨shape_put hmid name p rfl, rfl⟩
    · have hnode' : fs'.node (name :: p) = some .dir := by rwa [node_eq_dir_iff_shape, ← hshape, ← node_eq_dir_iff_shape]
      rw [hnode']
      exact ⟨h, rfl⟩
    · rcases hnode' : fs'.node (name :: p) with - | - | c'
      · rw [shape, shape, hnode, hnode'] at hshape
        cases hshape
      · rw [shape, shape, hnode, hnode'] at hshape
        cases hshape
      · exact ⟨h, rfl⟩

theorem canOpen_shape (h : fs.shape = fs'.shape) (path : Path) : fs.canOpen path = fs'.canOpen path := by
  have hdir : ∀ p, fs.isDir p = fs'.isDir p := by
    intro p
    rw [Bool.eq_iff_iff, isDir, isDir, beq_iff_eq, beq_iff_eq, node_eq_dir_iff_shape, node_eq_dir_iff_shape, h]
  cases path with
  | nil => rfl
  | cons name p => rw [canOpen, canOpen, hdir, hdir]

theorem shape_writeFile (h : fs.shape = fs'.shape) (path : Path) (content content' : Bytes) :
    (fs.writeFile path content).shape = (fs'.writeFile path content').shape := by
  cases path with
  | nil => exact h
  | cons name p => exact shape_put h name p rfl

end FileSystem

end SysLib
