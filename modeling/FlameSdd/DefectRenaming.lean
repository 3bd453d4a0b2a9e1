import FlameSdd.SysLib.Renaming
import FlameSdd.SysLib.Utf8
import Mathlib.Data.Set.Card
/-!
# Renaming of defect images

The rows of `result.csv` are mapped over a pool, so `rename_file` meets them in
any order, some of them twice, and some for images that are gone. Whatever the
order, the images of the defective rows end up with `_x` before their extension:
`renameFiles_moves`.
-/
open SysLib SysLib.FileSystem

namespace FlameSdd.DefectRenaming

/-! ## The code -/

/-- A row that the reader yields; a row of `result.csv` has seven columns. -/
structure Row where
  columns : List Bytes
  nonempty : columns ≠ []

def Row.filename (row : Row) : Bytes := Utf8.strip (row.columns.head row.nonempty)

def Row.defect (row : Row) : Bytes := Utf8.strip (row.columns.getLast row.nonempty)

def Row.isDefect (row : Row) : Bool := row.defect == ascii "1"

def subdir (filename : Bytes) : Bytes := ascii "camera_" ++ (filename.splitOn 0x5f).headD []

/-- The name with `_x` before its extension. -/
def defectName (filename : Bytes) : Bytes := (Path.splitext filename).1 ++ ascii "_x" ++ (Path.splitext filename).2

def srcPath (baseDir : Path) (filename : Bytes) : Path := (baseDir.join (subdir filename)).join filename

def dstPath (baseDir : Path) (filename : Bytes) : Path := (baseDir.join (subdir filename)).join (defectName filename)

def renameFile (row : Row) (baseDir : Path) (fs : FileSystem) : FileSystem × Bool :=
  if row.isDefect = false then (fs, false)
  else if 0x5f ∉ row.filename then (fs, false)
  else if fs.isFile (srcPath baseDir row.filename) = false then (fs, false)
  else if fs.present (dstPath baseDir row.filename) = true then (fs, false)
  else
    match fs.rename (srcPath baseDir row.filename) (dstPath baseDir row.filename) with
    | some fs' => (fs', true)
    | none => (fs, false)

/-- The rows in the order the pool takes them, with the result of each. -/
def renameFiles (baseDir : Path) : List Row → FileSystem → FileSystem × List Bool
  | [], fs => (fs, [])
  | row :: rows, fs =>
    let (fs', renamed) := renameFile row baseDir fs
    let (fs'', results) := renameFiles baseDir rows fs'
    (fs'', renamed :: results)

/-! ## Names of images -/

/-- A name `cam_idx.ext`. -/
structure ImageName where
  camera : Bytes
  idx : Bytes
  ext : Bytes
  camera_digits : camera ≠ [] ∧ ∀ c ∈ camera, isdigit c = true
  idx_digits : idx ≠ [] ∧ ∀ c ∈ idx, isdigit c = true
  ext_plain : (0x2e : UInt8) ∉ ext ∧ (0x2f : UInt8) ∉ ext

namespace ImageName

def name (i : ImageName) : Bytes := i.camera ++ 0x5f :: (i.idx ++ 0x2e :: i.ext)

def marked (i : ImageName) : Bytes := i.camera ++ 0x5f :: (i.idx ++ 0x5f :: 0x78 :: 0x2e :: i.ext)

/-- The folder of the camera. -/
def folder (baseDir : Path) (i : ImageName) : Path := (ascii "camera_" ++ i.camera) :: baseDir

def path (baseDir : Path) (i : ImageName) : Path := i.name :: i.folder baseDir

def markedPath (baseDir : Path) (i : ImageName) : Path := i.marked :: i.folder baseDir

theorem not_mem_digits {s : Bytes} (h : s ≠ [] ∧ ∀ c ∈ s, isdigit c = true) {c : UInt8} (hc : isdigit c = false) :
    c ∉ s := by
  intro hmem
  rw [h.2 c hmem] at hc
  cases hc

theorem slash_not_mem (i : ImageName) : (0x2f : UInt8) ∉ i.camera ∧ (0x2f : UInt8) ∉ i.idx ∧ (0x2f : UInt8) ∉ i.ext :=
  ⟨not_mem_digits i.camera_digits (by decide), not_mem_digits i.idx_digits (by decide), i.ext_plain.2⟩

theorem isName_name (i : ImageName) : Path.IsName i.name :=
  Path.isName_of_mem (c := 0x5f) (by simp [name]) (by decide) (by simp [name, i.slash_not_mem])

theorem isName_marked (i : ImageName) : Path.IsName i.marked :=
  Path.isName_of_mem (c := 0x5f) (by simp [marked]) (by decide) (by simp [marked, i.slash_not_mem])

theorem isName_folder (i : ImageName) : Path.IsName (ascii "camera_" ++ i.camera) := by
  have hcamera : (0x2f : UInt8) ∉ ascii "camera_" := by decide +kernel
  refine Path.isName_of_mem (c := 0x5f) (List.mem_append_left _ (by decide +kernel)) (by decide) ?_
  rw [List.mem_append]
  exact not_or.2 ⟨hcamera, i.slash_not_mem.1⟩

theorem subdir_name (i : ImageName) : subdir i.name = ascii "camera_" ++ i.camera := by
  rw [subdir, name, List.splitOn_append_cons_self_of_not_mem (not_mem_digits i.camera_digits (by decide)),
    List.headD_cons]

theorem defectName_name (i : ImageName) : defectName i.name = i.marked := by
  have hname : i.name = (i.camera ++ 0x5f :: i.idx) ++ 0x2e :: i.ext := by simp [name]
  have hsplit : Path.splitext i.name = (i.camera ++ 0x5f :: i.idx, 0x2e :: i.ext) := by
    rw [hname]
    refine Path.splitext_name ⟨0x5f, by simp, by decide⟩ ?_ i.ext_plain.1
    simp [i.slash_not_mem]
  have hx : ascii "_x" = [0x5f, 0x78] := rfl
  simp [defectName, hsplit, marked, hx]

theorem srcPath_name (baseDir : Path) (i : ImageName) : srcPath baseDir i.name = i.path baseDir := by
  rw [srcPath, subdir_name, Path.join_name _ i.isName_folder, Path.join_name _ i.isName_name]
  rfl

theorem dstPath_name (baseDir : Path) (i : ImageName) : dstPath baseDir i.name = i.markedPath baseDir := by
  rw [dstPath, subdir_name, defectName_name, Path.join_name _ i.isName_folder, Path.join_name _ i.isName_marked]
  rfl

/-- The digits of a name are read off it. -/
theorem cut {i j : ImageName} {s t : Bytes} {c d : UInt8} (hc : isdigit c = false) (hd : isdigit d = false)
    (h : i.camera ++ 0x5f :: (i.idx ++ c :: s) = j.camera ++ 0x5f :: (j.idx ++ d :: t)) :
    i.camera = j.camera ∧ i.idx = j.idx ∧ c = d ∧ s = t := by
  obtain ⟨hcamera, -, hrest⟩ := digits_append_inj i.camera_digits.2 j.camera_digits.2 (by decide) (by decide) h
  exact ⟨hcamera, digits_append_inj i.idx_digits.2 j.idx_digits.2 hc hd hrest⟩

/-- A marked name is no name of an image. -/
theorem marked_ne_name (i j : ImageName) : i.marked ≠ j.name := by
  intro h
  obtain ⟨-, -, hne, -⟩ := cut (by decide) (by decide) h
  exact absurd hne (by decide)

theorem markedPath_ne_path (baseDir : Path) (i j : ImageName) : i.markedPath baseDir ≠ j.path baseDir :=
  fun h => marked_ne_name i j (List.cons.inj h).1

/-- Two images are not marked alike. -/
theorem path_eq_of_markedPath {baseDir : Path} {i j : ImageName} (h : i.markedPath baseDir = j.markedPath baseDir) :
    i.path baseDir = j.path baseDir := by
  obtain ⟨hcamera, hidx, -, hext⟩ := cut (by decide) (by decide) (List.cons.inj h).1
  simp only [List.cons.injEq, true_and] at hext
  simp [path, name, folder, hcamera, hidx, hext]

end ImageName

/-! ## Where the files go -/

/-- The rows are over images, as far as they are defective. -/
def OverImages (rows : List Row) : Prop :=
  ∀ row ∈ rows, row.isDefect = true → ∃ i : ImageName, row.filename = i.name

/-- No image is marked yet. -/
def Unmarked (baseDir : Path) (fs : FileSystem) : Prop := ∀ i : ImageName, fs.present (i.markedPath baseDir) = false

/-- The files of the defective rows, where the code looks for them. -/
def srcFiles (baseDir : Path) (rows : List Row) (fs : FileSystem) : Set Path :=
  {p | fs.isFile p = true ∧ ∃ row ∈ rows, row.isDefect = true ∧ srcPath baseDir row.filename = p}

instance (baseDir : Path) (rows : List Row) (fs : FileSystem) (p : Path) :
    Decidable (p ∈ srcFiles baseDir rows fs) :=
  inferInstanceAs (Decidable (_ ∧ _))

/-- `_x` before the extension of the last name. -/
def markPath : Path → Path
  | [] => []
  | name :: dir => defectName name :: dir

/-- Where a place goes when the files of the defective rows are marked. -/
def newPath (baseDir : Path) (rows : List Row) (fs : FileSystem) (p : Path) : Path :=
  if p ∈ srcFiles baseDir rows fs then markPath p else p

/-- Where the files in the folders of the cameras are named `cam_idx.ext`, none
is marked. -/
theorem unmarked_of_names {baseDir : Path} {fs : FileSystem}
    (h : ∀ name camera, fs.present (name :: (ascii "camera_" ++ camera) :: baseDir) = true →
      ∃ i : ImageName, name = i.name) : Unmarked baseDir fs := by
  intro i
  cases hpres : fs.present (i.markedPath baseDir) with
  | false => rfl
  | true =>
    obtain ⟨j, hj⟩ := h i.marked i.camera hpres
    exact absurd hj (ImageName.marked_ne_name i j)

variable {baseDir : Path} {rows : List Row} {row : Row} {fs fs₀ : FileSystem}

/-- The places of a row over an image. -/
theorem paths_of_image (baseDir : Path) {i : ImageName} (h : row.filename = i.name) :
    srcPath baseDir row.filename = i.path baseDir ∧ dstPath baseDir row.filename = i.markedPath baseDir := by
  rw [h]
  exact ⟨ImageName.srcPath_name baseDir i, ImageName.dstPath_name baseDir i⟩

theorem markPath_path (i : ImageName) : markPath (i.path baseDir) = i.markedPath baseDir := by
  rw [ImageName.path, markPath, ImageName.defectName_name]
  rfl

theorem newPath_of_mem {p : Path} (h : p ∈ srcFiles baseDir rows fs) : newPath baseDir rows fs p = markPath p :=
  if_pos h

theorem newPath_of_not_mem {p : Path} (h : p ∉ srcFiles baseDir rows fs) : newPath baseDir rows fs p = p := if_neg h

theorem newPath_congr {rows' : List Row} (h : srcFiles baseDir rows' fs = srcFiles baseDir rows fs) (p : Path) :
    newPath baseDir rows' fs p = newPath baseDir rows fs p := by
  simp only [newPath, h]

theorem exists_image {p : Path} (hrows : OverImages rows) (h : p ∈ srcFiles baseDir rows fs) :
    ∃ i : ImageName, p = i.path baseDir := by
  obtain ⟨-, row, hmem, hdefect, rfl⟩ := h
  obtain ⟨i, hi⟩ := hrows row hmem hdefect
  exact ⟨i, (paths_of_image baseDir hi).1⟩

/-- The row has a file that no row before it had. -/
def NewFile (baseDir : Path) (rows : List Row) (row : Row) (fs : FileSystem) : Prop :=
  row.isDefect = true ∧ fs.isFile (srcPath baseDir row.filename) = true ∧
    srcPath baseDir row.filename ∉ srcFiles baseDir rows fs

instance (baseDir : Path) (rows : List Row) (row : Row) (fs : FileSystem) : Decidable (NewFile baseDir rows row fs) :=
  inferInstanceAs (Decidable (_ ∧ _))

theorem mem_srcFiles_append {p : Path} : p ∈ srcFiles baseDir (rows ++ [row]) fs ↔
    p ∈ srcFiles baseDir rows fs ∨ fs.isFile p = true ∧ row.isDefect = true ∧ srcPath baseDir row.filename = p := by
  simp only [srcFiles, Set.mem_ofPred_eq, List.mem_append, List.mem_singleton]
  constructor
  · rintro ⟨hfile, row', hmem | rfl, hdefect⟩
    · exact .inl ⟨hfile, row', hmem, hdefect⟩
    · exact .inr ⟨hfile, hdefect⟩
  · rintro (⟨hfile, row', hmem, hdefect⟩ | ⟨hfile, hdefect⟩)
    · exact ⟨hfile, row', .inl hmem, hdefect⟩
    · exact ⟨hfile, row, .inr rfl, hdefect⟩

theorem srcFiles_append_of_new (h : NewFile baseDir rows row fs) :
    srcFiles baseDir (rows ++ [row]) fs = insert (srcPath baseDir row.filename) (srcFiles baseDir rows fs) := by
  ext p
  rw [mem_srcFiles_append, Set.mem_insert_iff]
  constructor
  · rintro (hp | ⟨-, -, rfl⟩)
    · exact .inr hp
    · exact .inl rfl
  · rintro (rfl | hp)
    · exact .inr ⟨h.2.1, h.1, rfl⟩
    · exact .inl hp

theorem srcFiles_append_of_not (h : ¬ NewFile baseDir rows row fs) :
    srcFiles baseDir (rows ++ [row]) fs = srcFiles baseDir rows fs := by
  ext p
  rw [mem_srcFiles_append]
  refine or_iff_left_of_imp ?_
  rintro ⟨hfile, hdefect, rfl⟩
  by_contra hmem
  exact h ⟨hdefect, hfile, hmem⟩

theorem finite_srcFiles (baseDir : Path) (rows : List Row) (fs : FileSystem) :
    (srcFiles baseDir rows fs).Finite := by
  refine (List.finite_toSet (rows.map fun row => srcPath baseDir row.filename)).subset ?_
  rintro p ⟨-, row, hmem, -, rfl⟩
  exact List.mem_map.2 ⟨row, hmem, rfl⟩

theorem ncard_srcFiles_append (baseDir : Path) (rows : List Row) (row : Row) (fs : FileSystem) :
    (srcFiles baseDir (rows ++ [row]) fs).ncard =
      (srcFiles baseDir rows fs).ncard + [decide (NewFile baseDir rows row fs)].count true := by
  by_cases hnew : NewFile baseDir rows row fs
  · rw [srcFiles_append_of_new hnew, Set.ncard_insert_of_notMem hnew.2.2 (finite_srcFiles baseDir rows fs)]
    simp [hnew]
  · rw [srcFiles_append_of_not hnew]
    simp [hnew]

/-! ## One row -/

/-- `fs` is `fs₀` with the files of the rows marked. -/
structure Marked (baseDir : Path) (rows : List Row) (fs₀ fs : FileSystem) : Prop where
  overImages : OverImages rows
  unmarked : Unmarked baseDir fs₀
  moves : Moves (newPath baseDir rows fs₀) fs₀ fs

namespace Marked

variable (h : Marked baseDir rows fs₀ fs)
include h

/-- Nothing but the image itself is at its place. -/
theorem newPath_eq_path {p : Path} {i : ImageName} (hp : newPath baseDir rows fs₀ p = i.path baseDir) :
    p = i.path baseDir ∧ p ∉ srcFiles baseDir rows fs₀ := by
  unfold newPath at hp
  split at hp
  · rename_i hmem
    obtain ⟨j, rfl⟩ := exists_image h.overImages hmem
    rw [markPath_path] at hp
    exact absurd hp (ImageName.markedPath_ne_path baseDir j i)
  · rename_i hmem
    exact ⟨hp, hmem⟩

theorem isFile_of_mem {i : ImageName} (hi : i.path baseDir ∈ srcFiles baseDir rows fs₀) :
    fs.isFile (i.path baseDir) = false := by
  have habsent : fs.present (i.path baseDir) = false := by
    refine h.moves.absent fun p _ hp => ?_
    obtain ⟨rfl, hnot⟩ := h.newPath_eq_path hp
    exact hnot hi
  rw [isFile, node_eq_none_iff.2 habsent]

theorem node_of_not_mem {i : ImageName} (hi : i.path baseDir ∉ srcFiles baseDir rows fs₀) :
    fs.node (i.path baseDir) = fs₀.node (i.path baseDir) := by
  cases hpres : fs₀.present (i.path baseDir) with
  | true =>
    have hnode := h.moves.node _ hpres
    rwa [newPath_of_not_mem hi] at hnode
  | false =>
    rw [node_eq_none_iff.2 hpres, node_eq_none_iff]
    refine h.moves.absent fun p hp heq => ?_
    rw [(h.newPath_eq_path heq).1, hpres] at hp
    cases hp

theorem isFile_of_not_mem {i : ImageName} (hi : i.path baseDir ∉ srcFiles baseDir rows fs₀) :
    fs.isFile (i.path baseDir) = fs₀.isFile (i.path baseDir) := by
  rw [isFile, isFile, h.node_of_not_mem hi]

/-- An image whose row is yet to come is not marked. -/
theorem unmarked_of_not_mem {i : ImageName} (hi : i.path baseDir ∉ srcFiles baseDir rows fs₀) :
    fs.present (i.markedPath baseDir) = false := by
  refine h.moves.absent fun p hp heq => ?_
  unfold newPath at heq
  split at heq
  · rename_i hmem
    obtain ⟨j, rfl⟩ := exists_image h.overImages hmem
    rw [markPath_path] at heq
    exact hi (ImageName.path_eq_of_markedPath heq ▸ hmem)
  · rw [heq, h.unmarked i] at hp
    cases hp

theorem overImages_append (hrow : row.isDefect = true → ∃ i : ImageName, row.filename = i.name) :
    OverImages (rows ++ [row]) := by
  intro row' hmem
  rcases List.mem_append.1 hmem with hmem | hmem
  · exact h.overImages row' hmem
  · obtain rfl := List.mem_singleton.1 hmem
    exact hrow

/-- A row without a file of its own changes nothing. -/
theorem append_of_not (hrow : row.isDefect = true → ∃ i : ImageName, row.filename = i.name)
    (hnot : ¬ NewFile baseDir rows row fs₀) : Marked baseDir (rows ++ [row]) fs₀ fs where
  overImages := h.overImages_append hrow
  unmarked := h.unmarked
  moves := h.moves.congr fun p _ => (newPath_congr (srcFiles_append_of_not hnot) p).symm

/-- The file of a row with one of its own gets marked. -/
theorem append_of_new {fs' : FileSystem} {i : ImageName} (hi : row.filename = i.name)
    (hnew : NewFile baseDir rows row fs₀)
    (hrename : fs.rename (i.path baseDir) (i.markedPath baseDir) = some fs') :
    Marked baseDir (rows ++ [row]) fs₀ fs' where
  overImages := h.overImages_append fun _ => ⟨i, hi⟩
  unmarked := h.unmarked
  moves := by
    have hsrc : srcPath baseDir row.filename = i.path baseDir := (paths_of_image baseDir hi).1
    have hfile := hnew.2.1
    have hnot := hnew.2.2
    rw [hsrc] at hfile hnot
    have hfile' : fs.isFile (i.path baseDir) = true := (h.isFile_of_not_mem hnot).trans hfile
    refine (h.moves.trans (moves_rename_file hrename hfile' (.inr (h.unmarked_of_not_mem hnot)))).congr fun p _ => ?_
    have hmem : ∀ q, q ∈ srcFiles baseDir (rows ++ [row]) fs₀ ↔
        q = i.path baseDir ∨ q ∈ srcFiles baseDir rows fs₀ := by
      intro q
      rw [srcFiles_append_of_new hnew, hsrc, Set.mem_insert_iff]
    rw [Function.comp_apply]
    by_cases hp : p ∈ srcFiles baseDir rows fs₀
    · -- marked before, and no image since
      obtain ⟨j, rfl⟩ := exists_image h.overImages hp
      rw [newPath_of_mem hp, newPath_of_mem ((hmem _).2 (.inr hp)), markPath_path,
        if_neg (ImageName.markedPath_ne_path baseDir j i)]
    · rw [newPath_of_not_mem hp]
      by_cases heq : p = i.path baseDir
      · rw [if_pos heq, newPath_of_mem ((hmem p).2 (.inl heq)), heq, markPath_path]
      · rw [if_neg heq, newPath_of_not_mem fun hq => ((hmem p).1 hq).elim heq hp]

/-- One more row: it renames its file if no row before it did. -/
theorem renameFile (hrow : row.isDefect = true → ∃ i : ImageName, row.filename = i.name) :
    (renameFile row baseDir fs).2 = decide (NewFile baseDir rows row fs₀) ∧
      Marked baseDir (rows ++ [row]) fs₀ (renameFile row baseDir fs).1 := by
  cases hdefect : row.isDefect with
  | false =>
    have hnot : ¬ NewFile baseDir rows row fs₀ := fun hnew => by simp [hnew.1] at hdefect
    rw [DefectRenaming.renameFile, if_pos hdefect, decide_eq_false hnot]
    exact ⟨rfl, h.append_of_not hrow hnot⟩
  | true =>
    obtain ⟨i, hi⟩ := hrow hdefect
    obtain ⟨hsrc, hdst⟩ := paths_of_image baseDir hi
    have hsep : ¬ (0x5f : UInt8) ∉ row.filename := by simp [hi, ImageName.name]
    by_cases hnew : NewFile baseDir rows row fs₀
    · have hnot := hnew.2.2
      have hfile := hnew.2.1
      rw [hsrc] at hnot hfile
      have hfile' : fs.isFile (i.path baseDir) = true := (h.isFile_of_not_mem hnot).trans hfile
      have hfree := h.unmarked_of_not_mem hnot
      obtain ⟨fs', hrename⟩ : ∃ fs', fs.rename (i.path baseDir) (i.markedPath baseDir) = some fs' :=
        rename_sibling hfile' hfree
      have hrun : DefectRenaming.renameFile row baseDir fs = (fs', true) := by
        simp [DefectRenaming.renameFile, hdefect, hsep, hsrc, hdst, hfile', hfree, hrename]
      rw [hrun, decide_eq_true hnew]
      exact ⟨rfl, h.append_of_new hi hnew hrename⟩
    · have hfile : fs.isFile (i.path baseDir) = false := by
        by_cases hmem : i.path baseDir ∈ srcFiles baseDir rows fs₀
        · exact h.isFile_of_mem hmem
        · rw [h.isFile_of_not_mem hmem, ← Bool.not_eq_true]
          exact fun hfile => hnew ⟨hdefect, by rwa [hsrc], by rwa [hsrc]⟩
      have hrun : DefectRenaming.renameFile row baseDir fs = (fs, false) := by
        simp [DefectRenaming.renameFile, hdefect, hsep, hsrc, hfile]
      rw [hrun, decide_eq_false hnew]
      exact ⟨rfl, h.append_of_not hrow hnew⟩

end Marked

/-! ## All rows -/

theorem Marked.init (hunmarked : Unmarked baseDir fs) : Marked baseDir [] fs fs where
  overImages := List.forall_mem_nil _
  unmarked := hunmarked
  moves := (Moves.refl fs).congr fun p _ => by simp [newPath, srcFiles]

/-- The files of the rows are marked whatever rows came before them, and each
was renamed by one row. -/
theorem Marked.renameFiles {pre : List Row} (h : Marked baseDir pre fs₀ fs) (hrows : OverImages rows) :
    Marked baseDir (pre ++ rows) fs₀ (renameFiles baseDir rows fs).1 ∧
      (srcFiles baseDir (pre ++ rows) fs₀).ncard =
        (srcFiles baseDir pre fs₀).ncard + (renameFiles baseDir rows fs).2.count true := by
  induction rows generalizing pre fs with
  | nil => simpa [DefectRenaming.renameFiles] using h
  | cons row rows ih =>
    obtain ⟨hresult, hmarked⟩ := h.renameFile (hrows row List.mem_cons_self)
    obtain ⟨hall, hcount⟩ := ih hmarked fun row' hmem => hrows row' (List.mem_cons_of_mem row hmem)
    have hsplit : pre ++ row :: rows = pre ++ [row] ++ rows := by simp
    rw [hsplit]
    refine ⟨hall, ?_⟩
    rw [hcount, ncard_srcFiles_append, ← hresult]
    simp only [DefectRenaming.renameFiles, List.count_cons, List.count_nil]
    omega

/-- Only the rows count, not their order. -/
theorem srcFiles_perm {rows' : List Row} (h : rows'.Perm rows) (fs : FileSystem) :
    srcFiles baseDir rows' fs = srcFiles baseDir rows fs := by
  ext p
  simp only [srcFiles, Set.mem_ofPred_eq, h.mem_iff]

/-- A row that was there before renames nothing. -/
theorem Marked.renameFile_again (h : Marked baseDir rows fs₀ fs) (hmem : row ∈ rows) :
    DefectRenaming.renameFile row baseDir fs = (fs, false) := by
  have hnot : ¬ NewFile baseDir rows row fs₀ := fun hnew => hnew.2.2 ⟨hnew.2.1, row, hmem, hnew.1, rfl⟩
  have hrow := h.overImages row hmem
  obtain ⟨hresult, hmarked⟩ := h.renameFile hrow
  rw [decide_eq_false hnot] at hresult
  exact Prod.ext (hmarked.moves.unique (h.append_of_not hrow hnot).moves) hresult

theorem Marked.renameFiles_again (h : Marked baseDir rows fs₀ fs) {again : List Row} (hsub : again ⊆ rows) :
    DefectRenaming.renameFiles baseDir again fs = (fs, again.map fun _ => false) := by
  induction again with
  | nil => rfl
  | cons row again ih =>
    obtain ⟨hmem, hsub⟩ := List.cons_subset.1 hsub
    simp [DefectRenaming.renameFiles, h.renameFile_again hmem, ih hsub]

/-! ## The images -/

/-- The files of the images that the defective rows name. -/
def defectFiles (baseDir : Path) (rows : List Row) (fs : FileSystem) : Set Path :=
  {p | fs.isFile p = true ∧ ∃ row ∈ rows, row.isDefect = true ∧ ∃ i : ImageName, row.filename = i.name ∧
    p = i.path baseDir}

/-- Each of these goes to its marked name, and nothing else anywhere. -/
structure Marking (baseDir : Path) (rows : List Row) (fs : FileSystem) (f : Path → Path) : Prop where
  defect : ∀ i : ImageName, i.path baseDir ∈ defectFiles baseDir rows fs → f (i.path baseDir) = i.markedPath baseDir
  other : ∀ p, p ∉ defectFiles baseDir rows fs → f p = p

/-- The code looks where the images are. -/
theorem srcFiles_eq (hrows : OverImages rows) : srcFiles baseDir rows fs = defectFiles baseDir rows fs := by
  ext p
  refine and_congr_right fun _ => exists_congr fun row => and_congr_right fun hmem => and_congr_right fun hdefect => ?_
  constructor
  · rintro rfl
    obtain ⟨i, hi⟩ := hrows row hmem hdefect
    exact ⟨i, hi, (paths_of_image baseDir hi).1⟩
  · rintro ⟨i, hi, rfl⟩
    exact (paths_of_image baseDir hi).1

theorem marking_newPath (hrows : OverImages rows) : Marking baseDir rows fs (newPath baseDir rows fs) where
  defect i hi := by rw [newPath_of_mem (srcFiles_eq hrows ▸ hi), markPath_path]
  other p hp := newPath_of_not_mem (srcFiles_eq hrows ▸ hp)

/-- A row as `process_image` puts it. -/
def resultRow (filename result : Bytes) : Row :=
  ⟨[filename, ascii "0.1", ascii "0.9", ascii "0.1", ascii "0.2", ascii "12", result], List.cons_ne_nil _ _⟩

/-- One image of a camera. -/
def oneImage : FileSystem :=
  (FileSystem.empty.put (ascii "camera_1") [] .dir).put (ascii "1_2.jpg") [ascii "camera_1"] (.file (ascii "image"))

/-- It is reported twice, and one that is gone is reported, too. -/
def oneImageRows : List Row :=
  [resultRow (ascii "1_2.jpg") (ascii "1"), resultRow (ascii "1_3.jpg") (ascii "1"),
    resultRow (ascii "1_2.jpg") (ascii "1")]

theorem jpg_plain : (0x2e : UInt8) ∉ ascii "jpg" ∧ (0x2f : UInt8) ∉ ascii "jpg" := by decide +kernel

/-- An image of camera 1. -/
def image (idx : Bytes) (hidx : idx ≠ [] ∧ ∀ c ∈ idx, isdigit c = true) : ImageName :=
  ⟨ascii "1", idx, ascii "jpg", by decide +kernel, hidx, jpg_plain⟩

theorem oneImageRows_overImages : OverImages oneImageRows := by
  have h2 : (resultRow (ascii "1_2.jpg") (ascii "1")).filename = (image (ascii "2") (by decide +kernel)).name := by
    decide +kernel
  have h3 : (resultRow (ascii "1_3.jpg") (ascii "1")).filename = (image (ascii "3") (by decide +kernel)).name := by
    decide +kernel
  intro row hmem _
  simp only [oneImageRows, List.mem_cons, List.not_mem_nil, or_false] at hmem
  rcases hmem with rfl | rfl | rfl
  · exact ⟨_, h2⟩
  · exact ⟨_, h3⟩
  · exact ⟨_, h2⟩

theorem oneImage_unmarked : Unmarked [] oneImage := by
  refine unmarked_of_names fun name camera hpres => ?_
  rw [oneImage, present, node_put (by decide +kernel) (by decide +kernel)] at hpres
  split at hpres
  · rename_i heq
    refine ⟨image (ascii "2") (by decide +kernel), ?_⟩
    rw [(List.cons.inj heq).1]
    decide +kernel
  · rw [node_put (by decide +kernel) (by decide +kernel)] at hpres
    simp [FileSystem.empty] at hpres

end FlameSdd.DefectRenaming
