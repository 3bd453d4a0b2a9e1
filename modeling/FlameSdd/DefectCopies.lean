import FlameSdd.DefectRenaming
import FlameSdd.InferenceWorker
import FlameSdd.ModelInference
/-!
# Copies of renamed images

`rename_file` splits the extension off the name of an image, and
`copy_defect_images` cuts four characters and appends `_x.jpg`. The copy looks
for the file where it was renamed to only for the extension `.jpg`:
`copy_finds_renamed_iff`.
-/
open SysLib FlameSdd.ModelInference FlameSdd.DefectRenaming

namespace FlameSdd.DefectCopies

/-! ## The code -/

/-- `image_filename` of a row. -/
def copyImageFilename (row : Row) : Bytes := Utf8.dropLastChars 4 row.filename

/-- The task that `copy_defect_images` gathers for a row. -/
def copyDefectImage (info : JobInfo) (row : Row) : Option (Bytes × Bytes) :=
  if row.isDefect then some (copyTask info (copyImageFilename row)) else none

/-- Where the NAS keeps what the monitor has below the root of the output. -/
def mount : Path := Path.join [] (ascii "/volume1/sdd")

/-- The copy reads the file that was renamed, up to the root: the one path is
below the mount what the other is below the root of the output. -/
def CopyFindsRenamed (info : JobInfo) (row : Row) : Prop :=
  ∃ task rest, copyDefectImage info row = some task ∧ Path.join [] task.1 = rest ++ mount ∧
    ∀ outRootPath, dstPath (targetDir outRootPath info) row.filename = rest ++ outRootPath

/-- The directory of the bar is below whatever root the output has. -/
def BelowRoot (info : JobInfo) : Prop := ∃ rest, ∀ outRootPath, targetDir outRootPath info = rest ++ outRootPath

/-! ## The source of a copy -/

/-- The place of a source, part by part. -/
theorem join_copyTask {info : JobInfo} (hnorm : info.mtStandNorm ≠ []) {imageFilename : Bytes}
    (hcamera : Path.IsName (subdir imageFilename)) (hname : Path.IsName (imageFilename ++ ascii "_x.jpg")) :
    Path.join [] (copyTask info imageFilename).1 = (imageFilename ++ ascii "_x.jpg") :: subdir imageFilename ::
      ((mount.descend (Utf8.takeChars 8 info.date)).descend (targetName info)) := by
  have htext : (copyTask info imageFilename).1 = ascii "/volume1/sdd" ++ 0x2f :: (Utf8.takeChars 8 info.date ++ 0x2f ::
      (targetName info ++ 0x2f :: (subdir imageFilename ++ 0x2f :: (imageFilename ++ ascii "_x.jpg")))) := by
    have hstand : copyStand info = info.mtStandNorm := by simp [copyStand, hnorm]
    have hroot : ascii "/volume1/sdd/" = ascii "/volume1/sdd" ++ [0x2f] := rfl
    have hslash : ascii "/" = [0x2f] := rfl
    have hfolder : ascii "/camera_" = 0x2f :: ascii "camera_" := rfl
    simp [copyTask, copyDirname, targetName, subdir, hstand, hroot, hslash, hfolder]
  rw [Path.join_nil, htext, Path.descend_append, Path.descend_append, Path.descend_append, Path.descend_append,
    Path.descend_name _ hname, Path.descend_name _ hcamera, mount, Path.join_nil]

/-- Four characters go, the dot among them only where the extension has three. -/
theorem copyImageFilename_name {row : Row} {i : ImageName} (hname : row.filename = i.name)
    (hext : 0x2e :: i.ext ∈ InferenceRun.extensions) :
    copyImageFilename row = i.camera ++ 0x5f :: (i.idx ++ (0x2e :: i.ext).take (i.ext.length - 3)) := by
  have hlen : ∀ e ∈ InferenceRun.extensions, 4 ≤ e.length := by decide +kernel
  have hascii : ∀ e ∈ InferenceRun.extensions, ∀ c ∈ e, c < 0x80 := by decide +kernel
  have hlen' := hlen _ hext
  rw [List.length_cons] at hlen'
  have hdrop : ((0x2e :: i.ext).drop (i.ext.length - 3)).length = 4 := by
    rw [List.length_drop, List.length_cons]
    omega
  have hsplit : i.name = (i.camera ++ 0x5f :: (i.idx ++ (0x2e :: i.ext).take (i.ext.length - 3))) ++
      (0x2e :: i.ext).drop (i.ext.length - 3) := by
    rw [ImageName.name, List.append_assoc, List.cons_append, List.append_assoc, List.take_append_drop]
  rw [copyImageFilename, hname, hsplit, ← hdrop]
  refine Utf8.dropLastChars_ascii (fun c hc => ?_) fun c hc => hascii _ hext c (List.mem_of_mem_drop hc)
  rcases List.mem_append.1 hc with hc | hc
  · exact isdigit_ascii (i.camera_digits.2 c hc)
  · rcases List.mem_cons.1 hc with rfl | hc
    · decide
    · rcases List.mem_append.1 hc with hc | hc
      · exact isdigit_ascii (i.idx_digits.2 c hc)
      · exact hascii _ hext c (List.mem_of_mem_take hc)

/-! ## The directory of the bar -/

theorem targetDir_relative {info : JobInfo} (h : info.date.head? ≠ some 0x2f) (outRootPath : Path) :
    targetDir outRootPath info = (outRootPath.descend (Utf8.takeChars 8 info.date)).descend (targetName info) := by
  have hname : (targetName info).head? ≠ some 0x2f := by
    rw [targetName]
    cases hdate : info.date with
    | nil =>
      intro hslash
      exact absurd (Option.some.inj hslash) (by decide)
    | cons c s => simpa [hdate] using h
  rw [targetDir, Path.join_relative _ hname, Path.join_relative _ (by rwa [Utf8.head?_takeChars (by decide)])]

/-- A date that starts with a slash leaves the root. -/
theorem BelowRoot.relative {info : JobInfo} (h : BelowRoot info) : info.date.head? ≠ some 0x2f := by
  intro hslash
  obtain ⟨rest, hrest⟩ := h
  have hdate : (Utf8.takeChars 8 info.date).head? = some 0x2f := by rw [Utf8.head?_takeChars (by decide), hslash]
  have hname : (targetName info).head? = some 0x2f := by
    rw [targetName, List.append_assoc, List.head?_append, hslash]
    rfl
  have hsame : ∀ outRootPath, targetDir outRootPath info = Path.descend [] (targetName info) := fun outRootPath => by
    rw [targetDir, Path.join, if_pos hname]
  have hlen := congrArg List.length ((hrest []).symm.trans ((hsame []).trans ((hsame [[]]).symm.trans (hrest [[]]))))
  simp at hlen

/-- The directory is below the root when neither part of it has a slash and the
date is not two dots. -/
theorem belowRoot_of_names {info : JobInfo} (hdate : (0x2f : UInt8) ∉ info.date)
    (hnorm : (0x2f : UInt8) ∉ info.mtStandNorm) (hup : Utf8.takeChars 8 info.date ≠ ascii "..") : BelowRoot info := by
  have hrelative : info.date.head? ≠ some 0x2f := fun h => hdate (List.mem_of_mem_head? h)
  have htarget : Path.IsName (targetName info) := by
    have hsep : ascii "_" = [0x5f] := rfl
    refine Path.isName_of_mem (c := 0x5f) (by simp [targetName, hsep]) (by decide) ?_
    simp [targetName, hsep, hdate, hnorm]
  have hslash : (0x2f : UInt8) ∉ Utf8.takeChars 8 info.date := fun h => hdate (Utf8.mem_of_mem_takeChars h)
  by_cases hstay : Utf8.takeChars 8 info.date = [] ∨ Utf8.takeChars 8 info.date = ascii "."
  · refine ⟨[targetName info], fun outRootPath => ?_⟩
    rw [targetDir_relative hrelative, Path.descend_name _ htarget, Path.descend, List.splitOn_eq_singleton hslash]
    simp [Path.push, hstay]
  · refine ⟨[targetName info, Utf8.takeChars 8 info.date], fun outRootPath => ?_⟩
    rw [targetDir_relative hrelative, Path.descend_name _ htarget,
      Path.descend_name _ ⟨fun h => hstay (.inl h), fun h => hstay (.inr h), hup, hslash⟩]
    rfl

/-! ## The result -/

/-- The copy appends what the renaming did only after cutting `.jpg`. -/
theorem appended_eq_iff {ext : Bytes} (h : ext ∈ InferenceRun.extensions) :
    ext.take (ext.length - 4) ++ ascii "_x.jpg" = 0x5f :: 0x78 :: ext ↔ ext = ascii ".jpg" := by
  have hall : ∀ e ∈ InferenceRun.extensions, e.take (e.length - 4) ++ ascii "_x.jpg" = 0x5f :: 0x78 :: e ↔
      e = ascii ".jpg" := by
    decide +kernel
  exact hall ext h

/-- For a defective row with the name of an image that the workers take, the copy
looks for the file where it was renamed to if and only if its extension is
`.jpg` and the directory of the bar is below the root. -/
theorem copy_finds_renamed_iff (info : JobInfo) (row : Row) (i : ImageName) (hnorm : info.mtStandNorm ≠ [])
    (hdefect : row.isDefect = true) (hname : row.filename = i.name) (hext : 0x2e :: i.ext ∈ InferenceRun.extensions) :
    CopyFindsRenamed info row ↔ 0x2e :: i.ext = ascii ".jpg" ∧ BelowRoot info := by
  have hcopied := copyImageFilename_name hname hext
  have hsubdir : subdir (copyImageFilename row) = ascii "camera_" ++ i.camera := by
    rw [hcopied, subdir,
      List.splitOn_append_cons_self_of_not_mem (ImageName.not_mem_digits i.camera_digits (by decide)),
      List.headD_cons]
  have hlast : copyImageFilename row ++ ascii "_x.jpg" = i.marked ↔ 0x2e :: i.ext = ascii ".jpg" := by
    rw [← appended_eq_iff hext, hcopied]
    simp [ImageName.marked]
  have hlastName : Path.IsName (copyImageFilename row ++ ascii "_x.jpg") := by
    have hslash : (0x2f : UInt8) ∉ ascii "_x.jpg" := by decide +kernel
    have htake : (0x2f : UInt8) ∉ (0x2e :: i.ext).take (i.ext.length - 3) := by
      intro h
      have hmem := List.mem_of_mem_take h
      simp [i.ext_plain.2] at hmem
    refine Path.isName_of_mem (c := 0x5f) (by simp [hcopied]) (by decide) ?_
    simp [hcopied, i.slash_not_mem, hslash, htake]
  have htask : copyDefectImage info row = some (copyTask info (copyImageFilename row)) := if_pos hdefect
  have hsrc := join_copyTask hnorm (hsubdir ▸ i.isName_folder) hlastName
  rw [hsubdir] at hsrc
  have hdst : ∀ outRootPath, dstPath (targetDir outRootPath info) row.filename =
      i.marked :: (ascii "camera_" ++ i.camera) :: targetDir outRootPath info := fun outRootPath => by
    rw [hname, ImageName.dstPath_name]
    rfl
  constructor
  · rintro ⟨task, rest, hsome, hcopy, hrename⟩
    obtain rfl := Option.some.inj (htask.symm.trans hsome)
    have hrest : rest = i.marked :: (ascii "camera_" ++ i.camera) :: targetDir [] info := by
      rw [← hdst [], hrename [], List.append_nil]
    subst hrest
    rw [hsrc] at hcopy
    refine ⟨hlast.1 (List.cons.inj hcopy).1, targetDir [] info, fun outRootPath => ?_⟩
    have heq := (hdst outRootPath).symm.trans (hrename outRootPath)
    simpa using heq
  · rintro ⟨hjpg, hbelow⟩
    have hrelative := hbelow.relative
    obtain ⟨rest, hrest⟩ := hbelow
    refine ⟨_, i.marked :: (ascii "camera_" ++ i.camera) :: rest, htask, ?_, fun outRootPath => ?_⟩
    · rw [hsrc, hlast.2 hjpg, ← targetDir_relative hrelative, hrest]
      rfl
    · rw [hdst, hrest]
      rfl

/-- A bar of the standard `200X100`. -/
def bar200 : JobInfo where
  date := ascii "20250804095316"
  mtStandHeight := 200
  mtStandWidth := 100
  mtNo := ascii "S1"
  lotNo := ascii "L1"
  mtTypeCd := ascii "H"
  mtStandRaw := ascii "H 200 x 100"
  mtStandNorm := ascii "H200x100"

/-- An image of camera 3. -/
def image (ext : Bytes) (hext : (0x2e : UInt8) ∉ ext ∧ (0x2f : UInt8) ∉ ext) : ImageName :=
  ⟨ascii "3", ascii "17", ext, by decide +kernel, by decide +kernel, hext⟩

theorem copy_finds_renamed_jpg :
    CopyFindsRenamed bar200 (resultRow (ascii "3_17.jpg") (ascii "1")) ↔
      0x2e :: (image (ascii "jpg") jpg_plain).ext = ascii ".jpg" ∧ BelowRoot bar200 :=
  copy_finds_renamed_iff bar200 (resultRow (ascii "3_17.jpg") (ascii "1")) (image (ascii "jpg") jpg_plain)
    (by decide +kernel) (by decide +kernel) (by decide +kernel) (by decide +kernel)

/-- A `.jpeg` is renamed to `3_17_x.jpeg`, and the copy looks for `3_17._x.jpg`. -/
theorem copy_misses_renamed : ¬ ∀ (info : JobInfo) (row : Row) (i : ImageName), info.mtStandNorm ≠ [] →
    row.isDefect = true → row.filename = i.name → 0x2e :: i.ext ∈ InferenceRun.extensions →
      CopyFindsRenamed info row := by
  intro h
  obtain ⟨task, rest, htask, hcopy, hrename⟩ := h bar200 (resultRow (ascii "3_17.jpeg") (ascii "1"))
    (image (ascii "jpeg") (by decide +kernel)) (by decide +kernel) (by decide +kernel) (by decide +kernel)
      (by decide +kernel)
  have hcopied : Path.join [] ((copyDefectImage bar200 (resultRow (ascii "3_17.jpeg") (ascii "1"))).getD ([], [])).1 =
      [ascii "3_17._x.jpg", ascii "camera_3", ascii "20250804095316_H200x100", ascii "20250804"] ++ mount := by
    decide +kernel
  have hrenamed : dstPath (targetDir mount bar200) (resultRow (ascii "3_17.jpeg") (ascii "1")).filename =
      [ascii "3_17_x.jpeg", ascii "camera_3", ascii "20250804095316_H200x100", ascii "20250804"] ++ mount := by
    decide +kernel
  rw [htask, Option.getD_some, hcopy, ← hrename, hrenamed] at hcopied
  exact absurd hcopied (by decide +kernel)

end FlameSdd.DefectCopies
