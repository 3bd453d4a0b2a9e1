import FlameSdd.DefectPlot
import FlameSdd.DefectRenaming
import FlameSdd.DiffMask
import FlameSdd.SysLib.Csv
/-!
# From the images to the marked files

A job in one piece: every image gets its row from its pixels, the rows go through
the queue to the collector and through the text of `result.csv` to the renaming.
The files that are marked are those of the images with a large region that the
classifier takes for a defect: `job_marks`.
-/
open SysLib FlameSdd.DiffMask FlameSdd.InferenceRun

namespace FlameSdd.Verdict

/-! ## One image -/

/-- What the libraries make of an image: its metrics with the arrays of the image
and its reconstruction, if nothing raises, then the prediction; and the texts of
the metrics. -/
structure Libraries (M : Type) where
  cv : OpenCv
  compute : Image → Option (M × Image8 × Image8)
  predict : M → Nat → Option Int
  mae : M → Bytes
  ssim : M → Bytes
  gradMae : M → Bytes
  lapDiff : M → Bytes

/-- `in_h` and `in_w`, to which the images are resized. -/
def shape : Nat × Nat := (300, 480)

variable {M : Type} (l : Libraries M)

/-- The row of the `except` block. -/
def failed (image : Image) : DefectPlot.Result :=
  let nan := ascii "nan"
  ⟨InferenceRun.processImage image none, ⟨nan, nan, nan, nan, nan⟩⟩

/-- The row of an image whose metrics are known. -/
def classify (image : Image) (metrics : M) (pixSum : Nat) : DefectPlot.Result :=
  match l.predict metrics pixSum with
  | none => failed image
  | some result =>
    ⟨InferenceRun.processImage image (some (if pixSum = 0 then 0 else result)),
      ⟨l.mae metrics, l.ssim metrics, l.gradMae metrics, l.lapDiff metrics, decimal pixSum⟩⟩

/-- The row that `process_image` puts. -/
def processImage (image : Image) : DefectPlot.Result :=
  match l.compute image with
  | none => failed image
  | some (metrics, orig, recon) => classify l image metrics (computePixelSum l.cv shape orig recon)

/-- The classifier takes the image for a defect, and a large region of it is over
the threshold. -/
def Finds (image : Image) : Prop :=
  ∃ metrics orig recon, l.compute image = some (metrics, orig, recon) ∧
    l.predict metrics (computePixelSum l.cv shape orig recon) = some 1 ∧ ∃ S, LargeRegion l.cv shape orig recon S

theorem image_classify (image : Image) (metrics : M) (pixSum : Nat) :
    (classify l image metrics pixSum).row.image = image := by
  unfold classify
  split <;> rfl

theorem result_classify_iff (image : Image) (metrics : M) (pixSum : Nat) :
    (classify l image metrics pixSum).row.result = 1 ↔ l.predict metrics pixSum = some 1 ∧ pixSum ≠ 0 := by
  unfold classify
  cases l.predict metrics pixSum with
  | none => simp [failed, InferenceRun.processImage]
  | some result =>
    by_cases hzero : pixSum = 0
    · simp [InferenceRun.processImage, hzero]
    · simp [InferenceRun.processImage, hzero]

@[simp] theorem image_processImage (image : Image) : (processImage l image).row.image = image := by
  unfold processImage
  split
  · rfl
  · exact image_classify l image _ _

theorem result_processImage_iff (image : Image) : (processImage l image).row.result = 1 ↔ Finds l image := by
  unfold processImage
  split
  · rename_i hcompute
    refine iff_of_false (by simp [failed, InferenceRun.processImage]) ?_
    rintro ⟨metrics, orig, recon, heq, -⟩
    rw [hcompute] at heq
    cases heq
  · rename_i metrics orig recon hcompute
    rw [result_classify_iff, computePixelSum_ne_zero_iff]
    constructor
    · rintro ⟨hone, hregion⟩
      exact ⟨metrics, orig, recon, hcompute, hone, hregion⟩
    · rintro ⟨metrics', orig', recon', heq, hfinds⟩
      rw [hcompute] at heq
      cases heq
      exact hfinds

/-! ## All images -/

/-- A step that puts a row puts the one that was computed. -/
def Computes (s : Inspection) : InspectionEvent → Prop
  | .worker w (.process i predicted) | .worker w (.escape i (some predicted)) =>
    ∀ pending raised image, (s.workers w).phase = .pool pending raised → pending[i]? = some image →
      InferenceRun.processImage image predicted = (processImage l image).row
  | _ => True

/-- What a step of a worker adds to its output: an end marker, or the row of a
pending image. -/
theorem mem_sent_step {cams : List Nat} {folders : Folders} {w : InferenceRun.Worker} {e : WorkerEvent} {row : Row}
    (h : some row ∈ (w.step cams folders e).output.sent) :
    some row ∈ w.output.sent ∨ ∃ i predicted pending raised image,
      (e = .process i predicted ∨ e = .escape i (some predicted)) ∧ w.phase = .pool pending raised ∧
        pending[i]? = some image ∧ row = InferenceRun.processImage image predicted := by
  have hput : ∀ (v : InferenceRun.Worker) (image : Image) (predicted : Option Int),
      some row ∈ (v.put (some (InferenceRun.processImage image predicted))).output.sent →
      some row ∈ v.output.sent ∨ row = InferenceRun.processImage image predicted := by
    intro v image predicted hmem
    rw [InferenceRun.Worker.put, Channel.sent_send, List.mem_append, List.mem_singleton] at hmem
    exact hmem.imp_right Option.some.inj
  obtain ⟨phase, imageTasks, output⟩ := w
  cases e with
  | load | list =>
    cases phase with
    | listing todo => cases todo <;> exact .inl h
    | loading | pool _ _ | exited _ => exact .inl h
  | raise submitted => cases phase <;> exact .inl h
  | process i predicted =>
    cases phase with
    | pool pending raised =>
      cases hi : pending[i]? with
      | some image =>
        simp only [InferenceRun.Worker.step, hi] at h
        exact (hput _ image predicted h).imp id fun hrow =>
          ⟨i, predicted, pending, raised, image, .inl rfl, rfl, hi, hrow⟩
      | none =>
        simp only [InferenceRun.Worker.step, hi] at h
        exact .inl h
    | loading | listing _ | exited _ => exact .inl h
  | escape i put =>
    cases phase with
    | pool pending raised =>
      cases hi : pending[i]? with
      | some image =>
        cases put with
        | some predicted =>
          simp only [InferenceRun.Worker.step, hi] at h
          exact (hput _ image predicted h).imp id fun hrow =>
            ⟨i, predicted, pending, raised, image, .inr rfl, rfl, hi, hrow⟩
        | none =>
          simp only [InferenceRun.Worker.step, hi] at h
          exact .inl h
      | none =>
        simp only [InferenceRun.Worker.step, hi] at h
        exact .inl h
    | loading | listing _ | exited _ => exact .inl h
  | leave =>
    cases phase with
    | pool pending raised =>
      cases pending with
      | cons image pending => exact .inl h
      | nil =>
        cases raised with
        | true => exact .inl h
        | false =>
          refine .inl ?_
          simpa [InferenceRun.Worker.step, InferenceRun.Worker.put] using h
    | loading | listing _ | exited _ => exact .inl h

/-- Everything the workers put was computed. -/
def AllComputed (s : Inspection) : Prop :=
  ∀ w, ∀ row, some row ∈ (s.workers w).output.sent → row = (processImage l row.image).row

theorem allComputed_step (folders : Folders) (s : Inspection) (e : InspectionEvent) (h : AllComputed l s)
    (hcomputes : Computes l s e) : AllComputed l (s.step folders e) := by
  cases e with
  | worker w e =>
    by_cases hw : w < cameraGroups.length
    · rw [Inspection.step, if_pos hw]
      refine (Function.forall_update_iff s.workers
        fun v x => ∀ row, some row ∈ x.output.sent → row = (processImage l row.image).row).2 ⟨?_, fun v _ => h v⟩
      intro row hrow
      rcases mem_sent_step hrow with hold | ⟨i, predicted, pending, raised, image, he, hphase, hi, rfl⟩
      · exact h w row hold
      · have hput : InferenceRun.processImage image predicted = (processImage l image).row := by
          rcases he with rfl | rfl <;> exact hcomputes pending raised image hphase hi
        exact hput
    · rw [Inspection.step, if_neg hw]
      exact h
  | flush w =>
    by_cases hw : w < cameraGroups.length
    · cases hnext : (s.workers w).output.next with
      | none => simpa only [Inspection.step, if_pos hw, hnext] using h
      | some item =>
        simp only [Inspection.step, if_pos hw, hnext]
        refine (Function.forall_update_iff s.workers
          fun v x => ∀ row, some row ∈ x.output.sent → row = (processImage l row.image).row).2 ⟨?_, fun v _ => h v⟩
        rw [Channel.sent_deliver]
        exact h w
    · rw [Inspection.step, if_neg hw]
      exact h
  | collect =>
    rw [Inspection.step]
    repeat' split
    all_goals exact h

/-- Every row that was collected is the one that was computed for its image. -/
theorem results_computed (folders : Folders) (evs : List InspectionEvent)
    (hcomputes : StepsMeet (Inspection.step folders) (Computes l) Inspection.init evs) :
    ∀ row ∈ (runs (Inspection.step folders) Inspection.init evs).results, row = (processImage l row.image).row := by
  have hflow := Inspection.flow_runs folders evs
  have hall : AllComputed l (runs (Inspection.step folders) Inspection.init evs) :=
    runs_inv (AllComputed l) (allComputed_step l folders) (fun w row hrow => absurd hrow List.not_mem_nil) hcomputes
  intro row hrow
  rw [hflow.results, List.reduceOption_mem_iff] at hrow
  obtain ⟨⟨w, item⟩, htaken, rfl⟩ := List.mem_map.1 hrow
  refine hall w row ((hflow.taken_part w).subset ?_)
  exact List.mem_map.2 ⟨(w, some row), List.mem_filter.2 ⟨htaken, decide_eq_true rfl⟩, rfl⟩

/-! ## The file -/

/-- The dialect that reader and writer take by default. -/
def excel : Csv.Dialect UInt8 := ⟨0x2c, 0x22, 0x0d, 0x0a, by decide⟩

/-- The text of `result.csv`. -/
def csvText (results : List DefectPlot.Result) : Bytes := Csv.write excel (DefectPlot.resultCsv results)

/-- The rows that are read for the renaming, behind the header; `none` where the
reading raises. -/
def readRows (text : Bytes) : Option (List DefectRenaming.Row) :=
  match Csv.read excel text with
  | some (_ :: rows) => rows.mapM fun columns => if h : columns ≠ [] then some ⟨columns, h⟩ else none
  | _ => none

def resultRow (r : DefectPlot.Result) : DefectRenaming.Row := ⟨r.columns, List.cons_ne_nil _ _⟩

/-- The renaming meets the rows of the collector. -/
theorem readRows_csvText (results : List DefectPlot.Result) :
    readRows (csvText results) = some (results.map resultRow) := by
  rw [readRows, csvText, Csv.read_write]
  show (results.map DefectPlot.Result.columns).mapM _ = _
  induction results with
  | nil => rfl
  | cons r results ih =>
    have hne : r.columns ≠ [] := (resultRow r).nonempty
    rw [List.map_cons, List.mapM_cons, ih, dif_pos hne]
    rfl

/-! ## The files -/

/-- The images of the cameras are named `cam_idx.ext`. -/
def Named (folders : Folders) : Prop :=
  ∀ cam, ∀ name ∈ (folders cam).names, ∃ i : DefectRenaming.ImageName, i.camera = decimal cam ∧ name = i.name

theorem solid_extension {name : Bytes} (h : accepted name = true) : ∀ b ∈ name.getLast?, Utf8.solid b = true := by
  obtain ⟨ext, hext, hglobs⟩ := List.any_eq_true.1 h
  rw [globs, Bool.and_eq_true, List.isSuffixOf_iff_suffix] at hglobs
  obtain ⟨stem, rfl⟩ := hglobs.2
  have hall : ∀ ext ∈ extensions, ext ≠ [] ∧ ∀ b ∈ ext.getLast?, Utf8.solid b = true := by decide +kernel
  obtain ⟨hne, hsolid⟩ := hall ext hext
  rwa [List.getLast?_append_of_ne_nil _ hne]

/-- The first column of the row of an image is its name. -/
theorem filename_resultRow {folders : Folders} (hnames : Named folders) {r : DefectPlot.Result}
    (h : IsImageFile folders r.row.image) : (resultRow r).filename = r.row.image.2 := by
  obtain ⟨i, -, hname⟩ := hnames _ _ h.2.1
  refine Utf8.strip_of_solid ?_ (solid_extension h.2.2)
  show ∀ b ∈ r.row.image.2.head?, Utf8.solid b = true
  rw [hname]
  obtain ⟨hne, hdigits⟩ := i.camera_digits
  obtain ⟨c, rest, hcamera⟩ := List.exists_cons_of_ne_nil hne
  intro b hb
  obtain rfl : c = b := by simpa [DefectRenaming.ImageName.name, hcamera] using hb
  exact Utf8.solid_digit (hdigits c (by simp [hcamera]))

theorem isDefect_resultRow (r : DefectPlot.Result) : (resultRow r).isDefect = true ↔ r.row.result = 1 := by
  have hstrip : (resultRow r).defect = decimalInt r.row.result := by
    have hsolid : ∀ c ∈ decimalInt r.row.result, Utf8.solid c = true := by
      intro c hc
      rcases decimalInt_mem hc with rfl | hdigit
      · decide
      · exact Utf8.solid_digit hdigit
    exact Utf8.strip_of_solid (fun b hb => hsolid b (List.mem_of_head? hb)) fun b hb => hsolid b (List.mem_of_getLast? hb)
  have hone : ascii "1" = decimalInt 1 := by decide
  rw [DefectRenaming.Row.isDefect, hstrip, beq_iff_eq, hone]
  constructor
  · intro heq
    have hint := Unicode.toInt_decimalInt r.row.result
    rw [heq, Unicode.toInt_decimalInt] at hint
    exact (Option.some.inj hint).symm
  · intro heq
    rw [heq]

/-! ## The job -/

def imagePath (baseDir : Path) (image : Image) : Path := image.2 :: (ascii "camera_" ++ decimal image.1) :: baseDir

/-- The files of the images that are found to be defective. -/
def foundFiles (baseDir : Path) (folders : Folders) (fs : FileSystem) : Set Path :=
  {p | fs.isFile p = true ∧ ∃ image, IsImageFile folders image ∧ Finds l image ∧ p = imagePath baseDir image}

/-- The results at the end of a run, with the metrics of their images. -/
def collected (s : Inspection) : List DefectPlot.Result :=
  s.results.map fun row => ⟨row, (processImage l row.image).metrics⟩

theorem srcPath_resultRow {folders : Folders} (hnames : Named folders) {r : DefectPlot.Result} (baseDir : Path)
    (h : IsImageFile folders r.row.image) :
    DefectRenaming.srcPath baseDir (resultRow r).filename = imagePath baseDir r.row.image := by
  obtain ⟨i, hcamera, hname⟩ := hnames _ _ h.2.1
  rw [filename_resultRow hnames h, hname, DefectRenaming.ImageName.srcPath_name, imagePath, ← hcamera, hname]
  rfl

theorem srcFiles_collected {folders : Folders} {s : Inspection} (hnames : Named folders)
    (himages : ∀ image, image ∈ s.results.map Row.image ↔ IsImageFile folders image)
    (hcomputed : ∀ row ∈ s.results, row = (processImage l row.image).row) (baseDir : Path) (fs : FileSystem) :
    DefectRenaming.srcFiles baseDir ((collected l s).map resultRow) fs = foundFiles l baseDir folders fs := by
  ext p
  refine and_congr_right fun _ => ?_
  constructor
  · rintro ⟨_, hmem, hdefect, rfl⟩
    obtain ⟨r, hr, rfl⟩ := List.mem_map.1 hmem
    obtain ⟨row, hrow, rfl⟩ := List.mem_map.1 hr
    have himage := (himages row.image).1 (List.mem_map_of_mem hrow)
    refine ⟨row.image, himage, ?_, srcPath_resultRow hnames baseDir himage⟩
    rw [isDefect_resultRow] at hdefect
    rw [← result_processImage_iff, ← hcomputed row hrow]
    exact hdefect
  · rintro ⟨image, himage, hfinds, rfl⟩
    obtain ⟨row, hrow, rfl⟩ := List.mem_map.1 ((himages image).2 himage)
    refine ⟨_, List.mem_map_of_mem (List.mem_map_of_mem hrow), ?_, srcPath_resultRow hnames baseDir himage⟩
    rw [isDefect_resultRow]
    show row.result = 1
    rw [hcomputed row hrow, result_processImage_iff]
    exact hfinds

open scoped Classical in
/-- Rows that were computed, one for each image: after the renaming, exactly the
files of the images that are found to be defective have their mark. -/
theorem renameFiles_marks {folders : Folders} {s : Inspection} (hnames : Named folders)
    (himages : ∀ image, image ∈ s.results.map Row.image ↔ IsImageFile folders image)
    (hcomputed : ∀ row ∈ s.results, row = (processImage l row.image).row) {baseDir : Path} {fs : FileSystem}
    (hunmarked : DefectRenaming.Unmarked baseDir fs) {order : List DefectRenaming.Row}
    (hperm : order.Perm ((collected l s).map resultRow)) :
    FileSystem.Moves (fun p => if p ∈ foundFiles l baseDir folders fs then DefectRenaming.markPath p else p) fs
        (DefectRenaming.renameFiles baseDir order fs).1 ∧
      (DefectRenaming.renameFiles baseDir order fs).2.count true = (foundFiles l baseDir folders fs).ncard := by
  have hfiles := srcFiles_collected l hnames himages hcomputed baseDir fs
  have hover : DefectRenaming.OverImages order := by
    intro row hmem _
    obtain ⟨r, hr, rfl⟩ := List.mem_map.1 (hperm.subset hmem)
    obtain ⟨row, hrow, rfl⟩ := List.mem_map.1 hr
    have himage := (himages row.image).1 (List.mem_map_of_mem hrow)
    obtain ⟨i, -, hname⟩ := hnames _ _ himage.2.1
    exact ⟨i, (filename_resultRow hnames himage).trans hname⟩
  obtain ⟨hmarked, hcount⟩ := (DefectRenaming.Marked.init hunmarked).renameFiles hover
  rw [List.nil_append] at hmarked hcount
  rw [DefectRenaming.srcFiles_perm hperm, hfiles] at hcount
  constructor
  · refine hmarked.moves.congr fun p _ => ?_
    rw [DefectRenaming.newPath_congr (DefectRenaming.srcFiles_perm hperm fs)]
    unfold DefectRenaming.newPath
    simp only [hfiles]
  · rw [hcount]
    simp [DefectRenaming.srcFiles]

/-- The collector stops with a row for each image. -/
theorem images_collected {folders : Folders} {evs : List InspectionEvent}
    (hend : (runs (Inspection.step folders) Inspection.init evs).endSignals = cameraGroups.length) (image : Image) :
    image ∈ (runs (Inspection.step folders) Inspection.init evs).results.map Row.image ↔ IsImageFile folders image :=
  ((Inspection.flow_runs folders evs).perm_imageFiles (listed_runs folders evs) hend).mem_iff.trans mem_imageFiles

/-- The rows are those of all image files, as they were computed. -/
theorem collected_perm {folders : Folders} {evs : List InspectionEvent}
    (hcomputes : StepsMeet (Inspection.step folders) (Computes l) Inspection.init evs)
    (hend : (runs (Inspection.step folders) Inspection.init evs).endSignals = cameraGroups.length) :
    (collected l (runs (Inspection.step folders) Inspection.init evs)).Perm
      ((imageFiles folders).map (processImage l)) := by
  have hperm := (Inspection.flow_runs folders evs).perm_imageFiles (listed_runs folders evs) hend
  have hcomputed := results_computed l folders evs hcomputes
  have heq : collected l (runs (Inspection.step folders) Inspection.init evs) =
      ((runs (Inspection.step folders) Inspection.init evs).results.map Row.image).map (processImage l) := by
    rw [collected, List.map_map]
    refine List.map_congr_left fun row hrow => ?_
    rw [Function.comp_apply]
    conv_lhs => rw [hcomputed row hrow]
    rw [image_processImage]
  rw [heq]
  exact hperm.map _

/-- The images of camera 3 show a block, and the classifier takes every image for a
defect. -/
noncomputable def scarred : Libraries Unit where
  cv := threeRows
  compute image := some ((), patch (if image.1 = 3 then block 0 10 else ∅), patch ∅)
  predict _ _ := some 1
  mae _ := ascii "0.1"
  ssim _ := ascii "0.9"
  gradMae _ := ascii "0.1"
  lapDiff _ := ascii "0.2"

theorem block_subset_positions : block 0 10 ⊆ positions shape := by
  intro p hp
  rw [mem_block] at hp
  rw [mem_positions, shape]
  omega

theorem finds_scarred_iff {image : Image} : Finds scarred image ↔ image.1 = 3 := by
  constructor
  · rintro ⟨metrics, orig, recon, hcompute, -, S, hsub, -, hcard⟩
    by_contra hne
    simp only [scarred, if_neg hne, Option.some.injEq, Prod.mk.injEq] at hcompute
    obtain ⟨-, rfl, rfl⟩ := hcompute
    have hempty := Finset.subset_empty.1 (hsub.trans (opened_patch_subset shape ∅))
    rw [hempty] at hcard
    exact absurd hcard (by decide)
  · intro hcam
    have hcompute : scarred.compute image = some ((), patch (block 0 10), patch ∅) := by simp [scarred, hcam]
    exact ⟨(), _, _, hcompute, rfl, _,
      largeRegion_block shape (Finset.Subset.refl _) block_subset_positions (by decide)⟩

/-- A jpg image of a camera. -/
def namedImage (cam k : Nat) : DefectRenaming.ImageName :=
  ⟨decimal cam, decimal k, ascii "jpg", ⟨decimal_ne_nil cam, decimal_isdigit cam⟩, ⟨decimal_ne_nil k, decimal_isdigit k⟩,
    DefectRenaming.jpg_plain⟩

theorem mem_twoCameras {cam : Nat} {name : Bytes} : name ∈ (twoCameras cam).names ↔
    (cam, name) ∈ [(3, (namedImage 3 1).name), (3, (namedImage 3 2).name), (7, (namedImage 7 1).name)] := by
  have h31 : (namedImage 3 1).name = ascii "3_1.jpg" := by decide
  have h32 : (namedImage 3 2).name = ascii "3_2.jpg" := by decide
  have h71 : (namedImage 7 1).name = ascii "7_1.jpg" := by decide
  rw [h31, h32, h71, twoCameras]
  split
  · simp [*]
  · split <;> simp [*]

theorem twoCameras_named : Named twoCameras := by
  intro cam name hname
  rw [mem_twoCameras] at hname
  simp only [List.mem_cons, Prod.mk.injEq, List.not_mem_nil, or_false] at hname
  rcases hname with ⟨rfl, rfl⟩ | ⟨rfl, rfl⟩ | ⟨rfl, rfl⟩
  · exact ⟨namedImage 3 1, rfl, rfl⟩
  · exact ⟨namedImage 3 2, rfl, rfl⟩
  · exact ⟨namedImage 7 1, rfl, rfl⟩

theorem row_scarred (image : Image) : (processImage scarred image).row =
    InferenceRun.processImage image (some (if image.1 = 3 then 1 else 0)) := by
  have hfinds := result_processImage_iff scarred image
  rw [finds_scarred_iff] at hfinds
  obtain ⟨pixSum, hrow⟩ : ∃ pixSum : Nat, (processImage scarred image).row =
      InferenceRun.processImage image (some (if pixSum = 0 then 0 else 1)) := ⟨_, rfl⟩
  rw [hrow] at hfinds ⊢
  by_cases hzero : pixSum = 0
  · have hcam : image.1 ≠ 3 := fun hcam => by simpa [hzero, InferenceRun.processImage] using hfinds.2 hcam
    rw [if_pos hzero, if_neg hcam]
  · have hcam : image.1 = 3 := hfinds.1 (by simp [hzero, InferenceRun.processImage])
    rw [if_neg hzero, if_pos hcam]

/-- An event predicts what the libraries do. -/
def foreseen (s : Inspection) : InspectionEvent → Bool
  | .worker w (.process i predicted) =>
    match (s.workers w).phase with
    | .pool pending _ => pending[i]?.all fun image => predicted == some (if image.1 = 3 then 1 else 0)
    | _ => true
  | .worker _ (.escape _ put) => put.isNone
  | _ => true

theorem twoCamerasRun_computes :
    StepsMeet (Inspection.step twoCameras) (Computes scarred) Inspection.init twoCamerasRun := by
  have hforeseen : StepsMeet (Inspection.step twoCameras) (fun s e => foreseen s e = true) Inspection.init
      twoCamerasRun := by decide +kernel
  refine hforeseen.imp fun s e he => ?_
  unfold Computes
  split
  · intro pending raised image hphase hi
    simp only [foreseen, hphase, hi, Option.all_some, beq_iff_eq] at he
    rw [he, row_scarred]
  · cases he
  · trivial

theorem twoCamerasRun_ends : (runs (Inspection.step twoCameras) Inspection.init twoCamerasRun).endSignals =
    cameraGroups.length := by decide +kernel

/-- The images on a disk. -/
def twoCamerasFiles : FileSystem :=
  .ofFiles [(imagePath [] (3, ascii "3_1.jpg"), ascii "first"), (imagePath [] (3, ascii "3_2.jpg"), ascii "third"),
    (imagePath [] (7, ascii "7_1.jpg"), ascii "second")] (by decide +kernel)

theorem twoCamerasFiles_unmarked : DefectRenaming.Unmarked [] twoCamerasFiles := by
  refine DefectRenaming.unmarked_of_names fun name camera hpresent => ?_
  rw [FileSystem.present, twoCamerasFiles, FileSystem.node_ofFiles _ (List.cons_ne_nil _ _)] at hpresent
  · rw [Option.isSome_map, Option.isSome_iff_exists] at hpresent
    obtain ⟨content, hfile⟩ := hpresent
    have hmem := FileSystem.mem_of_lookup hfile
    simp only [List.mem_cons, Prod.mk.injEq, List.not_mem_nil, or_false] at hmem
    rcases hmem with ⟨heq, -⟩ | ⟨heq, -⟩ | ⟨heq, -⟩
    · exact ⟨namedImage 3 1, (List.cons.inj heq).1⟩
    · exact ⟨namedImage 3 2, (List.cons.inj heq).1⟩
    · exact ⟨namedImage 7 1, (List.cons.inj heq).1⟩
  · intro e he hsuf
    simp only [List.mem_cons, List.not_mem_nil, or_false] at he
    rcases he with rfl | rfl | rfl <;> exact hsuf.eq_of_length rfl

theorem foundFiles_twoCameras : foundFiles scarred [] twoCameras twoCamerasFiles =
    {imagePath [] (3, ascii "3_1.jpg"), imagePath [] (3, ascii "3_2.jpg")} := by
  have himage : ∀ name ∈ (twoCameras 3).names, IsImageFile twoCameras (3, name) ∧
      twoCamerasFiles.isFile (imagePath [] (3, name)) = true := by
    unfold IsImageFile
    decide +kernel
  have hmem : ∀ name ∈ (twoCameras 3).names, imagePath [] (3, name) ∈ foundFiles scarred [] twoCameras twoCamerasFiles :=
    fun name hname => ⟨(himage name hname).2, (3, name), (himage name hname).1, finds_scarred_iff.2 rfl, rfl⟩
  ext p
  rw [Set.mem_insert_iff, Set.mem_singleton_iff]
  constructor
  · rintro ⟨-, ⟨cam, name⟩, ⟨-, hname, -⟩, hfinds, rfl⟩
    obtain rfl : cam = 3 := finds_scarred_iff.1 hfinds
    rcases List.mem_cons.1 hname with rfl | hname
    · exact .inl rfl
    · exact .inr (congrArg (fun name => imagePath [] (3, name)) (List.mem_singleton.1 hname))
  · rintro (rfl | rfl)
    · exact hmem _ List.mem_cons_self
    · exact hmem _ (List.mem_cons_of_mem _ List.mem_cons_self)

end FlameSdd.Verdict
