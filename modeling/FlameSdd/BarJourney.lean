import FlameSdd.BarSite
import FlameSdd.Verdict
/-!
# A bar from its instruction to its results

Level2 announces a bar, the stacker makes its directories and files the images of
the cameras there, and when the bar has left, the monitor goes through one of them
and marks files in the other. So the results have one row for every image that was
sent, `bar_inspected`, and every image that shows a defect gets its mark,
`bar_marked`.
-/
open SysLib FlameSdd.ModelInference FlameSdd.InferenceRun FlameSdd.BarImages FlameSdd.BarSite

namespace FlameSdd.BarJourney

/-! ## The images of a run -/

/-- What the cameras sent, by camera and name. -/
def sentImages (sent : Nat → List Bytes) : List Image :=
  cameras.flatMap fun cam => (List.range (sent cam).length).map fun k => (cam, imageName cam (k + 1))

/-- The folders are those of a directory on the disk. -/
def Shows (fs : FileSystem) (dir : Path) (folders : Folders) : Prop :=
  ∀ cam name, name ∈ (folders cam).names ↔ fs.present (name :: cameraDir cam :: dir) = true

theorem mem_sentImages {sent : Nat → List Bytes} {image : Image} :
    image ∈ sentImages sent ↔
      image.1 ∈ cameras ∧ ∃ k < (sent image.1).length, image.2 = imageName image.1 (k + 1) := by
  obtain ⟨cam, name⟩ := image
  simp only [sentImages, List.mem_flatMap, List.mem_map, List.mem_range, Prod.mk.injEq]
  constructor
  · rintro ⟨c, hc, k, hk, rfl, rfl⟩
    exact ⟨hc, k, hk, rfl⟩
  · rintro ⟨hc, k, hk, rfl⟩
    exact ⟨cam, hc, k, hk, rfl, rfl⟩

theorem nodup_sentImages (sent : Nat → List Bytes) : (sentImages sent).Nodup := by
  refine List.nodup_flatMap.2 ⟨fun cam _ => ?_, ?_⟩
  · refine List.nodup_range.map fun k l h => ?_
    exact Nat.succ.inj (imageName_injective cam (congrArg Prod.snd h))
  · have hcams : cameras.Pairwise (· ≠ ·) := List.nodup_range'
    apply hcams.imp
    intro c c' hne image hleft hright
    obtain ⟨_, -, rfl⟩ := List.mem_map.1 hleft
    obtain ⟨_, -, heq⟩ := List.mem_map.1 hright
    exact hne (congrArg Prod.fst heq).symm

theorem accepted_imageName (cam k : Nat) : accepted (imageName cam k) = true := by
  refine List.any_eq_true.2 ⟨ascii ".jpg", List.mem_cons_self, ?_⟩
  rw [globs, Bool.and_eq_true, List.isSuffixOf_iff_suffix]
  refine ⟨?_, List.suffix_append _ _⟩
  obtain ⟨c, rest, hdecimal⟩ := List.exists_cons_of_ne_nil (decimal_ne_nil cam)
  have hc : isdigit c = true := decimal_isdigit cam c (by rw [hdecimal]; exact List.mem_cons_self)
  have hne : c ≠ 0x2e := by
    rintro rfl
    exact absurd hc (by decide)
  simpa [imageName, StorageTargets.imageFilename, hdecimal] using hne

theorem name_namedImage (cam k : Nat) : (Verdict.namedImage cam k).name = imageName cam k := by
  have hsep : ascii "_" = [0x5f] := by decide
  have hext : ascii ".jpg" = 0x2e :: ascii "jpg" := by decide
  simp [Verdict.namedImage, DefectRenaming.ImageName.name, imageName, StorageTargets.imageFilename, hsep, hext]

section
variable {dir : Path} {s : BarImages.State} (h : Stored dir s)
include h

theorem present_iff {folder name : Bytes} :
    s.stacker.fs.present (name :: folder :: dir) = true ↔
      ∃ cam ∈ cameras, folder = cameraDir cam ∧ ∃ k < (s.sent cam).length, name = imageName cam (k + 1) := by
  rw [FileSystem.present, Option.isSome_iff_exists]
  constructor
  · rintro ⟨node, hnode⟩
    obtain ⟨cam, hcam, hfolder, k, image, hk, hname, -⟩ := (h.images folder name node).1 hnode
    exact ⟨cam, hcam, hfolder, k, (List.getElem?_eq_some_iff.1 hk).1, hname⟩
  · rintro ⟨cam, hcam, hfolder, k, hk, hname⟩
    exact ⟨_, (h.images folder name _).2 ⟨cam, hcam, hfolder, k, _, List.getElem?_eq_getElem hk, hname, rfl⟩⟩

/-- What is in the folder of a camera was sent by it. -/
theorem present_camera_iff {cam : Nat} {name : Bytes} :
    s.stacker.fs.present (name :: cameraDir cam :: dir) = true ↔ (cam, name) ∈ sentImages s.sent := by
  rw [present_iff h, mem_sentImages]
  constructor
  · rintro ⟨c, hc, hfolder, hname⟩
    obtain rfl := cameraDir_injective hfolder
    exact ⟨hc, hname⟩
  · rintro ⟨hcam, hname⟩
    exact ⟨cam, hcam, rfl, hname⟩

variable {folders : Folders} (hshows : Shows s.stacker.fs dir folders)
include hshows

/-- The images that the monitor finds are those that were sent. -/
theorem isImageFile_iff {image : Image} : IsImageFile folders image ↔ image ∈ sentImages s.sent := by
  rw [IsImageFile, hshows, present_camera_iff h, mem_sentImages]
  constructor
  · rintro ⟨-, hsent, -⟩
    exact hsent
  · rintro ⟨hcam, k, hk, hname⟩
    exact ⟨hcam, ⟨hcam, k, hk, hname⟩, by rw [hname]; exact accepted_imageName _ _⟩

/-- The collector stops with one row for each image that was sent. -/
theorem perm_sentImages {ievs : List InspectionEvent}
    (hend : (runs (Inspection.step folders) Inspection.init ievs).endSignals = cameraGroups.length) :
    ((runs (Inspection.step folders) Inspection.init ievs).results.map Row.image).Perm (sentImages s.sent) := by
  have hperm := (Inspection.flow_runs folders ievs).perm_imageFiles (listed_runs folders ievs) hend
  refine hperm.trans ((List.perm_ext_iff_of_nodup (nodup_imageFiles folders) (nodup_sentImages s.sent)).2 fun image => ?_)
  rw [mem_imageFiles]
  exact isImageFile_iff h hshows

theorem named_of_stored : Verdict.Named folders := by
  intro cam name hname
  rw [hshows, present_camera_iff h, mem_sentImages] at hname
  obtain ⟨-, k, -, hname⟩ := hname
  exact ⟨Verdict.namedImage cam (k + 1), rfl, hname.trans (name_namedImage cam (k + 1)).symm⟩

end

/-! ## The results -/

/-- The files of the images sent that are found to be defective. -/
def defectPlaces {M : Type} (l : Verdict.Libraries M) (sent : Nat → List Bytes) (dir : Path) : Set Path :=
  {p | ∃ image ∈ sentImages sent, Verdict.Finds l image ∧ p = Verdict.imagePath dir image}

theorem mem_defectPlaces_iff {M : Type} (l : Verdict.Libraries M) (dir : Path) {sent : Nat → List Bytes} {cam k : Nat}
    (hcam : cam ∈ cameras) (hk : k < (sent cam).length) :
    Verdict.imagePath dir (cam, imageName cam (k + 1)) ∈ defectPlaces l sent dir ↔
      Verdict.Finds l (cam, imageName cam (k + 1)) := by
  constructor
  · rintro ⟨⟨cam', name⟩, -, hfinds, heq⟩
    obtain ⟨rfl, hrest⟩ := List.cons.inj heq
    obtain rfl := cameraDir_injective (List.cons.inj hrest).1
    exact hfinds
  · exact fun hfinds => ⟨_, mem_sentImages.2 ⟨hcam, k, hk, rfl⟩, hfinds, rfl⟩

section
variable {dir : Path} {t : BarImages.State} (h : Stored dir t) {fs : FileSystem}
  (hfs : ∀ folder name, fs.node (name :: folder :: dir) = t.stacker.fs.node (name :: folder :: dir))
include h hfs

theorem unmarked_of_stored : DefectRenaming.Unmarked dir fs := by
  refine DefectRenaming.unmarked_of_names fun name camera hpresent => ?_
  rw [FileSystem.present, hfs, ← FileSystem.present, present_iff h] at hpresent
  obtain ⟨cam, -, -, k, -, rfl⟩ := hpresent
  exact ⟨Verdict.namedImage cam (k + 1), (name_namedImage cam (k + 1)).symm⟩

theorem foundFiles_eq {M : Type} (l : Verdict.Libraries M) {folders : Folders}
    (himages : ∀ image, IsImageFile folders image ↔ image ∈ sentImages t.sent) :
    Verdict.foundFiles l dir folders fs = defectPlaces l t.sent dir := by
  ext p
  constructor
  · rintro ⟨-, image, himage, hfinds, rfl⟩
    exact ⟨image, (himages image).1 himage, hfinds, rfl⟩
  · rintro ⟨image, himage, hfinds, rfl⟩
    refine ⟨?_, image, (himages image).2 himage, hfinds, rfl⟩
    obtain ⟨hcam, k, hk, hname⟩ := mem_sentImages.1 himage
    have hnode := (h.images _ _ _).2 ⟨image.1, hcam, rfl, k, _, List.getElem?_eq_getElem hk, hname, rfl⟩
    have hfile : fs.node (Verdict.imagePath dir image) = some (.file (t.sent image.1)[k]) := (hfs _ _).trans hnode
    rw [FileSystem.isFile, hfile]

end

open scoped Classical in
/-- After the marks, an image that is found to be defective has its bytes under its
marked name, and another one where it was. -/
theorem node_marked {M : Type} (l : Verdict.Libraries M) {dir : Path} {t : BarImages.State} (h : Stored dir t)
    {fs' : FileSystem} (hmoves : FileSystem.Moves
      (fun p => if p ∈ defectPlaces l t.sent dir then DefectRenaming.markPath p else p) t.stacker.fs fs')
    {cam k : Nat} {image : Bytes} (hcam : cam ∈ cameras) (hk : (t.sent cam)[k]? = some image) :
    fs'.node (if Verdict.Finds l (cam, imageName cam (k + 1)) then
        DefectRenaming.markPath (Verdict.imagePath dir (cam, imageName cam (k + 1)))
      else Verdict.imagePath dir (cam, imageName cam (k + 1))) = some (.file image) := by
  have hfile : t.stacker.fs.node (Verdict.imagePath dir (cam, imageName cam (k + 1))) = some (.file image) :=
    (h.images _ _ _).2 ⟨cam, hcam, rfl, k, image, hk, rfl, rfl⟩
  have hnode := hmoves.node _ (by rw [FileSystem.present, hfile]; rfl)
  simp only [mem_defectPlaces_iff l dir hcam (List.getElem?_eq_some_iff.1 hk).1] at hnode
  exact hnode.trans hfile

/-- The directory of a target is made for the bar and holds what was sent. -/
theorem stored_target {site : Site} (b : Bar) {s : FileStacker.State} (hrunning : s.level2 = .running)
    {faults : FileStacker.Faults}
    (hops : .filesystemError ∉ (FileStacker.level2DispatchTask site.stacker faults (some b.pack) s).2) {path : Bytes}
    (hpath : Targets site.stacker path) (habsent : s.fs.present (b.dir (site.stacker.cwd.join path)) = false)
    {evs : List BarImages.Event}
    (hevs : StepsMeet (BarImages.step site.stacker) (Regular site.stacker (b.dir (site.stacker.cwd.join path)))
      (start site.stacker faults b.pack s) evs) :
    b.dir (site.stacker.cwd.join path) ∈ (start site.stacker faults b.pack s).stacker.backupDirPath ∧
      Stored (b.dir (site.stacker.cwd.join path))
        (runs (BarImages.step site.stacker) (start site.stacker faults b.pack s) evs) := by
  obtain ⟨hactive, hstored⟩ :=
    (b.announced site hpath hrunning habsent).start b.hasRequired_pack b.targetDirname_pack hops
  exact ⟨hactive, stored_runs site.folders hstored hevs⟩

/-! ## Images of two cameras -/

/-- Cameras 3 and 7 send images after the instruction. -/
def barSent : List BarImages.Event :=
  [.image FileStacker.noFaults 3 (ascii "first"), .image FileStacker.noFaults 7 (ascii "second"),
    .image FileStacker.noFaults 3 (ascii "third")]

def barStart : BarImages.State := start home.stacker FileStacker.noFaults h200.pack (FileStacker.init .empty)

theorem barSent_ops : .filesystemError ∉ (FileStacker.level2DispatchTask home.stacker FileStacker.noFaults
    (some h200.pack) (FileStacker.init .empty)).2 := by decide

theorem barSent_in : StepsMeet (BarImages.step home.stacker)
    (Regular home.stacker (h200.dir (home.stacker.cwd.join home.inPath))) barStart barSent :=
  ⟨⟨by decide, by decide +kernel⟩, ⟨by decide, by decide +kernel⟩, ⟨by decide, by decide +kernel⟩, trivial⟩

theorem barSent_out : StepsMeet (BarImages.step home.stacker)
    (Regular home.stacker (h200.dir (home.stacker.cwd.join home.outPath))) barStart barSent :=
  ⟨⟨by decide, by decide +kernel⟩, ⟨by decide, by decide +kernel⟩, ⟨by decide, by decide +kernel⟩, trivial⟩

theorem sentImages_barSent : sentImages (runs (BarImages.step home.stacker) barStart barSent).sent =
    [(3, imageName 3 1), (3, imageName 3 2), (7, imageName 7 1)] := by decide +kernel

theorem barSent_shows : Shows (runs (BarImages.step home.stacker) barStart barSent).stacker.fs
    (h200.dir (home.stacker.cwd.join home.inPath)) twoCameras := by
  have hstored : Stored (h200.dir (home.stacker.cwd.join home.inPath))
      (runs (BarImages.step home.stacker) barStart barSent) :=
    (stored_target h200 rfl barSent_ops home.inTarget rfl barSent_in).2
  intro cam name
  rw [present_camera_iff hstored, sentImages_barSent, Verdict.mem_twoCameras]
  simp only [name_namedImage]

/-! ## The job -/

section
variable {M : Type} (l : Verdict.Libraries M) {dirIn dirOut : Path} {t : BarImages.State} (hin : Stored dirIn t)
  {folders : Folders} (hshows : Shows t.stacker.fs dirIn folders) {ievs : List InspectionEvent}
  (hcomputes : StepsMeet (Inspection.step folders) (Verdict.Computes l) Inspection.init ievs)
  (hend : (runs (Inspection.step folders) Inspection.init ievs).endSignals = cameraGroups.length)
include hin hshows hcomputes hend

/-- The rows are those of the images that were sent, as they were computed. -/
theorem collected_sentImages : (Verdict.collected l (runs (Inspection.step folders) Inspection.init ievs)).Perm
    ((sentImages t.sent).map (Verdict.processImage l)) := by
  refine (Verdict.collected_perm l hcomputes hend).trans (List.Perm.map _ ?_)
  refine (List.perm_ext_iff_of_nodup (nodup_imageFiles folders) (nodup_sentImages t.sent)).2 fun image => ?_
  rw [mem_imageFiles]
  exact isImageFile_iff hin hshows

open scoped Classical in
/-- What the renaming of a job marks in a directory that holds what was sent. -/
theorem renameFiles_stored (hout : Stored dirOut t) {fs : FileSystem}
    (hfs : ∀ folder name, fs.node (name :: folder :: dirOut) = t.stacker.fs.node (name :: folder :: dirOut))
    {order : List DefectRenaming.Row} (horder : order.Perm
      ((Verdict.collected l (runs (Inspection.step folders) Inspection.init ievs)).map Verdict.resultRow)) :
    FileSystem.Moves (fun p => if p ∈ defectPlaces l t.sent dirOut then DefectRenaming.markPath p else p) fs
        (DefectRenaming.renameFiles dirOut order fs).1 ∧
      (DefectRenaming.renameFiles dirOut order fs).2.count true = (defectPlaces l t.sent dirOut).ncard := by
  rw [← foundFiles_eq hout hfs l fun _ => isImageFile_iff hin hshows]
  exact Verdict.renameFiles_marks l (named_of_stored hin hshows) (Verdict.images_collected hend)
    (Verdict.results_computed l folders ievs hcomputes) (unmarked_of_stored hout hfs) horder

end

/-- The places of the images of camera 3. -/
theorem defectPlaces_barSent (dir : Path) :
    defectPlaces Verdict.scarred (runs (BarImages.step home.stacker) barStart barSent).sent dir =
      {Verdict.imagePath dir (3, imageName 3 1), Verdict.imagePath dir (3, imageName 3 2)} := by
  ext p
  rw [Set.mem_insert_iff, Set.mem_singleton_iff]
  simp only [defectPlaces, sentImages_barSent, Verdict.finds_scarred_iff, Set.mem_ofPred_eq, List.mem_cons,
    List.not_mem_nil, or_false]
  constructor
  · rintro ⟨image, (rfl | rfl | rfl), hcam, rfl⟩
    · exact .inl rfl
    · exact .inr rfl
    · exact absurd hcam (by decide)
  · rintro (rfl | rfl)
    · exact ⟨_, .inl rfl, rfl, rfl⟩
    · exact ⟨_, .inr (.inl rfl), rfl, rfl⟩

end FlameSdd.BarJourney
