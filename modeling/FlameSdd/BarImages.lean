import FlameSdd.ImageDelivery
import FlameSdd.ImageNumbering
/-!
# The images of a bar

An instruction makes a directory for its bar, and the images that the cameras send
until the next one are filed there. `Stored` says what the folders of the cameras
hold then: the images that were sent, numbered in order, and nothing else.
-/
open SysLib FlameSdd.FileStacker FlameSdd.ActiveTargets FlameSdd.StorageTargets

namespace FlameSdd.BarImages

/-! ## What else a step of the stacker leaves alone -/

/-- An instruction makes directories for its targets and writes `level2.txt`. -/
theorem handleTarget_other {cfg : Config} {data : Json} {names : Bytes × Bytes} {target : Json} {q : Path}
    (faults : Faults) (s : FileStacker.State)
    (h : ∀ dest, destination cfg names target = .ok (dest, true) → ¬ q <:+ dest ∧ q ≠ level2File :: dest) :
    (handleTarget cfg faults data names target s).1.fs.node q = s.fs.node q := by
  unfold handleTarget
  dsimp only
  split
  · rfl
  · rename_i dest use hdest
    split
    · rfl
    · rename_i huse
      obtain rfl : use = true := by simpa using huse
      obtain ⟨hdir, hout⟩ := h dest hdest
      have hmk := FileSystem.createDirectories_other faults.mkdir s.fs hdir
      split
      · rfl
      · split
        · rfl
        · split
          · rename_i heq
            rwa [heq] at hmk
          · rename_i heq
            rw [heq] at hmk
            split
            · exact hmk
            · exact hmk
            · split
              · exact (FileSystem.node_writeFile_of_ne hout _ _).trans hmk
              · exact hmk

theorem handleTargets_other {cfg : Config} {data : Json} {names : Bytes × Bytes} {targets : List Json} {q : Path}
    (faults : Faults) (s : FileStacker.State)
    (h : ∀ target ∈ targets, ∀ dest, destination cfg names target = .ok (dest, true) →
      ¬ q <:+ dest ∧ q ≠ level2File :: dest) :
    (handleTargets cfg faults data names targets s).1.fs.node q = s.fs.node q := by
  induction targets generalizing s with
  | nil => rfl
  | cons target targets ih =>
    obtain ⟨hone, hrest⟩ := List.forall_mem_cons.1 h
    exact (ih _ hrest).trans (handleTarget_other faults s hone)

theorem handleTarget_level2 (cfg : Config) (faults : Faults) (data : Json) (names : Bytes × Bytes) (target : Json)
    (s : FileStacker.State) : (handleTarget cfg faults data names target s).1.level2 = s.level2 := by
  unfold handleTarget
  dsimp only
  repeat' split
  all_goals rfl

theorem handleTargets_level2 (cfg : Config) (faults : Faults) (data : Json) (names : Bytes × Bytes)
    (targets : List Json) (s : FileStacker.State) :
    (handleTargets cfg faults data names targets s).1.level2 = s.level2 := by
  induction targets generalizing s with
  | nil => rfl
  | cons target targets ih => exact (ih _).trans (handleTarget_level2 cfg faults data names target s)

/-- A destination that does not exist becomes active unless an earlier target
makes it. -/
theorem mem_activated {present : Path → Bool} {us : List Used} {dest : Path} (hno : present dest = false)
    (hmem : dest ∈ us.map Used.dest) (hown : ∀ u ∈ us, created u dest = true → u.dest = dest) :
    dest ∈ activated present us := by
  induction us generalizing present with
  | nil => cases hmem
  | cons u us ih =>
    obtain ⟨howner, hrest⟩ := List.forall_mem_cons.1 hown
    by_cases heq : u.dest = dest
    · rw [activated, if_neg (by rw [heq, hno]; exact Bool.false_ne_true), heq]
      exact List.mem_cons_self
    · have hmem' : dest ∈ us.map Used.dest := (List.mem_cons.1 hmem).resolve_left fun h => heq h.symm
      have hnew : created u dest = false := by
        rw [← Bool.not_eq_true]
        exact fun h => heq (howner h)
      rw [activated]
      split
      · exact ih hno hmem' hrest
      · exact List.mem_cons_of_mem _ (ih (by rw [hno, hnew]; rfl) hmem' hrest)

/-! ## The cameras -/

def cameras : List Nat := List.range' 1 10

def cameraDir (cam : Nat) : Bytes := ascii "camera_" ++ decimal cam

/-- The name of image `k` of a camera, counted from 1. -/
def imageName (cam k : Nat) : Bytes := imageFilename (decimal cam) k

theorem isName_cameraDir (cam : Nat) : Path.IsName (cameraDir cam) := by
  refine Path.isName_of_mem (c := 0x63) (List.mem_append_left _ (by decide)) (by decide) ?_
  rw [cameraDir, List.mem_append, not_or]
  exact ⟨by decide, fun h => absurd (decimal_isdigit cam _ h) (by decide)⟩

theorem cameraDir_injective : Function.Injective cameraDir := fun _ _ h =>
  decimal_injective (List.append_cancel_left h)

theorem imageName_injective (cam : Nat) : Function.Injective (imageName cam) :=
  ImageNumbering.imageFilename_injective (decimal cam)

/-- Every camera has its folder. -/
def HasFolders (cfg : Config) : Prop := ∀ cam ∈ cameras, cfg.dirname cam = some (cameraDir cam)

theorem HasFolders.workingDirname {cfg : Config} (h : HasFolders cfg) {cam : Nat} (hcam : cam ∈ cameras) :
    FileStacker.workingDirname cfg cam = cameraDir cam := by rw [FileStacker.workingDirname, h cam hcam, Option.getD_some]

theorem imagePath_camera (cam k : Nat) (dir : Path) :
    imagePath (cameraDir cam) (imageName cam k) dir = imageName cam k :: cameraDir cam :: dir := by
  have hslash : (0x2f : UInt8) ∉ decimal cam := fun h => absurd (decimal_isdigit cam _ h) (by decide)
  rw [imagePath, Path.join_name dir (isName_cameraDir cam), imageName,
    Path.descend_name _ (ImageNumbering.isName_imageFilename hslash k)]

/-! ## Runs -/

/-- The stacker and the images that every camera sent. -/
structure State where
  stacker : FileStacker.State
  sent : Nat → List Bytes

/-- A camera sends an image, with its number for its name, or other programs use
the disk. -/
inductive Event where
  | image (faults : Faults) (cam : Nat) (image : Bytes)
  | disk (fs : FileSystem)

def step (cfg : Config) (s : State) : Event → State
  | .image faults cam image =>
    { stacker := FileStacker.step cfg s.stacker (.image faults cam (decimal cam) image)
      sent := Function.update s.sent cam (s.sent cam ++ [image]) }
  | .disk fs => { s with stacker := FileStacker.step cfg s.stacker (.disk fs) }

/-- The stacker behind an instruction. -/
def start (cfg : Config) (faults : Faults) (data : Json) (s : FileStacker.State) : State :=
  ⟨FileStacker.step cfg s (.lv2Dispatch faults (some data)), fun _ => []⟩

/-- Every image gets into the directory of the bar, and other programs leave that
alone. -/
def Regular (cfg : Config) (dir : Path) (s : State) : Event → Prop
  | .image faults cam image =>
    cam ∈ cameras ∧ dir ∈ (imageStackerTask cfg faults cam (decimal cam) image s.stacker).2
  | .disk fs => ∀ q, dir <:+ q → fs.node q = s.stacker.fs.node q

/-! ## What is stored -/

/-- The directory is active, nothing active lies below it, and the folders in it
hold the images that were sent. -/
structure Stored (dir : Path) (s : State) : Prop where
  running : s.stacker.level2 = .running
  below : ∀ p ∈ s.stacker.backupDirPath, dir <:+ p → p = dir
  counter : ∀ cam ∈ cameras, s.stacker.streamCounter cam = (s.sent cam).length
  images : ∀ folder name node, s.stacker.fs.node (name :: folder :: dir) = some node ↔
    ∃ cam ∈ cameras, folder = cameraDir cam ∧
      ∃ k image, (s.sent cam)[k]? = some image ∧ name = imageName cam (k + 1) ∧ node = .file image

variable {cfg : Config} {dir : Path}

/-- Two levels below the directory of a bar, an image changes its own place only. -/
theorem saveInto_place {paths : List Path} (hbelow : ∀ p ∈ paths, dir <:+ p → p = dir) (faults : Faults) (cam k : Nat)
    (image : Bytes) (fs : FileSystem) {folder name : Bytes} (hne : ¬ (folder = cameraDir cam ∧ name = imageName cam k)) :
    (saveInto faults (cameraDir cam) (imageName cam k) image paths fs).1.node (name :: folder :: dir) =
      fs.node (name :: folder :: dir) := by
  refine saveInto_other image fs fun p hp => ⟨fun hsuf => ?_, fun heq => ?_⟩
  · rw [Path.join_name p (isName_cameraDir cam)] at hsuf
    have hdir : dir <:+ p := by
      rcases List.suffix_cons_iff.1 hsuf with heq | hsuf
      · obtain ⟨-, rfl⟩ := List.cons.inj heq
        exact List.suffix_cons _ _
      · exact ((List.suffix_cons _ _).trans (List.suffix_cons _ _)).trans hsuf
    have hlen := hsuf.length_le
    rw [hbelow p hp hdir] at hlen
    simp at hlen
  · rw [imagePath_camera] at heq
    obtain ⟨hname, heq⟩ := List.cons.inj heq
    exact hne ⟨(List.cons.inj heq).1, hname⟩

theorem Stored.image (hfolders : HasFolders cfg) {s : State} (h : Stored dir s) {faults : Faults} {cam : Nat}
    {image : Bytes} (hcam : cam ∈ cameras)
    (hsaved : dir ∈ (imageStackerTask cfg faults cam (decimal cam) image s.stacker).2) :
    Stored dir (step cfg s (.image faults cam image)) := by
  have hup : s.stacker.level2 ≠ .terminated := by
    rw [h.running]
    exact nofun
  -- the image is the next one of its camera
  have htask : imageStackerTask cfg faults cam (decimal cam) image s.stacker =
      ({ s.stacker with
        streamCounter := fun id => if id = (cam : Int) then (s.sent cam).length + 1 else s.stacker.streamCounter id
        fs := (saveInto faults (cameraDir cam) (imageName cam ((s.sent cam).length + 1)) image
          s.stacker.backupDirPath s.stacker.fs).1 },
      (saveInto faults (cameraDir cam) (imageName cam ((s.sent cam).length + 1)) image
        s.stacker.backupDirPath s.stacker.fs).2) := by
    rw [← h.counter cam hcam, ← hfolders.workingDirname hcam]
    rfl
  have hstep : step cfg s (.image faults cam image) =
      ⟨(imageStackerTask cfg faults cam (decimal cam) image s.stacker).1,
        Function.update s.sent cam (s.sent cam ++ [image])⟩ := by
    simp only [step, FileStacker.step, if_pos hup]
  rw [htask] at hsaved
  have hnew := saveInto_stored hsaved
  rw [imagePath_camera] at hnew
  rw [hstep, htask]
  refine ⟨h.running, h.below, fun c hc => ?_, fun folder name node => ?_⟩
  · rcases eq_or_ne c cam with rfl | hne
    · simp
    · simp [hne, h.counter c hc]
  · by_cases hplace : folder = cameraDir cam ∧ name = imageName cam ((s.sent cam).length + 1)
    · obtain ⟨rfl, rfl⟩ := hplace
      rw [hnew]
      constructor
      · rintro heq
        refine ⟨cam, hcam, rfl, (s.sent cam).length, image, ?_, rfl, (Option.some.inj heq).symm⟩
        simp
      · rintro ⟨c, -, hc, k, image', hk, hname, rfl⟩
        obtain rfl := cameraDir_injective hc
        obtain rfl : (s.sent cam).length = k := Nat.succ.inj (imageName_injective cam hname)
        have heq : image = image' := by simpa using hk
        rw [heq]
    · rw [saveInto_place h.below faults cam _ image s.stacker.fs hplace, h.images]
      refine exists_congr fun c => and_congr_right fun _ => and_congr_right fun hc => ?_
      rcases eq_or_ne c cam with rfl | hne
      · refine exists_congr fun k => exists_congr fun image' => ?_
        simp only [Function.update_self]
        constructor
        · rintro ⟨hk, hrest⟩
          exact ⟨by rw [List.getElem?_append_left (List.getElem?_eq_some_iff.1 hk).1, hk], hrest⟩
        · rintro ⟨hk, hname, hnode⟩
          have hlt : k < (s.sent c).length := by
            have hle := (List.getElem?_eq_some_iff.1 hk).1
            have hlast : k ≠ (s.sent c).length := fun heq => hplace ⟨hc, by rw [hname, heq]⟩
            rw [List.length_append, List.length_singleton] at hle
            omega
          exact ⟨by rwa [List.getElem?_append_left hlt] at hk, hname, hnode⟩
      · simp only [Function.update_of_ne hne]

theorem step_stored (hfolders : HasFolders cfg) (s : State) (e : Event) (h : Stored dir s) (he : Regular cfg dir s e) :
    Stored dir (step cfg s e) := by
  cases e with
  | image faults cam image => exact h.image hfolders he.1 he.2
  | disk fs =>
    refine ⟨h.running, h.below, h.counter, fun folder name node => ?_⟩
    have hsame : fs.node (name :: folder :: dir) = s.stacker.fs.node (name :: folder :: dir) :=
      he _ ((List.suffix_cons _ _).trans (List.suffix_cons _ _))
    show fs.node (name :: folder :: dir) = some node ↔ _
    rw [hsame]
    exact h.images folder name node

/-- What the folders hold at the end of every run. -/
theorem stored_runs (hfolders : HasFolders cfg) {s : State} (h : Stored dir s) {evs : List Event}
    (hevs : StepsMeet (step cfg) (Regular cfg dir) s evs) : Stored dir (runs (step cfg) s evs) :=
  runs_inv (Stored dir) (step_stored hfolders) h hevs

/-! ## The instruction -/

/-- The target is in use, its directory does not exist, and no other target in use
has its own below. -/
structure Announced (cfg : Config) (names : Bytes × Bytes) (s : FileStacker.State) (dir : Path) : Prop where
  running : s.level2 = .running
  target : ∃ target ∈ cfg.targetPath, destination cfg names target = .ok (dir, true)
  absent : s.fs.present dir = false
  below : ∀ target ∈ cfg.targetPath, ∀ dest, destination cfg names target = .ok (dest, true) → dir <:+ dest → dest = dir
  -- no directory has the name of the file in another one
  file : ∀ dest, dir ≠ level2File :: dest

/-- An instruction that meets no error of the file system makes the directory, and
it is empty. -/
theorem Announced.start {names : Bytes × Bytes} {s : FileStacker.State} (h : Announced cfg names s dir)
    {faults : Faults} {data : Json} (hreq : hasRequired data = true) (hnames : targetDirname data = .ok names)
    (hops : .filesystemError ∉ (level2DispatchTask cfg faults (some data) s).2) :
    dir ∈ (start cfg faults data s).stacker.backupDirPath ∧ Stored dir (start cfg faults data s) := by
  have htask : level2DispatchTask cfg faults (some data) s =
      ({ (handleTargets cfg faults data names cfg.targetPath { s with backupDirPath := [] }).1 with
        streamCounter := fun _ => 0 },
      (handleTargets cfg faults data names cfg.targetPath { s with backupDirPath := [] }).2) := by
    simp only [level2DispatchTask, hreq, if_true, hnames]
  have hstart : BarImages.start cfg faults data s = ⟨(level2DispatchTask cfg faults (some data) s).1, fun _ => []⟩ := by
    simp only [BarImages.start, FileStacker.step, if_pos h.running]
  rw [htask] at hops
  have hactive := handleTargets_spec (Prod.eta (handleTargets cfg faults data names cfg.targetPath
    { s with backupDirPath := [] })).symm hops
  rw [List.nil_append] at hactive
  have hdest : ∀ u ∈ cfg.targetPath.filterMap (used? cfg faults names),
      ∃ target ∈ cfg.targetPath, destination cfg names target = .ok (u.dest, true) := by
    intro u hu
    obtain ⟨target, htarget, hused⟩ := List.mem_filterMap.1 hu
    exact ⟨target, htarget, (used?_eq_some_iff.1 hused).1⟩
  rw [hstart, htask]
  refine ⟨?_, ?_, ?_, fun _ _ => rfl, fun folder name node => ?_⟩
  · obtain ⟨target, htarget, hdir⟩ := h.target
    refine hactive.symm ▸ mem_activated h.absent ?_ fun u hu hcreated => ?_
    · exact List.mem_map.2 ⟨⟨dir, writesLevel2 faults target dir⟩,
        List.mem_filterMap.2 ⟨target, htarget, used?_eq_some_iff.2 ⟨hdir, rfl⟩⟩, rfl⟩
    · obtain ⟨target', htarget', hdir'⟩ := hdest u hu
      simp only [created, Bool.or_eq_true, List.isSuffixOf_iff_suffix, Bool.and_eq_true, beq_iff_eq] at hcreated
      rcases hcreated with hsuf | ⟨-, heq⟩
      · exact h.below target' htarget' u.dest hdir' hsuf
      · exact absurd heq (h.file u.dest)
  · exact (handleTargets_level2 _ _ _ _ _ _).trans h.running
  · intro p hp hsuf
    have hmem : p ∈ activated _ _ := hactive ▸ hp
    obtain ⟨u, hu, rfl⟩ := List.mem_map.1 (activated_subset _ _ hmem)
    obtain ⟨target, htarget, hdir⟩ := hdest u hu
    exact h.below target htarget u.dest hdir hsuf
  · -- nothing is made two levels below it
    have hnone : s.fs.node (name :: folder :: dir) = none := by
      refine FileSystem.node_below name ?_
      rw [FileSystem.present, FileSystem.node_below folder h.absent]
      rfl
    have hkeep : (handleTargets cfg faults data names cfg.targetPath { s with backupDirPath := [] }).1.fs.node
        (name :: folder :: dir) = s.fs.node (name :: folder :: dir) := by
      refine handleTargets_other faults _ fun target htarget dest hdir => ⟨fun hsuf => ?_, fun heq => ?_⟩
      · have hlen := hsuf.length_le
        rw [h.below target htarget dest hdir (((List.suffix_cons _ _).trans (List.suffix_cons _ _)).trans hsuf)] at hlen
        simp at hlen
      · obtain ⟨-, rfl⟩ := List.cons.inj heq
        exact List.cons_ne_self _ _ (h.below target htarget _ hdir (List.suffix_cons _ _))
    simp [hkeep, hnone]

end FlameSdd.BarImages
