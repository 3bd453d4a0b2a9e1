import FlameSdd.StorageTargets
/-!
# The stacker before it was optimised

`_image_stacker_task` decodes every image and encodes it again for each target,
where `_image_stacker_task_opt` writes the bytes that it received. It also has no
handler for what a target throws. `variants_agree_iff` says on which runs the two
do the same.
-/
open SysLib FlameSdd.FileStacker FlameSdd.StorageTargets

namespace FlameSdd.PlainStacker

/-! ## The plain worker -/

/-- `cv::imdecode`, with `none` for the empty matrix that it makes of what is no
image, and the file that `cv::imwrite` makes of a matrix. An empty buffer is a
failed assertion of `imdecode`. -/
structure Codec (Mat : Type) where
  imdecode : Bytes → Except Unit (Option Mat)
  imwrite : Mat → Bytes
  imdecode_empty : imdecode [] = .error ()

variable {Mat : Type} (codec : Codec Mat) (cfg : Config)

/-- The loop over the active directories, and how the worker stands behind it: a
`filesystem_error` is a `runtime_error`, which ends it, but what `imwrite` throws
at an empty matrix is not, and nobody catches that. -/
def writeInto (faults : Faults) (dirname filename : Bytes) (decoded : Option Mat) :
    List Path → FileSystem → FileSystem × Worker
  | [], fs => (fs, .running)
  | path :: paths, fs =>
    let cameraWorkingDir := path.join dirname
    if faults.stat cameraWorkingDir then (fs, .ended)
    else
      match (if fs.present cameraWorkingDir then (fs, true)
        else fs.createDirectories faults.mkdir cameraWorkingDir) with
      | (fs, false) => (fs, .ended)
      | (fs, true) =>
        match decoded with
        | none => (fs, .terminated)
        | some mat =>
          let out := cameraWorkingDir.descend filename
          if !faults.opening out && fs.canOpen out then
            writeInto faults dirname filename decoded paths (fs.writeFile out (codec.imwrite mat))
          else writeInto faults dirname filename decoded paths fs

/-- The component with a worker for each stream. -/
structure State where
  stacker : FileStacker.State
  worker : Int → Worker

def init (fs : FileSystem) : State := ⟨FileStacker.init fs, fun _ => .running⟩

/-- `_image_stacker_task` on one image. It is decoded before it is counted, and a
`cv::Exception` is none of the errors that the worker catches. -/
def imageStackerTask (faults : Faults) (streamId : Int) (cameraId image : Bytes) (s : State) : State :=
  match codec.imdecode image with
  | .error _ =>
    { stacker := { s.stacker with level2 := .terminated }
      worker := Function.update s.worker streamId .terminated }
  | .ok decoded =>
    let count := s.stacker.streamCounter streamId + 1
    let (fs, worker) := writeInto codec faults (workingDirname cfg streamId) (imageFilename cameraId count)
      decoded s.stacker.backupDirPath s.stacker.fs
    { stacker :=
        { s.stacker with
          streamCounter := fun id => if id = streamId then count else s.stacker.streamCounter id
          fs := fs
          level2 := if worker = .terminated then .terminated else s.stacker.level2 }
      worker := Function.update s.worker streamId worker }

/-! ## Both variants -/

/-- What can happen to the component, or `recv` throws in the worker of a stream. -/
inductive Event where
  | stacker (e : FileStacker.Event)
  | recvError (streamId : Int)

def step (s : State) : Event → State
  | .stacker (.image faults streamId cameraId image) =>
    if s.stacker.level2 ≠ .terminated ∧ s.worker streamId = .running then
      imageStackerTask codec cfg faults streamId cameraId image s
    else s
  | .stacker e => { s with stacker := FileStacker.step cfg s.stacker e }
  | .recvError streamId =>
    if s.stacker.level2 ≠ .terminated then { s with worker := Function.update s.worker streamId .ended } else s

/-- The optimised variant logs the error and goes on. -/
def stepOpt (s : FileStacker.State) : Event → FileStacker.State
  | .stacker e => FileStacker.step cfg s e
  | .recvError _ => s

def stepBoth (s : State × FileStacker.State) (e : Event) : State × FileStacker.State :=
  (step codec cfg s.1 e, stepOpt cfg s.2 e)

/-- The variants have done the same, and no worker of the plain one has ended. -/
structure Agree (s : State × FileStacker.State) : Prop where
  stacker : s.1.stacker = s.2
  worker : ∀ streamId, s.1.worker streamId = .running

/-- No target throws and neither does the decoder, an image is one if there is a
target for it, and where it is saved, encoding it again gives the same bytes. -/
def Transparent (s : FileStacker.State) : Event → Prop
  | .stacker (.image faults streamId cameraId image) =>
    s.level2 ≠ .terminated →
      (∀ turn ∈ targetTurns cfg faults streamId cameraId image s, turn.2 ≠ .threw) ∧
      codec.imdecode image ≠ .error () ∧
      (s.backupDirPath ≠ [] → ∃ mat, codec.imdecode image = .ok (some mat) ∧
        ((FileStacker.imageStackerTask cfg faults streamId cameraId image s).2 ≠ [] → codec.imwrite mat = image))
  | .stacker _ => True
  | .recvError _ => s.level2 = .terminated

/-! ## One image -/

section
variable {codec} {faults : Faults} {dirname filename : Bytes} {mat : Mat}

theorem writeInto_cons (path : Path) (paths : List Path) (fs : FileSystem) :
    writeInto codec faults dirname filename (some mat) (path :: paths) fs =
      match saveOne faults dirname filename (codec.imwrite mat) path fs with
      | (fs, .threw) => (fs, .ended)
      | (fs, _) => writeInto codec faults dirname filename (some mat) paths fs := by
  have himg : (path.join dirname).descend filename = imagePath dirname filename path := rfl
  unfold saveOne
  simp only [writeInto, himg]
  by_cases hstat : faults.stat (path.join dirname) = true
  · rw [if_pos hstat, if_pos hstat]
  · rw [if_neg hstat, if_neg hstat]
    rcases (if fs.present (path.join dirname) then (fs, true)
      else fs.createDirectories faults.mkdir (path.join dirname)) with ⟨fs', made⟩
    cases made with
    | false => rfl
    | true =>
      dsimp only
      by_cases hopen : (!faults.opening (imagePath dirname filename path) &&
          fs'.canOpen (imagePath dirname filename path)) = true
      · rw [if_pos hopen, if_pos hopen]
      · rw [if_neg hopen, if_neg hopen]

/-- An empty matrix does not get past the first target. -/
theorem writeInto_empty (path : Path) (paths : List Path) (fs : FileSystem) :
    (writeInto codec faults dirname filename none (path :: paths) fs).2 ≠ .running := by
  simp only [writeInto]
  split
  · exact nofun
  · split
    · exact nofun
    · exact nofun

theorem writeInto_keeps (paths : List Path) {fs : FileSystem} {q : Path}
    (h : fs.node q = some (.file (codec.imwrite mat))) :
    (writeInto codec faults dirname filename (some mat) paths fs).1.node q = some (.file (codec.imwrite mat)) := by
  induction paths generalizing fs with
  | nil => exact h
  | cons path paths ih =>
    have hone := saveInto_keeps faults dirname filename (codec.imwrite mat) [path] h
    rw [saveInto_cons] at hone
    rw [writeInto_cons]
    rcases hsave : saveOne faults dirname filename (codec.imwrite mat) path fs with ⟨fs', outcome⟩
    rw [hsave] at hone
    cases outcome with
    | threw => exact hone
    | notOpened => exact ih hone
    | saved => exact ih hone

/-- What becomes of a target does not depend on what is written. -/
theorem saveOne_content (content : Bytes) {image : Bytes} {path : Path} {fs fs' : FileSystem} {outcome : Outcome}
    (h : saveOne faults dirname filename image path fs = (fs', outcome)) :
    (saveOne faults dirname filename content path fs).2 = outcome ∧
      (outcome ≠ .saved ∨ content = image → saveOne faults dirname filename content path fs = (fs', outcome)) := by
  unfold saveOne at h ⊢
  dsimp only at h ⊢
  split at h
  · rename_i hstat
    rw [if_pos hstat]
    cases h
    exact ⟨rfl, fun _ => rfl⟩
  · rename_i hstat
    rw [if_neg hstat]
    split at h
    · cases h
      exact ⟨rfl, fun _ => rfl⟩
    · split at h
      · rename_i hopen
        rw [if_pos hopen]
        cases h
        refine ⟨rfl, ?_⟩
        rintro (hne | rfl)
        · exact absurd rfl hne
        · rfl
      · rename_i hopen
        rw [if_neg hopen]
        cases h
        exact ⟨rfl, fun _ => rfl⟩

/-- The loops end alike if and only if no target throws and what is saved is what
was received. -/
theorem writeInto_eq_iff (image : Bytes) (paths : List Path) (fs : FileSystem) :
    writeInto codec faults dirname filename (some mat) paths fs =
        ((saveInto faults dirname filename image paths fs).1, .running) ↔
      (∀ turn ∈ saveEach faults dirname filename image paths fs, turn.2 ≠ .threw) ∧
        ((saveInto faults dirname filename image paths fs).2 ≠ [] → codec.imwrite mat = image) := by
  induction paths generalizing fs with
  | nil => simp [writeInto, saveInto, saveEach]
  | cons path paths ih =>
    rw [writeInto_cons, saveInto_cons, saveEach]
    rcases hone : saveOne faults dirname filename image path fs with ⟨fs', outcome⟩
    obtain ⟨hsame, heq⟩ := saveOne_content (codec.imwrite mat) hone
    cases outcome with
    | threw =>
      rw [heq (.inl (by decide))]
      exact iff_of_false (fun h => by cases (Prod.mk.inj h).2) fun h => h.1 _ List.mem_cons_self rfl
    | notOpened =>
      rw [heq (.inl (by decide))]
      simp [ih]
    | saved =>
      by_cases himage : codec.imwrite mat = image
      · rw [heq (.inr himage)]
        simp [ih, himage]
      · refine iff_of_false (fun h => ?_) fun h => himage (h.2 (List.cons_ne_nil _ _))
        -- the two files of the first target differ to the end
        rcases hplain : saveOne faults dirname filename (codec.imwrite mat) path fs with ⟨fs'', outcome⟩
        rw [hplain] at h hsame
        obtain rfl : outcome = .saved := hsame
        have hold : (writeInto codec faults dirname filename (some mat) paths fs'').1.node
            (imagePath dirname filename path) = some (.file (codec.imwrite mat)) :=
          writeInto_keeps paths (saveOne_saved hplain)
        have hnew := saveInto_keeps faults dirname filename image paths (saveOne_saved hone)
        rw [(Prod.mk.inj h).1, hnew] at hold
        exact himage (Node.file.inj (Option.some.inj hold)).symm

end

/-! ## Every run -/

/-- An image that the decoder throws at ends the process, whether or not there
is a target for it. -/
theorem imageStackerTask_error {image : Bytes} (h : codec.imdecode image = .error ()) (faults : Faults)
    (streamId : Int) (cameraId : Bytes) (s : State) :
    (imageStackerTask codec cfg faults streamId cameraId image s).stacker =
      { s.stacker with level2 := .terminated } := by
  rw [imageStackerTask, h]

/-- No bytes at all are such an image. -/
theorem not_transparent_empty {s : FileStacker.State} (h : s.level2 ≠ .terminated) (faults : Faults)
    (streamId : Int) (cameraId : Bytes) :
    ¬ Transparent codec cfg s (.stacker (.image faults streamId cameraId [])) :=
  fun htransparent => (htransparent h).2.1 codec.imdecode_empty

/-- After an image that can be decoded both have done the same if and only if
their loops have. -/
theorem agree_image_iff {s : State} (hworker : ∀ streamId, s.worker streamId = .running) (faults : Faults)
    (streamId : Int) (cameraId : Bytes) {image : Bytes} {decoded : Option Mat}
    (hdecode : codec.imdecode image = .ok decoded) :
    Agree (imageStackerTask codec cfg faults streamId cameraId image s,
        (FileStacker.imageStackerTask cfg faults streamId cameraId image s.stacker).1) ↔
      writeInto codec faults (workingDirname cfg streamId)
          (imageFilename cameraId (s.stacker.streamCounter streamId + 1)) decoded
          s.stacker.backupDirPath s.stacker.fs =
        ((saveInto faults (workingDirname cfg streamId)
          (imageFilename cameraId (s.stacker.streamCounter streamId + 1)) image s.stacker.backupDirPath
          s.stacker.fs).1, .running) := by
  constructor
  · rintro ⟨hstacker, hrunning⟩
    have hfs := congrArg FileStacker.State.fs hstacker
    simp only [imageStackerTask, hdecode] at hfs
    have hself := hrunning streamId
    simp only [imageStackerTask, hdecode, Function.update_self] at hself
    exact Prod.ext hfs hself
  · intro heq
    refine ⟨?_, fun id => ?_⟩
    · simp only [imageStackerTask, hdecode, heq]
      rfl
    · simp only [imageStackerTask, hdecode, heq]
      rcases eq_or_ne id streamId with rfl | hne
      · rw [Function.update_self]
      · rw [Function.update_of_ne hne, hworker]

/-- Where the process is alive, that says that the image is transparent. -/
theorem agree_transparent_iff {s : State} (hworker : ∀ streamId, s.worker streamId = .running)
    (hup : s.stacker.level2 ≠ .terminated) (faults : Faults) (streamId : Int) (cameraId image : Bytes) :
    Agree (imageStackerTask codec cfg faults streamId cameraId image s,
        (FileStacker.imageStackerTask cfg faults streamId cameraId image s.stacker).1) ↔
      Transparent codec cfg s.stacker (.stacker (.image faults streamId cameraId image)) := by
  rw [Transparent, forall_prop_of_true hup]
  cases hdecode : codec.imdecode image with
  | error e =>
    -- the plain variant is over, the other one counts the image
    refine iff_of_false (fun h => hup ?_) fun h => h.2.1 rfl
    have hlevel2 := congrArg FileStacker.State.level2 h.stacker
    rw [imageStackerTask_error codec cfg hdecode] at hlevel2
    exact hlevel2.symm
  | ok decoded =>
    rw [agree_image_iff codec cfg hworker _ _ _ hdecode]
    cases hpaths : s.stacker.backupDirPath with
    | nil => simp [writeInto, saveInto, targetTurns, saveEach, hpaths]
    | cons path paths =>
      cases decoded with
      | none =>
        refine iff_of_false (fun h => writeInto_empty _ _ _ (congrArg Prod.snd h)) fun h => ?_
        obtain ⟨mat, hmat, -⟩ := h.2.2 (List.cons_ne_nil _ _)
        cases hmat
      | some mat =>
        have hturns : targetTurns cfg faults streamId cameraId image s.stacker =
            saveEach faults (workingDirname cfg streamId)
              (imageFilename cameraId (s.stacker.streamCounter streamId + 1)) image (path :: paths)
              s.stacker.fs := by rw [targetTurns, hpaths]
        have hsaved : (FileStacker.imageStackerTask cfg faults streamId cameraId image s.stacker).2 =
            (saveInto faults (workingDirname cfg streamId)
              (imageFilename cameraId (s.stacker.streamCounter streamId + 1)) image (path :: paths)
              s.stacker.fs).2 := by rw [← hpaths]; rfl
        rw [writeInto_eq_iff, hturns, hsaved]
        simp

theorem step_agree_iff (s : State × FileStacker.State) (e : Event) (h : Agree s) :
    Agree (stepBoth codec cfg s e) ↔ Transparent codec cfg s.2 e := by
  obtain ⟨plain, opt⟩ := s
  obtain ⟨hstacker, hworker⟩ := h
  obtain rfl : plain.stacker = opt := hstacker
  have hidle : Agree (plain, plain.stacker) := ⟨rfl, hworker⟩
  rcases e with e | streamId
  · rcases e with ⟨faults, payload⟩ | ⟨faults, streamId, cameraId, image⟩ | fs
    · exact iff_of_true ⟨rfl, hworker⟩ trivial
    · by_cases hup : plain.stacker.level2 ≠ .terminated
      · simp only [stepBoth, step, stepOpt, FileStacker.step, if_pos hup, if_pos (And.intro hup (hworker streamId))]
        exact agree_transparent_iff codec cfg hworker hup faults streamId cameraId image
      · have hdown : ¬ (plain.stacker.level2 ≠ .terminated ∧ plain.worker streamId = .running) := fun h => hup h.1
        simp only [stepBoth, step, stepOpt, FileStacker.step, if_neg hup, if_neg hdown, Transparent]
        exact iff_of_true hidle fun h => absurd h hup
    · exact iff_of_true ⟨rfl, hworker⟩ trivial
  · by_cases hup : plain.stacker.level2 ≠ .terminated
    · refine iff_of_false (fun h => ?_) hup
      have hended := h.worker streamId
      simp only [stepBoth, step, if_pos hup, Function.update_self] at hended
      cases hended
    · simp only [stepBoth, step, stepOpt, if_neg hup, Transparent]
      exact iff_of_true hidle (not_not.1 hup)

/-- In every run, the optimised variant does what the plain one does, and no
worker of the plain one has ended, exactly as long as every image can be decoded,
finds targets that do not throw and comes out of the codec as it was received, and
`recv` does not throw. -/
theorem variants_agree_iff (fs : FileSystem) (evs : List Event) :
    StepsMeet (stepBoth codec cfg) (fun s e => Agree (stepBoth codec cfg s e)) (init fs, FileStacker.init fs) evs ↔
      StepsMeet (stepOpt cfg) (Transparent codec cfg) (FileStacker.init fs) evs := by
  rw [stepsMeet_inv_iff (J := fun _ => True) (fun _ _ _ => trivial) (fun s e _ h => step_agree_iff codec cfg s e h)
    trivial ⟨rfl, fun _ => rfl⟩ evs]
  exact stepsMeet_map_iff Prod.snd (fun _ _ => rfl) _ evs

end FlameSdd.PlainStacker
