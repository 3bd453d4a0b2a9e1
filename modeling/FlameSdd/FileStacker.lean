import FlameSdd.Json
import FlameSdd.SysLib.FileSystem
import FlameSdd.SysLib.Runs
/-!
# The file stacker

`general_file_stacker` keeps the directories of the bar in progress
(`_backup_dir_path`) and a counter for each image stream. An instruction sets
both; an image is written into every directory. Its workers share the state
without a lock; here each handles one message at a time.
-/
open SysLib

namespace FlameSdd.FileStacker

/-! ## State -/

/-- The parameters of the component and the directory it runs in. -/
structure Config where
  cwd : Path
  targetPath : List Json
  dirname : Int → Option Bytes

/-- Where the operating system fails while one message is handled. -/
structure Faults where
  stat : Path → Bool
  mkdir : Path → Bool
  opening : Path → Bool

def noFaults : Faults := ⟨fun _ => false, fun _ => false, fun _ => false⟩

structure State where
  backupDirPath : List Path
  streamCounter : Int → Nat
  fs : FileSystem
  level2 : Worker

/-- The component as it starts, on a disk that may hold anything. -/
def init (fs : FileSystem) : State := ⟨[], fun _ => 0, fs, .running⟩

/-! ## Instructions -/

/-- A member read with `get<int>` or `get<long>`, printed. -/
def number (get : Json → Except Exn Int) (j : Json) : Except Exn Bytes := decimalInt <$> get j

/-- The directory names of an instruction: the day, and `target_dirname`. -/
def targetDirname (data : Json) : Except Exn (Bytes × Bytes) := do
  let date ← data.index "date" >>= Json.getString
  let mtStandNorm ← data.valueString "mt_stand_norm" []
  let mtStandNorm ←
    if mtStandNorm.isEmpty then do
      let width ← data.index "mt_stand_width" >>= Json.getInt
      let height ← data.index "mt_stand_height" >>= Json.getInt
      pure (ascii "Unknown" ++ decimalInt (width.tdiv 10) ++ ascii "x" ++ decimalInt (height.tdiv 10))
    else pure mtStandNorm
  return (date.take 8, date ++ ascii "_" ++ mtStandNorm)

/-- The lines of `level2.txt`. -/
def level2Lines : List (String × (Json → Except Exn Bytes)) :=
  [("date", Json.getString), ("lot_no", Json.getString), ("mt_no", Json.getString), ("mt_stand", Json.getString),
   ("mt_stand_height", number Json.getInt), ("mt_stand_width", number Json.getInt),
   ("mt_stand_t1", number Json.getInt), ("mt_stand_t2", number Json.getInt),
   ("fm_length", number Json.getLong), ("fm_speed", number Json.getInt)]

/-- The text written before the first member that cannot be read. -/
def level2Text (data : Json) : List (String × (Json → Except Exn Bytes)) → Bytes × Option Exn
  | [] => ([], none)
  | (key, get) :: lines =>
    match data.index key >>= get with
    | .error e => (ascii (key ++ " : "), some e)
    | .ok s =>
      let (rest, e) := level2Text data lines
      (ascii (key ++ " : ") ++ s ++ ascii "\n" ++ rest, e)

def level2File : Bytes := ascii "level2.txt"

/-- `dest` and `use` of a target. -/
def destination (cfg : Config) (names : Bytes × Bytes) (target : Json) : Except Exn (Path × Bool) := do
  let path ← target.valueString "path" (ascii "/tmp")
  let dest := ((cfg.cwd.join path).join names.1).join names.2
  let use ← target.valueBool "use" false
  return (dest, use)

/-- One turn of the loop over the targets, and the exception its handlers log. -/
def handleTarget (cfg : Config) (faults : Faults) (data : Json) (names : Bytes × Bytes) (target : Json) (s : State) :
    State × Option Exn :=
  match destination cfg names target with
  | .error e => (s, some e)
  | .ok (dest, use) =>
    if !use then (s, none)
    else if faults.stat dest then (s, some .filesystemError)
    -- a directory that is there is not made active
    else if s.fs.present dest then (s, none)
    else
      match s.fs.createDirectories faults.mkdir dest with
      | (fs, false) => ({ s with fs := fs }, some .filesystemError)
      | (fs, true) =>
        let s := { s with fs := fs, backupDirPath := s.backupDirPath ++ [dest] }
        match target.valueBool "image_only" false with
        | .error e => (s, some e)
        | .ok true => (s, none)
        | .ok false =>
          let lv2Path := level2File :: dest
          if !faults.opening lv2Path && fs.canOpen lv2Path then
            let (text, e) := level2Text data level2Lines
            ({ s with fs := fs.writeFile lv2Path text }, e)
          else (s, none)

/-- The loop over the targets, and the exceptions it logs. -/
def handleTargets (cfg : Config) (faults : Faults) (data : Json) (names : Bytes × Bytes) :
    List Json → State → State × List Exn
  | [], s => (s, [])
  | target :: targets, s =>
    let (s, e) := handleTarget cfg faults data names target s
    let (s, es) := handleTargets cfg faults data names targets s
    (s, e.toList ++ es)

def hasRequired (data : Json) : Bool :=
  data.contains "date" && data.contains "mt_stand_height" && data.contains "mt_stand_width" &&
    data.contains "mt_stand_norm"

/-- `_level2_dispatch_task` on one message, and the exceptions it logs. -/
def level2DispatchTask (cfg : Config) (faults : Faults) (payload : Payload) (s : State) : State × List Exn :=
  -- the list is emptied before the message is looked at
  let s := { s with backupDirPath := [] }
  match payload with
  | none => ({ s with level2 := .ended }, [.parseError])
  | some data =>
    if hasRequired data then
      match targetDirname data with
      -- a type_error is none of the exceptions that the worker catches
      | .error _ => ({ s with level2 := .terminated }, [])
      | .ok names =>
        let (s, caught) := handleTargets cfg faults data names cfg.targetPath s
        ({ s with streamCounter := fun _ => 0 }, caught)
    else (s, [])

/-! ## Images -/

def workingDirname (cfg : Config) (streamId : Int) : Bytes :=
  (cfg.dirname streamId).getD (ascii "tmp_" ++ decimalInt streamId)

/-- The loop over the active directories: the tree, and the directories the
image was saved under before the first exception. -/
def saveInto (faults : Faults) (dirname filename image : Bytes) : List Path → FileSystem → FileSystem × List Path
  | [], fs => (fs, [])
  | path :: paths, fs =>
    let cameraWorkingDir := path.join dirname
    if faults.stat cameraWorkingDir then (fs, [])
    else
      match (if fs.present cameraWorkingDir then (fs, true)
        else fs.createDirectories faults.mkdir cameraWorkingDir) with
      | (fs, false) => (fs, [])
      | (fs, true) =>
        let out := cameraWorkingDir.descend filename
        if !faults.opening out && fs.canOpen out then
          let (fs, saved) := saveInto faults dirname filename image paths (fs.writeFile out image)
          (fs, path :: saved)
        else saveInto faults dirname filename image paths fs

/-- `_image_stacker_task_opt` on one image, and where it was saved. -/
def imageStackerTask (cfg : Config) (faults : Faults) (streamId : Int) (cameraId image : Bytes) (s : State) :
    State × List Path :=
  let count := s.streamCounter streamId + 1
  let filename := cameraId ++ ascii "_" ++ decimal count ++ ascii ".jpg"
  let (fs, saved) := saveInto faults (workingDirname cfg streamId) filename image s.backupDirPath s.fs
  ({ s with streamCounter := fun id => if id = streamId then count else s.streamCounter id, fs := fs }, saved)

/-! ## Runs -/

/-- What can happen to the component. Other programs use the same disk. -/
inductive Event where
  | lv2Dispatch (faults : Faults) (payload : Payload)
  | image (faults : Faults) (streamId : Int) (cameraId image : Bytes)
  | disk (fs : FileSystem)

def step (cfg : Config) (s : State) : Event → State
  | .lv2Dispatch faults payload =>
    if s.level2 = .running then (level2DispatchTask cfg faults payload s).1 else s
  | .image faults streamId cameraId image =>
    if s.level2 ≠ .terminated then (imageStackerTask cfg faults streamId cameraId image s).1 else s
  | .disk fs => { s with fs := fs }

/-! ## What one turn of the loop over the targets can do -/

/-- `level2.txt` goes into a new directory of the target. -/
def writesLevel2 (faults : Faults) (target : Json) (dest : Path) : Bool :=
  match target.valueBool "image_only" false with
  | .ok imageOnly => !imageOnly && !faults.opening (level2File :: dest)
  | .error _ => false

/-- A directory made where nothing was: it is empty, and exists with all above it. -/
theorem createDirectories_dest {fault : Path → Bool} {fs fs' : FileSystem} {dest : Path}
    (habs : fs.present dest = false) (h : fs.createDirectories fault dest = (fs', true)) :
    fs'.node dest = some .dir ∧ fs'.node (level2File :: dest) = none ∧
      fs'.present = fun q => fs.present q || q.isSuffixOf dest := by
  obtain ⟨hdir, hall⟩ := FileSystem.createDirectories_spec h
  have hno : fs'.present (level2File :: dest) = false := by
    rw [← Bool.not_eq_true, hall]
    rintro (hold | hsuf)
    · rw [FileSystem.present, FileSystem.node_below _ habs] at hold
      exact Bool.noConfusion hold
    · have := hsuf.length_le
      simp at this
  refine ⟨hdir, by simpa [FileSystem.present] using hno, ?_⟩
  funext q
  rw [Bool.eq_iff_iff, hall]
  simp

/-- One turn, in three cases: nothing is made, since the target is not in use,
its directory is there or cannot be looked for; the directory cannot be made; or
it is made and becomes active. -/
theorem handleTarget_cases (cfg : Config) (faults : Faults) (data : Json) (names : Bytes × Bytes) (target : Json)
    (s : State) :
    ((handleTarget cfg faults data names target s).1 = s ∧ ∀ dest, destination cfg names target = .ok (dest, true) →
      s.fs.present dest = true ∨ (handleTarget cfg faults data names target s).2 = some .filesystemError) ∨
    ((handleTarget cfg faults data names target s).1.backupDirPath = s.backupDirPath ∧
      (handleTarget cfg faults data names target s).2 = some .filesystemError) ∨
    ∃ dest fs, destination cfg names target = .ok (dest, true) ∧ s.fs.present dest = false ∧
      s.fs.createDirectories faults.mkdir dest = (fs, true) ∧
      (handleTarget cfg faults data names target s).1.backupDirPath = s.backupDirPath ++ [dest] ∧
      ∃ text, (handleTarget cfg faults data names target s).1.fs =
        if writesLevel2 faults target dest then fs.writeFile (level2File :: dest) text else fs := by
  unfold handleTarget
  cases hdest : destination cfg names target with
  | error e => exact .inl ⟨rfl, nofun⟩
  | ok r =>
    obtain ⟨dest, use⟩ := r
    cases use with
    | false => exact .inl ⟨rfl, nofun⟩
    | true =>
      simp only [Bool.not_true, Bool.false_eq_true, if_false]
      by_cases hstat : faults.stat dest = true
      · rw [if_pos hstat]
        exact .inl ⟨rfl, fun _ _ => .inr rfl⟩
      rw [if_neg hstat]
      cases hpres : s.fs.present dest with
      | true =>
        rw [if_pos rfl]
        refine .inl ⟨rfl, ?_⟩
        rintro d hd
        obtain ⟨rfl, -⟩ := Prod.mk.inj (Except.ok.inj hd)
        exact .inl hpres
      | false =>
        rw [if_neg (by simp)]
        obtain ⟨⟨fs, made⟩, hmk⟩ : ∃ r, s.fs.createDirectories faults.mkdir dest = r := ⟨_, rfl⟩
        rw [hmk]
        cases made with
        | false => exact .inr (.inl ⟨rfl, rfl⟩)
        | true =>
          refine .inr (.inr ⟨dest, fs, rfl, hpres, hmk, ?_⟩)
          obtain ⟨hdir, hfree, -⟩ := createDirectories_dest hpres hmk
          have hopen : fs.canOpen (level2File :: dest) = true := by
            simp [FileSystem.canOpen, FileSystem.isDir, hdir, hfree]
          unfold writesLevel2
          cases target.valueBool "image_only" false with
          | error e => exact ⟨rfl, [], rfl⟩
          | ok imageOnly =>
            cases imageOnly with
            | true => exact ⟨rfl, [], rfl⟩
            | false =>
              cases hfault : faults.opening (level2File :: dest) with
              | true => simp
              | false => simp [hopen]

/-! ## Where an image goes -/

theorem saveInto_sublist (faults : Faults) (dirname filename image : Bytes) (paths : List Path) (fs : FileSystem) :
    (saveInto faults dirname filename image paths fs).2.Sublist paths := by
  induction paths generalizing fs with
  | nil => exact .slnil
  | cons path paths ih =>
    simp only [saveInto]
    split
    · exact List.nil_sublist _
    · split
      · exact List.nil_sublist _
      · split
        · exact (ih _).cons_cons path
        · exact (ih _).cons path

/-- An image is saved nowhere but in the active directories. -/
theorem imageStackerTask_saved (cfg : Config) (faults : Faults) (streamId : Int) (cameraId image : Bytes)
    (s : State) : (imageStackerTask cfg faults streamId cameraId image s).2.Sublist s.backupDirPath :=
  saveInto_sublist _ _ _ _ _ _

end FlameSdd.FileStacker
