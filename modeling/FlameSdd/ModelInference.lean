import FlameSdd.LineSignal
import FlameSdd.SysLib.FileSystem
/-!
# Inference jobs

`SDDModelInference` keeps the Level2 data of the pending bar and puts a job on
its queue for every line signal with both HMD lines off and the line online.
Nothing remembers that a bar has its job: `oneJobPerBar_iff`.
-/
open SysLib FlameSdd.LineSignal

namespace FlameSdd.ModelInference

/-! ## The pending bar -/

/-- `__job_lv2_info`, once `add_job_lv2_info` has set it. -/
structure JobInfo where
  date : Bytes
  mtStandHeight : Int
  mtStandWidth : Int
  mtNo : Bytes
  lotNo : Bytes
  mtTypeCd : Bytes
  mtStandRaw : Bytes
  mtStandNorm : Bytes
  deriving DecidableEq

/-- The parameters of the inference. -/
structure Config where
  imagesRootPath : Path
  outRootPath : Path
  saveVisual : Bool

/-- A job on the queue, with the Level2 data copied into it. -/
structure Job where
  sddInPath : Path
  sddOutPath : Path
  saveVisual : Bool
  info : JobInfo
  deriving DecidableEq

/-- The name of the directory that `run` expects for a bar. -/
def targetName (info : JobInfo) : Bytes := info.date ++ ascii "_" ++ info.mtStandNorm

def targetDir (root : Path) (info : JobInfo) : Path :=
  (root.join (Utf8.takeChars 8 info.date)).join (targetName info)

def job (cfg : Config) (info : JobInfo) : Job where
  sddInPath := targetDir cfg.imagesRootPath info
  sddOutPath := targetDir cfg.outRootPath info
  saveVisual := cfg.saveVisual
  info := info

/-- The lines report that a bar has left. -/
def barLeft (v : Signals) : Bool := !v.hmdSignal1On && !v.hmdSignal2On && v.onlineSignalOn

/-- `run` on one message of the publisher: the job it puts on the queue. -/
def run (cfg : Config) (v : Signals) (jobLv2Info : Option JobInfo) : Option Job :=
  if barLeft v then jobLv2Info.map (job cfg) else none

/-! ## Copies of defect images -/

/-- The standard in the names of `copy_defect_images`. -/
def copyStand (info : JobInfo) : Bytes :=
  if info.mtStandNorm.isEmpty then
    ascii "Unknown" ++ decimalInt info.mtStandWidth ++ ascii "X" ++ decimalInt info.mtStandHeight
  else info.mtStandNorm

/-- The name of the directory that `copy_defect_images` copies from. -/
def copyDirname (info : JobInfo) : Bytes := info.date ++ ascii "_" ++ copyStand info

/-- `new_filename`, with the label `x` that stands for an unlabeled defect. -/
def newFilename (info : JobInfo) (imageFilename : Bytes) : Bytes :=
  info.date ++ ascii "_" ++ copyStand info ++ ascii "_" ++ info.mtNo ++ ascii "_" ++ imageFilename ++ ascii "_x.jpg"

/-- `src` and `dst` of one copy. -/
def copyTask (info : JobInfo) (imageFilename : Bytes) : Bytes × Bytes :=
  let cameraId := (imageFilename.splitOn 0x5f).headD []
  (ascii "/volume1/sdd/" ++ Utf8.takeChars 8 info.date ++ ascii "/" ++ copyDirname info ++ ascii "/camera_" ++
      cameraId ++ ascii "/" ++ imageFilename ++ ascii "_x.jpg",
    ascii "/volume1/sdd/defect_images/" ++ newFilename info imageFilename)

/-! ## Runs -/

/-- A call of `add_job_lv2_info`, or a line signal. -/
inductive Event where
  | addJobLv2Info (info : JobInfo)
  | lineSignal (value : Signals)
  deriving DecidableEq

/-- What the events do to `__job_lv2_info`; a job that was put changes nothing. -/
def step (jobLv2Info : Option JobInfo) : Event → Option JobInfo
  | .addJobLv2Info info => some info
  | .lineSignal _ => jobLv2Info

/-- The job that an event puts on the queue. -/
def put (cfg : Config) (jobLv2Info : Option JobInfo) : Event → Option Job
  | .addJobLv2Info _ => none
  | .lineSignal v => run cfg v jobLv2Info

def isAdd : Event → Bool
  | .addJobLv2Info _ => true
  | .lineSignal _ => false

def isBarLeft : Event → Bool
  | .addJobLv2Info _ => false
  | .lineSignal v => barLeft v

def signals (evs : List Event) : List Signals :=
  evs.filterMap fun
    | .addJobLv2Info _ => none
    | .lineSignal v => some v

/-- Two jobs for the same images have an `add_job_lv2_info` between them. -/
def OneJobPerBar (cfg : Config) (evs : List Event) : Prop :=
  ∀ pre a mid b post, evs = pre ++ a :: mid ++ b :: post → ∀ ja jb,
    put cfg (runs step none pre) a = some ja → put cfg (runs step none (pre ++ a :: mid)) b = some jb →
    ja.sddInPath = jb.sddInPath → ∃ e ∈ mid, isAdd e = true

/-- Once there is a pending bar, two signals that a bar has left have an
`add_job_lv2_info` between them. -/
def Separated (evs : List Event) : Prop :=
  ∀ pre a mid b post, evs = pre ++ a :: mid ++ b :: post → isBarLeft a = true → isBarLeft b = true →
    (∃ e ∈ pre, isAdd e = true) → ∃ e ∈ mid, isAdd e = true

/-- The pending bar stays while none is added. -/
theorem runs_of_no_add {s : Option JobInfo} {evs : List Event} (h : ∀ e ∈ evs, isAdd e = false) :
    runs step s evs = s := by
  induction evs generalizing s with
  | nil => rfl
  | cons e evs ih =>
    cases e with
    | addJobLv2Info info => exact absurd (h _ List.mem_cons_self) (by simp [isAdd])
    | lineSignal v => exact ih fun e he => h e (List.mem_cons_of_mem _ he)

theorem isSome_runs {s : Option JobInfo} {evs : List Event} (h : s.isSome ∨ ∃ e ∈ evs, isAdd e = true) :
    (runs step s evs).isSome := by
  induction evs generalizing s with
  | nil => simpa using h
  | cons e evs ih =>
    cases e with
    | addJobLv2Info info => exact ih (.inl rfl)
    | lineSignal v =>
      apply ih
      rcases h with h | ⟨e, he, hadd⟩
      · exact .inl h
      · rcases List.mem_cons.1 he with rfl | he
        · simp [isAdd] at hadd
        · exact .inr ⟨e, he, hadd⟩

/-- There is a pending bar exactly after the first `add_job_lv2_info`. -/
theorem isSome_runs_none_iff (evs : List Event) :
    (runs step none evs).isSome ↔ ∃ e ∈ evs, isAdd e = true := by
  constructor
  · intro h
    by_contra hno
    push Not at hno
    rw [runs_of_no_add (fun e he => by simpa using hno e he)] at h
    cases h
  · intro h
    exact isSome_runs (.inr h)

theorem put_eq_some_iff {cfg : Config} {s : Option JobInfo} {e : Event} {j : Job} :
    put cfg s e = some j ↔ isBarLeft e = true ∧ ∃ info, s = some info ∧ job cfg info = j := by
  cases e with
  | addJobLv2Info info => simp [put, isBarLeft]
  | lineSignal v => simp [put, isBarLeft, run]

/-- No two jobs are put for the same images of one bar if and only if no two
signals report that it has left. -/
theorem oneJobPerBar_iff (cfg : Config) (evs : List Event) : OneJobPerBar cfg evs ↔ Separated evs := by
  constructor
  · rintro h pre a mid b post hevs ha hb hadd
    by_contra hno
    push Not at hno
    have hmid : ∀ e ∈ mid, isAdd e = false := fun e he => by simpa using hno e he
    obtain ⟨info, hinfo⟩ := Option.isSome_iff_exists.1 ((isSome_runs_none_iff pre).2 hadd)
    -- without an add in between, both signals find the same bar pending
    have hsame : runs step none (pre ++ a :: mid) = some info := by
      cases a with
      | addJobLv2Info _ => simp [isBarLeft] at ha
      | lineSignal v =>
        rw [runs_append, runs_cons, hinfo]
        exact runs_of_no_add hmid
    obtain ⟨e, he, hadd'⟩ := h pre a mid b post hevs _ _
      (put_eq_some_iff.2 ⟨ha, info, hinfo, rfl⟩) (put_eq_some_iff.2 ⟨hb, info, hsame, rfl⟩) rfl
    exact hno e he hadd'
  · rintro h pre a mid b post hevs ja jb hja hjb -
    obtain ⟨ha, info, hinfo, -⟩ := put_eq_some_iff.1 hja
    obtain ⟨hb, -⟩ := put_eq_some_iff.1 hjb
    refine h pre a mid b post hevs ha hb ((isSome_runs_none_iff pre).1 ?_)
    rw [hinfo]
    rfl

/-- What the publisher guarantees of the signals. -/
def Changing (evs : List Event) : Prop := (Signals.off :: signals evs).IsChain (· ≠ ·)

/-- A bar that has left, before and after the offline line changes. -/
def leftTwice : List Event :=
  [.addJobLv2Info ⟨[], 0, 0, [], [], [], [], []⟩, .lineSignal ⟨false, false, true, false⟩,
    .lineSignal ⟨false, false, true, true⟩]

/-- It gets two jobs. -/
theorem two_jobs_for_one_bar : ¬ ∀ (cfg : Config) (evs : List Event), Changing evs → OneJobPerBar cfg evs := by
  intro h
  have hone := h ⟨[], [], false⟩ leftTwice (by simp [Changing, leftTwice, signals, Signals.off])
  obtain ⟨e, he, -⟩ := hone (leftTwice.take 1) (.lineSignal ⟨false, false, true, false⟩) []
    (.lineSignal ⟨false, false, true, true⟩) [] rfl _ _ rfl rfl rfl
  exact List.not_mem_nil he

end FlameSdd.ModelInference
