import FlameSdd.ModelInference
import FlameSdd.SysLib.Channel
/-!
# The loop over the jobs

`__inference` takes one job after the other for as long as the program runs.
There is no `try` around a job, so an exception that leaves
`__run_parallel_inference` ends the thread: `loop_survives_iff`.
-/
open SysLib FlameSdd.ModelInference

namespace FlameSdd.InferenceLoop

/-! ## One job -/

/-- What `__run_parallel_inference` does one after the other. -/
inductive Stage where
  | countImages
  | startProcesses
  | collectResults
  | joinProcesses
  | makedirs
  | writeCsv
  | emitResult
  | readCsv
  | renameFiles
  | copyDefectImages
  | pushJobComplete
  deriving DecidableEq

def runParallelInference : List Stage :=
  [.countImages, .startProcesses, .collectResults, .joinProcesses, .makedirs, .writeCsv, .emitResult, .readCsv,
    .renameFiles, .copyDefectImages, .pushJobComplete]

/-- `copy_defect_images` logs its exceptions and returns 0. -/
def Stage.catches : Stage → Bool
  | .copyDefectImages => true
  | _ => false

/-! ## The loop -/

/-- The thread between two jobs, in a job with the stages that are left, or
ended by an exception. -/
inductive Thread where
  | waiting
  | running (job : Job) (stages : List Stage)
  | ended (job : Job)

/-- The job that was taken and is not done. -/
def Thread.current : Thread → List Job
  | .waiting => []
  | .running job _ | .ended job => [job]

/-- The queue of jobs, with those taken so far, the values of `working` that
were emitted, and the directories that were handed to
`__delete_directory_background`. -/
structure State where
  jobQueue : Channel Job
  thread : Thread
  working : List Bool
  deleted : List Path

def init : State := ⟨.empty, .waiting, [], []⟩

inductive Event where
  | put (job : Job)
  /-- A turn of the loop: both paths are in every job of the queue. -/
  | turn
  /-- The stage ends, maybe by an exception; after the last one the job is done. -/
  | stage (exception : Bool)

def step (s : State) : Event → State
  | .put job => { s with jobQueue := s.jobQueue.send job }
  | .turn =>
    match s.thread, s.jobQueue.next with
    | .waiting, some job =>
      { s with
        jobQueue := s.jobQueue.deliver
        thread := .running job runParallelInference
        working := s.working ++ [true] }
    | _, _ => s
  | .stage exception =>
    match s.thread with
    | .running job (stage :: stages) =>
      if exception && !stage.catches then { s with thread := .ended job }
      else { s with thread := .running job stages }
    | .running job [] =>
      { s with thread := .waiting, working := s.working ++ [false], deleted := s.deleted ++ [job.sddInPath] }
    | _ => s

/-- An exception leaves the job. -/
def State.raises (s : State) : Event → Bool
  | .stage exception =>
    match s.thread with
    | .running _ (stage :: _) => exception && !stage.catches
    | _ => false
  | _ => false

/-- Everything an event can do, and whether an exception leaves the job. -/
inductive Effect (s : State) : Bool → State → Prop where
  | nothing : Effect s false s
  | put (job : Job) : Effect s false { s with jobQueue := s.jobQueue.send job }
  | taken {job} : s.thread = .waiting → s.jobQueue.next = some job →
      Effect s false
        { s with
          jobQueue := s.jobQueue.deliver
          thread := .running job runParallelInference
          working := s.working ++ [true] }
  | passed {job stage stages} : s.thread = .running job (stage :: stages) →
      Effect s false { s with thread := .running job stages }
  | raised {job stages} : s.thread = .running job stages → Effect s true { s with thread := .ended job }
  | done {job} : s.thread = .running job [] →
      Effect s false
        { s with thread := .waiting, working := s.working ++ [false], deleted := s.deleted ++ [job.sddInPath] }

theorem effect (s : State) (e : Event) : Effect s (s.raises e) (step s e) := by
  cases e with
  | put job => exact .put job
  | turn =>
    cases hthread : s.thread with
    | waiting =>
      cases hnext : s.jobQueue.next with
      | some job =>
        simp only [step, hthread, hnext]
        exact .taken hthread hnext
      | none =>
        simp only [step, hthread, hnext]
        exact .nothing
    | running _ _ | ended _ =>
      simp only [step, hthread]
      exact .nothing
  | stage exception =>
    cases hthread : s.thread with
    | running job stages =>
      cases stages with
      | nil =>
        simp only [step, State.raises, hthread]
        exact .done hthread
      | cons stage stages =>
        simp only [step, State.raises, hthread]
        cases exception && !stage.catches with
        | true => exact .raised hthread
        | false => exact .passed hthread
    | waiting | ended _ =>
      simp only [step, State.raises, hthread]
      exact .nothing

/-- The last status tells whether the thread is in a job, and the directories of
all jobs before it were deleted. -/
structure Inv (s : State) : Prop where
  working : s.working.getLast? = some true ↔ s.thread.current ≠ []
  deleted : s.deleted ++ s.thread.current.map Job.sddInPath = s.jobQueue.taken.map Job.sddInPath

theorem init_inv : Inv init := ⟨by decide, rfl⟩

theorem Effect.inv {s s' : State} {raises : Bool} (he : Effect s raises s') (h : Inv s) : Inv s' := by
  obtain ⟨hworking, hdeleted⟩ := h
  cases he with
  | nothing => exact ⟨hworking, hdeleted⟩
  | put job =>
    refine ⟨hworking, ?_⟩
    rw [Channel.taken_send]
    exact hdeleted
  | taken hthread hnext =>
    refine ⟨by simp [Thread.current], ?_⟩
    rw [hthread] at hdeleted
    rw [Channel.taken_deliver hnext, List.map_append, ← hdeleted]
    simp [Thread.current]
  | passed hthread | raised hthread =>
    rw [hthread] at hworking hdeleted
    exact ⟨hworking, hdeleted⟩
  | done hthread =>
    rw [hthread] at hdeleted
    refine ⟨by simp [Thread.current], ?_⟩
    simpa [Thread.current] using hdeleted

/-! ## Jobs after one that failed -/

/-- The loop can do nothing until a job is put. -/
def State.Stuck (s : State) : Prop := ∀ e, (∀ job, e ≠ .put job) → step s e = s

/-- Every job that was put is taken before the loop gets stuck, and outside the
jobs the last status is False. -/
structure State.InspectsOn (s : State) : Prop where
  attempted : s.Stuck → s.jobQueue.next = none
  working : (∀ job stages, s.thread ≠ .running job stages) → s.working.getLast? ≠ some true

theorem inspectsOn_iff {s : State} (h : Inv s) : s.InspectsOn ↔ ∀ job, s.thread ≠ .ended job := by
  constructor
  · rintro ⟨-, hworking⟩ job hended
    refine hworking (fun job' stages hrunning => ?_) (h.working.2 ?_)
    · rw [hended] at hrunning
      cases hrunning
    · rw [hended]
      exact List.cons_ne_nil _ _
  · intro hended
    cases hthread : s.thread with
    | waiting =>
      refine ⟨fun hstuck => ?_, fun _ hlast => ?_⟩
      · by_contra hnext
        obtain ⟨job, hjob⟩ := Option.ne_none_iff_exists'.1 hnext
        have hstep := congrArg State.thread (hstuck .turn nofun)
        simp only [step, hthread, hjob] at hstep
        cases hstep
      · have hcurrent := h.working.1 hlast
        rw [hthread] at hcurrent
        exact hcurrent rfl
    | running job stages =>
      refine ⟨fun hstuck => ?_, fun hnot => absurd hthread (hnot job stages)⟩
      have hstep := congrArg State.thread (hstuck (.stage false) nofun)
      cases stages with
      | nil =>
        simp only [step, hthread] at hstep
        cases hstep
      | cons stage stages =>
        simp only [step, hthread, Bool.false_and] at hstep
        rw [if_neg Bool.false_ne_true] at hstep
        injection hstep with _ hstages
        exact absurd hstages.symm (List.cons_ne_self _ _)
    | ended job => exact absurd hthread (hended job)

theorem ended_stuck {s : State} {job : Job} (h : s.thread = .ended job) : s.Stuck := by
  intro e hput
  cases e with
  | put job => exact absurd rfl (hput job)
  | turn | stage => simp only [step, h]

/-- After an exception nothing is taken or emitted any more. -/
theorem ended_stays {s : State} {job : Job} (h : s.thread = .ended job) (evs : List Event) :
    (runs step s evs).thread = .ended job ∧ (runs step s evs).jobQueue.delivered = s.jobQueue.delivered ∧
      (runs step s evs).working = s.working := by
  refine runs_inv (P := fun _ _ => True)
    (fun s' : State => s'.thread = .ended job ∧ s'.jobQueue.delivered = s.jobQueue.delivered ∧ s'.working = s.working)
    ?_ ⟨h, rfl, rfl⟩ (stepsMeet_true _ _)
  rintro s' e ⟨hthread, hdelivered, hworking⟩ -
  have he := effect s' e
  generalize step s' e = s'', s'.raises e = raises at he
  cases he with
  | nothing | put => exact ⟨hthread, hdelivered, hworking⟩
  | taken hother | passed hother | raised hother | done hother =>
    rw [hthread] at hother
    cases hother

/-- Every job is attempted, and the last status outside the jobs is False, all
along a run exactly when no exception leaves a job. -/
theorem loop_survives_iff (evs : List Event) :
    StepsMeet step (fun s e => (step s e).InspectsOn) init evs ↔
      StepsMeet step (fun s e => s.raises e = false) init evs := by
  have hinspects : init.InspectsOn := (inspectsOn_iff init_inv).2 nofun
  refine stepsMeet_inv_iff (I := State.InspectsOn) (J := Inv) (fun s e h => (effect s e).inv h) (fun s e hinv hon => ?_)
    init_inv hinspects evs
  have hnot := (inspectsOn_iff hinv).1 hon
  rw [inspectsOn_iff ((effect s e).inv hinv)]
  have he := effect s e
  generalize step s e = s', s.raises e = raises at he
  cases he with
  | nothing | put => exact iff_of_true hnot rfl
  | taken | passed | done => exact iff_of_true nofun rfl
  | @raised job => exact iff_of_false (fun h => h job rfl) nofun

def bar : JobInfo := ⟨ascii "20250804095316", 200, 200, [], [], [], [], ascii "200x200"⟩

/-- Two jobs, of which the first cannot make its result directory. -/
def failingFirst : List Event :=
  [.put (job ⟨[], [], false⟩ bar), .put (job ⟨[], [], false⟩ { bar with date := ascii "20250804101500" }), .turn,
    .stage false, .stage false, .stage false, .stage false, .stage true]

/-- The second job is never taken, and the status stays True. -/
theorem failed_job_ends_loop :
    (¬ ∀ evs, (runs step init evs).Stuck → (runs step init evs).jobQueue.next = none) ∧
      ¬ ∀ evs, (∀ job stages, (runs step init evs).thread ≠ .running job stages) →
        (runs step init evs).working.getLast? ≠ some true := by
  have hended : (runs step init failingFirst).thread = .ended (job ⟨[], [], false⟩ bar) := rfl
  constructor
  · intro h
    exact absurd (h failingFirst (ended_stuck hended)) (Option.some_ne_none _)
  · intro h
    refine h failingFirst (fun job stages hrunning => ?_) rfl
    rw [hended] at hrunning
    cases hrunning

end FlameSdd.InferenceLoop
