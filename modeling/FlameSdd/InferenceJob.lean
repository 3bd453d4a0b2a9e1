import FlameSdd.InferenceRun
import FlameSdd.StorageTargets
/-!
# A job and the stacker

The stacker writes images into the bar's directory while its job runs, and the
directory is deleted with whatever it holds then. Two things go wrong: an image
that comes after its folder was listed is deleted without a row, and a worker
that fails puts no end marker, so the collector waits forever.
-/
open SysLib FlameSdd.InferenceRun

namespace FlameSdd.InferenceJob

/-! ## The job -/

/-- Where the job stands after its processes were started. -/
inductive Main where
  | collecting
  /-- `result.csv` has these rows. -/
  | reported (csv : List Row)
  /-- `rmtree` is running. -/
  | deleting (csv : List Row)
  /-- The deletion is over, or an exception left the job before it. -/
  | ended (csv : List Row)

def Main.csv : Main → List Row
  | .collecting => []
  | .reported csv | .deleting csv | .ended csv => csv

def Main.isEnded : Main → Bool
  | .ended _ => true
  | _ => false

structure State where
  folders : Folders
  inspection : Inspection
  main : Main
  /-- The images that were unlinked. -/
  removed : List Image

def emptyFolder : Folder := ⟨[], List.nodup_nil⟩

def init : State := ⟨fun _ => emptyFolder, .init, .collecting, []⟩

inductive Event where
  | inspect (e : InspectionEvent)
  /-- The stacker saves an image of a camera. -/
  | stack (cam : Nat) (cameraId : Bytes) (count : Nat)
  | writeCsv
  /-- An exception in `__run_parallel_inference`. -/
  | abort
  | delete
  /-- `rmtree` comes to an image. -/
  | unlink (image : Image)
  | deleted

/-- A file that is written over keeps its place. -/
def write (folder : Folder) (name : Bytes) : Folder :=
  if h : name ∈ folder.names then folder
  else ⟨folder.names ++ [name], by
    rw [← List.concat_eq_append]
    exact folder.nodup.concat h⟩

def erase (folder : Folder) (name : Bytes) : Folder := ⟨folder.names.erase name, folder.nodup.erase name⟩

def step (s : State) : Event → State
  | .inspect e => { s with inspection := s.inspection.step s.folders e }
  | .stack cam cameraId count =>
    { s with
      folders := Function.update s.folders cam
        (write (s.folders cam) (StorageTargets.imageFilename cameraId count)) }
  | .writeCsv =>
    match s.main with
    | .collecting =>
      if s.inspection.endSignals = cameraGroups.length then { s with main := .reported s.inspection.results } else s
    | _ => s
  | .abort =>
    match s.main with
    | .collecting | .reported _ => { s with main := .ended s.main.csv }
    | _ => s
  | .delete =>
    match s.main with
    | .reported csv => { s with main := .deleting csv }
    | _ => s
  | .unlink image =>
    match s.main with
    | .deleting _ =>
      if image.2 ∈ (s.folders image.1).names then
        { s with
          folders := Function.update s.folders image.1 (erase (s.folders image.1) image.2)
          removed := s.removed ++ [image] }
      else s
    | _ => s
  | .deleted =>
    match s.main with
    | .deleting csv => { s with main := .ended csv }
    | _ => s

/-- Everything an event can do. -/
inductive Effect (s : State) : Event → State → Prop where
  | nothing {e} : Effect s e s
  | inspected {e inspection} : s.inspection.Effect s.folders inspection →
      Effect s (.inspect e) { s with inspection := inspection }
  | stacked {cam cameraId count} : Effect s (.stack cam cameraId count)
      { s with
        folders := Function.update s.folders cam
          (write (s.folders cam) (StorageTargets.imageFilename cameraId count)) }
  | reported : s.main = .collecting → s.inspection.endSignals = cameraGroups.length →
      Effect s .writeCsv { s with main := .reported s.inspection.results }
  | ended {e} : Effect s e { s with main := .ended s.main.csv }
  | started {csv} : s.main = .reported csv → Effect s .delete { s with main := .deleting csv }
  | unlinked {csv image} : s.main = .deleting csv → image.2 ∈ (s.folders image.1).names →
      Effect s (.unlink image)
        { s with
          folders := Function.update s.folders image.1 (erase (s.folders image.1) image.2)
          removed := s.removed ++ [image] }

theorem effect (s : State) (e : Event) : Effect s e (step s e) := by
  cases e with
  | inspect e => exact .inspected (Inspection.effect s.folders s.inspection e)
  | stack cam cameraId count => exact .stacked
  | writeCsv =>
    cases hmain : s.main with
    | collecting =>
      by_cases hend : s.inspection.endSignals = cameraGroups.length
      · simp only [step, hmain, if_pos hend]
        exact .reported hmain hend
      · simp only [step, hmain, if_neg hend]
        exact .nothing
    | reported _ | deleting _ | ended _ =>
      simp only [step, hmain]
      exact .nothing
  | abort =>
    cases hmain : s.main with
    | collecting | reported _ =>
      simp only [step, hmain]
      rw [← hmain]
      exact .ended
    | deleting _ | ended _ =>
      simp only [step, hmain]
      exact .nothing
  | delete =>
    cases hmain : s.main with
    | reported csv =>
      simp only [step, hmain]
      exact .started hmain
    | collecting | deleting _ | ended _ =>
      simp only [step, hmain]
      exact .nothing
  | unlink image =>
    cases hmain : s.main with
    | deleting csv =>
      by_cases hmem : image.2 ∈ (s.folders image.1).names
      · simp only [step, hmain, if_pos hmem]
        rw [← hmain]
        exact .unlinked hmain hmem
      · simp only [step, hmain, if_neg hmem]
        exact .nothing
    | collecting | reported _ | ended _ =>
      simp only [step, hmain]
      exact .nothing
  | deleted =>
    cases hmain : s.main with
    | deleting csv =>
      have hcsv : csv = s.main.csv := by rw [hmain, Main.csv]
      simp only [step, hmain]
      rw [hcsv]
      exact .ended
    | collecting | reported _ | ended _ =>
      simp only [step, hmain]
      exact .nothing

/-! ## One end marker for each worker -/

/-- The worker put its rows and then one end marker. -/
def EndsWithMarker (w : InferenceRun.Worker) : Prop := ∃ rows : List Row, w.output.sent = rows.map some ++ [none]

def State.raises (s : State) (w : Nat) : Event → Bool
  | .inspect e => s.inspection.raises w e
  | _ => false

/-- No worker raises an exception. -/
def State.NoRaise (s : State) (e : Event) : Prop := ∀ w ∈ List.range cameraGroups.length, s.raises w e = false

theorem Effect.flow {s s' : State} {e : Event} (he : Effect s e s') (h : s.inspection.Flow) : s'.inspection.Flow := by
  cases he with
  | inspected he => exact he.flow h
  | nothing | stacked | reported | ended | started | unlinked => exact h

theorem flow_runs (evs : List Event) : (runs step init evs).inspection.Flow :=
  runs_inv (fun s => s.inspection.Flow) (fun s e h _ => (effect s e).flow h) Inspection.init_flow (stepsMeet_true _ _)

/-- Only an event of the inspection changes it. -/
theorem Effect.inspection_eq {s s' : State} {e : Event} (he : Effect s e s') (hne : ∀ e', e ≠ .inspect e') :
    s'.inspection = s.inspection := by
  cases he with
  | inspected => exact absurd rfl (hne _)
  | nothing | stacked | reported | ended | started | unlinked => rfl

theorem failed_step (s : State) (e : Event) {w : Nat} (hw : w < cameraGroups.length) :
    ((step s e).inspection.workers w).phase.failed = ((s.inspection.workers w).phase.failed || s.raises w e) := by
  cases e with
  | inspect e => exact Inspection.failed_step s.folders s.inspection e hw
  | stack | writeCsv | abort | delete | unlink | deleted =>
    rw [(effect s _).inspection_eq]
    · exact (Bool.or_false _).symm
    · exact nofun

/-- A worker that has ended put its marker if and only if it has not failed. -/
theorem endsWithMarker_iff {w : InferenceRun.Worker} (h : w.Inv) (hexited : w.phase.isExited = true) :
    EndsWithMarker w ↔ w.phase.failed = false := by
  obtain ⟨hputs, -⟩ := h
  rcases hphase : w.phase with _ | todo | ⟨pending, raised⟩ | raised <;> rw [hphase] at hputs hexited
  case exited =>
    cases raised with
    | false => exact iff_of_true ⟨w.rows, hputs⟩ rfl
    | true =>
      refine iff_of_false ?_ (by decide)
      rintro ⟨rows, hrows⟩
      have hnone : none ∈ w.output.sent := by
        rw [hrows]
        exact List.mem_append_right _ (List.mem_singleton_self _)
      have hsent : w.output.sent = w.rows.map some := hputs.trans (List.append_nil _)
      rw [hsent] at hnone
      obtain ⟨row, -, hrow⟩ := List.mem_map.1 hnone
      cases hrow
  all_goals cases hexited

/-- A worker has not failed if and only if it raised no exception. -/
theorem failed_runs_iff {w : Nat} (hw : w ∈ List.range cameraGroups.length) (evs : List Event) :
    ((runs step init evs).inspection.workers w).phase.failed = false ↔
      StepsMeet step (fun s e => s.raises w e = false) init evs := by
  have hstep (s : State) (e : Event) :
      ((step s e).inspection.workers w).phase.failed = false ↔
        (s.inspection.workers w).phase.failed = false ∧ s.raises w e = false := by
    rw [failed_step s e (List.mem_range.1 hw), Bool.or_eq_false_iff]
  rw [runs_iff_stepsMeet (I := fun s : State => (s.inspection.workers w).phase.failed = false) hstep]
  exact and_iff_right rfl

/-- A worker that has ended put one end marker after its rows if and only if it
raised no exception; and when nothing is left to take, the collector has as many
markers as it waits for if and only if no worker raised one. -/
theorem end_marker_iff (evs : List Event) :
    let s := runs step init evs
    (∀ w ∈ List.range cameraGroups.length, (s.inspection.workers w).phase.isExited = true →
      (EndsWithMarker (s.inspection.workers w) ↔ StepsMeet step (fun s e => s.raises w e = false) init evs)) ∧
    (s.inspection.Drained →
      (s.inspection.endSignals = cameraGroups.length ↔ StepsMeet step State.NoRaise init evs)) := by
  intro s
  constructor
  · intro w hw hexited
    rw [endsWithMarker_iff ((flow_runs evs).workers w) hexited]
    exact failed_runs_iff hw evs
  · intro hdrained
    rw [(flow_runs evs).drained_iff hdrained, Inspection.NoneFailed]
    exact (forall₂_congr fun w hw => failed_runs_iff hw evs).trans (stepsMeet_forall_mem_iff _ _).symm

/-- Worker 0 cannot load its model, and the others have no images. -/
def failedLoad : List Event :=
  .inspect (.worker 0 (.raise 0)) :: ([1, 2, 3, 4].flatMap fun w => workerRun w 0).map .inspect

/-- It puts no end marker, and the collector waits for a fifth one. -/
theorem no_end_marker :
    (¬ ∀ evs, ∀ w ∈ List.range cameraGroups.length,
      ((runs step init evs).inspection.workers w).phase.isExited = true →
        EndsWithMarker ((runs step init evs).inspection.workers w)) ∧
    ¬ ∀ evs, (runs step init evs).inspection.Drained →
      (runs step init evs).inspection.endSignals = cameraGroups.length := by
  constructor
  · intro h
    obtain ⟨rows, hrows⟩ := h failedLoad 0 (by decide) (by decide +kernel)
    have hsent : ((runs step init failedLoad).inspection.workers 0).output.sent = [] := by decide +kernel
    rw [hsent] at hrows
    exact List.append_ne_nil_of_right_ne_nil _ (List.cons_ne_nil _ _) hrows.symm
  · intro h
    have hdrained : (runs step init failedLoad).inspection.Drained := by
      rw [Inspection.Drained]
      decide +kernel
    exact absurd (h failedLoad hdrained) (by decide +kernel)

/-! ## Images that are deleted -/

/-- An image is saved before its worker lists the folder for it, or over one that
is there, or when nothing will be deleted any more: a worker has failed, or the
deletion is over. -/
def State.InTime (s : State) : Event → Prop
  | .stack cam cameraId count =>
    let name := StorageTargets.imageFilename cameraId count
    (∃ w ∈ List.range cameraGroups.length,
      ∃ p ∈ (s.inspection.workers w).todo (cams w), p.1 = cam ∧ globs p.2 name = true) ∨
    name ∈ (s.folders cam).names ∨
    (∃ w ∈ List.range cameraGroups.length, (s.inspection.workers w).phase.failed = true) ∨ s.main.isEnded = true
  | _ => True

instance (s : State) : (e : Event) → Decidable (s.InTime e)
  | .stack _ _ _ => inferInstanceAs (Decidable (_ ∨ _ ∨ _ ∨ _))
  | .inspect _ | .writeCsv | .abort | .delete | .unlink _ | .deleted => .isTrue trivial

structure Inv (s : State) : Prop where
  flow : s.inspection.Flow
  covered : s.main.isEnded = false → ∀ image : Image, image.2 ∈ (s.folders image.1).names →
    ∃ w ∈ List.range cameraGroups.length, (s.inspection.workers w).Covers (cams w) image
  reported : ∀ csv, s.main = .reported csv ∨ s.main = .deleting csv →
    s.inspection.endSignals = cameraGroups.length ∧ s.inspection.results = csv
  removed : ∀ image ∈ s.removed, image ∈ s.main.csv.map Row.image

theorem init_inv : Inv init where
  flow := Inspection.init_flow
  covered _ _ h := absurd h List.not_mem_nil
  reported _ := nofun
  removed := nofun

theorem mem_write {folder : Folder} {name name' : Bytes} :
    name' ∈ (write folder name).names ↔ name' ∈ folder.names ∨ name' = name := by
  rw [write]
  split
  · constructor
    · exact .inl
    · rintro (h | rfl)
      · exact h
      · assumption
  · exact List.mem_append.trans (or_congr_right List.mem_singleton)

/-- What holds of the images that are there and of a new one holds after a write. -/
theorem forall_of_write {P : Image → Prop} {folders : Folders} {cam : Nat} {name : Bytes}
    (h : ∀ image : Image, image.2 ∈ (folders image.1).names → P image) (hnew : P (cam, name)) (image : Image)
    (hmem : image.2 ∈ (Function.update folders cam (write (folders cam) name) image.1).names) : P image := by
  obtain ⟨cam', name'⟩ := image
  rcases eq_or_ne cam' cam with rfl | hne
  · rw [Function.update_self] at hmem
    rcases mem_write.1 hmem with hold | rfl
    · exact h (cam', name') hold
    · exact hnew
  · rw [Function.update_of_ne hne] at hmem
    exact h (cam', name') hmem

theorem mem_of_mem_erase {folders : Folders} {image image' : Image}
    (hmem : image'.2 ∈ (Function.update folders image.1 (erase (folders image.1) image.2) image'.1).names) :
    image'.2 ∈ (folders image'.1).names := by
  rcases eq_or_ne image'.1 image.1 with heq | hne
  · rw [heq, Function.update_self] at hmem
    rw [heq]
    exact List.mem_of_mem_erase hmem
  · rwa [Function.update_of_ne hne] at hmem

theorem Effect.inv {s s' : State} {e : Event} (he : Effect s e s') (h : Inv s) (hintime : s.InTime e) : Inv s' := by
  obtain ⟨hflow, hcovered, hreported, hremoved⟩ := h
  cases he with
  | nothing => exact ⟨hflow, hcovered, hreported, hremoved⟩
  | inspected he =>
    refine ⟨he.flow hflow, fun hmain image hmem => he.covers hmem (hcovered hmain image hmem), ?_, hremoved⟩
    intro csv hcsv
    obtain ⟨hend, hresults⟩ := hreported csv hcsv
    obtain ⟨hend', hresults'⟩ := he.at_end hend
    exact ⟨hend'.trans hend, hresults'.trans hresults⟩
  | stacked =>
    refine ⟨hflow, fun hmain => forall_of_write (hcovered hmain) ?_, hreported, hremoved⟩
    rcases hintime with ⟨w, hw, p, hp⟩ | hmem | ⟨w, hw, hfailed⟩ | hended
    · exact ⟨w, hw, fun _ => .inr ⟨p, hp⟩⟩
    · exact hcovered hmain _ hmem
    · exact ⟨w, hw, fun hok => by simp [hfailed] at hok⟩
    · rw [show s.main.isEnded = false from hmain] at hended
      cases hended
  | reported hmain hend =>
    have hnone : ∀ image, image ∉ s.removed := by
      intro image himage
      have hrow := hremoved image himage
      rw [hmain] at hrow
      exact List.not_mem_nil hrow
    refine ⟨hflow, fun _ => hcovered (by rw [hmain]; rfl), ?_, fun image himage => absurd himage (hnone image)⟩
    rintro csv (hcsv | hcsv) <;> cases hcsv
    exact ⟨hend, rfl⟩
  | ended => exact ⟨hflow, nofun, fun _ => nofun, hremoved⟩
  | @started csv hmain =>
    refine ⟨hflow, fun _ => hcovered (by rw [hmain]; rfl), ?_, ?_⟩
    · rintro csv' (hcsv | hcsv) <;> cases hcsv
      exact hreported csv (.inl hmain)
    · rw [hmain] at hremoved
      exact hremoved
  | @unlinked csv image hmain hmem =>
    obtain ⟨hend, hresults⟩ := hreported csv (.inr hmain)
    refine ⟨hflow, fun hnot image' hmem' => hcovered hnot image' (mem_of_mem_erase hmem'), hreported, ?_⟩
    intro image' himage'
    rcases List.mem_append.1 himage' with himage' | himage'
    · exact hremoved image' himage'
    · obtain rfl := List.mem_singleton.1 himage'
      have hrow := hflow.has_row hend (hcovered (by rw [hmain]; rfl) image' hmem)
      rw [hresults] at hrow
      show image' ∈ s.main.csv.map Row.image
      rwa [hmain]

/-- The job from its start to the deletion of this image. -/
def jobRun (images : Nat) : List Event :=
  ((List.range cameraGroups.length).flatMap fun w => workerRun w (if w = 0 then images else 0)).map .inspect ++
    [.writeCsv, .delete]

end FlameSdd.InferenceJob
