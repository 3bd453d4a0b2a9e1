import FlameSdd.SysLib.Bytes
import FlameSdd.SysLib.Channel
import FlameSdd.SysLib.Merge
import FlameSdd.SysLib.Runs
import Mathlib.Data.List.ReduceOption
/-!
# An inference worker

One of the processes that `__run_parallel_inference` starts. It lists the folders
of its cameras, has its images processed by a pool of threads, and puts a row
for each image and at last an end marker.
-/
open SysLib

namespace FlameSdd.InferenceRun

/-! ## Images -/

/-- The cameras of each worker, by `camera_groups`. -/
def cameraGroups : List (List Nat) := [[1, 5], [6, 10], [2, 4], [7, 9], [3, 8]]

def extensions : List Bytes := [ascii ".jpg", ascii ".jpeg", ascii ".JPG", ascii ".JPEG"]

/-- `glob` of `*` and an extension takes no hidden files. -/
def globs (ext name : Bytes) : Bool := name.head? ≠ some 0x2e && ext.isSuffixOf name

/-- A file that one of the four patterns takes. -/
def accepted (name : Bytes) : Bool := extensions.any fun ext => globs ext name

/-- An image, by its camera and its file name. -/
abbrev Image := Nat × Bytes

/-- The names in a directory, in the order they are listed. -/
structure Folder where
  names : List Bytes
  nodup : names.Nodup

/-- The folder of each camera. -/
abbrev Folders := Nat → Folder

/-- What one `glob` adds to `image_tasks`. -/
def globbed (folders : Folders) (cam : Nat) (ext : Bytes) : List Image :=
  ((folders cam).names.filter (globs ext)).map fun name => (cam, name)

/-- The folders and patterns that a worker goes through. -/
def patterns (cams : List Nat) : List (Nat × Bytes) := cams.flatMap fun cam => extensions.map fun ext => (cam, ext)

/-! ## A worker -/

/-- A row of `results`, with the image it is about, whose name is the first
column, and the last column. -/
structure Row where
  image : Image
  result : Int
  deriving DecidableEq

/-- The row that `process_image` puts: the prediction if the `try` block gets to
one, else the row of its `except`. -/
def processImage (image : Image) (predicted : Option Int) : Row := ⟨image, predicted.getD (-1)⟩

/-- What is put on the queue: a row, or `None` at the end. -/
abbrev Item := Option Row

/-- Where `__infer_worker` stands. -/
inductive Phase where
  /-- Loading the classifier and creating the session. -/
  | loading
  /-- The folders and patterns that are not listed yet. -/
  | listing (todo : List (Nat × Bytes))
  /-- The images whose future is not done, and whether an exception was raised. -/
  | pool (pending : List Image) (raised : Bool)
  /-- The process ended, by an exception or not. -/
  | exited (raised : Bool)

structure Worker where
  phase : Phase
  imageTasks : List Image
  /-- What the worker put, and how much of it reached the queue. -/
  output : Channel Item

def Worker.init : Worker := ⟨.loading, [], .empty⟩

inductive WorkerEvent where
  | load
  | list
  /-- `process_image` on the `i`-th pending image. -/
  | process (i : Nat) (predicted : Option Int)
  /-- An exception leaves `process_image`, after its row was put or with none. -/
  | escape (i : Nat) (put : Option (Option Int))
  /-- Any other exception in `__infer_worker`. The pool still ends what was
  submitted to it. -/
  | raise (submitted : Nat)
  /-- The pool is done. -/
  | leave

/-- `result_queue.put`. -/
def Worker.put (w : Worker) (item : Item) : Worker := { w with output := w.output.send item }

@[simp] theorem Worker.phase_put (w : Worker) (item : Item) : (w.put item).phase = w.phase := rfl

def Worker.step (cams : List Nat) (folders : Folders) (w : Worker) : WorkerEvent → Worker
  | .load =>
    match w.phase with
    | .loading => { w with phase := .listing (patterns cams) }
    | _ => w
  | .list =>
    match w.phase with
    | .listing [] => { w with phase := .pool w.imageTasks false }
    | .listing ((cam, ext) :: todo) =>
      { w with phase := .listing todo, imageTasks := w.imageTasks ++ globbed folders cam ext }
    | _ => w
  | .process i predicted =>
    match w.phase with
    | .pool pending raised =>
      match pending[i]? with
      | some image => { w with phase := .pool (pending.eraseIdx i) raised }.put (some (processImage image predicted))
      | none => w
    | _ => w
  | .escape i put =>
    match w.phase with
    | .pool pending _ =>
      match pending[i]?, put with
      | some image, some predicted =>
        { w with phase := .pool (pending.eraseIdx i) true }.put (some (processImage image predicted))
      | some _, none => { w with phase := .pool (pending.eraseIdx i) true }
      | none, _ => w
    | _ => w
  | .raise submitted =>
    match w.phase with
    | .pool pending _ => { w with phase := .pool (pending.take submitted) true }
    | .exited _ => w
    | _ => { w with phase := .exited true }
  | .leave =>
    match w.phase with
    -- `f.result()` raises what the future holds
    | .pool [] true => { w with phase := .exited true }
    | .pool [] false => { w with phase := .exited false }.put none
    | _ => w

def Phase.isExited : Phase → Bool
  | .exited _ => true
  | _ => false

/-- An exception was raised. -/
def Phase.failed : Phase → Bool
  | .pool _ raised => raised
  | .exited raised => raised
  | _ => false

/-- The event is an exception that the worker can raise here. -/
def Worker.raises (w : Worker) : WorkerEvent → Bool
  | .escape i _ =>
    match w.phase with
    | .pool pending _ => pending[i]?.isSome
    | _ => false
  | .raise _ => !w.phase.isExited
  | _ => false

/-- Everything a step of a worker can do, and whether it raises an exception. -/
inductive Worker.Effect (cams : List Nat) (folders : Folders) (w : Worker) : Bool → Worker → Prop where
  | nothing : Effect cams folders w false w
  | loaded : w.phase = .loading → Effect cams folders w false { w with phase := .listing (patterns cams) }
  | listed {cam ext todo} : w.phase = .listing ((cam, ext) :: todo) →
      Effect cams folders w false
        { w with phase := .listing todo, imageTasks := w.imageTasks ++ globbed folders cam ext }
  | submitted : w.phase = .listing [] → Effect cams folders w false { w with phase := .pool w.imageTasks false }
  | processed {pending raised i image} (row : Row) : w.phase = .pool pending raised → pending[i]? = some image →
      row.image = image →
      Effect cams folders w false ({ w with phase := .pool (pending.eraseIdx i) raised }.put (some row))
  | escapedLate {pending raised i image} (row : Row) : w.phase = .pool pending raised → pending[i]? = some image →
      row.image = image →
      Effect cams folders w true ({ w with phase := .pool (pending.eraseIdx i) true }.put (some row))
  | escaped {pending raised} (rest : List Image) : w.phase = .pool pending raised →
      Effect cams folders w true { w with phase := .pool rest true }
  | raised : (w.phase = .loading ∨ ∃ todo, w.phase = .listing todo) →
      Effect cams folders w true { w with phase := .exited true }
  | failed : w.phase = .pool [] true → Effect cams folders w false { w with phase := .exited true }
  | left : w.phase = .pool [] false → Effect cams folders w false ({ w with phase := .exited false }.put none)

theorem Worker.effect (cams : List Nat) (folders : Folders) (w : Worker) (e : WorkerEvent) :
    Effect cams folders w (w.raises e) (w.step cams folders e) := by
  obtain ⟨phase, imageTasks, output⟩ := w
  cases e with
  | load =>
    cases phase with
    | loading => exact .loaded rfl
    | listing _ | pool _ _ | exited _ => exact .nothing
  | list =>
    cases phase with
    | listing todo =>
      cases todo with
      | nil => exact .submitted rfl
      | cons p todo => exact .listed rfl
    | loading | pool _ _ | exited _ => exact .nothing
  | process i predicted =>
    cases phase with
    | pool pending raised =>
      cases hi : pending[i]? with
      | some image =>
        simp only [step, raises, hi]
        exact .processed _ rfl hi rfl
      | none =>
        simp only [step, raises, hi]
        exact .nothing
    | loading | listing _ | exited _ => exact .nothing
  | escape i put =>
    cases phase with
    | pool pending raised =>
      cases hi : pending[i]? with
      | some image =>
        cases put with
        | some predicted =>
          simp only [step, raises, hi]
          exact .escapedLate _ rfl hi rfl
        | none =>
          simp only [step, raises, hi]
          exact .escaped _ rfl
      | none =>
        simp only [step, raises, hi]
        exact .nothing
    | loading | listing _ | exited _ => exact .nothing
  | raise submitted =>
    cases phase with
    | pool pending raised => exact .escaped _ rfl
    | exited raised => exact .nothing
    | loading => exact .raised (.inl rfl)
    | listing todo => exact .raised (.inr ⟨todo, rfl⟩)
  | leave =>
    cases phase with
    | pool pending raised =>
      cases pending with
      | cons image pending => exact .nothing
      | nil =>
        cases raised with
        | true => exact .failed rfl
        | false => exact .left rfl
    | loading | listing _ | exited _ => exact .nothing

/-! ## What a worker has put -/

/-- The end marker is put when the worker ends without an exception. -/
def Phase.marker : Phase → List Item
  | .exited false => [none]
  | _ => []

theorem Phase.mem_marker {phase : Phase} {item : Item} (h : item ∈ phase.marker) : phase = .exited false := by
  rcases phase with _ | todo | ⟨pending, raised⟩ | ⟨_ | _⟩
  case exited.false => rfl
  all_goals exact absurd h List.not_mem_nil

def Worker.rows (w : Worker) : List Row := w.output.sent.reduceOption

@[simp] theorem Worker.rows_put (w : Worker) (item : Item) : (w.put item).rows = w.rows ++ item.toList := by
  rw [rows, put, Channel.sent_send, List.reduceOption_append, List.reduceOption_singleton, rows]

/-- Every task is pending or has its row, unless an exception was raised. -/
def Phase.Accounts (imageTasks inspected : List Image) : Phase → Prop
  | .loading => imageTasks = [] ∧ inspected = []
  | .listing _ => inspected = []
  | .pool pending raised => raised = false → (inspected ++ pending).Perm imageTasks
  | .exited raised => raised = false → inspected.Perm imageTasks

structure Worker.Inv (w : Worker) : Prop where
  puts : w.output.sent = w.rows.map some ++ w.phase.marker
  accounts : w.phase.Accounts w.imageTasks (w.rows.map Row.image)

theorem Worker.init_inv : Worker.init.Inv := ⟨rfl, rfl, rfl⟩

theorem Worker.Inv.deliver {w : Worker} (h : w.Inv) : { w with output := w.output.deliver }.Inv := by
  obtain ⟨hputs, haccounts⟩ := h
  have hrows : Worker.rows { w with output := w.output.deliver } = w.rows := by
    rw [Worker.rows, Channel.sent_deliver, Worker.rows]
  constructor
  · rw [hrows, Channel.sent_deliver]
    exact hputs
  · rw [hrows]
    exact haccounts

/-- A row of a pending image. -/
theorem Worker.put_row {w : Worker} {pending : List Image} {raised raised' : Bool} {i : Nat} {row : Row}
    (h : w.Inv) (hphase : w.phase = .pool pending raised) (hi : pending[i]? = some row.image)
    (hraised : raised' = false → raised = false) :
    ({ w with phase := .pool (pending.eraseIdx i) raised' }.put (some row)).Inv := by
  obtain ⟨hputs, haccounts⟩ := h
  rw [hphase] at hputs haccounts
  have hrows : Worker.rows ({ w with phase := .pool (pending.eraseIdx i) raised' }.put (some row)) =
      w.rows ++ [row] := rows_put _ _
  constructor
  · rw [hrows]
    simp only [Phase.marker, List.append_nil] at hputs
    simp [Worker.put, Phase.marker, hputs]
  · rw [hrows]
    intro hfalse
    obtain ⟨hlt, hget⟩ := List.getElem?_eq_some_iff.1 hi
    have hperm : (row.image :: pending.eraseIdx i).Perm pending := by
      rw [← hget]
      exact List.getElem_cons_eraseIdx_perm hlt
    have happ : ((w.rows ++ [row]).map Row.image ++ pending.eraseIdx i) =
        w.rows.map Row.image ++ (row.image :: pending.eraseIdx i) := by simp
    rw [happ]
    exact (hperm.append_left _).trans (haccounts (hraised hfalse))

theorem Worker.Effect.inv {cams : List Nat} {folders : Folders} {w w' : Worker} {raises : Bool}
    (he : Effect cams folders w raises w') (h : w.Inv) : w'.Inv := by
  cases he with
  | nothing => exact h
  | loaded hphase =>
    obtain ⟨hputs, haccounts⟩ := h
    rw [hphase] at hputs haccounts
    exact ⟨hputs, haccounts.2⟩
  | listed hphase =>
    obtain ⟨hputs, haccounts⟩ := h
    rw [hphase] at hputs haccounts
    exact ⟨hputs, haccounts⟩
  | submitted hphase =>
    obtain ⟨hputs, haccounts⟩ := h
    rw [hphase] at hputs haccounts
    refine ⟨hputs, fun _ => ?_⟩
    show (w.rows.map Row.image ++ w.imageTasks).Perm w.imageTasks
    rw [show w.rows.map Row.image = [] from haccounts]
    exact .refl _
  | processed row hphase hi himage => exact put_row h hphase (himage ▸ hi) id
  | escapedLate row hphase hi himage => exact put_row h hphase (himage ▸ hi) nofun
  | escaped rest hphase =>
    obtain ⟨hputs, -⟩ := h
    rw [hphase] at hputs
    exact ⟨hputs, nofun⟩
  | raised hphase =>
    obtain ⟨hputs, -⟩ := h
    rcases hphase with hphase | ⟨todo, hphase⟩ <;> rw [hphase] at hputs <;> exact ⟨hputs, nofun⟩
  | failed hphase =>
    obtain ⟨hputs, -⟩ := h
    rw [hphase] at hputs
    exact ⟨hputs, nofun⟩
  | left hphase =>
    obtain ⟨hputs, haccounts⟩ := h
    rw [hphase] at hputs haccounts
    have hrows : Worker.rows ({ w with phase := .exited false }.put none) = w.rows :=
      (rows_put _ _).trans (List.append_nil _)
    constructor
    · rw [hrows]
      simp only [Phase.marker, List.append_nil] at hputs
      simp [Worker.put, Phase.marker, ← hputs]
    · rw [hrows]
      intro _
      have hdone := haccounts rfl
      rwa [List.append_nil] at hdone

/-- An exception stays, and only an exception makes a worker fail. -/
theorem Worker.Effect.failed_eq {cams : List Nat} {folders : Folders} {w w' : Worker} {raises : Bool}
    (he : Effect cams folders w raises w') : w'.phase.failed = (w.phase.failed || raises) := by
  cases he with
  | nothing => simp
  | loaded hphase | listed hphase | submitted hphase | processed _ hphase | failed hphase | left hphase =>
    simp [hphase, Phase.failed, Worker.put]
  | escapedLate _ hphase | escaped _ hphase => simp [hphase, Phase.failed, Worker.put]
  | raised => simp [Phase.failed]

/-- What was put stays on the output. -/
theorem Worker.Effect.taken_eq {cams : List Nat} {folders : Folders} {w w' : Worker} {raises : Bool}
    (he : Effect cams folders w raises w') : w'.output.taken = w.output.taken := by
  cases he with
  | processed | escapedLate | left => exact Channel.taken_send _ _
  | nothing | loaded | listed | submitted | escaped | raised | failed => rfl

/-- The folders and patterns that a worker has not listed. -/
def Worker.todo (cams : List Nat) (w : Worker) : List (Nat × Bytes) :=
  match w.phase with
  | .loading => patterns cams
  | .listing todo => todo
  | _ => []

/-- Of a worker that does not fail, only a listing changes the tasks. -/
theorem Worker.Effect.tasks {cams : List Nat} {folders : Folders} {w w' : Worker} {raises : Bool}
    (he : Effect cams folders w raises w') (hfailed : w'.phase.failed = false) :
    (w'.imageTasks = w.imageTasks ∧ w'.todo cams = w.todo cams) ∨
      ∃ cam ext, w.todo cams = (cam, ext) :: w'.todo cams ∧
        w'.imageTasks = w.imageTasks ++ globbed folders cam ext := by
  cases he with
  | nothing => exact .inl ⟨rfl, rfl⟩
  | listed hphase => exact .inr ⟨_, _, by rw [todo, hphase]; rfl, rfl⟩
  | loaded hphase | submitted hphase | processed _ hphase | left hphase =>
    refine .inl ⟨rfl, ?_⟩
    simp only [todo, hphase, phase_put]
  | escapedLate | escaped | raised | failed => cases hfailed

/-- The tasks of the worker have the image, or will. -/
def Worker.Covers (cams : List Nat) (w : Worker) (image : Image) : Prop :=
  w.phase.failed = false →
    image ∈ w.imageTasks ∨ ∃ p ∈ w.todo cams, p.1 = image.1 ∧ globs p.2 image.2 = true

theorem Worker.Effect.not_failed {cams : List Nat} {folders : Folders} {w w' : Worker} {raises : Bool}
    (he : Effect cams folders w raises w') (hfailed : w'.phase.failed = false) : w.phase.failed = false := by
  rw [he.failed_eq] at hfailed
  exact (Bool.or_eq_false_iff.1 hfailed).1

/-- An image that is in its folder when the folder is listed stays covered. -/
theorem Worker.Effect.covers {cams : List Nat} {folders : Folders} {w w' : Worker} {raises : Bool} {image : Image}
    (he : Effect cams folders w raises w') (hmem : image.2 ∈ (folders image.1).names) (h : w.Covers cams image) :
    w'.Covers cams image := by
  intro hfailed
  have hcovers := h (he.not_failed hfailed)
  rcases he.tasks hfailed with ⟨himages, htodo⟩ | ⟨cam, ext, htodo, himages⟩
  · rwa [himages, htodo]
  · rw [himages]
    rcases hcovers with htask | ⟨p, hp, hcam, hglobs⟩
    · exact .inl (List.mem_append_left _ htask)
    · rw [htodo] at hp
      rcases List.mem_cons.1 hp with rfl | hp
      · obtain rfl : cam = image.1 := hcam
        exact .inl (List.mem_append_right _ (List.mem_map.2 ⟨image.2, List.mem_filter.2 ⟨hmem, hglobs⟩, rfl⟩))
      · exact .inr ⟨p, hp, hcam, hglobs⟩

end FlameSdd.InferenceRun
