import FlameSdd.LineFanOut
import FlameSdd.SysLib.Sweep
/-!
# The images of the cameras

Every camera has a thread that grabs, and counts and sends what it grabbed if the
stream is on once the image is encoded. The loop of the grabber reads the counters
one by one and publishes them, and the window adds them up. So the images that are
sent are some of those that were tested while a bar passed, and the number in the
window lies between the numbers of images at two publications: `images_counted`.
-/
open SysLib FlameSdd.LineSignal FlameSdd.LineFanOut

namespace FlameSdd.ImageStream

/-! ## The grabber -/

structure Image where
  rows : Nat
  cols : Nat
  pixels : Bytes

def Image.isEmpty (image : Image) : Bool := image.rows * image.cols == 0

/-- What `RetrieveResult` and the checks behind it find: the camera has stopped, there
is no image (a timeout, another exception, a result that is not valid or failed), or
an image. -/
inductive Grab where
  | stopped
  | nothing
  | image (image : Image)

/-- Where the turn of a camera's thread stands. -/
inductive Phase where
  | waiting
  /-- The image is encoded, and `_image_stream_enable` is not tested yet. -/
  | encoded (image : Image)
  /-- The stream was on when so many line signals were handled. -/
  | streaming (handled : Nat) (image : Image)
  /-- The image is counted, and not sent yet. -/
  | counted (image : Image)

/-- The thread of a camera, with what it sent. -/
structure Camera where
  grabbing : Bool
  phase : Phase
  cameraGrabCounter : Nat
  sent : List Bytes
  /-- The images that were counted, with the number of line signals that were
  handled when the stream was on. -/
  taken : List (Nat × Image)

structure State where
  /-- `prev_dio_values`, and the line signals that were published. -/
  prev : Signals
  log : List Signals
  control : Follow.Reader Grabber
  cameras : Nat → Camera
  /-- `_camera_grab_counter`. -/
  grabCounter : Nat → Nat
  /-- `_camera_status` and what was published of it. -/
  status : Sweep.State Nat Nat
  /-- `label_total_images`. -/
  window : Follow.Reader Nat

def init (devices : List Nat) : State where
  prev := Signals.off
  log := []
  control := ⟨0, ⟨false, .running⟩⟩
  cameras id := ⟨decide (id ∈ devices), .waiting, 0, [], []⟩
  grabCounter _ := 0
  status := Sweep.start devices 0
  window := ⟨0, 0⟩

/-- The DAQ reads the lines, the control worker handles its next signal, a camera's
thread gets an image, tests the flag, counts or sends, the loop reads the next
counter or publishes, or the window handles its next status. -/
inductive Event where
  | sample (value : Signals)
  | control
  | retrieve (id : Nat) (result : Grab)
  | test (id : Nat)
  | count (id : Nat)
  | send (id : Nat) (accepted : Bool)
  | loop
  | window

/-! ## A turn of `_image_stream_task` -/

namespace Camera

def retrieve (result : Grab) (c : Camera) : Camera :=
  match c.phase, result with
  | .waiting, .stopped => { c with grabbing := false }
  | .waiting, .image image =>
    if c.grabbing = true ∧ image.isEmpty = false then { c with phase := .encoded image } else c
  | _, _ => c

def test (control : Follow.Reader Grabber) (c : Camera) : Camera :=
  match c.phase with
  | .encoded image =>
    { c with phase := if control.state.imageStreamEnable then .streaming control.seen image else .waiting }
  | _ => c

def count (c : Camera) : Camera :=
  match c.phase with
  | .streaming handled image =>
    { c with
      phase := .counted image
      cameraGrabCounter := c.cameraGrabCounter + 1
      taken := c.taken ++ [(handled, image)] }
  | _ => c

/-- The image is sent if the port accepts it. -/
def send (imencode : Image → Bytes) (accepted : Bool) (c : Camera) : Camera :=
  match c.phase with
  | .counted image =>
    { c with phase := .waiting, sent := if accepted then c.sent ++ [imencode image] else c.sent }
  | _ => c

end Camera

/-- One camera goes on. -/
def State.camera (s : State) (id : Nat) (f : Camera → Camera) : State :=
  { s with cameras := Function.update s.cameras id (f (s.cameras id)) }

/-- The cameras of the window that the status has. -/
def shownIds (devices cameraIds : List Nat) : List Nat := cameraIds.filter (· ∈ devices)

/-- `on_update_camera_status`. -/
def onUpdateCameraStatus (devices cameraIds : List Nat) (_ : Nat) (status : Sweep.Record Nat Nat) : Nat :=
  Sweep.total (shownIds devices cameraIds) status.seen

def step (imencode : Image → Bytes) (devices cameraIds : List Nat) (s : State) : Event → State
  | .sample value => { s with prev := value, log := s.log ++ dioReadTask s.prev [value] }
  | .control => { s with control := s.control.read onGrabber s.log }
  | .retrieve id result => s.camera id (Camera.retrieve result)
  | .test id => s.camera id (Camera.test s.control)
  | .count id =>
    { s.camera id Camera.count with
      grabCounter := Function.update s.grabCounter id (s.cameras id).count.cameraGrabCounter }
  | .send id accepted => s.camera id (Camera.send imencode accepted)
  | .loop => { s with status := Sweep.next devices s.grabCounter s.status }
  | .window => { s with window := s.window.read (onUpdateCameraStatus devices cameraIds) s.status.published }

/-! ## One camera -/

/-- What is counted, and not sent yet. -/
def Phase.pending (imencode : Image → Bytes) : Phase → List Bytes
  | .counted image => [imencode image]
  | _ => []

/-- A bar passed when so many signals were handled. -/
def PassedAt (log : List Signals) (handled : Nat) : Prop := handled ≤ log.length ∧ Passing (log.take handled)

/-- Every image that a camera counted was tested while a bar passed, by the signals
that were handled, and those that were sent are some of them. -/
structure Counted (imencode : Image → Bytes) (log : List Signals) (grabCounter : Nat) (c : Camera) : Prop where
  counter : grabCounter = c.cameraGrabCounter
  length : c.cameraGrabCounter = c.taken.length
  sent : (c.sent ++ c.phase.pending imencode).Sublist (c.taken.map fun t => imencode t.2)
  passing : ∀ t ∈ c.taken, PassedAt log t.1
  streaming : ∀ handled image, c.phase = .streaming handled image → PassedAt log handled

variable {imencode : Image → Bytes} {log : List Signals} {n : Nat} {c : Camera}

theorem PassedAt.publish {handled : Nat} (h : PassedAt log handled) (more : List Signals) :
    PassedAt (log ++ more) handled := by
  obtain ⟨hle, hpassing⟩ := h
  refine ⟨?_, ?_⟩
  · rw [List.length_append]
    omega
  · rwa [List.take_append_of_le_length hle]

theorem Counted.publish (h : Counted imencode log n c) (more : List Signals) :
    Counted imencode (log ++ more) n c where
  counter := h.counter
  length := h.length
  sent := h.sent
  passing t ht := (h.passing t ht).publish more
  streaming handled image heq := (h.streaming handled image heq).publish more

theorem Counted.retrieve (h : Counted imencode log n c) (result : Grab) :
    Counted imencode log n (c.retrieve result) := by
  unfold Camera.retrieve
  split
  · exact ⟨h.counter, h.length, h.sent, h.passing, h.streaming⟩
  · rename_i hphase
    split
    · have hsent := h.sent
      rw [hphase] at hsent
      exact ⟨h.counter, h.length, hsent, h.passing, nofun⟩
    · exact h
  · exact h

theorem Counted.test (h : Counted imencode log n c) {control : Follow.Reader Grabber}
    (hcontrol : control.state.imageStreamEnable = true → PassedAt log control.seen) :
    Counted imencode log n (c.test control) := by
  unfold Camera.test
  split
  · rename_i image hphase
    have hsent := h.sent
    rw [hphase] at hsent
    split
    · rename_i henable
      refine ⟨h.counter, h.length, hsent, h.passing, ?_⟩
      rintro handled image ⟨⟩
      exact hcontrol henable
    · exact ⟨h.counter, h.length, hsent, h.passing, nofun⟩
  · exact h

theorem Counted.count (h : Counted imencode log n c) : Counted imencode log c.count.cameraGrabCounter c.count := by
  unfold Camera.count
  split
  · rename_i handled image hphase
    have hsent : (c.sent ++ []).Sublist (c.taken.map fun t : Nat × Image => imencode t.2) := by
      have hsent := h.sent
      rwa [hphase] at hsent
    rw [List.append_nil] at hsent
    refine ⟨rfl, ?_, ?_, fun t ht => ?_, nofun⟩
    · simp only [List.length_append, List.length_singleton, h.length]
    · rw [List.map_append]
      exact hsent.append (List.Sublist.refl _)
    · rcases List.mem_append.1 ht with ht | ht
      · exact h.passing t ht
      · rw [List.mem_singleton.1 ht]
        exact h.streaming handled image hphase
  · exact ⟨rfl, h.length, h.sent, h.passing, h.streaming⟩

theorem Counted.send (h : Counted imencode log n c) (accepted : Bool) :
    Counted imencode log n (c.send imencode accepted) := by
  unfold Camera.send
  split
  · rename_i image hphase
    have hsent := h.sent
    rw [hphase] at hsent
    refine ⟨h.counter, h.length, ?_, h.passing, nofun⟩
    show ((if accepted then c.sent ++ [imencode image] else c.sent) ++ []).Sublist _
    rw [List.append_nil]
    split
    · exact hsent
    · exact (List.sublist_append_left _ _).trans hsent
  · exact h

theorem le_count (c : Camera) : c.cameraGrabCounter ≤ c.count.cameraGrabCounter := by
  unfold Camera.count
  split
  · exact Nat.le_succ _
  · exact Nat.le_refl _

/-! ## Every run -/

structure Inv (imencode : Image → Bytes) (devices cameraIds : List Nat) (s : State) : Prop where
  control : Follow.Follows onGrabber ⟨false, .running⟩ s.log s.control
  cameras : ∀ id, Counted imencode s.log (s.grabCounter id) (s.cameras id)
  status : Sweep.Inv devices s.grabCounter s.status
  window : Follow.Follows (onUpdateCameraStatus devices cameraIds) 0 s.status.published s.window

variable {devices cameraIds : List Nat}

theorem init_inv : Inv imencode devices cameraIds (init devices) where
  control := .init _ _
  cameras _ := ⟨rfl, rfl, List.Sublist.refl _, nofun, nofun⟩
  status := Sweep.start_inv fun _ => Nat.le_refl 0
  window := .init _ _

/-- A camera goes on by a step that keeps what it counted. -/
theorem Inv.camera {s : State} (h : Inv imencode devices cameraIds s) (id : Nat) {f : Camera → Camera}
    (hf : Counted imencode s.log (s.grabCounter id) (f (s.cameras id))) :
    Inv imencode devices cameraIds (s.camera id f) := by
  refine ⟨h.control, fun x => ?_, h.status, h.window⟩
  show Counted imencode s.log (s.grabCounter x) (Function.update s.cameras id (f (s.cameras id)) x)
  rcases eq_or_ne x id with rfl | hne
  · rw [Function.update_self]
    exact hf
  · rw [Function.update_of_ne hne]
    exact h.cameras x

theorem Inv.count {s : State} (h : Inv imencode devices cameraIds s) (id : Nat) :
    Inv imencode devices cameraIds { s.camera id Camera.count with
      grabCounter := Function.update s.grabCounter id (s.cameras id).count.cameraGrabCounter } := by
  refine ⟨h.control, fun x => ?_, h.status.count fun x => ?_, h.window⟩
  · show Counted imencode s.log (Function.update s.grabCounter id _ x) (Function.update s.cameras id _ x)
    rcases eq_or_ne x id with rfl | hne
    · rw [Function.update_self, Function.update_self]
      exact (h.cameras x).count
    · rw [Function.update_of_ne hne, Function.update_of_ne hne]
      exact h.cameras x
  · show s.grabCounter x ≤ Function.update s.grabCounter id _ x
    rcases eq_or_ne x id with rfl | hne
    · rw [Function.update_self, (h.cameras x).counter]
      exact le_count _
    · rw [Function.update_of_ne hne]

theorem step_inv (s : State) (e : Event) (h : Inv imencode devices cameraIds s) :
    Inv imencode devices cameraIds (step imencode devices cameraIds s e) := by
  cases e with
  | sample value =>
    simp only [step, dioReadTask]
    split
    · simpa using ⟨h.control, h.cameras, h.status, h.window⟩
    · exact ⟨h.control.publish value, fun id => (h.cameras id).publish [value], h.status, h.window⟩
  | control => exact ⟨h.control.read, h.cameras, h.status, h.window⟩
  | retrieve id result => exact h.camera id ((h.cameras id).retrieve result)
  | test id =>
    refine h.camera id ((h.cameras id).test fun henable => ?_)
    exact ⟨h.control.seen_le, (Follows.grabber h.control).1 henable⟩
  | count id => exact h.count id
  | send id accepted => exact h.camera id ((h.cameras id).send accepted)
  | loop =>
    refine ⟨h.control, h.cameras, h.status.next, ?_⟩
    simp only [step, Sweep.next]
    split
    · exact h.window
    · exact h.window.publish _
  | window => exact ⟨h.control, h.cameras, h.status, h.window.read⟩

/-- A publication has the counters of its time. -/
theorem publish_step (imencode : Image → Bytes) (devices cameraIds : List Nat) (s : State) (e : Event) :
    (step imencode devices cameraIds s e).status.published = s.status.published ∨
      ∃ r, (step imencode devices cameraIds s e).status.published = s.status.published ++ [r] ∧
        ∀ r, (step imencode devices cameraIds s e).status.published.getLast? = some r →
          r.counts = (step imencode devices cameraIds s e).grabCounter := by
  cases e with
  | loop =>
    simp only [step, Sweep.next]
    split
    · exact .inl rfl
    · refine .inr ⟨_, rfl, fun r hr => ?_⟩
      rw [List.getLast?_concat] at hr
      rw [← Option.some.inj hr]
  | sample | control | retrieve | test | count | send | window => exact .inl rfl

/-- The counters at publication `n` were those at some time of the run. -/
def PublishedAt (imencode : Image → Bytes) (devices cameraIds : List Nat) (evs : List Event) (n : Nat)
    (counts : Nat → Nat) : Prop :=
  ∃ pre, pre <+: evs ∧
    (runs (step imencode devices cameraIds) (init devices) pre).status.published.length = n + 1 ∧
    (runs (step imencode devices cameraIds) (init devices) pre).grabCounter = counts

/-- For every order of the cameras, the line signals, the loop and the window.
Every image that is counted was tested while a bar passed, by the signals that were
handled, and the images that a camera sent are some of these, in order. A status
says of every counter at least what it was at any earlier publication, and at most
what it was at its own. So does the number in the window of all images. -/
theorem images_counted (imencode : Image → Bytes) (devices cameraIds : List Nat) (evs : List Event) :
    let s := runs (step imencode devices cameraIds) (init devices) evs
    (∀ id, Counted imencode s.log (s.grabCounter id) (s.cameras id)) ∧
    (∀ (n : Nat) (r : Sweep.Record Nat Nat), s.status.published[n]? = some r →
      PublishedAt imencode devices cameraIds evs n r.counts) ∧
    Sweep.Between devices s.grabCounter s.status ∧
    ∀ n : Nat, s.window.seen = n + 1 → ∃ r : Sweep.Record Nat Nat, s.status.published[n]? = some r ∧
      s.window.state = Sweep.total (shownIds devices cameraIds) r.seen ∧
      s.window.state ≤ Sweep.total (shownIds devices cameraIds) r.counts ∧
      ∀ m < n, ∀ before : Sweep.Record Nat Nat, s.status.published[m]? = some before →
        Sweep.total (shownIds devices cameraIds) before.counts ≤ s.window.state := by
  intro s
  have hinv : Inv imencode devices cameraIds s :=
    runs_inv (Inv imencode devices cameraIds) (fun s e h _ => step_inv s e h) init_inv (stepsMeet_true _ _)
  refine ⟨hinv.cameras, fun n r hr => ?_, hinv.status.between, fun n hn => ?_⟩
  · have hlt : n + 1 ≤ s.status.published.length := (List.getElem?_eq_some_iff.1 hr).1
    obtain ⟨pre, hpre, hlog, hcounts⟩ := Follow.published_at (fun s : State => s.status.published)
      (fun s => ∀ r, s.status.published.getLast? = some r → r.counts = s.grabCounter)
      (show (init devices).status.published = [] from rfl) (publish_step imencode devices cameraIds) evs
      (Nat.succ_pos n) hlt
    refine ⟨pre, hpre, ?_, (hcounts r ?_).symm⟩
    · rw [hlog, List.length_take]
      exact Nat.min_eq_left hlt
    · rw [hlog, List.take_add_one, show s.status.published[n]? = some r from hr, Option.toList_some,
        List.getLast?_concat]
  · have hlen : n < s.status.published.length := by
      have hle := hinv.window.seen_le
      omega
    have hget : s.status.published[n]? = some s.status.published[n] := List.getElem?_eq_getElem hlen
    obtain ⟨last, hlabel⟩ := hinv.window.last hn hget
    have hdevice : ∀ id ∈ shownIds devices cameraIds, id ∈ devices := fun id hid => by
      simpa using (List.mem_filter.1 hid).2
    have hbetween := hinv.status.between n _ hget
    refine ⟨_, hget, hlabel, ?_, fun m hlt before hm => ?_⟩
    · rw [hlabel]
      exact Sweep.total_mono fun id hid => (hbetween id (hdevice id hid)).1
    · rw [hlabel]
      exact Sweep.total_mono fun id hid => (hbetween id (hdevice id hid)).2.2 m hlt before hm

end FlameSdd.ImageStream
