import FlameSdd.ActiveTargets
import FlameSdd.SysLib.Channel
/-!
# Images and instructions on their way to the stacker

The stacker gets the instructions on one channel and the images of every camera
on another. An image does not say which bar it shows, so it is saved under the
instruction that was handled last: `images_filed`.
-/
open SysLib FlameSdd.FileStacker FlameSdd.ActiveTargets

namespace FlameSdd.ImageDelivery

/-- An image on its way, with the number of instructions published before it. -/
structure Image where
  bar : Nat
  cameraId : Bytes
  image : Bytes

/-- An image that was handled: the directories it was saved under, and the
number of instructions handled before it. -/
structure Saved where
  image : Image
  dirs : List Path
  handled : Nat

structure State where
  lv2 : Channel Payload
  images : Int → Channel Image
  stacker : FileStacker.State
  saved : List Saved

def init (fs : FileSystem) : State := ⟨.empty, fun _ => .empty, FileStacker.init fs, []⟩

/-- Level2 publishes, a camera sends, or the stacker takes the next message of a
channel. -/
inductive Event where
  | publish (payload : Payload)
  | grab (streamId : Int) (cameraId image : Bytes)
  | deliverLv2 (faults : Faults)
  | deliverImage (faults : Faults) (streamId : Int)
  | disk (fs : FileSystem)

def step (cfg : Config) (s : State) : Event → State
  | .publish payload => { s with lv2 := s.lv2.send payload }
  | .grab streamId cameraId image =>
    let img : Image := ⟨s.lv2.sent.length, cameraId, image⟩
    { s with images := fun id => if id = streamId then (s.images id).send img else s.images id }
  | .deliverLv2 faults =>
    if s.stacker.level2 = .running then
      match s.lv2.next with
      | none => s
      | some payload =>
        { s with lv2 := s.lv2.deliver, stacker := (level2DispatchTask cfg faults payload s.stacker).1 }
    else s
  | .deliverImage faults streamId =>
    if s.stacker.level2 ≠ .terminated then
      match (s.images streamId).next with
      | none => s
      | some img =>
        let (stacker, dirs) := imageStackerTask cfg faults streamId img.cameraId img.image s.stacker
        { s with
          images := fun id => if id = streamId then (s.images id).deliver else s.images id
          stacker := stacker
          saved := s.saved ++ [⟨img, dirs, s.lv2.delivered⟩] }
    else s
  | .disk fs => { s with stacker := { s.stacker with fs := fs } }

/-! ## The directories of an instruction -/

/-- The destinations of the targets in use. -/
def instructionDirs (cfg : Config) : Payload → List Path
  | none => []
  | some data =>
    if hasRequired data then
      match targetDirname data with
      | .error _ => []
      | .ok names => cfg.targetPath.filterMap fun target =>
        match destination cfg names target with
        | .ok (dest, true) => some dest
        | _ => none
    else []

/-- The directories of the last of the first `n` instructions. -/
def dirsOf (cfg : Config) (lv2 : Channel Payload) (n : Nat) : List Path :=
  (lv2.upTo n).elim [] (instructionDirs cfg)

/-- The loop over the targets activates nothing but their destinations. -/
theorem handleTargets_backupDirPath {cfg : Config} {faults : Faults} {data : Json} {names : Bytes × Bytes}
    {targets : List Json} {s : FileStacker.State} {p : Path}
    (h : p ∈ (handleTargets cfg faults data names targets s).1.backupDirPath) :
    p ∈ s.backupDirPath ∨ ∃ target ∈ targets, destination cfg names target = .ok (p, true) := by
  induction targets generalizing s with
  | nil => exact .inl h
  | cons target targets ih =>
    have hrest : p ∈ (handleTarget cfg faults data names target s).1.backupDirPath ∨ _ := ih h
    rcases hrest with hp | ⟨t, ht, hdest⟩
    · rcases handleTarget_cases cfg faults data names target s with
        ⟨heq, -⟩ | ⟨heq, -⟩ | ⟨dest, -, hdest, -, -, heq, -⟩
      · rw [heq] at hp
        exact .inl hp
      · rw [heq] at hp
        exact .inl hp
      · rw [heq] at hp
        rcases List.mem_append.1 hp with hp | hp
        · exact .inl hp
        · obtain rfl := List.mem_singleton.1 hp
          exact .inr ⟨target, List.mem_cons_self, hdest⟩
    · exact .inr ⟨t, List.mem_cons_of_mem _ ht, hdest⟩

/-- After an instruction, only its own directories are active. -/
theorem level2DispatchTask_backupDirPath {cfg : Config} {faults : Faults} {payload : Payload}
    {s : FileStacker.State} {p : Path} (h : p ∈ (level2DispatchTask cfg faults payload s).1.backupDirPath) :
    p ∈ instructionDirs cfg payload := by
  unfold level2DispatchTask at h
  cases payload with
  | none => cases h
  | some data =>
    simp only at h
    split at h
    · rename_i hreq
      split at h
      · cases h
      · rename_i names hnames
        rcases handleTargets_backupDirPath h with hp | ⟨target, ht, hdest⟩
        · cases hp
        · rw [instructionDirs, if_pos hreq, hnames]
          exact List.mem_filterMap.2 ⟨target, ht, by rw [hdest]⟩
    · cases h

/-! ## The stacker in the system -/

/-- In the system the stacker makes its own steps only, or none. -/
theorem step_stacker (cfg : Config) (s : State) (e : Event) :
    (step cfg s e).stacker = s.stacker ∨ ∃ e', (step cfg s e).stacker = FileStacker.step cfg s.stacker e' := by
  cases e with
  | publish payload => exact .inl rfl
  | grab streamId cameraId image => exact .inl rfl
  | disk fs => exact .inr ⟨.disk fs, rfl⟩
  | deliverLv2 faults =>
    simp only [step]
    split
    · rename_i hrun
      split
      · exact .inl rfl
      · rename_i payload _
        exact .inr ⟨.lv2Dispatch faults payload, by rw [FileStacker.step, if_pos hrun]⟩
    · exact .inl rfl
  | deliverImage faults streamId =>
    simp only [step]
    split
    · rename_i hrun
      split
      · exact .inl rfl
      · rename_i img _
        exact .inr ⟨.image faults streamId img.cameraId img.image, by rw [FileStacker.step, if_pos hrun]⟩
    · exact .inl rfl

/-- Whatever holds in every reachable state of the stacker holds in the system. -/
theorem stacker_reachable (cfg : Config) (fs : FileSystem) (evs : List Event) :
    Reachable (FileStacker.step cfg) (FileStacker.init fs) (runs (step cfg) (init fs) evs).stacker := by
  refine reachable_inv (fun s : State => Reachable (FileStacker.step cfg) (FileStacker.init fs) s.stacker)
    (reachable_refl _) ?_ ⟨evs, rfl⟩
  rintro s e hs
  rcases step_stacker cfg s e with heq | ⟨e', heq⟩
  · rw [heq]
    exact hs
  · rw [heq]
    exact reachable_step hs e'

/-! ## Where images go -/

/-- The active directories and the directories of every saved image belong to
the instruction handled last before. -/
structure Filed (cfg : Config) (s : State) : Prop where
  active : ∀ p ∈ s.stacker.backupDirPath, p ∈ dirsOf cfg s.lv2 s.lv2.delivered
  handled_le : ∀ r ∈ s.saved, r.handled ≤ s.lv2.sent.length
  saved : ∀ r ∈ s.saved, ∀ p ∈ r.dirs, p ∈ dirsOf cfg s.lv2 r.handled

theorem step_filed (cfg : Config) (s : State) (e : Event) (h : Filed cfg s) : Filed cfg (step cfg s e) := by
  cases e with
  | publish payload =>
    -- a new instruction is not among the first ones that were handled
    refine ⟨fun p hp => ?_, fun r hr => ?_, fun r hr p hp => ?_⟩
    · have hact := h.active p hp
      rwa [dirsOf, ← Channel.upTo_send s.lv2.delivered_le payload] at hact
    · have hle := h.handled_le r hr
      simp only [step, Channel.sent_send, List.length_append]
      omega
    · have hdir := h.saved r hr p hp
      rwa [dirsOf, ← Channel.upTo_send (h.handled_le r hr) payload] at hdir
  | grab streamId cameraId image => exact ⟨h.active, h.handled_le, h.saved⟩
  | disk fs => exact ⟨h.active, h.handled_le, h.saved⟩
  | deliverLv2 faults =>
    simp only [step]
    split
    · split
      · exact h
      · rename_i payload hnext
        refine ⟨fun p hp => ?_, fun r hr => ?_, fun r hr p hp => ?_⟩
        · have hlast := Channel.last_deliver hnext
          rw [Channel.last] at hlast
          rw [dirsOf, hlast]
          exact level2DispatchTask_backupDirPath hp
        · rw [Channel.sent_deliver]
          exact h.handled_le r hr
        · rw [dirsOf, Channel.upTo_deliver]
          exact h.saved r hr p hp
    · exact h
  | deliverImage faults streamId =>
    simp only [step]
    split
    · split
      · exact h
      · rename_i img hnext
        refine ⟨h.active, fun r hr => ?_, fun r hr p hp => ?_⟩
        · rcases List.mem_append.1 hr with hr | hr
          · exact h.handled_le r hr
          · obtain rfl := List.mem_singleton.1 hr
            exact s.lv2.delivered_le
        · rcases List.mem_append.1 hr with hr | hr
          · exact h.saved r hr p hp
          · obtain rfl := List.mem_singleton.1 hr
            exact h.active p ((imageStackerTask_saved _ _ _ _ _ _).subset hp)
    · exact h

theorem init_filed (cfg : Config) (fs : FileSystem) : Filed cfg (init fs) :=
  ⟨nofun, nofun, nofun⟩

/-- The image is delivered while the instruction it was sent under is the last
one handled. -/
def InOrder (s : State) : Event → Prop
  | .deliverImage _ streamId => ∀ img, (s.images streamId).next = some img → img.bar = s.lv2.delivered
  | _ => True

theorem step_inOrder (cfg : Config) (s : State) (e : Event) (h : ∀ r ∈ s.saved, r.image.bar = r.handled)
    (he : InOrder s e) : ∀ r ∈ (step cfg s e).saved, r.image.bar = r.handled := by
  cases e with
  | deliverImage faults streamId =>
    simp only [step]
    split
    · split
      · exact h
      · rename_i img hnext
        intro r hr
        rcases List.mem_append.1 hr with hr | hr
        · exact h r hr
        · obtain rfl := List.mem_singleton.1 hr
          exact he img hnext
    · exact h
  | deliverLv2 faults =>
    simp only [step]
    split
    · split
      · exact h
      · exact h
    · exact h
  | _ => exact h

/-- In every run, every image is saved under directories of the instruction that
was handled last; so where every image is delivered in order, it is saved under
directories of its own bar only. -/
theorem images_filed (cfg : Config) (fs : FileSystem) (evs : List Event) :
    (∀ r ∈ (runs (step cfg) (init fs) evs).saved, ∀ p ∈ r.dirs,
        p ∈ dirsOf cfg (runs (step cfg) (init fs) evs).lv2 r.handled) ∧
      (StepsMeet (step cfg) InOrder (init fs) evs → ∀ r ∈ (runs (step cfg) (init fs) evs).saved, ∀ p ∈ r.dirs,
        p ∈ dirsOf cfg (runs (step cfg) (init fs) evs).lv2 r.image.bar) := by
  have hfiled : Filed cfg (runs (step cfg) (init fs) evs) :=
    reachable_inv (Filed cfg) (init_filed cfg fs) (step_filed cfg) ⟨evs, rfl⟩
  refine ⟨hfiled.saved, fun hord r hr p hp => ?_⟩
  have hbar := runs_inv (fun s => ∀ r ∈ s.saved, r.image.bar = r.handled) (step_inOrder cfg)
    (fun r hr => absurd hr List.not_mem_nil) hord
  rw [hbar r hr]
  exact hfiled.saved r hr p hp

/-- An image that is delivered before the next instruction is published. -/
def inTime : List Event :=
  [.publish (some firstBar), .deliverLv2 noFaults, .grab 1 (ascii "1") [], .deliverImage noFaults 1]

theorem images_filed_in_time : ∀ r ∈ (runs (step oneTarget) (init .empty) inTime).saved, ∀ p ∈ r.dirs,
    p ∈ dirsOf oneTarget (runs (step oneTarget) (init .empty) inTime).lv2 r.image.bar := by
  refine (images_filed oneTarget .empty inTime).2 ⟨trivial, trivial, trivial, ?_, trivial⟩
  rintro img hnext
  have hsome : some (Image.mk 1 (ascii "1") []) = some img := hnext
  obtain rfl := Option.some.inj hsome
  rfl

/-- An image of the first bar that is delivered after the second instruction. -/
def late : List Event :=
  [.publish (some firstBar), .grab 1 (ascii "1") [], .publish (some (instruction (ascii "20250102030900"))),
    .deliverLv2 noFaults, .deliverLv2 noFaults, .deliverImage noFaults 1]

/-- It is saved under the second bar. -/
theorem image_misfiled : ¬ ∀ (cfg : Config) (fs : FileSystem) (evs : List Event),
    ∀ r ∈ (runs (step cfg) (init fs) evs).saved, 0 < r.image.bar → ∀ p ∈ r.dirs,
      p ∈ dirsOf cfg (runs (step cfg) (init fs) evs).lv2 r.image.bar := by
  intro h
  have hsaved := h oneTarget .empty late
  exact absurd hsaved (by decide +kernel)

end FlameSdd.ImageDelivery
