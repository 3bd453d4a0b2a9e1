import FlameSdd.Level2Interface
import FlameSdd.SysLib.Runs
/-!
# Line signals

The DAQ publishes the four lines of the rolling line when one of them changes.
Level2 packets are ignored, and the cameras stream, by two flags that two
components derive from the same messages. They agree unless the lines go off
while the cameras stream: `streaming_interlock`.
-/
open SysLib FlameSdd.Level2Interface

namespace FlameSdd.LineSignal

/-! ## The publisher -/

structure Signals where
  hmdSignal1On : Bool
  hmdSignal2On : Bool
  onlineSignalOn : Bool
  offlineSignalOn : Bool
  deriving DecidableEq, Repr

/-- All lines off, as the reader assumes at its start. -/
def Signals.off : Signals := ⟨false, false, false, false⟩

/-- `_publish_line_signal`. -/
def publishLineSignal (value : Signals) : Json :=
  .obj [("online_signal_on", .bool value.onlineSignalOn), ("offline_signal_on", .bool value.offlineSignalOn),
    ("hmd_signal_1_on", .bool value.hmdSignal1On), ("hmd_signal_2_on", .bool value.hmdSignal2On)]

/-- `_daq_dio_read_task`: the samples that are published. -/
def dioReadTask (prev : Signals) : List Signals → List Signals
  | [] => []
  | value :: values => if value = prev then dioReadTask value values else value :: dioReadTask value values

/-- Every published message differs from the one before it. -/
theorem dioReadTask_changes (prev : Signals) (values : List Signals) :
    (prev :: dioReadTask prev values).IsChain (· ≠ ·) := by
  induction values generalizing prev with
  | nil => simp [dioReadTask]
  | cons value values ih =>
    unfold dioReadTask
    split
    · rename_i heq
      subst heq
      exact ih value
    · rename_i hne
      exact List.isChain_cons_cons.2 ⟨fun h => hne h.symm, ih value⟩

/-! ## The two receivers -/

/-- What both receivers read of a message: nothing when a line is missing. -/
def readSignals (data : Json) : Except Exn (Option (Bool × Bool × Bool)) :=
  if data.contains "hmd_signal_1_on" && data.contains "hmd_signal_2_on" && data.contains "online_signal_on" then do
    let hmdSignal1On ← data.index "hmd_signal_1_on" >>= Json.getBool
    let hmdSignal2On ← data.index "hmd_signal_2_on" >>= Json.getBool
    let onlineSignalOn ← data.index "online_signal_on" >>= Json.getBool
    return some (hmdSignal1On, hmdSignal2On, onlineSignalOn)
  else .ok none

/-- The flags of the Level2 component. -/
structure Level2Flags where
  isOnline : Bool
  ignore : Bool
  deriving DecidableEq

/-- The flag of the grabber, and its control thread. -/
structure Grabber where
  imageStreamEnable : Bool
  control : Worker
  deriving DecidableEq

/-- `_line_check_work` on one message; it logs every exception. -/
def lineCheckWork (payload : Payload) (flags : Level2Flags) : Level2Flags :=
  match payload with
  | none => flags
  | some data =>
    match readSignals data with
    | .error _ => flags
    | .ok none => flags
    | .ok (some (hmdSignal1On, hmdSignal2On, onlineSignalOn)) => ⟨onlineSignalOn, hmdSignal1On || hmdSignal2On⟩

/-- `_image_stream_control_task` on one message. -/
def imageStreamControlTask (payload : Payload) (g : Grabber) : Grabber :=
  if g.control = .running then
    match payload with
    | none => { g with control := .ended }
    | some data =>
      match readSignals data with
      | .error _ => { g with control := .terminated }
      | .ok none => g
      | .ok (some (hmdSignal1On, hmdSignal2On, onlineSignalOn)) =>
        if hmdSignal1On && onlineSignalOn then { g with imageStreamEnable := true }
        else if !hmdSignal2On && onlineSignalOn then { g with imageStreamEnable := false }
        else g
  else g

theorem readSignals_publish (v : Signals) :
    readSignals (publishLineSignal v) = .ok (some (v.hmdSignal1On, v.hmdSignal2On, v.onlineSignalOn)) := rfl

@[simp] theorem lineCheckWork_publish (v : Signals) (flags : Level2Flags) :
    lineCheckWork (some (publishLineSignal v)) flags = ⟨v.onlineSignalOn, v.hmdSignal1On || v.hmdSignal2On⟩ := rfl

theorem imageStreamControlTask_publish (v : Signals) {g : Grabber} (hg : g.control = .running) :
    imageStreamControlTask (some (publishLineSignal v)) g =
      ⟨if v.hmdSignal1On && v.onlineSignalOn then true
        else if !v.hmdSignal2On && v.onlineSignalOn then false else g.imageStreamEnable, .running⟩ := by
  obtain ⟨enable, control⟩ := g
  obtain rfl : control = .running := hg
  simp only [imageStreamControlTask, readSignals_publish, if_true]
  split
  · rfl
  · split <;> rfl

/-! ## Both together -/

structure State where
  level2 : Level2Flags
  grabber : Grabber
  deriving DecidableEq

def init : State := ⟨⟨false, false⟩, ⟨false, .running⟩⟩

/-- A signal that both components handle, or a chunk from Level2 between two. -/
inductive Event where
  | lineSignal (value : Signals)
  | level2 (tempBuffer chunk : Bytes)

def step (s : State) : Event → State
  | .lineSignal value =>
    ⟨lineCheckWork (some (publishLineSignal value)) s.level2,
      imageStreamControlTask (some (publishLineSignal value)) s.grabber⟩
  | .level2 _ _ => s

/-- The Level2 chunk `chunk` is dispatched as the instruction `pack`. -/
def Dispatches (s : State) (tempBuffer chunk : Bytes) (pack : Json) : Prop :=
  ∃ out, onRawReceived s.level2.ignore (TcpSocket.fill tempBuffer chunk) chunk.length = .ok out ∧
    .lv2Dispatch pack ∈ out

/-- Instructions are taken only while the cameras do not stream. -/
def Interlocked (s : State) : Prop := s.level2.ignore = false → s.grabber.imageStreamEnable = false

/-- Not all of the HMD and online lines go off while the cameras stream. -/
def Regular (s : State) : Event → Prop
  | .lineSignal v => s.grabber.imageStreamEnable = true →
      v.hmdSignal1On = true ∨ v.hmdSignal2On = true ∨ v.onlineSignalOn = true
  | .level2 _ _ => True

/-- The publisher's messages never end the grabber's control thread. -/
theorem step_control (s : State) (e : Event) (h : s.grabber.control = .running) :
    (step s e).grabber.control = .running := by
  cases e with
  | lineSignal v => simp only [step]; rw [imageStreamControlTask_publish v h]
  | level2 => exact h

/-- One message keeps the interlock exactly when it is regular. -/
theorem step_interlocked_iff (s : State) (e : Event) (hc : s.grabber.control = .running) (hs : Interlocked s) :
    Interlocked (step s e) ↔ Regular s e := by
  cases e with
  | level2 => exact ⟨fun _ => trivial, fun _ => hs⟩
  | lineSignal v =>
    simp only [Interlocked, Regular, step, lineCheckWork_publish]
    rw [imageStreamControlTask_publish v hc]
    -- of the eight cases, only the one with all three lines off keeps both flags apart
    obtain ⟨hmd1, hmd2, online, offline⟩ := v
    cases hmd1 <;> cases hmd2 <;> cases online <;> simp

/-- The interlock holds throughout a run exactly when all its messages are
regular, and then every instruction is dispatched while the cameras do not stream. -/
theorem streaming_interlock (evs : List Event) :
    (StepsMeet step (fun s e => Interlocked (step s e)) init evs ↔ StepsMeet step Regular init evs) ∧
      (StepsMeet step Regular init evs → ∀ tempBuffer chunk pack,
        Dispatches (runs step init evs) tempBuffer chunk pack →
        (runs step init evs).grabber.imageStreamEnable = false) := by
  refine ⟨stepsMeet_inv_iff step_control step_interlocked_iff rfl (fun _ => rfl) evs, ?_⟩
  rintro hreg tempBuffer chunk pack ⟨out, hout, hpack⟩
  have hinv := runs_inv (fun s => s.grabber.control = .running ∧ Interlocked s)
    (fun s e ⟨hc, hi⟩ hp => ⟨step_control s e hc, (step_interlocked_iff s e hc hi).2 hp⟩)
    ⟨rfl, fun _ => rfl⟩ hreg
  exact hinv.2 (lv2Dispatch_spec hout hpack).1

/-- An instruction with a zero in every place. -/
def zeroInstruction : Bytes := ascii "1001" ++ List.replicate 508 0x30

theorem dispatches_zeroInstruction {s : State} (hs : s.level2.ignore = false) :
    ∃ pack, Dispatches s [] zeroInstruction pack := by
  obtain ⟨pack, hpack⟩ := (instructionPack_ok_iff zeroInstruction).2 (by decide +kernel)
  refine ⟨pack, [.lv2Dispatch pack], ?_, List.mem_singleton_self _⟩
  rw [hs, onRawReceived_fill]
  exact onRawReceived_instruction (by decide) (by decide +kernel) hpack (by decide +kernel)

/-- A bar enters and leaves while the line is online. -/
def passing : List Event := [.lineSignal ⟨true, false, true, false⟩, .lineSignal ⟨false, false, true, false⟩]

theorem streaming_interlock_passing : (runs step init passing).grabber.imageStreamEnable = false := by
  obtain ⟨pack, hpack⟩ := dispatches_zeroInstruction (s := runs step init passing) rfl
  exact (streaming_interlock passing).2 ⟨fun _ => .inl rfl, fun _ => .inr (.inr rfl), trivial⟩ _ _ pack hpack

/-- When the lines go off while a bar passes, an instruction is dispatched and
the cameras still stream. -/
theorem dispatched_while_streaming : ¬ ∀ (evs : List Event) (tempBuffer chunk : Bytes) (pack : Json),
    Dispatches (runs step init evs) tempBuffer chunk pack →
    (runs step init evs).grabber.imageStreamEnable = false := by
  intro h
  obtain ⟨pack, hpack⟩ := dispatches_zeroInstruction
    (s := runs step init [.lineSignal ⟨true, false, true, false⟩, .lineSignal Signals.off]) rfl
  have hoff := h _ _ _ pack hpack
  exact absurd hoff (by decide)

end FlameSdd.LineSignal
