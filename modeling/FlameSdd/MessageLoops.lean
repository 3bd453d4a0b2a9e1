import FlameSdd.FileStacker
import FlameSdd.LineSignal
/-!
# The message loops

Three worker threads read JSON messages in a loop of the same shape: a `try`
inside the loop that catches zmq errors only, and one around it that also
catches `parse_error`. A payload that is no JSON ends the loop, and a value of
the wrong type ends the process: `message_loops_survive_iff`.
-/
open SysLib FlameSdd.Level2Interface FlameSdd.FileStacker FlameSdd.LineSignal

namespace FlameSdd.MessageLoops

/-! ## The lens controller -/

/-- `_lens_controller_map`, with `_is_opened` of each camera's lens. -/
abbrev LensMap := Int → Option Bool

/-- The calls of `focus_move` so far, by camera, and the control thread. -/
structure LensController where
  moved : List (Int × Nat)
  control : Worker

/-- The camera and the value of a `move_focus` message. -/
def focusRequest (data : Json) : Except Exn (Option (Int × Int)) :=
  if data.contains "function" then do
    let function ← data.index "function" >>= Json.getString
    if function = ascii "move_focus" then
      let cameraId ← data.index "camera_id" >>= Json.getInt
      let value ← data.index "value" >>= Json.getInt
      return some (cameraId, value)
    else return none
  else .ok none

/-- `_lens_control_subscribe` on one message. -/
def lensControlSubscribe (lenses : LensMap) (c : LensController) (payload : Payload) : LensController :=
  if c.control = .running then
    match payload with
    | none => { c with control := .ended }
    | some data =>
      match focusRequest data with
      | .error _ => { c with control := .terminated }
      | .ok none => c
      | .ok (some (cameraId, value)) =>
        -- focus_move takes the value as an unsigned short
        if lenses cameraId = some true then { c with moved := c.moved ++ [(cameraId, (value % 2 ^ 16).toNat)] } else c
  else c

/-! ## Payloads that a handler can read -/

/-- The member `k` is there and satisfies `p`. -/
def memberIs (p : Json → Bool) (data : Json) (k : String) : Bool := (data.member? k).any p

/-- A message on `lv2_dispatch` that lacks a member is passed over. -/
def stackerReads : Payload → Bool
  | none => false
  | some data => !hasRequired data ||
    match data.member? "date", data.member? "mt_stand_norm" with
    | some (.str _), some (.str mtStandNorm) => !mtStandNorm.isEmpty ||
      memberIs Json.isNumber data "mt_stand_width" && memberIs Json.isNumber data "mt_stand_height"
    | _, _ => false

def lineSignals : List String := ["hmd_signal_1_on", "hmd_signal_2_on", "online_signal_on"]

/-- So is a line signal that lacks a line. -/
def grabberReads : Payload → Bool
  | none => false
  | some data => !lineSignals.all data.contains || lineSignals.all (memberIs Json.isBool data)

/-- Of a focus message only `function` may be missing. -/
def lensReads : Payload → Bool
  | none => false
  | some data =>
    match data.member? "function" with
    | none => true
    | some (.str function) => function != ascii "move_focus" ||
      memberIs Json.isNumber data "camera_id" && memberIs Json.isNumber data "value"
    | some _ => false

/-- A member that is read with `get`: no default stands in for a missing one. -/
theorem index_bind_ok_iff {α : Type} {get : Json → Except Exn α} {p : Json → Bool}
    (hget : ∀ j, (∃ a, get j = .ok a) ↔ p j = true) (hnull : p .null = false) (data : Json) (k : String) :
    (∃ a, (data.index k >>= get) = .ok a) ↔ memberIs p data k = true := by
  have hno : ∀ a, get .null ≠ .ok a := by
    intro a ha
    have := (hget .null).1 ⟨a, ha⟩
    rw [hnull] at this
    exact Bool.noConfusion this
  rw [bind_ok_iff]
  cases data with
  | obj m =>
    simp only [Json.index, Except.ok.injEq, exists_eq_left', memberIs, Json.member?]
    cases m.lookup k with
    | none => simpa using hno
    | some j => simpa using hget j
  | null => simpa [Json.index, memberIs, Json.member?] using hno
  | _ => simp [Json.index, memberIs, Json.member?]

theorem bool_ok_iff (data : Json) (k : String) :
    (∃ b, (data.index k >>= Json.getBool) = .ok b) ↔ memberIs Json.isBool data k = true :=
  index_bind_ok_iff Json.getBool_ok_iff rfl data k

theorem int_ok_iff (data : Json) (k : String) :
    (∃ i, (data.index k >>= Json.getInt) = .ok i) ↔ memberIs Json.isNumber data k = true :=
  index_bind_ok_iff Json.getInt_ok_iff rfl data k

/-! ## What each handler throws on -/

/-- A value that decides nothing later only has to be read. -/
theorem bind_ok_and_iff {α β : Type} {x : Except Exn α} {f : α → Except Exn β} {P : Prop}
    (h : ∀ a, (∃ b, f a = .ok b) ↔ P) : (∃ b, (x >>= f) = .ok b) ↔ (∃ a, x = .ok a) ∧ P := by
  rw [bind_ok_iff]
  constructor
  · rintro ⟨a, ha, hb⟩
    exact ⟨⟨a, ha⟩, (h a).1 hb⟩
  · rintro ⟨⟨a, ha⟩, hP⟩
    exact ⟨a, ha, (h a).2 hP⟩

theorem contains_iff {data : Json} {k : String} : data.contains k = true ↔ ∃ j, data.member? k = some j :=
  Option.isSome_iff_exists

/-- The directory names of an instruction that has the required members. -/
theorem targetDirname_ok_iff {data : Json} (hreq : hasRequired data = true) :
    (∃ names, targetDirname data = .ok names) ↔ stackerReads (some data) = true := by
  have hmem := hreq
  simp only [hasRequired, Bool.and_eq_true] at hmem
  obtain ⟨⟨⟨hdate, -⟩, -⟩, hnorm⟩ := hmem
  obtain ⟨date, hdate⟩ := contains_iff.1 hdate
  obtain ⟨norm, hnorm⟩ := contains_iff.1 hnorm
  have hok : ∀ {α β : Type} (a : α) (f : α → Except Exn β), (Except.ok a >>= f) = f a := fun _ _ => rfl
  have herr : ∀ {α β : Type} (f : α → Except Exn β), (Except.error .typeError >>= f) = .error .typeError :=
    fun _ => rfl
  simp only [targetDirname, stackerReads, hreq, Json.index_of_member hdate, Json.valueString_of_member hnorm, hdate,
    hnorm, hok, Bool.not_true, Bool.false_or]
  cases date with
  | str d =>
    cases norm with
    | str n =>
      simp only [Json.getString, hok]
      cases n with
      | nil =>
        simp only [List.isEmpty_nil, if_true, Bool.not_true, Bool.false_or, Bool.and_eq_true]
        rw [← int_ok_iff, ← int_ok_iff]
        apply bind_ok_and_iff
        intro width
        rw [bind_ok_and_iff (P := True) fun height => ?_, and_true]
        simp [pure, Except.pure, hok]
      | cons c n => simp [hok, pure, Except.pure]
    | _ => simp [Json.getString, hok, herr]
  | _ => simp [Json.getString, herr]

theorem readSignals_ok_iff (data : Json) :
    (∃ r, readSignals data = .ok r) ↔ grabberReads (some data) = true := by
  unfold readSignals grabberReads
  simp only [lineSignals, List.all_cons, List.all_nil, Bool.and_true, ← Bool.and_assoc]
  split
  · rename_i hall
    rw [hall, Bool.not_true, Bool.false_or, Bool.and_assoc, Bool.and_eq_true, Bool.and_eq_true, ← bool_ok_iff,
      ← bool_ok_iff, ← bool_ok_iff]
    refine bind_ok_and_iff fun hmdSignal1On => bind_ok_and_iff fun hmdSignal2On => ?_
    rw [bind_ok_and_iff (P := True) fun onlineSignalOn => ?_, and_true]
    simp [pure, Except.pure]
  · rename_i hall
    simp [hall]

theorem focusRequest_ok_iff (data : Json) :
    (∃ r, focusRequest data = .ok r) ↔ lensReads (some data) = true := by
  have hok : ∀ {α β : Type} (a : α) (f : α → Except Exn β), (Except.ok a >>= f) = f a := fun _ _ => rfl
  have herr : ∀ {α β : Type} (f : α → Except Exn β), (Except.error .typeError >>= f) = .error .typeError :=
    fun _ => rfl
  unfold focusRequest lensReads
  cases hfun : data.member? "function" with
  | none => simp [Json.contains, hfun]
  | some function =>
    rw [if_pos (contains_iff.2 ⟨function, hfun⟩), Json.index_of_member hfun, hok]
    simp only [hfun]
    cases function with
    | str f =>
      simp only [Json.getString, hok]
      split
      · rename_i hmove
        rw [hmove, bne_self_eq_false, Bool.false_or, Bool.and_eq_true, ← int_ok_iff, ← int_ok_iff]
        apply bind_ok_and_iff
        intro cameraId
        rw [bind_ok_and_iff (P := True) fun value => ?_, and_true]
        simp [pure, Except.pure]
      · rename_i hmove
        simp [hmove, pure, Except.pure]
    | _ => simp [Json.getString, herr]

/-! ## One message -/

theorem handleTarget_level2 (cfg : FileStacker.Config) (faults : Faults) (data : Json) (names : Bytes × Bytes)
    (target : Json) (s : FileStacker.State) : (handleTarget cfg faults data names target s).1.level2 = s.level2 := by
  unfold handleTarget
  dsimp only
  repeat' split
  all_goals rfl

theorem handleTargets_level2 (cfg : FileStacker.Config) (faults : Faults) (data : Json) (names : Bytes × Bytes)
    (targets : List Json) (s : FileStacker.State) :
    (handleTargets cfg faults data names targets s).1.level2 = s.level2 := by
  induction targets generalizing s with
  | nil => rfl
  | cons target targets ih =>
    simp only [handleTargets]
    rw [ih, handleTarget_level2]

/-- The messages on `lv2_dispatch` are the only events that can stop the stacker. -/
def stackerEventReads : FileStacker.Event → Bool
  | .lv2Dispatch _ payload => stackerReads payload
  | _ => true

theorem stacker_running_iff (cfg : FileStacker.Config) (s : FileStacker.State) (e : FileStacker.Event)
    (h : s.level2 = .running) : (FileStacker.step cfg s e).level2 = .running ↔ stackerEventReads e = true := by
  cases e with
  | lv2Dispatch faults payload =>
    rw [FileStacker.step, if_pos h, stackerEventReads]
    cases payload with
    | none => simp [level2DispatchTask, stackerReads]
    | some data =>
      by_cases hreq : hasRequired data = true
      · rw [← targetDirname_ok_iff hreq]
        cases hnames : targetDirname data with
        | error e => simp [level2DispatchTask, hreq, hnames]
        | ok names => simp [level2DispatchTask, hreq, hnames, handleTargets_level2, h]
      · simp [level2DispatchTask, stackerReads, hreq, h]
  | image faults streamId cameraId image =>
    rw [FileStacker.step, if_pos (by simp [h])]
    simp [imageStackerTask, stackerEventReads, h]
  | disk fs => simp [FileStacker.step, stackerEventReads, h]

theorem grabber_running_iff (g : Grabber) (payload : Payload) (h : g.control = .running) :
    (imageStreamControlTask payload g).control = .running ↔ grabberReads payload = true := by
  unfold imageStreamControlTask
  rw [if_pos h]
  cases payload with
  | none => simp [grabberReads]
  | some data =>
    rw [← readSignals_ok_iff]
    dsimp only
    cases readSignals data with
    | error e => simp
    | ok r =>
      rcases r with _ | ⟨hmdSignal1On, hmdSignal2On, onlineSignalOn⟩
      · simp [h]
      · simp only [Except.ok.injEq, exists_eq', iff_true]
        repeat' split
        all_goals exact h

theorem lens_running_iff (lenses : LensMap) (c : LensController) (payload : Payload) (h : c.control = .running) :
    (lensControlSubscribe lenses c payload).control = .running ↔ lensReads payload = true := by
  unfold lensControlSubscribe
  rw [if_pos h]
  cases payload with
  | none => simp [lensReads]
  | some data =>
    rw [← focusRequest_ok_iff]
    dsimp only
    cases focusRequest data with
    | error e => simp
    | ok r =>
      rcases r with _ | ⟨cameraId, value⟩
      · simp [h]
      · simp only [Except.ok.injEq, exists_eq', iff_true]
        split
        all_goals exact h

/-! ## A sequence of messages -/

/-- Every message finds the loop running, so it is handled, and leaves it running. -/
def Handles {S E : Type} (step : S → E → S) (worker : S → Worker) (s : S) (evs : List E) : Prop :=
  StepsMeet step (fun s e => worker s = .running ∧ worker (step s e) = .running) s evs

theorem handles_iff {S E : Type} {step : S → E → S} {worker : S → Worker} {reads : E → Bool}
    (hstep : ∀ s e, worker s = .running → (worker (step s e) = .running ↔ reads e = true))
    {s : S} (hs : worker s = .running) (evs : List E) :
    Handles step worker s evs ↔ ∀ e ∈ evs, reads e = true := by
  induction evs generalizing s with
  | nil => simp [Handles, StepsMeet]
  | cons e evs ih =>
    rw [List.forall_mem_cons, ← hstep s e hs]
    constructor
    · rintro ⟨⟨-, hnext⟩, hrest⟩
      exact ⟨hnext, (ih hnext).1 hrest⟩
    · rintro ⟨hnext, hrest⟩
      exact ⟨⟨hs, hnext⟩, (ih hnext).2 hrest⟩

def grabberStep (g : Grabber) (payload : Payload) : Grabber := imageStreamControlTask payload g

/-- Each loop handles every message of a sequence if and only if its handler can
read them all. -/
theorem message_loops_survive_iff (cfg : FileStacker.Config) (fs : FileSystem) (instructions : List FileStacker.Event)
    (enable : Bool) (signals : List Payload) (lenses : LensMap) (requests : List Payload) :
    (Handles (FileStacker.step cfg) FileStacker.State.level2 (FileStacker.init fs) instructions ↔
        ∀ e ∈ instructions, stackerEventReads e = true) ∧
      (Handles grabberStep Grabber.control ⟨enable, .running⟩ signals ↔ ∀ p ∈ signals, grabberReads p = true) ∧
      (Handles (lensControlSubscribe lenses) LensController.control ⟨[], .running⟩ requests ↔
        ∀ p ∈ requests, lensReads p = true) := by
  refine ⟨?_, ?_, ?_⟩
  · exact handles_iff (stacker_running_iff cfg) rfl instructions
  · exact handles_iff grabber_running_iff rfl signals
  · exact handles_iff (lens_running_iff lenses) rfl requests

/-- A request to move the focus of camera 1. -/
def moveFocus : Json := .obj [("function", .str (ascii "move_focus")), ("camera_id", .int 1), ("value", .int 500)]

/-- After a payload that is no JSON, a well-formed message moves no lens. -/
theorem focus_not_moved :
    (runs (lensControlSubscribe fun _ => some true) ⟨[], .running⟩ [some moveFocus]).moved = [(1, 500)] ∧
      (runs (lensControlSubscribe fun _ => some true) ⟨[], .running⟩ [none, some moveFocus]).moved = [] ∧
      ¬ ∀ lenses requests,
        Handles (lensControlSubscribe lenses) LensController.control ⟨[], .running⟩ requests := by
  refine ⟨by decide, by decide, fun h => ?_⟩
  obtain ⟨-, ⟨hrunning, -⟩, -⟩ := h (fun _ => some true) [none, some moveFocus]
  exact absurd hrunning (by decide)

end FlameSdd.MessageLoops
