import FlameSdd.LensBridge
/-!
# The target of a focus move

A focus move comes in directly, through `focus_move`, which casts the value to
16 bits, or through the queue, where `execute` saturates it first. The two
agree on the values of the lens, and only there: `focus_target_iff`.
-/
open SysLib

namespace FlameSdd.LensControl

/-! ## What is written to the registers -/

/-- The registers that are written, with their values. -/
def Device.writes (d : Device) : List (UInt16 × UInt16) :=
  d.traffic.filterMap fun t =>
    match t.1 with
    | .writeRequest [b0, b1, b2, b3] => some (twoBytes b0 b1, twoBytes b2 b3)
    | _ => none

theorem writes_usbWrite (segmentOffset writeData : UInt16) (d : Device) :
    (d.after (.writeRequest (sendOffset segmentOffset ++ sendOffset writeData))).writes =
      d.writes ++ [(segmentOffset, writeData)] := by
  simp [Device.writes, Device.after, sendOffset, twoBytes_sendOffset]

theorem keepsWrites_usbRead (rounds : Nat) (segmentOffset : UInt16) :
    (usbRead rounds segmentOffset dataLength).Within bridge (Program.Keeps Device.writes) := by
  have after : ∀ (d : Device) (q : Hid), (∀ b0 b1 b2 b3, q ≠ .writeRequest [b0, b1, b2, b3]) →
      Program.Keeps Device.writes d (d.after q) := fun d q hq => by
    simp only [Program.Keeps, Device.writes, Device.after, List.filterMap_append]
    cases q with
    | writeRequest sendData =>
      rcases sendData with _ | ⟨b0, _ | ⟨b1, _ | ⟨b2, _ | ⟨b3, _ | _⟩⟩⟩⟩ <;> simp
      exact (hq b0 b1 b2 b3 rfl).elim
    | _ => simp
  refine within_usbRead_calls (fun d => after d _ fun _ _ _ _ h => ?_)
    (fun d _ => after d _ fun _ _ _ _ h => by cases h) (fun d _ => after d _ fun _ _ _ _ h => by cases h)
    (fun d => after d _ fun _ _ _ _ h => by cases h) (fun _ _ => rfl) rounds _
  simp [sendOffset] at h

/-- A move that does not stop writes its target, and nothing else. -/
theorem writes_axisMove (rounds : Nat) (a : Axis) (addrData : UInt16) (d : Device) :
    ((axisMove rounds a addrData).run bridge d).1.writes =
      if (d.lens.axis a).speedPPS = 0 then d.writes else d.writes ++ [(a.positionVal, addrData)] := by
  have wait : ∀ waitTime, (statusWait rounds status1 a.mask waitTime).Within bridge (Program.Keeps Device.writes) :=
    within_statusWait (keepsWrites_usbRead rounds _) _
  rw [axisMove, look, Program.request_bind, Program.run_ask, bridge, waitCalc]
  split
  · rfl
  · rw [Program.pure_eq, Program.done_bind, deviceMove_eq, Program.bind_assoc, usbWrite,
      Program.run_bind_ok (run_call _ d), ← writes_usbWrite]
    refine Program.Within.bind (R := Program.Keeps Device.writes)
      (within_afterWrite (wait _) (keepsWrites_usbRead rounds _) _ _) ?_ _
    rintro ⟨retval, v⟩
    dsimp only
    split
    · exact .bind (within_assign fun _ => rfl) fun _ => Program.within_done _
    · exact Program.within_done _

/-! ## The two paths -/

/-- The message that the queue takes for a move of the focus. -/
def moveFocusApi (value : Int) : Json := .obj [("function", .str (ascii "move_focus")), ("value", .int value)]

theorem execute_moveFocus (rounds : Nat) (value : Int) :
    execute rounds (moveFocusApi value) =
      (focusMove rounds (toUShort (saturate (value.bmod (2 ^ 32)) 0 9091)) >>= fun _ => pure ()) := by
  have hhas : (moveFocusApi value).contains "function" = true := rfl
  have hname : ((moveFocusApi value).index "function" >>= Json.getString) = .ok (ascii "move_focus") := rfl
  have hvalue : ((moveFocusApi value).index "value" >>= Json.getInt) = .ok (value.bmod (2 ^ 32)) := rfl
  have hcode : functionCode.lookup (ascii "move_focus") = some 3 := by decide +kernel
  rw [execute, if_pos hhas, hname]
  simp only [orStop, hcode, hvalue]

/-- `focus_move` refuses the value and writes nothing, or writes one target,
which is one of the lens. -/
def TargetLegal (rounds : Nat) (value : Int) (d : Device) : Prop :=
  let r := (Command.focusMove rounds value).run bridge d
  r.2 = .ok false ∧ r.1.writes = [] ∨ ∃ target : UInt16, r.1.writes = [(Axis.focus.positionVal, target)] ∧ target ≤ 9091

/-- Where the queue does not have to saturate the value, both paths write the
same. -/
def PathsAgree (rounds : Nat) (value : Int) (d : Device) : Prop :=
  0 ≤ value → value ≤ 9091 → ((Command.focusMove rounds value).run bridge d).1.writes =
    ((execute rounds (moveFocusApi value)).run bridge d).1.writes

/-- A result that is dropped, or only read, leaves the device as it is. -/
theorem run_bind_fst {α β : Type} {p : LensM α} {f : α → LensM β} (hf : ∀ a d, ((f a).run bridge d).1 = d)
    (d : Device) : ((p >>= f).run bridge d).1 = (p.run bridge d).1 := by
  rw [Program.run_bind]
  split
  · simp_all
  · simp_all

theorem device_focusMove (rounds : Nat) (value : Int) (d : Device) :
    ((Command.focusMove rounds value).run bridge d).1 = ((focusMove rounds (toUShort value)).run bridge d).1 := by
  have hrefuse : ¬(isnan value && decide (value ≥ 2 ^ 16 - 1)) = true := by simp [isnan]
  rw [Command.focusMove, if_neg hrefuse]
  exact run_bind_fst (fun retval d => by split <;> rfl) d

theorem toNat_toUShort (value : Int) : ((toUShort value).toNat : Int) = value % 2 ^ 16 := by
  rw [toUShort, UInt16.toNat_ofNat']
  omega

/-- The queue moves to the value, saturated; `focus_move` to its last 16 bits. -/
theorem paths_agree (rounds : Nat) (value : Int) (d : Device) : PathsAgree rounds value d := by
  intro hlo hhi
  have hbmod : value.bmod (2 ^ 32) = value := Int.bmod_eq_of_le (by omega) (by omega)
  have hsat : saturate value 0 9091 = value := by
    rw [saturate, if_neg (not_lt.2 hlo), if_neg (not_lt.2 hhi)]
  rw [device_focusMove, execute_moveFocus, hbmod, hsat, run_bind_fst fun _ _ => rfl]

/-- A lens without a speed stops the process. -/
theorem stops_focusMove (rounds : Nat) (value : Int) {d : Device} (h : (d.lens.axis .focus).speedPPS = 0) :
    (Command.focusMove rounds value).run bridge d = (d, .error .divisionByZero) := by
  have hrefuse : ¬(isnan value && decide (value ≥ 2 ^ 16 - 1)) = true := by simp [isnan]
  have hmove : (focusMove rounds (toUShort value)).run bridge d = (d, .error .divisionByZero) := by
    rw [focusMove, axisMove, look, Program.request_bind, Program.run_ask, bridge, waitCalc, if_pos h]
    rfl
  rw [Command.focusMove, if_neg hrefuse, Program.run_bind_error hmove]

/-- `focus_move` keeps to the targets of the lens, and to what the queue does
with them, exactly when the lens has a speed and the last 16 bits of the value
are in range. -/
theorem focus_target_iff (rounds : Nat) (value : Int) (lens : Lens) (script : List Answer) :
    TargetLegal rounds value ⟨lens, script, []⟩ ∧ PathsAgree rounds value ⟨lens, script, []⟩ ↔
      (lens.axis .focus).speedPPS ≠ 0 ∧ value % 2 ^ 16 ≤ 9091 := by
  rw [and_iff_left (paths_agree _ _ _), TargetLegal]
  by_cases hpps : (lens.axis .focus).speedPPS = 0
  · refine iff_of_false ?_ fun h => h.1 hpps
    rw [stops_focusMove rounds value hpps]
    rintro (⟨h, -⟩ | ⟨target, h, -⟩) <;> cases h
  · have hwrites : ((Command.focusMove rounds value).run bridge ⟨lens, script, []⟩).1.writes =
        [(Axis.focus.positionVal, toUShort value)] := by
      rw [device_focusMove, focusMove, writes_axisMove, if_neg hpps]
      rfl
    have hnat := toNat_toUShort value
    rw [hwrites]
    constructor
    · rintro (⟨-, h⟩ | ⟨target, h, hle⟩)
      · cases h
      · cases h
        have hle' : (toUShort value).toNat ≤ 9091 := UInt16.le_iff_toNat_le.1 hle
        exact ⟨hpps, by omega⟩
    · rintro ⟨-, hle⟩
      have hle' : (toUShort value).toNat ≤ 9091 := by omega
      exact .inr ⟨_, rfl, UInt16.le_iff_toNat_le.2 hle'⟩

/-- A value beyond the range of the lens that fits 16 bits. -/
theorem illegal_target : ¬∀ (rounds : Nat) (value : Int) (lens : Lens) (script : List Answer),
    TargetLegal rounds value ⟨lens, script, []⟩ ∧ PathsAgree rounds value ⟨lens, script, []⟩ := by
  intro h
  let d : Device := ⟨⟨fun _ => 0, fun _ => ⟨0, 9091, 0, 2000⟩, 0⟩, [], []⟩
  have hwrites : ((Command.focusMove 1 20000).run bridge d).1.writes = [(0x2000, 20000)] := by decide +kernel
  obtain ⟨-, hnone⟩ | ⟨target, htarget, hle⟩ := (h 1 20000 d.lens []).1
  · rw [hwrites] at hnone
    cases hnone
  · rw [hwrites] at htarget
    cases htarget
    exact absurd hle (by decide)

end FlameSdd.LensControl
