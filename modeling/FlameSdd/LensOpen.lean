import FlameSdd.LensPosition
/-!
# Opening a lens

`UsbSetConfig` returns at the first step that succeeds, so a lens that opens is
never configured in full: `opens_drivable_iff`. The speed that later waits
divide by is whatever `open` has left, and no later operation changes that:
`later_speeds_iff`.
-/
open SysLib

namespace FlameSdd.LensControl

/-! ## A lens that can be driven -/

/-- The steps of `UsbSetConfig`. -/
def Hid.isConfig : Hid → Bool
  | .setSmbusConfig => true
  | .setGpioConfig => true
  | .setTimeouts => true
  | _ => false

/-- All three steps of `UsbSetConfig` succeeded. -/
def Device.Configured (d : Device) : Prop :=
  ∀ q : Hid, q.isConfig → ∃ a, (q, a) ∈ d.traffic ∧ a.retval = success

/-- The speed of the focus was read from the device, and is not zero. -/
def Device.SpeedRead (d : Device) : Prop :=
  (d.lens.axis .focus).speedPPS ≠ 0 ∧ (Axis.focus.speedVal, (d.lens.axis .focus).speedPPS) ∈ d.reads

def Operation.movesFocus : Operation → Bool
  | .focusInit => true
  | .focusMove _ => true
  | _ => false

def Operation.isOpen : Operation → Bool
  | .open => true
  | _ => false

/-- Wherever `FocusInit` or `FocusMove` starts after these operations, the wait
time is computed with a speed that was read. -/
def LaterSpeeds (rounds : Nat) (d : Device) : Prop :=
  ∀ (evs : List (Operation × List Answer)) (op : Operation), (∀ e ∈ evs, ¬e.1.isOpen) → op.movesFocus →
    (runs (Session.step rounds) ⟨d, false⟩ evs).dead = false →
      (runs (Session.step rounds) ⟨d, false⟩ evs).device.SpeedRead

/-- A lens that `open` has opened is configured, and can be driven. -/
def OpensDrivable (rounds : Nat) (lens : Lens) (script : List Answer) : Prop :=
  ∀ d, (openLens rounds).run bridge ⟨lens, script, []⟩ = (d, .ok true) → d.Configured ∧ LaterSpeeds rounds d

/-! ## The speed in later operations -/

/-- The speed of the focus stays what it is, and nothing that was read is
forgotten. -/
def KeepsSpeed (d d' : Device) : Prop :=
  (d'.lens.axis .focus).speedPPS = (d.lens.axis .focus).speedPPS ∧ d.reads <+: d'.reads

instance : Std.Refl KeepsSpeed := ⟨fun _ => ⟨rfl, List.prefix_refl _⟩⟩

instance : IsTrans Device KeepsSpeed := ⟨fun _ _ _ h h' => ⟨h'.1.trans h.1, h.2.trans h'.2⟩⟩

theorem KeepsSpeed.speedRead {d d' : Device} (h : KeepsSpeed d d') (hd : d.SpeedRead) : d'.SpeedRead := by
  rw [Device.SpeedRead, h.1]
  exact ⟨hd.1, h.2.subset hd.2⟩

theorem keepsSpeed_usbWrite (segmentOffset writeData : UInt16) :
    (usbWrite segmentOffset writeData).Within bridge KeepsSpeed :=
  within_call fun _ => ⟨rfl, by rw [reads_after fun h => by cases h]⟩

theorem keepsSpeed_usbRead (rounds : Nat) (segmentOffset : UInt16) :
    (usbRead rounds segmentOffset dataLength).Within bridge KeepsSpeed := by
  refine within_usbRead (fun d d' r he => ?_) rounds
  cases he with
  | failed r hr hl ht => exact ⟨by rw [hl], by rw [ht]⟩
  | answered receiveData hl ht => exact ⟨by rw [hl]; rfl, ht ▸ List.prefix_append _ _⟩

theorem keepsSpeed_currentAddr (a : Axis) (v : UInt16) :
    (assign fun lens => lens.setAxis a fun m => { m with currentAddr := v }).Within bridge KeepsSpeed := by
  refine within_assign fun d => ⟨?_, List.prefix_refl _⟩
  cases a <;> simp [Lens.setAxis]

theorem keepsSpeed_statusWait (rounds : Nat) (mask : UInt16) (waitTime : Nat) :
    (statusWait rounds status1 mask waitTime).Within bridge KeepsSpeed :=
  within_statusWait (keepsSpeed_usbRead rounds status1) _ _

theorem keepsSpeed_axisInit (rounds : Nat) (a : Axis) : (axisInit rounds a).Within bridge KeepsSpeed :=
  within_axisInit (keepsSpeed_usbWrite _ _) (keepsSpeed_statusWait rounds _) (keepsSpeed_usbRead rounds _)
    (keepsSpeed_currentAddr a)
    (within_status2ReadSet (keepsSpeed_usbRead rounds _) fun _ _ => ⟨rfl, List.prefix_refl _⟩)

theorem keepsSpeed_axisMove (rounds : Nat) (a : Axis) (addrData : UInt16) :
    (axisMove rounds a addrData).Within bridge KeepsSpeed :=
  within_axisMove (keepsSpeed_usbWrite _ _) (keepsSpeed_statusWait rounds _) (keepsSpeed_usbRead rounds _)
    (keepsSpeed_currentAddr a)

theorem keepsSpeed_program (rounds : Nat) {op : Operation} (h : ¬op.isOpen) :
    (op.program rounds).Within bridge KeepsSpeed := by
  cases op with
  | «open» => exact absurd rfl h
  | readFocusPosition =>
    exact (within_currentAddrReadSet (keepsSpeed_usbRead rounds _) (keepsSpeed_currentAddr .focus)).bind fun _ =>
      Program.within_done _
  | focusInit => exact (keepsSpeed_axisInit rounds .focus).bind fun _ => Program.within_done _
  | focusMove addrData => exact (keepsSpeed_axisMove rounds .focus addrData).bind fun _ => Program.within_done _
  | irisInit => exact (keepsSpeed_axisInit rounds .iris).bind fun _ => Program.within_done _
  | irisMove addrData => exact (keepsSpeed_axisMove rounds .iris addrData).bind fun _ => Program.within_done _

/-- Later operations divide by a speed that was read exactly when `open` has
left one. -/
theorem later_speeds_iff (rounds : Nat) (d : Device) : LaterSpeeds rounds d ↔ d.SpeedRead := by
  constructor
  · intro h
    exact h [] .focusInit (List.forall_mem_nil _) rfl rfl
  · intro hd evs op hevs _ _
    refine runs_inv (P := fun _ e => ¬e.1.isOpen) (fun s : Session => s.device.SpeedRead) (fun s e hs he => ?_) hd
      ((stepsMeet_forall_iff _ _).2 hevs)
    cases hdead : s.dead with
    | true => rwa [show s.step rounds e = s from if_pos hdead]
    | false =>
      rw [Session.device_step rounds hdead]
      have hk : KeepsSpeed { s.device with script := e.2 } _ := keepsSpeed_program rounds he _
      exact hk.speedRead hs

/-! ## The steps of `UsbSetConfig` -/

def Device.configCalls (d : Device) : List (Hid × Answer) := d.traffic.filter fun t => t.1.isConfig

theorem configured_iff (d : Device) :
    d.Configured ↔ ∀ q : Hid, q.isConfig → ∃ a, (q, a) ∈ d.configCalls ∧ a.retval = success := by
  refine forall₂_congr fun q hq => exists_congr fun a => and_congr_left fun _ => ?_
  simp [Device.configCalls, hq]

theorem configCalls_after (d : Device) (q : Hid) :
    (d.after q).configCalls = d.configCalls ++ if q.isConfig then [(q, d.answer)] else [] := by
  cases h : q.isConfig <;> simp [Device.configCalls, Device.after, h]

theorem keeps_configCalls {q : Hid} (h : q.isConfig = false) (d : Device) :
    Program.Keeps Device.configCalls d (d.after q) := by
  rw [Program.Keeps, configCalls_after, h, if_neg Bool.false_ne_true, List.append_nil]

/-- `open`, from where the lens counts as configured. -/
def setUp (rounds : Nat) : LensM Bool := do
  let (_, capabilities) ← capabilitiesRead rounds
  let _ ← status2ReadSet rounds
  setUpAxis rounds .focus capabilities
  setUpAxis rounds .iris capabilities
  pure true

theorem setUp_configCalls (rounds : Nat) : (setUp rounds).Within bridge (Program.Keeps Device.configCalls) := by
  have read : ∀ segmentOffset, (usbRead rounds segmentOffset dataLength).Within bridge
      (Program.Keeps Device.configCalls) :=
    fun _ => within_usbRead_calls (keeps_configCalls rfl) (fun d _ => keeps_configCalls rfl d)
      (fun d _ => keeps_configCalls rfl d) (keeps_configCalls rfl) (fun _ _ => rfl) rounds _
  have setUpAxis : ∀ a capabilities, (setUpAxis rounds a capabilities).Within bridge
      (Program.Keeps Device.configCalls) :=
    fun a => within_setUpAxis
      (within_parameterReadSet (fun _ _ => read _) (fun _ _ => rfl) (fun _ _ => rfl) fun _ _ => rfl)
      (within_currentAddrReadSet (read _) fun _ _ => rfl)
  refine (within_capabilitiesRead (read _)).bind ?_
  rintro ⟨_, capabilities⟩
  exact (within_status2ReadSet (read _) fun _ _ => rfl).bind fun _ => (setUpAxis .focus capabilities).bind fun _ =>
    (setUpAxis .iris capabilities).bind fun _ => Program.within_done _

/-! ## `open` returns -/

theorem returns_usbRead (rounds : Nat) (segmentOffset : UInt16) :
    (usbRead rounds segmentOffset dataLength).Returns bridge fun _ => True := fun d => by
  obtain ⟨d', r, hrun, -⟩ := usbRead_effect rounds segmentOffset d
  exact ⟨d', r, hrun, trivial⟩

theorem returns_ifSuccess {x rest : LensM Int} (hx : x.Returns bridge fun _ => True)
    (hrest : rest.Returns bridge fun _ => True) : (ifSuccess x rest).Returns bridge fun _ => True := by
  refine hx.bind fun retval _ => ?_
  split
  · exact Program.returns_done trivial
  · exact hrest

theorem returns_read2Bytes : usbRead2Bytes.Returns bridge fun _ => True := Program.returns_request Request.read2Bytes

theorem returns_assign (f : Lens → Lens) : (assign f).Returns bridge fun _ => True :=
  Program.returns_request (Request.assign f)

/-- A register is read and kept before the rest follows. -/
theorem returns_readSet (rounds : Nat) (segmentOffset : UInt16) (f : UInt16 → Lens → Lens) {rest : LensM Int}
    (hrest : rest.Returns bridge fun _ => True) :
    (ifSuccess (usbRead rounds segmentOffset dataLength) (usbRead2Bytes >>= fun v => assign (f v) >>= fun _ =>
      rest)).Returns bridge fun _ => True :=
  returns_ifSuccess (returns_usbRead rounds segmentOffset)
    (returns_read2Bytes.bind fun v _ => (returns_assign (f v)).bind fun _ _ => hrest)

theorem returns_setUpAxis (rounds : Nat) (a : Axis) (capabilities : UInt16) :
    (setUpAxis rounds a capabilities).Returns bridge fun _ => True := by
  unfold setUpAxis
  split
  · refine .bind (P := fun _ => True) ?_ fun _ _ => (Program.returns_request Request.look).bind fun lens _ => ?_
    · refine returns_readSet rounds _ _ ?_
      refine returns_readSet rounds _ _ ?_
      exact returns_readSet rounds _ _ (Program.returns_done trivial)
    · split
      · exact .bind (P := fun _ => True) ((returns_usbRead rounds _).bind fun _ _ => returns_read2Bytes.bind fun _ _ =>
          (returns_assign _).bind fun _ _ => Program.returns_done trivial) fun _ _ => Program.returns_done trivial
      · exact Program.returns_done trivial
  · exact Program.returns_done trivial

theorem returns_status2ReadSet (rounds : Nat) : (status2ReadSet rounds).Returns bridge fun _ => True :=
  returns_readSet rounds _ _ (Program.returns_done trivial)

theorem setUp_returns (rounds : Nat) : (setUp rounds).Returns bridge fun opened => opened = true := by
  refine .bind (P := fun _ => True) ((returns_usbRead rounds _).bind fun _ _ => returns_read2Bytes.bind fun _ _ =>
    Program.returns_done trivial) ?_
  rintro ⟨_, capabilities⟩ -
  exact (returns_status2ReadSet rounds).bind fun _ _ => (returns_setUpAxis rounds .focus capabilities).bind fun _ _ =>
    (returns_setUpAxis rounds .iris capabilities).bind fun _ _ => Program.returns_done rfl

/-! ## What `WaitCalc` divides by -/

theorem returns_statusLoop (rounds : Nat) (segmentOffset : UInt16) (again : UInt16 → Bool) (error : Int) (left : Nat) :
    (statusLoop rounds segmentOffset again error left).Returns bridge fun _ => True := by
  induction left with
  | zero => exact Program.returns_done trivial
  | succ left ih =>
    refine returns_ifSuccess (returns_usbRead rounds _) (returns_read2Bytes.bind fun _ _ => ?_)
    split
    · exact Program.returns_done trivial
    · split
      · exact ih
      · exact Program.returns_done trivial

theorem returns_statusWait (rounds : Nat) (segmentOffset statusMask : UInt16) (waitTime : Nat) :
    (statusWait rounds segmentOffset statusMask waitTime).Returns bridge fun _ => True :=
  returns_ifSuccess (returns_statusLoop rounds _ _ _ _) (returns_statusLoop rounds _ _ _ _)

theorem returns_usbWrite (segmentOffset writeData : UInt16) :
    (usbWrite segmentOffset writeData).Returns bridge fun _ => True := fun _ => ⟨_, _, run_call _ _, trivial⟩

theorem returns_deviceMove (rounds : Nat) (segmentOffset addrData mask : UInt16) (waitTime : Nat) :
    (deviceMove rounds segmentOffset addrData mask waitTime).Returns bridge fun _ => True := by
  refine (returns_usbWrite _ _).bind fun retval _ => ?_
  split
  · refine (returns_statusWait rounds _ _ _).bind fun retval _ => ?_
    split
    · refine (returns_usbRead rounds _).bind fun retval _ => ?_
      split
      · exact Program.returns_done trivial
      · exact returns_read2Bytes.bind fun _ _ => Program.returns_done trivial
    · exact Program.returns_done trivial
  · exact Program.returns_done trivial

theorem run_waitCalc {speedPPS : UInt16} (moveValue : UInt16) {f : Nat → LensM Int}
    (hf : ∀ waitTime, (f waitTime).Returns bridge fun _ => True) (d : Device) :
    ((waitCalc moveValue speedPPS >>= f).run bridge d).2 = .error .divisionByZero ↔ speedPPS = 0 := by
  unfold waitCalc
  split
  · exact iff_of_true rfl ‹_›
  · obtain ⟨d', r, hrun, -⟩ := hf (max minimumWait (waitMag * moveValue.toNat / speedPPS.toNat)) d
    refine iff_of_false (fun h => ?_) ‹_›
    rw [Program.pure_eq, Program.done_bind, hrun] at h
    cases h

/-- `FocusInit` and `FocusMove` end the process exactly when the speed is zero. -/
theorem movesFocus_stops_iff (rounds : Nat) {op : Operation} (h : op.movesFocus) (d : Device) :
    ((op.program rounds).run bridge d).2 = .error .divisionByZero ↔ (d.lens.axis .focus).speedPPS = 0 := by
  have drop : ∀ p : LensM Int, ((p >>= fun _ => pure () : LensM Unit).run bridge d).2 = .error .divisionByZero ↔
      (p.run bridge d).2 = .error .divisionByZero := fun p => by
    cases hrun : p.run bridge d with
    | mk d' r =>
      cases r with
      | ok a => simp [Program.run_bind_ok hrun]
      | error e => simp [Program.run_bind_error hrun]
  cases op with
  | focusInit =>
    refine (drop _).trans (run_waitCalc _ (fun waitTime => ?_) d)
    refine returns_ifSuccess (returns_usbWrite _ _) (returns_ifSuccess (returns_statusWait rounds _ _ _) ?_)
    exact returns_readSet rounds _ _ ((returns_status2ReadSet rounds).bind fun _ _ => Program.returns_done trivial)
  | focusMove addrData =>
    refine (drop _).trans (run_waitCalc _ (fun waitTime => ?_) d)
    refine (returns_deviceMove rounds _ _ _ _).bind ?_
    rintro ⟨retval, v⟩ -
    dsimp only
    split
    · exact (returns_assign _).bind fun _ _ => Program.returns_done trivial
    · exact Program.returns_done trivial
  | «open» | readFocusPosition | irisInit | irisMove => cases h

/-! ## When a lens that opens is configured -/

/-- The device cannot be opened, or refuses all three steps of `UsbSetConfig`. -/
def Refused (script : List Answer) : Prop :=
  (script.getD 0 timedOut).retval ≠ success ∨
    ∀ i ∈ [1, 2, 3], (script.getD i timedOut).retval ≠ success

theorem answer_eq (d : Device) : d.answer = d.script.getD 0 timedOut := by
  rw [Device.answer]
  cases d.script <;> rfl

theorem script_after (d : Device) (q : Hid) (i : Nat) :
    (d.after q).script.getD i timedOut = d.script.getD (i + 1) timedOut := by
  rw [Device.after]
  cases d.script <;> simp

/-- `UsbSetConfig` fails where all steps do, and else has left one undone. -/
theorem usbSetConfig_effect {d : Device} (h0 : d.configCalls = []) :
    ∃ d' r, usbSetConfig.run bridge d = (d', .ok r) ∧
      (r ≠ success ∧ (∀ i ∈ [0, 1, 2], (d.script.getD i timedOut).retval ≠ success) ∨
        r = success ∧ ¬d'.Configured ∧ ¬∀ i ∈ [0, 1, 2], (d.script.getD i timedOut).retval ≠ success) := by
  have c1 := configCalls_after d .setSmbusConfig
  have c2 := configCalls_after (d.after .setSmbusConfig) .setGpioConfig
  have c3 := configCalls_after ((d.after .setSmbusConfig).after .setGpioConfig) .setTimeouts
  rw [h0] at c1
  rw [c1] at c2
  rw [c2] at c3
  have a1 : d.answer.retval = (d.script.getD 0 timedOut).retval := by rw [answer_eq]
  have a2 : (d.after .setSmbusConfig).answer.retval = (d.script.getD 1 timedOut).retval := by
    rw [answer_eq, script_after]
  have a3 : ((d.after .setSmbusConfig).after .setGpioConfig).answer.retval = (d.script.getD 2 timedOut).retval := by
    rw [answer_eq, script_after, script_after]
  unfold usbSetConfig
  rw [Program.run_bind_ok (run_call _ d)]
  by_cases h1 : d.answer.retval = success
  · -- the second step is never made
    rw [if_pos h1]
    refine ⟨_, _, rfl, .inr ⟨h1, fun hc => ?_, fun h => h 0 (by decide) (a1 ▸ h1)⟩⟩
    obtain ⟨a, ha, -⟩ := (configured_iff _).1 hc .setGpioConfig rfl
    simp [c1, Hid.isConfig] at ha
  rw [if_neg h1, Program.run_bind_ok (run_call _ _)]
  by_cases h2 : (d.after .setSmbusConfig).answer.retval = success
  · rw [if_pos h2]
    refine ⟨_, _, rfl, .inr ⟨h2, fun hc => ?_, fun h => h 1 (by decide) (a2 ▸ h2)⟩⟩
    obtain ⟨a, ha, hr⟩ := (configured_iff _).1 hc .setSmbusConfig rfl
    simp only [c2, Hid.isConfig, if_true, List.nil_append, List.cons_append, List.mem_cons, List.not_mem_nil,
      Prod.mk.injEq, reduceCtorEq, false_and, or_false, true_and] at ha
    exact h1 (ha ▸ hr)
  rw [if_neg h2, Program.run_bind_ok (run_call _ _), ite_self]
  by_cases h3 : ((d.after .setSmbusConfig).after .setGpioConfig).answer.retval = success
  · refine ⟨_, _, rfl, .inr ⟨h3, fun hc => ?_, fun h => h 2 (by decide) (a3 ▸ h3)⟩⟩
    obtain ⟨a, ha, hr⟩ := (configured_iff _).1 hc .setSmbusConfig rfl
    simp only [c3, Hid.isConfig, if_true, List.nil_append, List.cons_append, List.mem_cons, List.not_mem_nil,
      Prod.mk.injEq, reduceCtorEq, false_and, or_false, true_and] at ha
    exact h1 (ha ▸ hr)
  · refine ⟨_, _, rfl, .inl ⟨h3, ?_⟩⟩
    simp only [List.mem_cons, List.not_mem_nil, or_false, forall_eq_or_imp, forall_eq]
    exact ⟨a1 ▸ h1, a2 ▸ h2, a3 ▸ h3⟩

theorem openLens_eq (rounds : Nat) : openLens rounds = (usbOpen >>= fun retval =>
    if retval ≠ success then pure false else usbSetConfig >>= fun retval =>
      if retval ≠ success then pure false else setUp rounds) := rfl

/-- What `open` has opened can be driven exactly when it opens nothing: the
device refuses to be opened, or refuses all steps of the configuration. -/
theorem opens_drivable_iff (rounds : Nat) (lens : Lens) (script : List Answer) :
    OpensDrivable rounds lens script ↔ Refused script := by
  have h0 : (Device.after ⟨lens, script, []⟩ .open).configCalls = [] := rfl
  have a0 : (Device.answer ⟨lens, script, []⟩).retval = (script.getD 0 timedOut).retval := by rw [answer_eq]
  have hshift : (∀ i ∈ [0, 1, 2], ((Device.after ⟨lens, script, []⟩ .open).script.getD i timedOut).retval ≠ success) ↔
      ∀ i ∈ [1, 2, 3], (script.getD i timedOut).retval ≠ success := by
    simp only [script_after, List.mem_cons, List.not_mem_nil, or_false, forall_eq_or_imp, forall_eq]
  rw [OpensDrivable, openLens_eq, usbOpen, Program.run_bind_ok (run_call _ _)]
  by_cases ho : (Device.answer ⟨lens, script, []⟩).retval = success
  swap
  · rw [if_pos ho]
    exact iff_of_true (fun d h => by cases h) (.inl (a0 ▸ ho))
  rw [if_neg (not_not.2 ho)]
  obtain ⟨d', r, hrun, ⟨hr, hall⟩ | ⟨hr, hnot, hsome⟩⟩ := usbSetConfig_effect h0
  · rw [Program.run_bind_ok hrun, if_pos hr]
    refine iff_of_true (fun d h => by cases h) (.inr (hshift.1 hall))
  · rw [Program.run_bind_ok hrun, if_neg (not_not.2 hr)]
    obtain ⟨d'', _, hset, rfl⟩ := setUp_returns rounds d'
    refine iff_of_false (fun h => hnot ?_) ?_
    · have hk : Program.Keeps Device.configCalls d' _ := setUp_configCalls rounds d'
      rw [hset] at hk
      have hc := (configured_iff d'').1 (h d'' hset).1
      rw [hk] at hc
      exact (configured_iff d').2 hc
    · rintro (h | h)
      · exact h (a0 ▸ ho)
      · exact hsome (hshift.2 h)

/-- A bridge that answers every call, with a lens that can do nothing: the
first step of the configuration is the only one. -/
theorem opened_unconfigured : ¬∀ rounds lens script, OpensDrivable rounds lens script := by
  intro h
  let d : Device := ⟨⟨fun _ => 0, fun _ => ⟨0, 0, 0, 0⟩, 0⟩, List.replicate 10 ⟨0, [0, 0]⟩, []⟩
  have hopen : ((openLens 1).run bridge d).2 = .ok true := by decide +kernel
  have hnone : ∀ t ∈ ((openLens 1).run bridge d).1.traffic, t.1 ≠ .setTimeouts := by decide +kernel
  obtain ⟨a, ha, -⟩ := (h 1 d.lens d.script _ (Prod.ext rfl hopen)).1 .setTimeouts rfl
  exact hnone _ ha rfl

end FlameSdd.LensControl
