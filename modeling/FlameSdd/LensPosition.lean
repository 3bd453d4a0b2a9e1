import FlameSdd.LensBridge
import FlameSdd.SysLib.Runs
/-!
# The cached position

`focusCurrentAddr` is meant to be the position that was last read from the
lens. `FocusCurrentAddrReadSet` assigns it without asking whether the read
succeeded: `cached_position_iff`.
-/
open SysLib

namespace FlameSdd.LensControl

/-! ## A lens in use -/

inductive Operation where
  | open
  | readFocusPosition
  | focusInit
  | focusMove (addrData : UInt16)
  | irisInit
  | irisMove (addrData : UInt16)

def Operation.program (rounds : Nat) : Operation → LensM Unit
  | .open => do
    let _ ← openLens rounds
    pure ()
  | .readFocusPosition => do
    let _ ← LensControl.readFocusPosition rounds
    pure ()
  | .focusInit => do
    let _ ← LensControl.focusInit rounds
    pure ()
  | .focusMove addrData => do
    let _ ← LensControl.focusMove rounds addrData
    pure ()
  | .irisInit => do
    let _ ← LensControl.irisInit rounds
    pure ()
  | .irisMove addrData => do
    let _ ← LensControl.irisMove rounds addrData
    pure ()

/-- A lens and its device over several operations, which a division by zero
ends. -/
structure Session where
  device : Device
  dead : Bool

/-- Nothing was asked of the device yet. -/
def Session.start (lens : Lens) : Session := ⟨⟨lens, [], []⟩, false⟩

/-- One operation, with all that the bridge answers to it. -/
def Session.step (rounds : Nat) (s : Session) (e : Operation × List Answer) : Session :=
  if s.dead then s else
    match (e.1.program rounds).run bridge { s.device with script := e.2 } with
    | (d, .ok _) => ⟨d, false⟩
    | (d, .error _) => ⟨d, true⟩

theorem Session.device_step (rounds : Nat) {s : Session} (h : s.dead = false) (e : Operation × List Answer) :
    (s.step rounds e).device = ((e.1.program rounds).run bridge { s.device with script := e.2 }).1 := by
  rw [Session.step, h, if_neg Bool.false_ne_true]
  split <;> simp_all

/-! ## The position -/

/-- `focusCurrentAddr`. -/
def Device.cached (d : Device) : UInt16 := (d.lens.axis .focus).currentAddr

/-- The values of the successful reads of `FOCUS_POSITION_VAL`. -/
def Device.positions (d : Device) : List UInt16 :=
  d.reads.filterMap fun r => if r.1 = Axis.focus.positionVal then some r.2 else none

/-- The cached position is the one that was last read, or the first one if none
was. -/
def Device.Real (initial : UInt16) (d : Device) : Prop := d.cached = d.positions.getLast?.getD initial

instance (initial : UInt16) (d : Device) : Decidable (d.Real initial) :=
  inferInstanceAs (Decidable (d.cached = d.positions.getLast?.getD initial))

/-- The cached position and the one that was last read stay what they are. -/
def KeepsPosition (d d' : Device) : Prop := d'.cached = d.cached ∧ d'.positions.getLast? = d.positions.getLast?

/-- They stay what they are, or become the same. -/
def SetsPosition (d d' : Device) : Prop := KeepsPosition d d' ∨ d'.positions.getLast? = some d'.cached

instance : Std.Refl KeepsPosition := ⟨fun _ => ⟨rfl, rfl⟩⟩

instance : IsTrans Device KeepsPosition := ⟨fun _ _ _ h h' => ⟨h'.1.trans h.1, h'.2.trans h.2⟩⟩

instance : Std.Refl SetsPosition := ⟨fun _ => .inl ⟨rfl, rfl⟩⟩

instance : IsTrans Device SetsPosition where
  trans d d' d'' h h' := by
    obtain hk' | hs' := h'
    · obtain hk | hs := h
      · exact .inl (trans_of KeepsPosition hk hk')
      · exact .inr (by rw [hk'.2, hs, hk'.1])
    · exact .inr hs'

theorem KeepsPosition.real_iff {initial : UInt16} {d d' : Device} (h : KeepsPosition d d') :
    d'.Real initial ↔ d.Real initial := by
  rw [Device.Real, h.1, h.2, Device.Real]

theorem SetsPosition.real {initial : UInt16} {d d' : Device} (h : SetsPosition d d') (hd : d.Real initial) :
    d'.Real initial := by
  obtain hk | hs := h
  · exact hk.real_iff.2 hd
  · rw [Device.Real, hs]
    rfl

theorem keeps_of_eq {d d' : Device} (hl : d'.lens.axis = d.lens.axis) (ht : d'.reads = d.reads) : KeepsPosition d d' :=
  ⟨by rw [Device.cached, hl]; rfl, by rw [Device.positions, ht]; rfl⟩

/-! ## What the parts do to it -/

theorem reads_after {d : Device} {q : Hid} (h : q ≠ .getReadResponse) : (d.after q).reads = d.reads := by
  rw [Device.reads, readings_after, Readings.observe]
  split
  · rfl
  · cases q with
    | getReadResponse => exact absurd rfl h
    | writeRequest sendData => rcases sendData with _ | ⟨b0, _ | ⟨b1, _ | _⟩⟩ <;> rfl
    | _ => rfl

theorem keeps_call {q : Hid} (h : q ≠ .getReadResponse) : (call q).Within bridge KeepsPosition :=
  within_call fun _ => keeps_of_eq rfl (reads_after h)

/-- A read of another register, or one that fails. -/
theorem ReadEffect.keeps {segmentOffset : UInt16} {d d' : Device} {r : Int} (he : ReadEffect segmentOffset d d' r)
    (h : r ≠ success ∨ segmentOffset ≠ Axis.focus.positionVal) : KeepsPosition d d' := by
  cases he with
  | failed r hr hl ht => exact keeps_of_eq (by rw [hl]) ht
  | answered receiveData hl ht =>
    obtain h | h := h
    · exact absurd rfl h
    · refine ⟨by rw [Device.cached, hl]; rfl, ?_⟩
      simp [Device.positions, ht, h]

theorem keeps_usbRead (rounds : Nat) {segmentOffset : UInt16} (h : segmentOffset ≠ Axis.focus.positionVal) :
    (usbRead rounds segmentOffset dataLength).Within bridge KeepsPosition :=
  within_usbRead (fun _ _ _ he => he.keeps (.inr h)) rounds

theorem keeps_status2ReadSet (rounds : Nat) : (status2ReadSet rounds).Within bridge KeepsPosition :=
  within_status2ReadSet (keeps_usbRead rounds (by decide)) fun _ _ => ⟨rfl, rfl⟩

/-- An assignment to other members than `focusCurrentAddr`. -/
theorem keeps_setAxis (a : Axis) {f : AxisMembers → AxisMembers}
    (h : a = .focus → ∀ m, (f m).currentAddr = m.currentAddr) :
    (assign fun lens => lens.setAxis a f).Within bridge KeepsPosition := by
  refine within_assign fun d => ⟨?_, rfl⟩
  cases a with
  | focus => simp [Device.cached, Lens.setAxis, h]
  | iris => simp [Device.cached, Lens.setAxis]

theorem keeps_parameterReadSet (rounds : Nat) (a : Axis) : (parameterReadSet rounds a).Within bridge KeepsPosition := by
  refine within_parameterReadSet (fun segmentOffset h => keeps_usbRead rounds ?_)
    (fun _ => keeps_setAxis a fun _ _ => rfl) (fun _ => keeps_setAxis a fun _ _ => rfl)
    fun _ => keeps_setAxis a fun _ _ => rfl
  rintro rfl
  revert h
  cases a <;> decide

theorem keeps_statusWait (rounds : Nat) (statusMask : UInt16) (waitTime : Nat) :
    (statusWait rounds status1 statusMask waitTime).Within bridge KeepsPosition :=
  within_statusWait (keeps_usbRead rounds (by decide)) _ _

theorem keeps_usbWrite (segmentOffset writeData : UInt16) :
    (usbWrite segmentOffset writeData).Within bridge KeepsPosition :=
  keeps_call fun h => by cases h

theorem keeps_irisAddr (v : UInt16) :
    (assign fun lens => lens.setAxis .iris fun m => { m with currentAddr := v }).Within bridge KeepsPosition :=
  keeps_setAxis .iris fun h => by cases h

theorem keeps_setUpIris (rounds : Nat) (capabilities : UInt16) :
    (setUpAxis rounds .iris capabilities).Within bridge KeepsPosition :=
  within_setUpAxis (keeps_parameterReadSet rounds .iris)
    (within_currentAddrReadSet (keeps_usbRead rounds (by decide)) keeps_irisAddr) capabilities

theorem keeps_irisInit (rounds : Nat) : (irisInit rounds).Within bridge KeepsPosition :=
  within_axisInit (keeps_usbWrite _ _) (keeps_statusWait rounds _) (keeps_usbRead rounds (by decide)) keeps_irisAddr
    (keeps_status2ReadSet rounds)

theorem keeps_irisMove (rounds : Nat) (addrData : UInt16) : (irisMove rounds addrData).Within bridge KeepsPosition :=
  within_axisMove (keeps_usbWrite _ _) (keeps_statusWait rounds _) (keeps_usbRead rounds (by decide)) keeps_irisAddr

/-! ## Reads of the position -/

/-- A successful read of the position is in the buffer, and was read last. -/
theorem ReadEffect.position {d d' : Device} (he : ReadEffect Axis.focus.positionVal d d' success) :
    d'.cached = d.cached ∧ d'.positions.getLast? = some d'.lens.read2Bytes := by
  cases he with
  | failed r hr => exact absurd rfl hr
  | answered receiveData hl ht =>
    refine ⟨by rw [Device.cached, hl]; rfl, ?_⟩
    simp [Device.positions, ht]

/-- `focusCurrentAddr` is assigned what the buffer holds. -/
def Device.cacheBuffer (d : Device) : Device :=
  { d with lens := d.lens.setAxis .focus fun m => { m with currentAddr := d.lens.read2Bytes } }

@[simp] theorem cached_cacheBuffer (d : Device) : d.cacheBuffer.cached = d.lens.read2Bytes := by
  simp [Device.cached, Device.cacheBuffer, Lens.setAxis]

@[simp] theorem positions_cacheBuffer (d : Device) : d.cacheBuffer.positions = d.positions := rfl

/-- After a successful read the buffer is the position. -/
theorem cacheBuffer_sets {d d' d'' : Device} (he : ReadEffect Axis.focus.positionVal d d' success)
    (hk : KeepsPosition d'.cacheBuffer d'') : d''.positions.getLast? = some d''.cached := by
  rw [hk.2, hk.1, cached_cacheBuffer, positions_cacheBuffer, he.position.2]

theorem Within.sets {α : Type} {p : LensM α} (h : p.Within bridge KeepsPosition) : p.Within bridge SetsPosition :=
  fun d => .inl (h d)

theorem sets_focusInit (rounds : Nat) : (focusInit rounds).Within bridge SetsPosition := by
  refine within_look.bind fun _ => (within_waitCalc _ _).bind fun _ => ?_
  refine within_ifSuccess (Within.sets (keeps_usbWrite _ _))
    (within_ifSuccess (Within.sets (keeps_statusWait rounds _ _)) fun d => ?_)
  obtain ⟨d', r, hrun, he⟩ := usbRead_effect rounds Axis.focus.positionVal d
  rw [run_ifSuccess hrun]
  by_cases hr : r = success
  · subst hr
    rw [if_pos rfl]
    have hk : KeepsPosition d'.cacheBuffer _ :=
      ((keeps_status2ReadSet rounds).bind fun _ => Program.within_done success) d'.cacheBuffer
    exact .inr (cacheBuffer_sets he hk)
  · rw [if_neg hr]
    exact .inl (he.keeps (.inl hr))

/-- A move ends with the position that it has read, or keeps the old one. -/
theorem deviceMove_position (rounds : Nat) (addrData mask : UInt16) (waitTime : Nat) (d : Device) :
    match (deviceMove rounds Axis.focus.positionVal addrData mask waitTime).run bridge d with
    | (d', .ok (r, v)) => KeepsPosition d d' ∧ r ≠ success ∨ d'.positions.getLast? = some v ∧ r = success
    | (d', .error _) => KeepsPosition d d' := by
  unfold deviceMove usbWrite
  rw [Program.run_bind_ok (run_call _ d)]
  have hk1 : KeepsPosition d (d.after _) := keeps_usbWrite Axis.focus.positionVal addrData d
  generalize d.after _ = d1 at hk1 ⊢
  by_cases hw : d.answer.retval = success
  swap
  · rw [if_neg hw]
    exact .inl ⟨hk1, hw⟩
  rw [if_pos hw]
  have hk2 := trans_of KeepsPosition hk1 (keeps_statusWait rounds mask waitTime d1)
  cases hs : (statusWait rounds status1 mask waitTime).run bridge d1 with
  | mk d2 res =>
    rw [hs] at hk2
    cases res with
    | error e =>
      rw [Program.run_bind_error hs]
      exact hk2
    | ok r =>
      rw [Program.run_bind_ok hs]
      by_cases hr : r = success
      swap
      · rw [if_neg hr]
        exact .inl ⟨hk2, hr⟩
      rw [if_pos hr]
      obtain ⟨d3, r3, hrun, he⟩ := usbRead_effect rounds Axis.focus.positionVal d2
      rw [Program.run_bind_ok hrun]
      by_cases h3 : r3 = success
      · subst h3
        exact .inr ⟨he.position.2, rfl⟩
      · rw [if_pos h3]
        exact .inl ⟨trans_of KeepsPosition hk2 (he.keeps (.inl h3)), h3⟩

theorem sets_focusMove (rounds : Nat) (addrData : UInt16) : (focusMove rounds addrData).Within bridge SetsPosition := by
  refine within_look.bind fun _ => (within_waitCalc _ _).bind fun waitTime d => ?_
  have hmove := deviceMove_position rounds addrData Axis.focus.mask waitTime d
  cases hrun : (deviceMove rounds Axis.focus.positionVal addrData Axis.focus.mask waitTime).run bridge d with
  | mk d' res =>
    rw [hrun] at hmove
    cases res with
    | error e =>
      rw [Program.run_bind_error hrun]
      exact .inl hmove
    | ok rv =>
      rw [Program.run_bind_ok hrun]
      obtain ⟨hk, hr⟩ | ⟨hlast, hr⟩ := hmove
      · simp only [hr, if_false]
        exact .inl hk
      · simp only [hr, if_true]
        refine .inr (hlast.trans (congrArg some ?_))
        simp [Device.cached, Lens.setAxis, assign, Program.request, bridge]

/-! ## `FocusCurrentAddrReadSet` -/

/-- The position can be read, or the buffer holds the cached one all the same. -/
def Device.Fresh (rounds : Nat) (d : Device) : Prop :=
  ((usbRead rounds Axis.focus.positionVal dataLength).run bridge d).2 = .ok success ∨ d.lens.read2Bytes = d.cached

theorem real_currentAddrReadSet (rounds : Nat) {initial : UInt16} {d : Device} (hd : d.Real initial) :
    ((focusCurrentAddrReadSet rounds).run bridge d).1.Real initial ↔ d.Fresh rounds := by
  obtain ⟨d', r, hrun, he⟩ := usbRead_effect rounds Axis.focus.positionVal d
  have hend : ((focusCurrentAddrReadSet rounds).run bridge d).1 = d'.cacheBuffer :=
    congrArg Prod.fst (Program.run_bind_ok hrun)
  rw [hend, Device.Fresh, hrun]
  by_cases hr : r = success
  · subst hr
    refine iff_of_true ?_ (.inl rfl)
    rw [Device.Real, cacheBuffer_sets he (refl_of KeepsPosition _)]
    rfl
  · have hkeep := he.keeps (.inl hr)
    have hbuffer : d'.lens = d.lens := by
      cases he with
      | failed _ _ hl => exact hl
      | answered => exact absurd rfl hr
    rw [Device.Real, cached_cacheBuffer, positions_cacheBuffer, hkeep.2, hbuffer, ← show d.cached = _ from hd]
    simp [hr]

/-! ## `open` -/

/-- `open` up to the call of `FocusCurrentAddrReadSet`, if it gets there. -/
def openPosition (rounds : Nat) : LensM Bool := do
  let retval ← usbOpen
  if retval ≠ success then pure false else
    let retval ← usbSetConfig
    if retval ≠ success then pure false else
      let (_, capabilities) ← capabilitiesRead rounds
      let _ ← status2ReadSet rounds
      if capabilities &&& Axis.focus.mask ≠ 0 then
        let _ ← focusParameterReadSet rounds
        let lens ← look
        if lens.status2 &&& Axis.focus.mask = initCompleted then pure true else pure false
      else pure false

/-- `p` keeps the position real exactly when it is fresh wherever `q` gets to. -/
def Decides (rounds : Nat) {α : Type} (p : LensM α) (q : LensM Bool) : Prop :=
  ∀ initial d, Device.Real initial d →
    ((p.run bridge d).1.Real initial ↔ ∀ d', q.run bridge d = (d', .ok true) → d'.Fresh rounds)

section Decides

variable {rounds : Nat} {α β : Type}

theorem decides_never {p : LensM α} (hp : p.Within bridge KeepsPosition) : Decides rounds p (pure false) :=
  fun _ d hd => iff_of_true ((hp d).real_iff.2 hd) fun _ h => by cases h

theorem decides_here (rounds : Nat) : Decides rounds (focusCurrentAddrReadSet rounds) (pure true) := by
  intro initial d hd
  rw [real_currentAddrReadSet rounds hd]
  constructor
  · intro h d' hd'
    cases hd'
    exact h
  · exact fun h => h d rfl

theorem Decides.bind {x : LensM β} (hx : x.Within bridge KeepsPosition) {f : β → LensM α} {g : β → LensM Bool}
    (h : ∀ b, Decides rounds (f b) (g b)) : Decides rounds (x >>= f) (x >>= g) := by
  intro initial d hd
  have hk := hx d
  cases hrun : x.run bridge d with
  | mk d1 res =>
    rw [hrun] at hk
    cases res with
    | ok b =>
      rw [Program.run_bind_ok hrun, Program.run_bind_ok hrun]
      exact h b initial d1 (hk.real_iff.2 hd)
    | error e =>
      rw [Program.run_bind_error hrun, Program.run_bind_error hrun]
      exact iff_of_true (hk.real_iff.2 hd) fun _ h => by cases h

theorem Decides.followed {p : LensM β} {q : LensM Bool} (hp : Decides rounds p q) {f : β → LensM α}
    (hf : ∀ b, (f b).Within bridge KeepsPosition) : Decides rounds (p >>= f) q := by
  intro initial d hd
  rw [← hp initial d hd]
  cases hrun : p.run bridge d with
  | mk d1 res =>
    cases res with
    | ok b =>
      rw [Program.run_bind_ok hrun]
      exact (hf b d1).real_iff
    | error e => rw [Program.run_bind_error hrun]

end Decides

theorem keeps_usbSetConfig : usbSetConfig.Within bridge KeepsPosition := by
  refine (keeps_call fun h => by cases h).bind fun retval => ?_
  split
  · exact Program.within_done _
  · refine (keeps_call fun h => by cases h).bind fun retval => ?_
    split
    · exact Program.within_done _
    · refine (keeps_call fun h => by cases h).bind fun retval => ?_
      split <;> exact Program.within_done _

theorem decides_openLens (rounds : Nat) : Decides rounds (openLens rounds) (openPosition rounds) := by
  refine .bind (keeps_call fun h => by cases h) fun retval => ?_
  split
  · exact decides_never (Program.within_done _)
  refine .bind keeps_usbSetConfig fun retval => ?_
  split
  · exact decides_never (Program.within_done _)
  refine .bind (within_capabilitiesRead (keeps_usbRead rounds (by decide))) fun (_, capabilities) =>
    .bind (keeps_status2ReadSet rounds) fun _ => ?_
  refine .followed ?_ fun _ => (keeps_setUpIris rounds capabilities).bind fun _ => Program.within_done _
  unfold setUpAxis
  split
  · refine .bind (keeps_parameterReadSet rounds .focus) fun _ => .bind within_look fun lens => ?_
    split
    · exact (decides_here rounds).followed fun _ => Program.within_done _
    · exact decides_never (Program.within_done _)
  · exact decides_never (Program.within_done _)

/-! ## Sessions -/

/-- Where `FocusCurrentAddrReadSet` is called, the position is fresh. -/
def Operation.ReadsFresh (rounds : Nat) (d : Device) : Operation → Prop
  | .open => ∀ d', (openPosition rounds).run bridge d = (d', .ok true) → d'.Fresh rounds
  | .readFocusPosition => d.Fresh rounds
  | _ => True

theorem real_program_iff (rounds : Nat) {initial : UInt16} {d : Device} (hd : d.Real initial) (op : Operation) :
    ((op.program rounds).run bridge d).1.Real initial ↔ op.ReadsFresh rounds d := by
  cases op with
  | «open» => exact (decides_openLens rounds).followed (fun _ => Program.within_done _) initial d hd
  | readFocusPosition =>
    have h := (decides_here rounds).followed (fun _ => Program.within_done ()) initial d hd
    exact h.trans ⟨fun h => h d rfl, fun h d' hd' => by cases hd'; exact h⟩
  | focusInit => exact iff_of_true (((sets_focusInit rounds).bind fun _ => Program.within_done _) d |>.real hd) trivial
  | focusMove addrData =>
    exact iff_of_true (((sets_focusMove rounds addrData).bind fun _ => Program.within_done _) d |>.real hd) trivial
  | irisInit =>
    exact iff_of_true ((((keeps_irisInit rounds).bind fun _ => Program.within_done _) d).real_iff.2 hd) trivial
  | irisMove addrData =>
    exact iff_of_true ((((keeps_irisMove rounds addrData).bind fun _ => Program.within_done _) d).real_iff.2 hd) trivial

def Session.ReadsFresh (rounds : Nat) (s : Session) (e : Operation × List Answer) : Prop :=
  s.dead = false → e.1.ReadsFresh rounds { s.device with script := e.2 }

/-- After the operation the cached position is the one that was last read, and
it is unchanged if the operation has read none. -/
def Session.Caches (initial : UInt16) (rounds : Nat) (s : Session) (e : Operation × List Answer) : Prop :=
  (s.step rounds e).device.Real initial ∧
    ((s.step rounds e).device.positions = s.device.positions → (s.step rounds e).device.cached = s.device.cached)

theorem caches_iff {initial : UInt16} (rounds : Nat) {s : Session} (hs : s.device.Real initial)
    (e : Operation × List Answer) : s.Caches initial rounds e ↔ s.ReadsFresh rounds e := by
  have hreal : s.Caches initial rounds e ↔ (s.step rounds e).device.Real initial := by
    refine ⟨And.left, fun h => ⟨h, fun hp => ?_⟩⟩
    rw [show (s.step rounds e).device.cached = _ from h, hp, ← show s.device.cached = _ from hs]
  rw [hreal]
  cases hdead : s.dead with
  | true =>
    have hstep : s.step rounds e = s := if_pos hdead
    rw [hstep]
    exact iff_of_true hs fun h => by simp [hdead] at h
  | false =>
    rw [Session.device_step rounds hdead]
    refine (real_program_iff rounds (d := { s.device with script := e.2 }) hs e.1).trans ?_
    exact ⟨fun h _ => h, fun h => h hdead⟩

/-- In a session, every operation leaves the cached position at what was last
read exactly when `FocusCurrentAddrReadSet` never fails, unless the buffer
happens to hold the cached position. -/
theorem cached_position_iff (rounds : Nat) (lens : Lens) (evs : List (Operation × List Answer)) :
    StepsMeet (Session.step rounds) (Session.Caches (lens.axis .focus).currentAddr rounds) (.start lens) evs ↔
      StepsMeet (Session.step rounds) (Session.ReadsFresh rounds) (.start lens) evs :=
  stepsMeet_iff (I := fun s => s.device.Real (lens.axis .focus).currentAddr) (fun _ e hs => caches_iff rounds hs e)
    (fun _ _ _ h => h.1) rfl evs

/-- A read of the position that fails, while the buffer holds a status word. -/
theorem stale_position_cached : ¬∀ (rounds : Nat) (lens : Lens) (evs : List (Operation × List Answer)),
    StepsMeet (Session.step rounds) (Session.Caches (lens.axis .focus).currentAddr rounds) (.start lens) evs := by
  intro h
  let lens : Lens := ⟨fun i => if i = 1 then 4 else 0, fun _ => ⟨0, 9091, 1000, 2000⟩, 0⟩
  have hcached := (h 1 lens [(.readFocusPosition, [])]).1.1
  exact absurd hcached (by decide)

end FlameSdd.LensControl
