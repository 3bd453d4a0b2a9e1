import FlameSdd.LensControl
/-!
# A lens and its device

`bridge` answers the programs of a lens from a script of what the device does,
and records the traffic. A successful read of a register is a fact of the
traffic alone, and `usbRead_effect` says what it does to the buffer.
-/
open SysLib

namespace FlameSdd.LensControl

/-! ## Runs -/

/-- A lens, what the bridge will answer, and the traffic so far. -/
structure Device where
  lens : Lens
  script : List Answer
  traffic : List (Hid × Answer)

/-- What a bridge says whose script has ended. -/
def timedOut : Answer := ⟨readTimedOut, []⟩

def Device.answer (d : Device) : Answer := d.script.headD timedOut

def Device.after (d : Device) (q : Hid) : Device :=
  { d with script := d.script.tail, traffic := d.traffic ++ [(q, d.answer)] }

def bridge (d : Device) : (q : Request) → Device × q.Reply
  | .hid q => (d.after q, d.answer)
  | .copy receiveData => ({ d with lens := d.lens.copy receiveData }, ())
  | .read2Bytes => (d, d.lens.read2Bytes)
  | .look => (d, d.lens)
  | .assign f => ({ d with lens := f d.lens }, ())

/-! ## Reads, as the bridge sees them -/

/-- The register that is being read, with its bytes so far, and the registers
that were read, with their values. -/
structure Readings where
  pending : Option (UInt16 × List UInt8)
  reads : List (UInt16 × UInt16)

/-- A read is an offset that is written, a read request, and responses, up to
the second byte. A failure at any point ends it. -/
def Readings.observe (o : Readings) (t : Hid × Answer) : Readings :=
  if t.2.retval ≠ success then { o with pending := none } else
    match t.1 with
    | .writeRequest [b0, b1] => { o with pending := some (twoBytes b0 b1, []) }
    | .readRequest _ => o
    | .forceReadResponse _ => o
    | .getReadResponse =>
      match o.pending with
      | none => o
      | some (segmentOffset, bytes) =>
        match bytes ++ t.2.bytes.take bufferSize with
        | b0 :: b1 :: _ => ⟨none, o.reads ++ [(segmentOffset, twoBytes b0 b1)]⟩
        | bytes => { o with pending := some (segmentOffset, bytes) }
    | _ => { o with pending := none }

def Device.readings (d : Device) : Readings := d.traffic.foldl .observe ⟨none, []⟩

/-- The successful reads so far: each register with its value. -/
def Device.reads (d : Device) : List (UInt16 × UInt16) := d.readings.reads

@[simp] theorem readings_after (d : Device) (q : Hid) :
    (d.after q).readings = d.readings.observe (q, d.answer) := by
  simp [Device.readings, Device.after]

theorem observe_failed {o : Readings} {t : Hid × Answer} (h : t.2.retval ≠ success) :
    o.observe t = { o with pending := none } := if_pos h

/-- What `UsbRead` does. -/
inductive ReadEffect (segmentOffset : UInt16) (d d' : Device) : Int → Prop
  | failed (retval : Int) (hr : retval ≠ success) (hl : d'.lens = d.lens) (ht : d'.reads = d.reads) :
      ReadEffect segmentOffset d d' retval
  | answered (receiveData : List UInt8) (hl : d'.lens = d.lens.copy receiveData)
      (ht : d'.reads = d.reads ++ [(segmentOffset, d'.lens.read2Bytes)]) : ReadEffect segmentOffset d d' success

theorem readTimedOut_ne : readTimedOut ≠ success := by decide

theorem observe_short {o : Readings} {a : Answer} (hr : a.retval = success) {segmentOffset : UInt16}
    {bytes : List UInt8} (hp : o.pending = some (segmentOffset, bytes))
    (hlen : (bytes ++ a.bytes.take bufferSize).length < dataLength) :
    o.observe (.getReadResponse, a) = { o with pending := some (segmentOffset, bytes ++ a.bytes.take bufferSize) } := by
  rw [Readings.observe, if_neg (not_not.2 hr)]
  simp only [hp]
  generalize bytes ++ a.bytes.take bufferSize = l at hlen
  match l, hlen with
  | [], _ => rfl
  | [_], _ => rfl

theorem observe_full {o : Readings} {a : Answer} (hr : a.retval = success) {segmentOffset : UInt16}
    {bytes : List UInt8} (hp : o.pending = some (segmentOffset, bytes)) {b0 b1 : UInt8} {rest : List UInt8}
    (hbytes : bytes ++ a.bytes.take bufferSize = b0 :: b1 :: rest) :
    o.observe (.getReadResponse, a) = ⟨none, o.reads ++ [(segmentOffset, twoBytes b0 b1)]⟩ := by
  rw [Readings.observe, if_neg (not_not.2 hr)]
  simp only [hp, hbytes]

theorem two_bytes_of_length {l : List UInt8} (h : ¬l.length < dataLength) : ∃ b0 b1 rest, l = b0 :: b1 :: rest := by
  match l with
  | [] => exact absurd (by decide) h
  | [_] => exact absurd Nat.one_lt_two h
  | b0 :: b1 :: rest => exact ⟨b0, b1, rest, rfl⟩

/-- The loop ends with the bytes of the register that is pending, or leaves the
lens and the reads as they were. -/
theorem readResponses_effect (rounds : Nat) {bytes : List UInt8} {d : Device} {segmentOffset : UInt16}
    (hp : d.readings.pending = some (segmentOffset, bytes)) :
    ∃ d' r, (readResponses dataLength rounds bytes).run bridge d = (d', .ok r) ∧ d'.lens = d.lens ∧
      match r with
      | .error e => e ≠ success ∧ d'.reads = d.reads
      | .ok receiveData => ∃ b0 b1 rest, receiveData = b0 :: b1 :: rest ∧
          d'.reads = d.reads ++ [(segmentOffset, twoBytes b0 b1)] := by
  induction rounds generalizing bytes d with
  | zero => exact ⟨d, .error readTimedOut, rfl, rfl, readTimedOut_ne, rfl⟩
  | succ rounds ih =>
    rw [readResponses, hid, Program.request_bind, Program.run_ask, bridge]
    by_cases hr : d.answer.retval = success
    · rw [if_neg (not_not.2 hr)]
      by_cases hlen : (bytes ++ d.answer.bytes.take bufferSize).length < dataLength
      · rw [if_pos hlen]
        have ho := observe_short hr hp hlen
        obtain ⟨d', r, hrun, hl, hcase⟩ := ih (d := d.after .getReadResponse) (by rw [readings_after, ho])
        have hreads : (d.after .getReadResponse).reads = d.reads := by rw [Device.reads, readings_after, ho]; rfl
        rw [hreads] at hcase
        exact ⟨d', r, hrun, hl, hcase⟩
      · rw [if_neg hlen]
        obtain ⟨b0, b1, rest, hbytes⟩ := two_bytes_of_length hlen
        refine ⟨_, _, rfl, rfl, b0, b1, rest, hbytes, ?_⟩
        rw [Device.reads, readings_after, observe_full hr hp hbytes]
        rfl
    · rw [if_pos hr]
      refine ⟨_, _, rfl, rfl, hr, ?_⟩
      rw [Device.reads, readings_after, observe_failed hr]
      rfl

/-! ## What the functions do -/

theorem run_call (q : Hid) (d : Device) : (call q).run bridge d = (d.after q, .ok d.answer.retval) := rfl

/-- A checked call either fails, and with it the function, or is followed by
the rest. -/
theorem run_ifSuccess {x rest : LensM Int} {d d' : Device} {r : Int} (h : x.run bridge d = (d', .ok r)) :
    (ifSuccess x rest).run bridge d = if r = success then rest.run bridge d' else (d', .ok r) := by
  rw [ifSuccess, Program.run_bind_ok h]
  split <;> simp_all

/-- An offset, written in two bytes, is read back. -/
theorem twoBytes_sendOffset (x : UInt16) : twoBytes (x >>> 8).toUInt8 x.toUInt8 = x := by
  apply UInt16.toBitVec_inj.1
  simp only [twoBytes, UInt16.toBitVec_or, UInt16.toBitVec_shiftLeft, UInt8.toBitVec_toUInt16, UInt16.toBitVec_toUInt8,
    UInt16.toBitVec_shiftRight]
  ext i hi
  by_cases h : i < 8
  · simp [h]
    grind
  · simp [h]
    grind

theorem observe_offset {o : Readings} {segmentOffset : UInt16} {a : Answer} (hr : a.retval = success) :
    o.observe (.writeRequest (sendOffset segmentOffset), a) = { o with pending := some (segmentOffset, []) } := by
  rw [Readings.observe, if_neg (not_not.2 hr)]
  simp only [sendOffset, twoBytes_sendOffset]

theorem reads_after_failed {d : Device} (q : Hid) (hr : d.answer.retval ≠ success) : (d.after q).reads = d.reads := by
  rw [Device.reads, readings_after, observe_failed hr]
  rfl

theorem observe_request {o : Readings} {receiveSize : Nat} {a : Answer} (hr : a.retval = success) :
    o.observe (.readRequest receiveSize, a) = o := if_neg (not_not.2 hr)

theorem observe_force {o : Readings} {receiveSize : Nat} {a : Answer} (hr : a.retval = success) :
    o.observe (.forceReadResponse receiveSize, a) = o := if_neg (not_not.2 hr)

theorem usbRead_effect (rounds : Nat) (segmentOffset : UInt16) (d : Device) :
    ∃ d' r, (usbRead rounds segmentOffset dataLength).run bridge d = (d', .ok r) ∧ ReadEffect segmentOffset d d' r := by
  have failed : ∀ (d' : Device) (q : Hid), d'.lens = d.lens → d'.reads = d.reads → d'.answer.retval ≠ success →
      ReadEffect segmentOffset d (d'.after q) d'.answer.retval := fun d' q hl ht hr =>
    .failed _ hr hl ((reads_after_failed q hr).trans ht)
  rw [usbRead, run_ifSuccess (run_call _ _)]
  by_cases hw : d.answer.retval = success
  swap
  · exact ⟨_, _, if_neg hw, failed d _ rfl rfl hw⟩
  have h1 := (readings_after d (.writeRequest (sendOffset segmentOffset))).trans (observe_offset hw)
  rw [if_pos hw, run_ifSuccess (run_call _ _)]
  have l1 : (d.after (.writeRequest (sendOffset segmentOffset))).lens = d.lens := rfl
  generalize d.after (.writeRequest (sendOffset segmentOffset)) = d1 at h1 l1 ⊢
  have t1 : d1.reads = d.reads := by rw [Device.reads, h1]; rfl
  by_cases hq : d1.answer.retval = success
  swap
  · exact ⟨_, _, if_neg hq, failed d1 _ l1 t1 hq⟩
  have h2 := ((readings_after d1 (.readRequest dataLength)).trans (observe_request hq)).trans h1
  rw [if_pos hq, run_ifSuccess (run_call _ _)]
  have l2 : (d1.after (.readRequest dataLength)).lens = d.lens := l1
  generalize d1.after (.readRequest dataLength) = d2 at h2 l2 ⊢
  have t2 : d2.reads = d.reads := by rw [Device.reads, h2]; rfl
  by_cases hf : d2.answer.retval = success
  swap
  · exact ⟨_, _, if_neg hf, failed d2 _ l2 t2 hf⟩
  have h3 := ((readings_after d2 (.forceReadResponse dataLength)).trans (observe_force hf)).trans h2
  rw [if_pos hf]
  have l3 : (d2.after (.forceReadResponse dataLength)).lens = d.lens := l2
  generalize d2.after (.forceReadResponse dataLength) = d3 at h3 l3 ⊢
  have t3 : d3.reads = d.reads := by rw [Device.reads, h3]; rfl
  obtain ⟨d4, r, hrun, hl, hcase⟩ := readResponses_effect rounds (congrArg Readings.pending h3)
  rw [Program.run_bind_ok hrun]
  cases r with
  | error e => exact ⟨_, _, rfl, .failed e hcase.1 (hl.trans l3) (hcase.2.trans t3)⟩
  | ok receiveData =>
    obtain ⟨b0, b1, rest, rfl, ht⟩ := hcase
    refine ⟨_, _, rfl, .answered (b0 :: b1 :: rest) ?_ ?_⟩
    · show d4.lens.copy _ = d.lens.copy _
      rw [hl, l3]
    · show d4.reads = _
      rw [ht, t3]
      rfl

/-! ## What the common parts can do -/

/-- `DeviceMove`, from where the target is written. -/
def afterWrite (rounds : Nat) (segmentOffset addrData mask : UInt16) (waitTime : Nat) (retval : Int) :
    LensM (Int × UInt16) :=
  if retval = success then do
    let retval ← statusWait rounds status1 mask waitTime
    if retval = success then
      let retval ← usbRead rounds segmentOffset dataLength
      if retval ≠ success then pure (retval, addrData)
      else
        let addrData ← usbRead2Bytes
        pure (retval, addrData)
    else pure (retval, addrData)
  else pure (retval, addrData)

theorem deviceMove_eq (rounds : Nat) (segmentOffset addrData mask : UInt16) (waitTime : Nat) :
    deviceMove rounds segmentOffset addrData mask waitTime =
      usbWrite segmentOffset addrData >>= afterWrite rounds segmentOffset addrData mask waitTime := rfl

section Within

variable {R : Device → Device → Prop} [Std.Refl R] [IsTrans Device R]

omit [IsTrans Device R] in
theorem within_read2Bytes : usbRead2Bytes.Within bridge R := fun d => refl_of R d

omit [IsTrans Device R] in
theorem within_look : look.Within bridge R := fun d => refl_of R d

omit [IsTrans Device R] in
theorem within_waitCalc (moveValue speedPPS : UInt16) : (waitCalc moveValue speedPPS).Within bridge R := by
  unfold waitCalc
  split
  · exact Program.within_stop _
  · exact Program.within_done _

omit [Std.Refl R] [IsTrans Device R] in
theorem within_assign {f : Lens → Lens} (h : ∀ d : Device, R d { d with lens := f d.lens }) :
    (assign f).Within bridge R := h

omit [Std.Refl R] [IsTrans Device R] in
theorem within_call {q : Hid} (h : ∀ d : Device, R d (d.after q)) : (call q).Within bridge R := h

theorem within_ifSuccess {x rest : LensM Int} (hx : x.Within bridge R) (hrest : rest.Within bridge R) :
    (ifSuccess x rest).Within bridge R := by
  refine hx.bind fun retval => ?_
  split
  · exact Program.within_done _
  · exact hrest

omit [Std.Refl R] [IsTrans Device R] in
theorem within_usbRead {segmentOffset : UInt16} (h : ∀ d d' r, ReadEffect segmentOffset d d' r → R d d')
    (rounds : Nat) : (usbRead rounds segmentOffset dataLength).Within bridge R := by
  intro d
  obtain ⟨d', r, hrun, he⟩ := usbRead_effect rounds segmentOffset d
  rw [hrun]
  exact h d d' r he

theorem within_readResponses (h : ∀ d : Device, R d (d.after .getReadResponse)) (receiveSize rounds : Nat)
    (receiveData : List UInt8) : (readResponses receiveSize rounds receiveData).Within bridge R := by
  induction rounds generalizing receiveData with
  | zero => exact Program.within_done _
  | succ rounds ih =>
    refine .bind (Program.within_request h) fun a => ?_
    split
    · exact Program.within_done _
    · split
      · exact ih _
      · exact Program.within_done _

/-- A read does what its calls do, and fills the buffer. -/
theorem within_usbRead_calls {segmentOffset : UInt16}
    (hw : ∀ d : Device, R d (d.after (.writeRequest (sendOffset segmentOffset))))
    (hq : ∀ (d : Device) n, R d (d.after (.readRequest n)))
    (hf : ∀ (d : Device) n, R d (d.after (.forceReadResponse n))) (hg : ∀ d : Device, R d (d.after .getReadResponse))
    (hc : ∀ (d : Device) receiveData, R d { d with lens := d.lens.copy receiveData }) (rounds receiveSize : Nat) :
    (usbRead rounds segmentOffset receiveSize).Within bridge R := by
  refine within_ifSuccess (within_call hw) <| within_ifSuccess (within_call fun d => hq d _) <|
    within_ifSuccess (within_call fun d => hf d _) ?_
  refine (within_readResponses hg _ _ _).bind fun r => ?_
  split
  · exact Program.within_done _
  · exact .bind (fun d => hc d _) fun _ => Program.within_done _

theorem within_statusLoop {rounds : Nat} {segmentOffset : UInt16}
    (h : (usbRead rounds segmentOffset dataLength).Within bridge R) (again : UInt16 → Bool) (error : Int) (left : Nat) :
    (statusLoop rounds segmentOffset again error left).Within bridge R := by
  induction left with
  | zero => exact Program.within_done _
  | succ left ih =>
    refine within_ifSuccess h (within_read2Bytes.bind fun readStatus => ?_)
    split
    · exact Program.within_done _
    · split
      · exact ih
      · exact Program.within_done _

theorem within_statusWait {rounds : Nat} {segmentOffset : UInt16}
    (h : (usbRead rounds segmentOffset dataLength).Within bridge R) (statusMask : UInt16) (waitTime : Nat) :
    (statusWait rounds segmentOffset statusMask waitTime).Within bridge R :=
  within_ifSuccess (within_statusLoop h _ _ _) (within_statusLoop h _ _ _)

theorem within_status2ReadSet {rounds : Nat} (h : (usbRead rounds status2Reg dataLength).Within bridge R)
    (hs : ∀ (d : Device) v, R d { d with lens := { d.lens with status2 := v } }) :
    (status2ReadSet rounds).Within bridge R :=
  within_ifSuccess h (within_read2Bytes.bind fun v =>
    (within_assign fun d => hs d v).bind fun _ => Program.within_done _)

theorem within_afterWrite {rounds : Nat} {segmentOffset mask : UInt16} {waitTime : Nat}
    (hs : (statusWait rounds status1 mask waitTime).Within bridge R)
    (hr : (usbRead rounds segmentOffset dataLength).Within bridge R) (addrData : UInt16) (retval : Int) :
    (afterWrite rounds segmentOffset addrData mask waitTime retval).Within bridge R := by
  unfold afterWrite
  split
  · refine hs.bind fun retval => ?_
    split
    · refine hr.bind fun retval => ?_
      split
      · exact Program.within_done _
      · exact within_read2Bytes.bind fun _ => Program.within_done _
    · exact Program.within_done _
  · exact Program.within_done _

theorem within_axisMove {rounds : Nat} {a : Axis} {addrData : UInt16}
    (hw : (usbWrite a.positionVal addrData).Within bridge R)
    (hs : ∀ waitTime, (statusWait rounds status1 a.mask waitTime).Within bridge R)
    (hr : (usbRead rounds a.positionVal dataLength).Within bridge R)
    (ha : ∀ v, (assign fun lens => lens.setAxis a fun m => { m with currentAddr := v }).Within bridge R) :
    (axisMove rounds a addrData).Within bridge R := by
  refine within_look.bind fun _ => (within_waitCalc _ _).bind fun waitTime => ?_
  refine .bind (.bind hw (within_afterWrite (hs waitTime) hr _)) ?_
  rintro ⟨retval, v⟩
  dsimp only
  split
  · exact (ha v).bind fun _ => Program.within_done _
  · exact Program.within_done _

theorem within_axisInit {rounds : Nat} {a : Axis} (hw : (usbWrite a.initialize initRunBit).Within bridge R)
    (hs : ∀ waitTime, (statusWait rounds status1 a.mask waitTime).Within bridge R)
    (hr : (usbRead rounds a.positionVal dataLength).Within bridge R)
    (ha : ∀ v, (assign fun lens => lens.setAxis a fun m => { m with currentAddr := v }).Within bridge R)
    (h2 : (status2ReadSet rounds).Within bridge R) : (axisInit rounds a).Within bridge R :=
  within_look.bind fun _ => (within_waitCalc _ _).bind fun waitTime => within_ifSuccess hw <|
    within_ifSuccess (hs waitTime) <| within_ifSuccess hr <| within_read2Bytes.bind fun v => (ha v).bind fun _ =>
    h2.bind fun _ => Program.within_done _

theorem within_currentAddrReadSet {rounds : Nat} {a : Axis}
    (hr : (usbRead rounds a.positionVal dataLength).Within bridge R)
    (ha : ∀ v, (assign fun lens => lens.setAxis a fun m => { m with currentAddr := v }).Within bridge R) :
    (currentAddrReadSet rounds a).Within bridge R :=
  hr.bind fun _ => within_read2Bytes.bind fun v => (ha v).bind fun _ => Program.within_done _

theorem within_parameterReadSet {rounds : Nat} {a : Axis}
    (hr : ∀ segmentOffset ∈ [a.mechStepMin, a.mechStepMax, a.speedVal],
      (usbRead rounds segmentOffset dataLength).Within bridge R)
    (hmin : ∀ v, (assign fun lens => lens.setAxis a fun m => { m with minAddr := v }).Within bridge R)
    (hmax : ∀ v, (assign fun lens => lens.setAxis a fun m => { m with maxAddr := v }).Within bridge R)
    (hpps : ∀ v, (assign fun lens => lens.setAxis a fun m => { m with speedPPS := v }).Within bridge R) :
    (parameterReadSet rounds a).Within bridge R := by
  refine within_ifSuccess (hr _ (by simp)) (within_read2Bytes.bind fun v => (hmin v).bind fun _ => ?_)
  refine within_ifSuccess (hr _ (by simp)) (within_read2Bytes.bind fun v => (hmax v).bind fun _ => ?_)
  exact within_ifSuccess (hr _ (by simp)) (within_read2Bytes.bind fun v => (hpps v).bind fun _ => Program.within_done _)

theorem within_setUpAxis {rounds : Nat} {a : Axis} (hp : (parameterReadSet rounds a).Within bridge R)
    (hc : (currentAddrReadSet rounds a).Within bridge R) (capabilities : UInt16) :
    (setUpAxis rounds a capabilities).Within bridge R := by
  unfold setUpAxis
  split
  · refine hp.bind fun _ => within_look.bind fun lens => ?_
    split
    · exact hc.bind fun _ => Program.within_done _
    · exact Program.within_done _
  · exact Program.within_done _

theorem within_capabilitiesRead {rounds : Nat} (hr : (usbRead rounds capabilitiesReg dataLength).Within bridge R) :
    (capabilitiesRead rounds).Within bridge R :=
  hr.bind fun _ => within_read2Bytes.bind fun _ => Program.within_done _

end Within

end FlameSdd.LensControl
