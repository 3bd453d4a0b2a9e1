import FlameSdd.LensBridge
import FlameSdd.SysLib.Buffer
/-!
# `UsbRead`, byte by byte

The arrays and the counter of `UsbRead`, with their sizes: responses land in
`receiveData` at a counter of eight bits, and are then copied to `receivedData`.
`usbRead_refines` connects it to the `usbRead` of the programs, which gathers
the responses in a list.
-/
open SysLib

namespace FlameSdd.UsbRead

open LensControl (Answer Device success bufferSize dataLength bridge Lens Hid LensM ifSuccess call run_call
  run_ifSuccess)

/-- The local buffer, which nothing initialises. -/
abbrev ReceiveData := Vector UInt8 128

/-- The buffer shared by all registers. -/
abbrev ReceivedData := Vector UInt8 80

/-- `returned` has the value of the counter, and what the shared buffer holds
then. `waiting` is a call that needs more answers of the bridge. -/
inductive Outcome where
  | returned (retval : Int) (totalBytesRead : UInt8) (receivedData : ReceivedData)
  | overrun
  | waiting
  deriving DecidableEq

/-- `if (retval != HID_SMBUS_SUCCESS) return retval;` -/
def request (receivedData : ReceivedData) (answers : List Answer) (rest : List Answer → Outcome) : Outcome :=
  match answers with
  | [] => .waiting
  | a :: answers => if a.retval ≠ success then .returned a.retval 0 receivedData else rest answers

/-- The loop at the end of `UsbRead`. -/
def copyLoop (receiveData : ReceiveData) (totalBytesRead : UInt8) (receivedData : ReceivedData) : Outcome :=
  match Buffer.copyFirst receiveData receivedData totalBytesRead.toNat with
  | none => .overrun
  | some receivedData => .returned success totalBytesRead receivedData

/-- The `do` loop. -/
def readResponses (receivedData : ReceivedData) (receiveSize : UInt16) (receiveData : ReceiveData)
    (totalBytesRead : UInt8) : List Answer → Outcome
  | [] => .waiting
  | a :: answers =>
    if a.retval ≠ success then .returned a.retval totalBytesRead receivedData
    else
      let bytes := a.bytes.take bufferSize
      match Buffer.write receiveData totalBytesRead.toNat bytes with
      | none => .overrun
      | some receiveData =>
        let totalBytesRead := totalBytesRead + UInt8.ofNat bytes.length
        if totalBytesRead.toUInt16 < receiveSize then
          readResponses receivedData receiveSize receiveData totalBytesRead answers
        else copyLoop receiveData totalBytesRead receivedData

/-- The bridge answers the three requests, and then the loop. -/
def usbRead (receiveData : ReceiveData) (receivedData : ReceivedData) (receiveSize : UInt16)
    (answers : List Answer) : Outcome :=
  request receivedData answers fun answers =>
  request receivedData answers fun answers =>
  request receivedData answers fun answers =>
  readResponses receivedData receiveSize receiveData 0 answers

def usbRead2Bytes (receivedData : ReceivedData) : UInt16 :=
  LensControl.twoBytes receivedData[0] receivedData[1]

/-! ## The bytes that are gathered -/

/-- What the loop gathers from the responses: their bytes, up to the response
that reaches the size, or the status of one that failed before. -/
def gather (receiveSize : Nat) (got : List UInt8) : List Answer → Option (Except Int (List UInt8))
  | [] => none
  | a :: answers =>
    if a.retval ≠ success then some (.error a.retval)
    else if (got ++ a.bytes.take bufferSize).length < receiveSize then
      gather receiveSize (got ++ a.bytes.take bufferSize) answers
    else some (.ok (got ++ a.bytes.take bufferSize))

/-- What the shared buffer holds after a read. -/
def Copied (bytes : List UInt8) (receivedData receivedData' : ReceivedData) : Prop :=
  receivedData'.toList = bytes ++ receivedData.toList.drop bytes.length

/-- The outcome of a read, given what was gathered. -/
def After (receivedData : ReceivedData) (out : Outcome) : Option (Except Int (List UInt8)) → Prop
  | none => out = .waiting
  | some (.error retval) => ∃ totalBytesRead, out = .returned retval totalBytesRead receivedData
  | some (.ok bytes) => ∃ receivedData', out = .returned success (UInt8.ofNat bytes.length) receivedData' ∧
      bytes.length ≤ 80 ∧ Copied bytes receivedData receivedData'

theorem copyLoop_eq {receiveData : ReceiveData} {got : List UInt8} (hgot : got <+: receiveData.toList)
    (hle : got.length ≤ 80) (receivedData : ReceivedData) :
    ∃ receivedData', copyLoop receiveData (UInt8.ofNat got.length) receivedData =
        .returned success (UInt8.ofNat got.length) receivedData' ∧ Copied got receivedData receivedData' := by
  obtain ⟨receivedData', hc, hl⟩ := Buffer.copyFirst_eq receiveData receivedData (by omega : got.length ≤ 128) hle
  rw [← List.prefix_iff_eq_take.1 hgot] at hl
  have htotal : (UInt8.ofNat got.length).toNat = got.length := UInt8.toNat_ofNat_of_lt' (by simp [UInt8.size]; omega)
  refine ⟨receivedData', ?_, hl⟩
  rw [copyLoop, htotal, hc]

/-- As long as a whole response fits after what the loop still waits for, it
stays within its arrays, and the counter counts. -/
theorem readResponses_after {receiveSize : UInt16} (hsize : receiveSize.toNat + 61 ≤ 80) (receivedData : ReceivedData)
    (answers : List Answer) {receiveData : ReceiveData} {got : List UInt8} (hgot : got <+: receiveData.toList)
    (hlt : got.length < receiveSize.toNat) :
    After receivedData (readResponses receivedData receiveSize receiveData (UInt8.ofNat got.length) answers)
      (gather receiveSize.toNat got answers) := by
  induction answers generalizing receiveData got with
  | nil => rfl
  | cons a answers ih =>
    rw [readResponses, gather]
    by_cases hr : a.retval = success
    · rw [if_neg (not_not.2 hr), if_neg (not_not.2 hr)]
      have hb : (a.bytes.take bufferSize).length ≤ 62 := List.length_take_le _ _
      generalize a.bytes.take bufferSize = bytes at hb ⊢
      have htotal : (UInt8.ofNat got.length).toNat = got.length :=
        UInt8.toNat_ofNat_of_lt' (by simp [UInt8.size]; omega)
      obtain ⟨receiveData', hw, hp⟩ := Buffer.write_append hgot (by omega : got.length + bytes.length ≤ 128)
      have hsum : UInt8.ofNat got.length + UInt8.ofNat bytes.length = UInt8.ofNat (got ++ bytes).length := by
        rw [List.length_append, UInt8.ofNat_add]
      have hlen : (got ++ bytes).length ≤ 80 := by
        rw [List.length_append]
        omega
      have hcmp : (UInt8.ofNat (got ++ bytes).length).toUInt16 < receiveSize ↔
          (got ++ bytes).length < receiveSize.toNat := by
        rw [UInt16.lt_iff_toNat_lt, UInt8.toNat_toUInt16, UInt8.toNat_ofNat_of_lt' (by simp [UInt8.size]; omega)]
      simp only [htotal, hw, hsum]
      by_cases hmore : (got ++ bytes).length < receiveSize.toNat
      · rw [if_pos (hcmp.2 hmore), if_pos hmore]
        exact ih hp hmore
      · rw [if_neg (mt hcmp.1 hmore), if_neg hmore]
        obtain ⟨receivedData', hc, hl⟩ := copyLoop_eq hp hlen receivedData
        exact ⟨receivedData', hc, hlen, hl⟩
    · rw [if_pos hr, if_pos hr]
      exact ⟨_, rfl⟩

theorem request_ok {a : Answer} (ha : a.retval = success) (receivedData : ReceivedData) (answers : List Answer)
    (rest : List Answer → Outcome) : request receivedData (a :: answers) rest = rest answers := if_neg (not_not.2 ha)

theorem request_failed {a : Answer} (ha : a.retval ≠ success) (receivedData : ReceivedData) (answers : List Answer)
    (rest : List Answer → Outcome) : request receivedData (a :: answers) rest = .returned a.retval 0 receivedData :=
  if_pos ha

theorem usbRead_after {receiveSize : UInt16} (hpos : 0 < receiveSize.toNat) (hsize : receiveSize.toNat + 61 ≤ 80)
    (receiveData : ReceiveData) (receivedData : ReceivedData) {w q f : Answer} (hw : w.retval = success)
    (hq : q.retval = success) (hf : f.retval = success) (answers : List Answer) :
    After receivedData (usbRead receiveData receivedData receiveSize (w :: q :: f :: answers))
      (gather receiveSize.toNat [] answers) := by
  rw [usbRead, request_ok hw, request_ok hq, request_ok hf]
  exact readResponses_after hsize receivedData answers List.nil_prefix hpos

/-! ## The model of the programs -/

theorem run_readResponses {receiveSize : Nat} (answers : List Answer) {rounds : Nat} (hrounds : answers.length ≤ rounds)
    {got : List UInt8} {r : Except Int (List UInt8)} (h : gather receiveSize got answers = some r) {d : Device}
    (hs : d.script = answers) :
    ∃ d', (LensControl.readResponses receiveSize rounds got).run bridge d = (d', .ok r) ∧ d'.lens = d.lens := by
  induction answers generalizing rounds got d with
  | nil => cases h
  | cons a answers ih =>
    obtain ⟨rounds, rfl⟩ := Nat.exists_eq_add_of_le' (Nat.lt_of_lt_of_le (Nat.succ_pos _) hrounds)
    have ha : d.answer = a := by rw [Device.answer, hs]; rfl
    rw [gather] at h
    rw [LensControl.readResponses, LensControl.hid, Program.request_bind, Program.run_ask, bridge, ha]
    by_cases hr : a.retval = success
    · rw [if_neg (not_not.2 hr)] at h ⊢
      by_cases hmore : (got ++ a.bytes.take bufferSize).length < receiveSize
      · rw [if_pos hmore] at h ⊢
        have hs' : (d.after .getReadResponse).script = answers := congrArg List.tail hs
        exact ih (Nat.le_of_succ_le_succ hrounds) h hs'
      · rw [if_neg hmore] at h ⊢
        cases h
        exact ⟨_, rfl, rfl⟩
    · rw [if_pos hr] at h ⊢
      cases h
      exact ⟨_, rfl, rfl⟩

/-- The members of the lens hold what the shared buffer holds. -/
def Represents (lens : Lens) (receivedData : ReceivedData) : Prop :=
  ∀ i < 80, receivedData.toList[i]? = some (lens.receivedData i)

theorem Represents.copy {lens : Lens} {receivedData receivedData' : ReceivedData} (h : Represents lens receivedData)
    {bytes : List UInt8} (hc : Copied bytes receivedData receivedData') :
    Represents (lens.copy bytes) receivedData' := by
  intro i hi
  show _ = some (bytes.getD i (lens.receivedData i))
  rw [hc, List.getD_eq_getElem?_getD]
  by_cases hb : i < bytes.length
  · rw [List.getElem?_append_left hb, List.getElem?_eq_getElem hb, Option.getD_some]
  · rw [List.getElem?_append_right (Nat.le_of_not_lt hb), List.getElem?_drop, Nat.add_sub_cancel' (Nat.le_of_not_lt hb),
      List.getElem?_eq_none (Nat.le_of_not_lt hb), Option.getD_none]
    exact h i hi

theorem run_request {receivedData receivedData' : ReceivedData} {d : Device} {rest : List Answer → Outcome}
    {retval : Int} {totalBytesRead : UInt8}
    (h : request receivedData d.script rest = .returned retval totalBytesRead receivedData')
    (hd : Represents d.lens receivedData) (q : Hid) {p : LensM Int}
    (hrest : rest (d.after q).script = .returned retval totalBytesRead receivedData' →
      ∃ d', p.run bridge (d.after q) = (d', .ok retval) ∧ Represents d'.lens receivedData') :
    ∃ d', (ifSuccess (call q) p).run bridge d = (d', .ok retval) ∧ Represents d'.lens receivedData' := by
  rw [run_ifSuccess (run_call _ _), Device.answer]
  rw [show (d.after q).script = d.script.tail from rfl] at hrest
  match hs : d.script, h with
  | [], h => cases h
  | a :: answers, h =>
    rw [List.headD_cons]
    by_cases ha : a.retval = success
    · rw [request_ok ha] at h
      rw [if_pos ha]
      exact hrest (by rwa [hs])
    · rw [request_failed ha] at h
      cases h
      rw [if_neg ha]
      exact ⟨_, rfl, hd⟩

/-- Whatever the call returns, the `usbRead` of the programs returns on a device
that gives the same answers, with the same shared buffer. -/
theorem usbRead_refines {receiveSize : UInt16} (hpos : 0 < receiveSize.toNat) (hsize : receiveSize.toNat + 61 ≤ 80)
    {receiveData : ReceiveData} {receivedData receivedData' : ReceivedData} {d : Device} {rounds : Nat}
    (hrounds : d.script.length ≤ rounds) (hd : Represents d.lens receivedData) {retval : Int} {totalBytesRead : UInt8}
    (h : usbRead receiveData receivedData receiveSize d.script = .returned retval totalBytesRead receivedData')
    (segmentOffset : UInt16) :
    ∃ d', (LensControl.usbRead rounds segmentOffset receiveSize.toNat).run bridge d = (d', .ok retval) ∧
      Represents d'.lens receivedData' := by
  rw [usbRead] at h
  rw [LensControl.usbRead]
  refine run_request h hd _ fun h => run_request h hd _ fun h => run_request h hd _ fun h => ?_
  have hle : d.script.tail.tail.tail.length ≤ rounds := by
    simp only [List.length_tail]
    omega
  generalize hd3 : ((d.after _).after _).after _ = d3 at h ⊢
  have hs3 : d3.script.length ≤ rounds := by
    rw [← hd3]
    exact hle
  have hl3 : Represents d3.lens receivedData := by
    rw [← hd3]
    exact hd
  have hafter := readResponses_after hsize receivedData d3.script (List.nil_prefix : [] <+: receiveData.toList) hpos
  rw [show UInt8.ofNat ([] : List UInt8).length = 0 from rfl, h] at hafter
  cases hg : gather receiveSize.toNat [] d3.script with
  | none =>
    rw [hg] at hafter
    cases hafter
  | some r =>
    obtain ⟨d', hrun, hl⟩ := run_readResponses _ hs3 hg rfl
    rw [Program.run_bind_ok hrun]
    rw [hg] at hafter
    rw [← hl] at hl3
    cases r with
    | error e =>
      obtain ⟨_, hout⟩ := hafter
      cases hout
      exact ⟨d', rfl, hl3⟩
    | ok bytes =>
      obtain ⟨_, hout, _, hc⟩ := hafter
      cases hout
      exact ⟨_, rfl, hl3.copy hc⟩

/-! ## Chunks -/

def response (chunk : List UInt8) : Answer := ⟨success, chunk⟩

/-- What is gathered are the bytes of the first chunks that reach the size. -/
theorem gather_chunks {receiveSize : Nat} {chunks : List (List UInt8)} (hchunks : ∀ c ∈ chunks, c.length ≤ bufferSize)
    {got : List UInt8} (htotal : receiveSize ≤ (got ++ chunks.flatten).length) (hgot : got.length < receiveSize)
    (rest : List Answer) :
    ∃ used, used <+: chunks ∧ receiveSize ≤ (got ++ used.flatten).length ∧
      gather receiveSize got (chunks.map response ++ rest) = some (.ok (got ++ used.flatten)) := by
  induction chunks generalizing got with
  | nil => exact absurd htotal (by simpa using hgot)
  | cons c chunks ih =>
    obtain ⟨hc, hchunks⟩ := List.forall_mem_cons.1 hchunks
    rw [List.map_cons, List.cons_append, gather, response, List.take_of_length_le hc, if_neg (not_not.2 rfl)]
    by_cases hmore : (got ++ c).length < receiveSize
    · rw [List.flatten_cons, ← List.append_assoc] at htotal
      obtain ⟨used, hused, hlen, hg⟩ := ih hchunks htotal hmore
      refine ⟨c :: used, List.cons_prefix_cons.2 ⟨rfl, hused⟩, ?_, ?_⟩
      · rwa [List.flatten_cons, ← List.append_assoc]
      · rw [if_pos hmore, List.flatten_cons, ← List.append_assoc]
        exact hg
    · refine ⟨[c], List.cons_prefix_cons.2 ⟨rfl, List.nil_prefix⟩, ?_, ?_⟩
      · simpa using hmore
      · rw [if_neg hmore, List.flatten_singleton]

theorem gather_failed {receiveSize : Nat} {before : List Answer} (hbefore : ∀ b ∈ before, b.retval = success)
    {got : List UInt8} (hlt : (got ++ before.flatMap fun b => b.bytes.take bufferSize).length < receiveSize) {a : Answer}
    (ha : a.retval ≠ success) (rest : List Answer) :
    gather receiveSize got (before ++ a :: rest) = some (.error a.retval) := by
  induction before generalizing got with
  | nil =>
    rw [List.nil_append, gather, if_pos ha]
  | cons b before ih =>
    obtain ⟨hb, hbefore⟩ := List.forall_mem_cons.1 hbefore
    rw [List.flatMap_cons, ← List.append_assoc] at hlt
    have hmore : (got ++ b.bytes.take bufferSize).length < receiveSize :=
      Nat.lt_of_le_of_lt (by simp) hlt
    rw [List.cons_append, gather, if_neg (not_not.2 hb), if_pos hmore]
    exact ih hbefore hlt

theorem toNat_twoBytes (b0 b1 : UInt8) : (LensControl.twoBytes b0 b1).toNat = 256 * b0.toNat + b1.toNat := by
  have h0 := b0.toNat_lt
  have h1 := b1.toNat_lt
  rw [LensControl.twoBytes, UInt16.toNat_or, UInt16.toNat_shiftLeft, UInt8.toNat_toUInt16, UInt8.toNat_toUInt16]
  rw [show (8 : UInt16).toNat % 16 = 8 from rfl, Nat.shiftLeft_eq, Nat.mod_eq_of_lt (by omega),
    ← Nat.shiftLeft_eq, ← Nat.shiftLeft_add_eq_or_of_lt h1, Nat.shiftLeft_eq, Nat.mul_comm]

theorem Copied.usbRead2Bytes {b0 b1 : UInt8} {bytes : List UInt8} {receivedData receivedData' : ReceivedData}
    (h : Copied (b0 :: b1 :: bytes) receivedData receivedData') :
    (usbRead2Bytes receivedData').toNat = 256 * b0.toNat + b1.toNat := by
  have hlen : receivedData'.toList.length = 80 := Vector.length_toList
  have h0 : receivedData'[0] = b0 := by
    rw [← Vector.getElem_toList (by omega), List.getElem_of_eq h]
    rfl
  have h1 : receivedData'[1] = b1 := by
    rw [← Vector.getElem_toList (by omega), List.getElem_of_eq h]
    rfl
  rw [UsbRead.usbRead2Bytes, h0, h1, toNat_twoBytes]

/-- A register of two bytes is read in chunks of any sizes: the call ends within
its arrays, its counter holds the number of bytes, and the value is that of the
first two. A request that fails before leaves the shared buffer as it was. -/
theorem usbRead_chunks (receiveData : ReceiveData) (receivedData : ReceivedData) :
    (∀ (w q f : Answer) (chunks : List (List UInt8)) (rest : List Answer), w.retval = success → q.retval = success →
      f.retval = success → (∀ c ∈ chunks, 1 ≤ c.length ∧ c.length ≤ bufferSize) → dataLength ≤ chunks.flatten.length →
      ∃ used totalBytesRead receivedData', used <+: chunks ∧ totalBytesRead.toNat = used.flatten.length ∧
        usbRead receiveData receivedData (UInt16.ofNat dataLength) (w :: q :: f :: (chunks.map response ++ rest)) =
          .returned success totalBytesRead receivedData' ∧
        ∃ b0 b1 bytes, chunks.flatten = b0 :: b1 :: bytes ∧
          (usbRead2Bytes receivedData').toNat = 256 * b0.toNat + b1.toNat) ∧
    ∀ (before : List Answer) (a : Answer) (rest : List Answer), (∀ b ∈ before, b.retval = success) →
      a.retval ≠ success → ((before.drop 3).flatMap fun b => b.bytes.take bufferSize).length < dataLength →
      ∃ totalBytesRead, usbRead receiveData receivedData (UInt16.ofNat dataLength) (before ++ a :: rest) =
        .returned a.retval totalBytesRead receivedData := by
  constructor
  · intro w q f chunks rest hw hq hf hchunks htotal
    obtain ⟨used, hused, hlen, hg⟩ := @gather_chunks _ _ (fun c hc => (hchunks c hc).2) [] htotal Nat.two_pos rest
    have hafter := usbRead_after (by decide : 0 < (UInt16.ofNat dataLength).toNat) (by decide) receiveData receivedData
      hw hq hf (chunks.map response ++ rest)
    rw [show (UInt16.ofNat dataLength).toNat = dataLength from rfl, hg] at hafter
    obtain ⟨receivedData', hout, hle, hc⟩ := hafter
    rw [List.nil_append] at hlen hle hout hc
    obtain ⟨b0, b1, bytes, hbytes⟩ := LensControl.two_bytes_of_length (Nat.not_lt.2 hlen)
    refine ⟨used, _, receivedData', hused, ?_, hout, b0, b1, ?_⟩
    · exact UInt8.toNat_ofNat_of_lt' (by simp only [UInt8.size]; omega)
    · obtain ⟨later, rfl⟩ := hused
      rw [hbytes] at hc
      exact ⟨bytes ++ later.flatten, by rw [List.flatten_append, hbytes]; rfl, hc.usbRead2Bytes⟩
  · intro before a rest hbefore ha hlt
    -- one of the three requests fails, or a response does
    match before, hbefore with
    | [], _ => exact ⟨0, request_failed ha _ _ _⟩
    | [w], hb =>
      rw [List.singleton_append, usbRead, request_ok (hb w (by simp))]
      exact ⟨0, request_failed ha _ _ _⟩
    | [w, q], hb =>
      rw [List.cons_append, List.singleton_append, usbRead, request_ok (hb w (by simp)), request_ok (hb q (by simp))]
      exact ⟨0, request_failed ha _ _ _⟩
    | w :: q :: f :: before, hb =>
      have hafter := usbRead_after (by decide : 0 < (UInt16.ofNat dataLength).toNat) (by decide) receiveData
        receivedData (hb w (by simp)) (hb q (by simp)) (hb f (by simp)) (before ++ a :: rest)
      rw [show (UInt16.ofNat dataLength).toNat = dataLength from rfl,
        gather_failed (fun b h => hb b (by simp [h])) (by simpa using hlt) ha] at hafter
      exact hafter

theorem usbRead_chunks_two :
    ∃ totalBytesRead receivedData', usbRead (.replicate 128 0) (.replicate 80 0) 2
        [response [], response [], response [], response [1], response [2, 3]] =
      .returned success totalBytesRead receivedData' ∧ (usbRead2Bytes receivedData').toNat = 258 := by
  obtain ⟨used, total, receivedData', -, -, hout, b0, b1, bytes, hb, hv⟩ := (usbRead_chunks (.replicate 128 0)
    (.replicate 80 0)).1 (response []) (response []) (response []) [[1], [2, 3]] [] rfl rfl rfl (by decide) (by decide)
  cases hb
  exact ⟨total, receivedData', hout, hv⟩

end FlameSdd.UsbRead
