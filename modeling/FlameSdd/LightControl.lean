import FlameSdd.Level2Update
import FlameSdd.LineSignal
/-!
# Light control

`set_control_multi` sends the brightness of all lights in one Art-Net packet,
and remembers it for the next bar: when the line signals say that a bar comes
in, the subscriber sends what is remembered. The list is remembered before it is
known to fit into a packet, and an exception ends the subscriber.
-/
open SysLib FlameSdd.LineSignal

namespace FlameSdd.LightControl

/-! ## Packets -/

/-- `bytearray(512)`. -/
abbrev DmxData := Vector UInt8 512

inductive PyError where
  | valueError
  | indexError
  deriving DecidableEq

/-- `dmx_data[id] = brightness`. -/
def assign (dmxData : DmxData) (id : Nat) (brightness : Int) : Except PyError DmxData :=
  if 0 ≤ brightness ∧ brightness < 256 then
    if h : id < 512 then .ok (dmxData.set id (UInt8.ofNat brightness.toNat)) else .error .indexError
  else .error .valueError

/-- The loop over the lights. -/
def fill (dmxData : DmxData) : List (Nat × Int) → Except PyError DmxData
  | [] => .ok dmxData
  | (id, brightness) :: rest => do
    let dmxData ← assign dmxData id brightness
    fill dmxData rest

/-- `n.to_bytes(2, byteorder=...)`. -/
def littleEndian (n : Nat) : Bytes := [n.toUInt8, (n / 256).toUInt8]
def bigEndian (n : Nat) : Bytes := [(n / 256).toUInt8, n.toUInt8]

/-- `__create_artnet_dmx_packet`. -/
def createArtnetDmxPacket (sequence physical : UInt8) (artnetUniverse : Nat) (data : DmxData) : Bytes :=
  let header := ascii "Art-Net" ++ [0]
  let opcode := [0x00, 0x50]
  let protocolVersion := [0x00, 0x0e]
  header ++ opcode ++ protocolVersion ++ [sequence] ++ [physical] ++ littleEndian artnetUniverse ++
    bigEndian data.toList.length ++ data.toList

/-! ## The subscriber -/

structure State where
  /-- `__brightness_array` and `__brightness`. -/
  brightnessArray : List Int
  brightness : Int
  /-- The packets that were sent. -/
  sent : List Bytes
  /-- The loop of `run` has not ended. -/
  running : Bool
  deriving DecidableEq

def init : State := ⟨[], 0, [], true⟩

def zeros : DmxData := .replicate 512 0

/-- The end of the three functions: the slots are filled, and sent in a packet. -/
def sendFilled (s : State) (slots : List (Nat × Int)) : State × Except PyError Unit :=
  match fill zeros slots with
  | .error e => (s, .error e)
  | .ok dmxData => ({ s with sent := s.sent ++ [createArtnetDmxPacket 0 0 0 dmxData] }, .ok ())

def setOff (s : State) (deviceIds : List Nat) : State × Except PyError Unit :=
  sendFilled s (deviceIds.map fun id => (id, 0))

/-- It only logs that the lengths differ. -/
def setControlMulti (s : State) (deviceIds : List Nat) (brightness : List Int) : State × Except PyError Unit :=
  if deviceIds.length ≠ brightness.length then (s, .ok ())
  else sendFilled { s with brightnessArray := brightness } (deviceIds.zip brightness)

def setControl (s : State) (deviceIds : List Nat) (brightness : Int) : State × Except PyError Unit :=
  sendFilled { s with brightness := brightness } (deviceIds.map fun id => (id, brightness))

/-- A call from the window, where its exception stays, or a line signal. -/
inductive Event where
  | setControlMulti (deviceIds : List Nat) (brightness : List Int)
  | setControl (deviceIds : List Nat) (brightness : Int)
  | setOff (deviceIds : List Nat)
  | lineSignal (value : Signals)

/-- The loop goes on after a call that did not raise. -/
def goOn (r : State × Except PyError Unit) : State := { r.1 with running := r.2.isOk }

/-- One message in `run`. -/
def onLineSignal (lightIds : List Nat) (s : State) (value : Signals) : State :=
  if s.running then
    if value.hmdSignal1On && value.onlineSignalOn then goOn (setControlMulti s lightIds s.brightnessArray)
    else if !value.hmdSignal2On && value.onlineSignalOn then goOn (setOff s lightIds)
    else s
  else s

def step (lightIds : List Nat) (s : State) : Event → State
  | .setControlMulti deviceIds brightness => (setControlMulti s deviceIds brightness).1
  | .setControl deviceIds brightness => (setControl s deviceIds brightness).1
  | .setOff deviceIds => (setOff s deviceIds).1
  | .lineSignal value => onLineSignal lightIds s value

/-! ## What it is for -/

/-- Every light has a slot, and every brightness is a byte. -/
def Fits (deviceIds : List Nat) (brightness : List Int) : Prop :=
  (∀ id ∈ deviceIds, id < 512) ∧ ∀ b ∈ brightness, 0 ≤ b ∧ b < 256

instance (deviceIds : List Nat) (brightness : List Int) : Decidable (Fits deviceIds brightness) :=
  inferInstanceAs (Decidable (_ ∧ _))

/-- A packet of 530 bytes, whose slots hold the brightness of the last light with
their number, or zero. -/
def Shows (packet : Bytes) (slots : List (Nat × Int)) : Prop :=
  packet.length = 530 ∧ ∀ k < 512, (packet.drop 18)[k]?.map (fun b => (b.toNat : Int)) =
    some ((slots.reverse.lookup k).getD 0)

/-- The request is carried out as a whole, or fails and leaves what is stored and
sent as it was. -/
def AllOrNothing (s : State) (deviceIds : List Nat) (brightness : List Int) : Prop :=
  let (s', r) := setControlMulti s deviceIds brightness
  (deviceIds.length = brightness.length ∧ Fits deviceIds brightness ∧ r = .ok () ∧ s'.brightnessArray = brightness ∧
      ∃ packet, s'.sent = s.sent ++ [packet] ∧ Shows packet (deviceIds.zip brightness)) ∨
    (¬(deviceIds.length = brightness.length ∧ Fits deviceIds brightness) ∧ s'.sent = s.sent ∧
      s'.brightnessArray = s.brightnessArray)

/-- A line signal ends the loop only if it would end it before any request. -/
def Unaffected (lightIds : List Nat) (s : State) : Prop :=
  ∀ value, (onLineSignal lightIds { s with running := true } value).running = (onLineSignal lightIds init value).running

/-! ## Slots -/

/-- A light that has a slot, with a brightness that is a byte. -/
def SlotFits (slot : Nat × Int) : Prop := slot.1 < 512 ∧ 0 ≤ slot.2 ∧ slot.2 < 256

theorem assign_ok {slot : Nat × Int} (h : SlotFits slot) (dmxData : DmxData) :
    assign dmxData slot.1 slot.2 = .ok (dmxData.set slot.1 (UInt8.ofNat slot.2.toNat) h.1) := by
  rw [assign, if_pos h.2, dif_pos h.1]

theorem assign_error {slot : Nat × Int} (h : ¬SlotFits slot) (dmxData : DmxData) :
    ∃ e, assign dmxData slot.1 slot.2 = .error e := by
  unfold assign
  split
  · rename_i hb
    rw [dif_neg fun hid => h ⟨hid, hb⟩]
    exact ⟨_, rfl⟩
  · exact ⟨_, rfl⟩

theorem fill_ok {slots : List (Nat × Int)} (h : ∀ slot ∈ slots, SlotFits slot) (dmxData : DmxData) :
    ∃ dmxData', fill dmxData slots = .ok dmxData' ∧
      ∀ k (hk : k < 512), (dmxData'[k].toNat : Int) = (slots.reverse.lookup k).getD dmxData[k].toNat := by
  induction slots generalizing dmxData with
  | nil => exact ⟨dmxData, rfl, fun k hk => rfl⟩
  | cons slot slots ih =>
    obtain ⟨hslot, hslots⟩ := List.forall_mem_cons.1 h
    obtain ⟨dmxData', hfill, hk'⟩ := ih hslots (dmxData.set slot.1 (UInt8.ofNat slot.2.toNat) hslot.1)
    refine ⟨dmxData', ?_, fun k hk => ?_⟩
    · rw [fill, assign_ok hslot]
      exact hfill
    · rw [hk' k hk, List.reverse_cons, List.lookup_append, Vector.getElem_set]
      cases slots.reverse.lookup k with
      | some b => rfl
      | none =>
        -- the slot shows the first light with its number, as no later one has it
        obtain ⟨id, b⟩ := slot
        by_cases hid : id = k
        · subst hid
          have hb : (UInt8.ofNat b.toNat).toNat = b.toNat :=
            UInt8.toNat_ofNat_of_lt' (by have := hslot.2; simp only [UInt8.size]; omega)
          simp [hb, hslot.2.1]
        · have hbeq : (k == id) = false := by simpa using Ne.symm hid
          simp [List.lookup_cons, hbeq, hid]

theorem fill_error {slots : List (Nat × Int)} (h : ¬∀ slot ∈ slots, SlotFits slot) (dmxData : DmxData) :
    ∃ e, fill dmxData slots = .error e := by
  induction slots generalizing dmxData with
  | nil => exact absurd (by simp) h
  | cons slot slots ih =>
    by_cases hslot : SlotFits slot
    · have hslots : ¬∀ slot ∈ slots, SlotFits slot := fun hall => h (List.forall_mem_cons.2 ⟨hslot, hall⟩)
      obtain ⟨e, he⟩ := ih hslots (dmxData.set slot.1 (UInt8.ofNat slot.2.toNat) hslot.1)
      refine ⟨e, ?_⟩
      rw [fill, assign_ok hslot]
      exact he
    · obtain ⟨e, he⟩ := assign_error hslot dmxData
      refine ⟨e, ?_⟩
      rw [fill, he]
      rfl

theorem fits_iff {deviceIds : List Nat} {brightness : List Int} (hlen : deviceIds.length = brightness.length) :
    Fits deviceIds brightness ↔ ∀ slot ∈ deviceIds.zip brightness, SlotFits slot := by
  constructor
  · rintro ⟨hids, hb⟩ ⟨id, b⟩ hmem
    exact ⟨hids id (List.of_mem_zip hmem).1, hb b (List.of_mem_zip hmem).2⟩
  · intro h
    constructor
    · intro id hid
      rw [← List.map_fst_zip (Nat.le_of_eq hlen)] at hid
      obtain ⟨slot, hslot, rfl⟩ := List.mem_map.1 hid
      exact (h slot hslot).1
    · intro b hb
      rw [← List.map_snd_zip (Nat.le_of_eq hlen.symm)] at hb
      obtain ⟨slot, hslot, rfl⟩ := List.mem_map.1 hb
      exact (h slot hslot).2

theorem length_packet (dmxData : DmxData) : (createArtnetDmxPacket 0 0 0 dmxData).length = 530 := by
  have hdata : dmxData.toList.length = 512 := Vector.length_toList
  simp [createArtnetDmxPacket, ascii, littleEndian, bigEndian]

theorem drop_packet (dmxData : DmxData) : (createArtnetDmxPacket 0 0 0 dmxData).drop 18 = dmxData.toList := by
  rfl

/-! ## What a request does -/

theorem setControlMulti_mismatch {deviceIds : List Nat} {brightness : List Int}
    (h : deviceIds.length ≠ brightness.length) (s : State) : setControlMulti s deviceIds brightness = (s, .ok ()) :=
  if_pos h

theorem setControlMulti_fits {deviceIds : List Nat} {brightness : List Int}
    (hlen : deviceIds.length = brightness.length) (hf : Fits deviceIds brightness) (s : State) :
    ∃ packet, setControlMulti s deviceIds brightness =
        ({ s with brightnessArray := brightness, sent := s.sent ++ [packet] }, .ok ()) ∧
      Shows packet (deviceIds.zip brightness) := by
  obtain ⟨dmxData, hfill, hslots⟩ := fill_ok ((fits_iff hlen).1 hf) zeros
  refine ⟨createArtnetDmxPacket 0 0 0 dmxData, ?_, length_packet dmxData, fun k hk => ?_⟩
  · rw [setControlMulti, if_neg (not_not.2 hlen), sendFilled, hfill]
  · rw [drop_packet]
    have hget : dmxData.toList[k]? = some dmxData[k] := by simp [hk]
    rw [hget, Option.map_some, hslots k hk]
    simp [zeros]

/-- It has been stored when it raises. -/
theorem setControlMulti_raises {deviceIds : List Nat} {brightness : List Int}
    (hlen : deviceIds.length = brightness.length) (hf : ¬Fits deviceIds brightness) (s : State) :
    ∃ e, setControlMulti s deviceIds brightness = ({ s with brightnessArray := brightness }, .error e) := by
  obtain ⟨e, he⟩ := fill_error (mt (fits_iff hlen).2 hf) zeros
  refine ⟨e, ?_⟩
  rw [setControlMulti, if_neg (not_not.2 hlen), sendFilled, he]

/-- The window's model of the request sends it in the same cases. -/
theorem setControlMulti_isOk_eq (s : State) {deviceIds : List Nat} {brightness : List Int}
    (hlen : deviceIds.length = brightness.length) (w : Level2Update.State) :
    ((Level2Update.setControlMulti deviceIds brightness).run Level2Update.window w).2.isOk =
      (setControlMulti s deviceIds brightness).2.isOk := by
  unfold Level2Update.setControlMulti
  split
  · rename_i hf
    obtain ⟨packet, hrun, -⟩ := setControlMulti_fits hlen hf s
    rw [hrun]
    rfl
  · rename_i hf
    obtain ⟨e, hrun⟩ := setControlMulti_raises hlen hf s
    rw [hrun]
    rfl

theorem allOrNothing_iff (s : State) (deviceIds : List Nat) (brightness : List Int) :
    AllOrNothing s deviceIds brightness ↔
      deviceIds.length ≠ brightness.length ∨ Fits deviceIds brightness ∨ brightness = s.brightnessArray := by
  unfold AllOrNothing
  by_cases hlen : deviceIds.length = brightness.length
  · by_cases hf : Fits deviceIds brightness
    · obtain ⟨packet, hrun, hshows⟩ := setControlMulti_fits hlen hf s
      rw [hrun]
      exact iff_of_true (.inl ⟨hlen, hf, rfl, rfl, packet, rfl, hshows⟩) (.inr (.inl hf))
    · obtain ⟨e, hrun⟩ := setControlMulti_raises hlen hf s
      rw [hrun]
      simp [hlen, hf]
  · rw [setControlMulti_mismatch hlen]
    exact iff_of_true (.inr ⟨fun h => hlen h.1, rfl, rfl⟩) (.inl hlen)

/-! ## What a line signal does -/

/-- The list can be sent to the lights, or is not sent at all. -/
def Restorable (lightIds : List Nat) (brightness : List Int) : Prop :=
  lightIds.length = brightness.length → Fits lightIds brightness

theorem isOk_iff_restorable (s : State) (lightIds : List Nat) (brightness : List Int) :
    (setControlMulti s lightIds brightness).2.isOk = true ↔ Restorable lightIds brightness := by
  by_cases hlen : lightIds.length = brightness.length
  · by_cases hf : Fits lightIds brightness
    · obtain ⟨packet, hrun, -⟩ := setControlMulti_fits hlen hf s
      rw [hrun]
      exact iff_of_true rfl fun _ => hf
    · obtain ⟨e, hrun⟩ := setControlMulti_raises hlen hf s
      rw [hrun]
      exact iff_of_false Bool.false_ne_true fun h => hf (h hlen)
  · rw [setControlMulti_mismatch hlen]
    exact iff_of_true rfl fun h => absurd h hlen

theorem restorable_nil (lightIds : List Nat) : Restorable lightIds [] := by
  intro h
  rw [List.length_eq_zero_iff.1 h]
  exact ⟨List.forall_mem_nil _, List.forall_mem_nil _⟩

/-- Whether the slots can be sent does not depend on the state. -/
theorem sendFilled_snd (s s' : State) (slots : List (Nat × Int)) : (sendFilled s slots).2 = (sendFilled s' slots).2 := by
  unfold sendFilled
  cases fill zeros slots with
  | error e => rfl
  | ok dmxData => rfl

/-- Only what is stored can make a difference, when a bar comes in. -/
theorem unaffected_iff (lightIds : List Nat) (s : State) :
    Unaffected lightIds s ↔ Restorable lightIds s.brightnessArray := by
  have hin : ∀ (t : State) (value : Signals), t.running = true →
      (value.hmdSignal1On && value.onlineSignalOn) = true →
      (onLineSignal lightIds t value).running = (setControlMulti t lightIds t.brightnessArray).2.isOk := by
    intro t value ht hv
    rw [onLineSignal, if_pos ht, if_pos hv]
    rfl
  have hinit := (isOk_iff_restorable init lightIds []).2 (restorable_nil lightIds)
  rw [← isOk_iff_restorable { s with running := true }]
  constructor
  · intro h
    have hbar := h ⟨true, true, true, false⟩
    rw [hin _ _ rfl rfl, hin _ _ rfl rfl] at hbar
    exact hbar.trans hinit
  · intro h value
    by_cases hv : (value.hmdSignal1On && value.onlineSignalOn) = true
    · rw [hin _ _ rfl hv, hin _ _ rfl hv]
      exact h.trans hinit.symm
    · simp only [onLineSignal, init, if_true, if_neg hv]
      split
      · exact congrArg Except.isOk (sendFilled_snd _ _ _)
      · rfl

/-- A request that stores a list stores one that can be restored. -/
def Event.Restorable (lightIds : List Nat) : Event → Prop
  | .setControlMulti deviceIds brightness =>
    deviceIds.length = brightness.length → LightControl.Restorable lightIds brightness
  | _ => True

@[simp] theorem sendFilled_brightnessArray (s : State) (slots : List (Nat × Int)) :
    (sendFilled s slots).1.brightnessArray = s.brightnessArray := by
  unfold sendFilled
  split
  · rfl
  · rfl

theorem setControlMulti_brightnessArray (s : State) (deviceIds : List Nat) (brightness : List Int) :
    (setControlMulti s deviceIds brightness).1.brightnessArray =
      if deviceIds.length = brightness.length then brightness else s.brightnessArray := by
  unfold setControlMulti
  by_cases hlen : deviceIds.length = brightness.length
  · simp [hlen]
  · simp [hlen]

/-- A line signal stores the list that is stored already. -/
theorem onLineSignal_brightnessArray (lightIds : List Nat) (s : State) (value : Signals) :
    (onLineSignal lightIds s value).brightnessArray = s.brightnessArray := by
  unfold onLineSignal
  split
  · split
    · simp [goOn, setControlMulti_brightnessArray]
    · split
      · exact sendFilled_brightnessArray _ _
      · rfl
  · rfl

theorem step_unaffected_iff (lightIds : List Nat) {s : State} (h : Unaffected lightIds s) (e : Event) :
    Unaffected lightIds (step lightIds s e) ↔ e.Restorable lightIds := by
  have hstored := (unaffected_iff lightIds s).1 h
  rw [unaffected_iff]
  cases e with
  | setControlMulti deviceIds brightness =>
    rw [step, setControlMulti_brightnessArray, Event.Restorable]
    split
    · rename_i hlen
      exact ⟨fun hr _ => hr, fun hr => hr hlen⟩
    · rename_i hlen
      exact iff_of_true hstored fun h => absurd h hlen
  | setControl deviceIds brightness =>
    rw [step, setControl, sendFilled_brightnessArray]
    exact iff_of_true hstored trivial
  | setOff deviceIds =>
    rw [step, setOff, sendFilled_brightnessArray]
    exact iff_of_true hstored trivial
  | lineSignal value =>
    rw [step, onLineSignal_brightnessArray]
    exact iff_of_true hstored trivial

theorem init_unaffected (lightIds : List Nat) : Unaffected lightIds init := fun _ => rfl

/-- A request is all or nothing unless it stores a list that is new and does not
fit; and after every step of a run no line signal ends the loop that would not
end it at the start, exactly when every list that was stored can be restored. -/
theorem all_or_nothing_iff (s : State) (deviceIds : List Nat) (brightness : List Int) (lightIds : List Nat)
    (evs : List Event) :
    (AllOrNothing s deviceIds brightness ↔
      deviceIds.length ≠ brightness.length ∨ Fits deviceIds brightness ∨ brightness = s.brightnessArray) ∧
    (StepsMeet (step lightIds) (fun s e => Unaffected lightIds (step lightIds s e)) init evs ↔
      ∀ e ∈ evs, e.Restorable lightIds) := by
  refine ⟨allOrNothing_iff s deviceIds brightness, ?_⟩
  rw [← stepsMeet_forall_iff init evs]
  exact @stepsMeet_inv_iff _ _ _ (Unaffected lightIds) (fun _ => True) _ (fun _ _ _ => trivial)
    (fun s e _ h => step_unaffected_iff lightIds h e) _ trivial (init_unaffected lightIds) evs

/-- A brightness of 300 cannot be sent, but is restored for the next bar. -/
theorem all_or_nothing_bright : ¬AllOrNothing init [17] [300] ∧
    (runs (step [17]) init [.setControlMulti [17] [300], .lineSignal ⟨true, true, true, false⟩]).running = false := by
  constructor
  · rintro (⟨-, hf, -⟩ | ⟨-, -, hb⟩)
    · exact absurd hf (by decide)
    · exact absurd hb (by decide)
  · decide

end FlameSdd.LightControl
