import FlameSdd.JobComplete
import FlameSdd.SysLib.PrefixCode
import FlameSdd.SysLib.Runs
/-!
# Job complete packets on their way to Level2

`_job_check_work` pushes the packets on a queue, and `_do_client_work` takes them
off it and writes them to the connection it has, between its alive packets. A
packet is taken before it is known whether it can be sent, and a short `send`
counts as success: `handed_over_iff` says which runs lose nothing.
-/
open SysLib SysLib.PackedStruct FlameSdd.Protocol FlameSdd.JobComplete

namespace FlameSdd.ClientWork

/-! ## Packets -/

/-- The packets that share the socket. -/
inductive Kind where
  | alive
  | alarm
  | jobComplete
  deriving DecidableEq

def Kind.code : Kind → Bytes
  | .alive => ascii "1199"
  | .alarm => ascii "1198"
  | .jobComplete => ascii "1101"

def Kind.size : Kind → Nat
  | .alive => sizeof sddAlive
  | .alarm => sizeof sddAlarm
  | .jobComplete => sizeof sddJobComplete

/-- A whole packet. -/
@[ext] structure Packet where
  kind : Kind
  bytes : Bytes
  code_eq : bytes.take 4 = kind.code
  size_eq : bytes.length = kind.size

abbrev JobPacket := { p : Packet // p.kind = .jobComplete }

abbrev AlarmPacket := { p : Packet // p.kind = .alarm }

/-- `generate_packet_alive`, which writes the size of an alarm packet for its own. -/
def generatePacketAlive (currentTime : Timestamp) (aliveMsgCounter : Nat) (working : Bool) : Filled sddAlive where
  members := [
    ("cTcCode", ascii "1199"),
    ("cDate", currentTime.1),
    ("cTcLength", rightField 6 (decimal (sizeof sddAlarm))),
    ("cCount", rightField 4 (decimal aliveMsgCounter)),
    ("cWork", if working then ascii "01" else ascii "99"),
    ("cSpare", List.replicate 20 0x30)]
  fits := by
    have hcode : (ascii "1199").length = 4 := rfl
    have hwork : (if working then ascii "01" else ascii "99").length = 2 := by cases working <;> rfl
    simp [sddAlive, currentTime.2, hcode, hwork]

/-- `alive_msg_counter` after a packet. -/
def nextCounter (aliveMsgCounter : Nat) : Nat := if aliveMsgCounter + 1 > 9999 then 0 else aliveMsgCounter + 1

def alivePacket (currentTime : Timestamp) (aliveMsgCounter : Nat) (working : Bool) : Packet where
  kind := .alive
  bytes := (generatePacketAlive currentTime aliveMsgCounter working).bytes
  code_eq := by
    have hfield := Filled.field_bytes (f := "cTcCode") (generatePacketAlive currentTime aliveMsgCounter working) rfl
    simpa [field, sddAlive, Kind.code] using hfield
  size_eq := Filled.length_bytes _

theorem jobCheckWork_code {currentTime : Timestamp} {payload : Payload} {p : Filled sddJobComplete}
    (h : jobCheckWork currentTime payload = .ok p) : p.bytes.take 4 = Kind.jobComplete.code := by
  have hcode : p.members.lookup "cTcCode" = some (ascii "1101") := by
    cases payload with
    | none => cases h
    | some data =>
      obtain ⟨_, -, h⟩ := bind_eq_ok h
      obtain ⟨_, -, h⟩ := bind_eq_ok h
      obtain ⟨_, -, h⟩ := bind_eq_ok h
      obtain ⟨_, -, h⟩ := bind_eq_ok h
      obtain ⟨_, -, h⟩ := bind_eq_ok h
      obtain rfl := Except.ok.inj h
      rfl
  have hfield := Filled.field_bytes p hcode
  simpa [field, sddJobComplete, Kind.code] using hfield

/-- The job complete packet of one message. -/
def jobPacket (currentTime : Timestamp) (payload : Payload) : Option JobPacket :=
  match h : jobCheckWork currentTime payload with
  | .ok p => some ⟨⟨.jobComplete, p.bytes, jobCheckWork_code h, p.length_bytes⟩, rfl⟩
  | .error _ => none

/-- Code and size tell the packets of a stream apart. -/
theorem packets_prefixCode : PrefixCode Packet.bytes where
  nonempty p := by
    have hpos : ∀ k : Kind, 0 < k.size := by
      intro k
      cases k <;> decide
    exact List.ne_nil_of_length_pos (p.size_eq ▸ hpos p.kind)
  front {p q s t} h := by
    have hlen : ∀ p : Packet, 4 ≤ p.bytes.length := by
      intro p
      have hall : ∀ k : Kind, 4 ≤ k.size := by
        intro k
        cases k <;> decide
      exact p.size_eq ▸ hall p.kind
    have hcode : p.kind.code = q.kind.code := by
      have hp : (p.bytes ++ s).take 4 = p.bytes.take 4 := List.take_append_of_le_length (hlen p)
      have hq : (q.bytes ++ t).take 4 = q.bytes.take 4 := List.take_append_of_le_length (hlen q)
      rw [← p.code_eq, ← q.code_eq, ← hp, h, hq]
    have hkind : p.kind = q.kind := by
      revert hcode
      cases p.kind <;> cases q.kind <;> decide
    have hsize : p.bytes.length = q.bytes.length := by rw [p.size_eq, q.size_eq, hkind]
    exact Packet.ext hkind (List.append_inj h hsize).1

/-! ## The two threads -/

/-- `_tcp_socket` with `is_connected`. -/
inductive Socket where
  | null
  | created
  | connected
  deriving DecidableEq

/-- Where the loop of `_do_client_work` stands. -/
inductive Phase where
  | top
  | alarm
  | jobComplete
  deriving DecidableEq

structure State where
  socket : Socket
  phase : Phase
  aliveTime : Int
  aliveMsgCounter : Nat
  sddAlarmQueue : List AlarmPacket
  sddJobCompleteQueue : List JobPacket
  /-- The packet that waits in `push` for room on the queue. -/
  waiting : Option JobPacket
  pushed : List JobPacket
  /-- What was written on the connections that are gone, and on the last one. -/
  closed : List Bytes
  wire : Bytes

def init (sddAlarmQueue : List AlarmPacket) : State := ⟨.null, .top, 0, 0, sddAlarmQueue, [], none, [], [], []⟩

/-- What the client finds: the time, the working state, whether the server
accepts a connection, and what `::send` returns. -/
structure Env where
  currentTime : Timestamp
  working : Bool
  connects : Bool
  sentBytes : Int

/-- A turn of `_job_check_work` with the message it receives, or the next part
of the loop of `_do_client_work`. -/
inductive Event where
  | jobCheck (currentTime : Timestamp) (payload : Payload)
  | client (env : Env)

/-- `push` waits while the queue is full. -/
def push (s : State) (p : JobPacket) : State :=
  if s.sddJobCompleteQueue.length < 100 then
    { s with sddJobCompleteQueue := s.sddJobCompleteQueue ++ [p], waiting := none, pushed := s.pushed ++ [p] }
  else { s with waiting := some p }

/-- A message that makes no packet is logged. -/
def jobCheck (s : State) (currentTime : Timestamp) (payload : Payload) : State :=
  match s.waiting with
  | some p => push s p
  | none =>
    match jobPacket currentTime payload with
    | some p => push s p
    | none => s

/-- `send`, with the connection closed unless it sent something. -/
def send (s : State) (p : Packet) (sentBytes : Int) : State :=
  if sentBytes ≤ 0 then { s with socket := .null, closed := s.closed ++ [s.wire], wire := [] }
  else { s with wire := s.wire ++ p.bytes.take sentBytes.toNat }

/-- The loop body up to the alive packet. `alive_time` is not set back when a
connection is made: the callback has an inner variable of that name. -/
def clientTop (aliveInterval : Int) (s : State) (env : Env) : State :=
  match s.socket with
  | .null => { s with socket := .created }
  | .created => if env.connects then { s with socket := .connected } else { s with socket := .null }
  | .connected =>
    if aliveInterval * 10 ≤ s.aliveTime then
      let s' := send s (alivePacket env.currentTime s.aliveMsgCounter env.working) env.sentBytes
      { s' with aliveTime := 1, aliveMsgCounter := nextCounter s.aliveMsgCounter, phase := .alarm }
    else { s with aliveTime := s.aliveTime + 1, phase := .alarm }

/-- The alarm message, taken off its queue before it is sent. -/
def clientAlarm (s : State) (env : Env) : State :=
  match s.socket, s.sddAlarmQueue with
  | .connected, p :: rest => send { s with sddAlarmQueue := rest, phase := .jobComplete } p.1 env.sentBytes
  | _, _ => { s with phase := .jobComplete }

/-- The job result, taken off its queue before it is sent. -/
def clientJobComplete (s : State) (env : Env) : State :=
  match s.socket, s.sddJobCompleteQueue with
  | .connected, p :: rest => send { s with sddJobCompleteQueue := rest, phase := .top } p.1 env.sentBytes
  | _, _ => { s with phase := .top }

def step (aliveInterval : Int) (s : State) : Event → State
  | .jobCheck currentTime payload => jobCheck s currentTime payload
  | .client env =>
    match s.phase with
    | .top => clientTop aliveInterval s env
    | .alarm => clientAlarm s env
    | .jobComplete => clientJobComplete s env

/-! ## What a run must keep -/

def jobs (l : List Packet) : List Packet := l.filter fun p => p.kind = .jobComplete

/-- Every connection carries whole packets, and the packets that were pushed are
those on the connections, in order, and then those on the queue. -/
def HandedOver (s : State) : Prop :=
  ∃ (before : List (List Packet)) (last : List Packet), s.closed = before.map (·.flatMap Packet.bytes) ∧
    s.wire = last.flatMap Packet.bytes ∧
    s.pushed.map Subtype.val = jobs (before.flatten ++ last) ++ s.sddJobCompleteQueue.map Subtype.val

/-- The packet that the next part of the loop sends. -/
def sending (aliveInterval : Int) (s : State) (env : Env) : Option Packet :=
  match s.socket, s.phase with
  | .connected, .top =>
    if aliveInterval * 10 ≤ s.aliveTime then some (alivePacket env.currentTime s.aliveMsgCounter env.working) else none
  | .connected, .alarm => s.sddAlarmQueue.head?.map Subtype.val
  | .connected, .jobComplete => s.sddJobCompleteQueue.head?.map Subtype.val
  | _, _ => none

/-- A job complete packet is sent as a whole, and any other packet as a whole or
not at all. -/
def SendsWell (aliveInterval : Int) (s : State) : Event → Prop
  | .jobCheck _ _ => True
  | .client env => ∀ p ∈ sending aliveInterval s env,
    (p.bytes.length : Int) ≤ env.sentBytes ∨ (p.kind ≠ .jobComplete ∧ env.sentBytes ≤ 0)

/-! ## What one step does -/

/-- The packets and the bytes are as before. -/
structure Same (s s' : State) : Prop where
  closed : s'.closed = s.closed
  wire : s'.wire = s.wire
  pushed : s'.pushed = s.pushed
  queue : s'.sddJobCompleteQueue = s.sddJobCompleteQueue

theorem HandedOver.same {s s' : State} (h : Same s s') : HandedOver s' ↔ HandedOver s := by
  unfold HandedOver
  rw [h.closed, h.wire, h.pushed, h.queue]

/-- A part of the loop sends nothing, or one packet, and the packet comes off
the queue if it is a job complete packet. -/
theorem client_cases (aliveInterval : Int) (s : State) (env : Env) :
    (sending aliveInterval s env = none ∧ Same s (step aliveInterval s (.client env))) ∨
    ∃ p t, sending aliveInterval s env = some p ∧ Same (send t p env.sentBytes) (step aliveInterval s (.client env)) ∧
      t.closed = s.closed ∧ t.wire = s.wire ∧ t.pushed = s.pushed ∧
      ((p.kind ≠ .jobComplete ∧ t.sddJobCompleteQueue = s.sddJobCompleteQueue) ∨
        ∃ h, s.sddJobCompleteQueue = ⟨p, h⟩ :: t.sddJobCompleteQueue) := by
  unfold step sending
  cases hphase : s.phase with
  | top =>
    cases hsocket : s.socket with
    | null => exact .inl ⟨rfl, by simp only [clientTop, hsocket]; exact ⟨rfl, rfl, rfl, rfl⟩⟩
    | created =>
      refine .inl ⟨rfl, ?_⟩
      simp only [clientTop, hsocket]
      split
      · exact ⟨rfl, rfl, rfl, rfl⟩
      · exact ⟨rfl, rfl, rfl, rfl⟩
    | connected =>
      simp only [clientTop, hsocket]
      split
      · exact .inr ⟨_, s, rfl, ⟨rfl, rfl, rfl, rfl⟩, rfl, rfl, rfl, .inl ⟨nofun, rfl⟩⟩
      · exact .inl ⟨rfl, rfl, rfl, rfl, rfl⟩
  | alarm =>
    cases hsocket : s.socket with
    | null => exact .inl ⟨rfl, by simp only [clientAlarm, hsocket]; exact ⟨rfl, rfl, rfl, rfl⟩⟩
    | created => exact .inl ⟨rfl, by simp only [clientAlarm, hsocket]; exact ⟨rfl, rfl, rfl, rfl⟩⟩
    | connected =>
      simp only [clientAlarm, hsocket]
      cases hqueue : s.sddAlarmQueue with
      | nil => exact .inl ⟨rfl, rfl, rfl, rfl, rfl⟩
      | cons p rest =>
        have hkind : p.1.kind ≠ .jobComplete := by
          rw [p.2]
          decide
        exact .inr ⟨p.1, _, rfl, ⟨rfl, rfl, rfl, rfl⟩, rfl, rfl, rfl, .inl ⟨hkind, rfl⟩⟩
  | jobComplete =>
    cases hsocket : s.socket with
    | null => exact .inl ⟨rfl, by simp only [clientJobComplete, hsocket]; exact ⟨rfl, rfl, rfl, rfl⟩⟩
    | created => exact .inl ⟨rfl, by simp only [clientJobComplete, hsocket]; exact ⟨rfl, rfl, rfl, rfl⟩⟩
    | connected =>
      simp only [clientJobComplete, hsocket]
      cases hqueue : s.sddJobCompleteQueue with
      | nil => exact .inl ⟨rfl, rfl, rfl, rfl, hqueue.symm⟩
      | cons p rest => exact .inr ⟨p.1, _, rfl, ⟨rfl, rfl, rfl, rfl⟩, rfl, rfl, rfl, .inr ⟨p.2, rfl⟩⟩

/-! ## Which steps keep it -/

theorem jobs_append (l m : List Packet) : jobs (l ++ m) = jobs l ++ jobs m := List.filter_append l m

theorem jobs_singleton (p : Packet) : jobs [p] = if p.kind = .jobComplete then [p] else [] := by
  by_cases h : p.kind = .jobComplete <;> simp [jobs, h]

/-- A push adds to what was pushed and to what is queued. -/
theorem handedOver_push {s : State} (h : HandedOver s) (p : JobPacket) : HandedOver (push s p) := by
  obtain ⟨before, last, hclosed, hwire, hpushed⟩ := h
  unfold push
  split
  · refine ⟨before, last, hclosed, hwire, ?_⟩
    simp only [List.map_append, hpushed, List.append_assoc]
  · exact ⟨before, last, hclosed, hwire, hpushed⟩

theorem handedOver_jobCheck {s : State} (h : HandedOver s) (currentTime : Timestamp) (payload : Payload) :
    HandedOver (jobCheck s currentTime payload) := by
  unfold jobCheck
  split
  · exact handedOver_push h _
  · split
    · exact handedOver_push h _
    · exact h

/-- How the packets of a state were sent is determined by its bytes. -/
theorem sent_unique {closed : List Bytes} {wire : Bytes} {before before' : List (List Packet)}
    {last last' : List Packet} (hclosed : closed = before.map (·.flatMap Packet.bytes))
    (hwire : wire = last.flatMap Packet.bytes) (hclosed' : closed = before'.map (·.flatMap Packet.bytes))
    (hwire' : wire = last'.flatMap Packet.bytes) :
    before' = before ∧ last' = last :=
  ⟨List.map_injective_iff.2 packets_prefixCode.flatMap_injective (hclosed'.symm.trans hclosed),
    packets_prefixCode.flatMap_injective (hwire'.symm.trans hwire)⟩

/-- Whole packets and a part of one are no whole packets. -/
theorem short_send (p : Packet) {sentBytes : Int} (h0 : ¬ sentBytes ≤ 0) (h : sentBytes < p.bytes.length)
    (l m : List Packet) : l.flatMap Packet.bytes ++ p.bytes.take sentBytes.toNat ≠ m.flatMap Packet.bytes := by
  intro heq
  obtain ⟨r, -, hr⟩ := packets_prefixCode.append_eq heq
  exact packets_prefixCode.take_ne_flatMap (by omega) (by omega) r hr

theorem full_send (p : Packet) {sentBytes : Int} (h : (p.bytes.length : Int) ≤ sentBytes) (l : List Packet) :
    l.flatMap Packet.bytes ++ p.bytes.take sentBytes.toNat = (l ++ [p]).flatMap Packet.bytes := by
  rw [List.take_of_length_le (by omega), List.flatMap_append, List.flatMap_singleton]

/-- A packet that is no job complete packet may be lost with its connection, but
not cut. -/
theorem handedOver_send_other {s : State} {p : Packet} (h : HandedOver s) (hp : p.kind ≠ .jobComplete)
    (sentBytes : Int) :
    HandedOver (send s p sentBytes) ↔ (p.bytes.length : Int) ≤ sentBytes ∨ sentBytes ≤ 0 := by
  obtain ⟨before, last, hclosed, hwire, hpushed⟩ := h
  unfold send
  split
  · rename_i hr
    refine iff_of_true ⟨before ++ [last], [], ?_, rfl, ?_⟩ (.inr hr)
    · simp [hclosed, hwire]
    · simpa using hpushed
  · rename_i hr
    constructor
    · rintro ⟨before', last', -, hwire', -⟩
      by_contra hshort
      simp only [not_or, not_le] at hshort
      rw [hwire] at hwire'
      exact short_send p hr hshort.1 last last' hwire'
    · intro hfull
      refine ⟨before, last ++ [p], hclosed, ?_, ?_⟩
      · rw [hwire, full_send p (hfull.resolve_right hr)]
      · rw [← List.append_assoc, jobs_append _ [p], jobs_singleton, if_neg hp, List.append_nil]
        exact hpushed

/-- A job complete packet has left the queue: it must be sent as a whole. -/
theorem handedOver_send_job {s t : State} {p : Packet} {hp : p.kind = .jobComplete} (h : HandedOver s)
    (hclosed : t.closed = s.closed) (hwire : t.wire = s.wire) (hpushed : t.pushed = s.pushed)
    (hqueue : s.sddJobCompleteQueue = ⟨p, hp⟩ :: t.sddJobCompleteQueue) (sentBytes : Int) :
    HandedOver (send t p sentBytes) ↔ (p.bytes.length : Int) ≤ sentBytes := by
  obtain ⟨before, last, hc, hw, hall⟩ := h
  rw [hqueue, List.map_cons, ← hpushed] at hall
  rw [← hclosed] at hc
  rw [← hwire] at hw
  unfold send
  split
  · rename_i hr
    refine iff_of_false ?_ ?_
    · rintro ⟨before', last', hc', hw', hall'⟩
      have hsent : t.closed ++ [t.wire] = (before ++ [last]).map (·.flatMap Packet.bytes) := by simp [hc, hw]
      have hnone : ([] : Bytes) = ([] : List Packet).flatMap Packet.bytes := rfl
      obtain ⟨rfl, rfl⟩ := sent_unique hsent hnone hc' hw'
      -- nothing of the packet is left
      have hcount := congrArg List.length (hall.symm.trans hall')
      simp at hcount
    · have hpos := List.length_pos_of_ne_nil (packets_prefixCode.nonempty p)
      omega
  · rename_i hr
    constructor
    · rintro ⟨before', last', -, hw', -⟩
      by_contra hshort
      rw [not_le] at hshort
      rw [hw] at hw'
      exact short_send p hr hshort last last' hw'
    · intro hfull
      refine ⟨before, last ++ [p], hc, ?_, ?_⟩
      · rw [hw, full_send p hfull]
      · rw [← List.append_assoc, jobs_append _ [p], jobs_singleton, if_pos hp, List.append_assoc]
        exact hall

theorem step_handedOver_iff (aliveInterval : Int) (s : State) (e : Event) (h : HandedOver s) :
    HandedOver (step aliveInterval s e) ↔ SendsWell aliveInterval s e := by
  cases e with
  | jobCheck currentTime payload => exact iff_of_true (handedOver_jobCheck h currentTime payload) trivial
  | client env =>
    rcases client_cases aliveInterval s env with ⟨hnone, hsame⟩ | ⟨p, t, hsome, hsame, hclosed, hwire, hpushed, hqueue⟩
    · refine iff_of_true ((HandedOver.same hsame).2 h) ?_
      intro p hp
      rw [hnone] at hp
      cases hp
    · have hmeets : SendsWell aliveInterval s (.client env) ↔
          (p.bytes.length : Int) ≤ env.sentBytes ∨ (p.kind ≠ .jobComplete ∧ env.sentBytes ≤ 0) := by
        simp [SendsWell, hsome]
      rw [HandedOver.same hsame, hmeets]
      rcases hqueue with ⟨hkind, hqueue⟩ | ⟨hkind, hqueue⟩
      · have ht : HandedOver t := (HandedOver.same ⟨hclosed, hwire, hpushed, hqueue⟩).2 h
        rw [handedOver_send_other ht hkind]
        simp [hkind]
      · rw [handedOver_send_job h hclosed hwire hpushed hqueue]
        simp [hkind]

theorem init_handedOver (sddAlarmQueue : List AlarmPacket) : HandedOver (init sddAlarmQueue) :=
  ⟨[], [], rfl, rfl, rfl⟩

/-- A run keeps every packet, and every connection whole, exactly as long as each
job complete packet is sent as a whole, and each other packet as a whole or not
at all. -/
theorem handed_over_iff (aliveInterval : Int) (sddAlarmQueue : List AlarmPacket) (evs : List Event) :
    StepsMeet (step aliveInterval) (fun s e => HandedOver (step aliveInterval s e)) (init sddAlarmQueue) evs ↔
      StepsMeet (step aliveInterval) (SendsWell aliveInterval) (init sddAlarmQueue) evs :=
  stepsMeet_inv_iff (J := fun _ => True) (fun _ _ _ => trivial)
    (fun s e _ h => step_handedOver_iff aliveInterval s e h) trivial (init_handedOver sddAlarmQueue) evs

/-- A finished job of 60 frames. -/
def finished : Json :=
  .obj [("date", .str (ascii "20250804095316")), ("lot_no", .str (ascii "LOT-17")), ("mt_no", .str (ascii "MT-42")),
    ("mt_type_cd", .str (ascii "HB")), ("mt_stand", .str (ascii "H 200 x 200 x 8/12")), ("frames", .int 60)]

/-- The server accepts the connection and is gone when the packet is sent. -/
def gone : Env := ⟨stamp, true, true, -1⟩

def lost : List Event := .jobCheck stamp (some finished) :: List.replicate 5 (.client gone)

/-- The packet has left the queue and is on no connection. -/
theorem job_complete_lost : ¬ ∀ (aliveInterval : Int) (sddAlarmQueue : List AlarmPacket) (evs : List Event),
    StepsMeet (step aliveInterval) (fun s e => HandedOver (step aliveInterval s e)) (init sddAlarmQueue) evs := by
  intro h
  obtain ⟨-, -, -, -, -, hlast, -⟩ := h 60 [] lost
  obtain ⟨before, last, hclosed, hwire, hpushed⟩ : HandedOver (runs (step 60) (init []) lost) := hlast
  have hgone : (runs (step 60) (init []) lost).closed = [([] : List Packet)].map (·.flatMap Packet.bytes) := by
    decide +kernel
  have hempty : (runs (step 60) (init []) lost).wire = ([] : List Packet).flatMap Packet.bytes := by decide +kernel
  obtain ⟨rfl, rfl⟩ := sent_unique hgone hempty hclosed hwire
  have hcount : (runs (step 60) (init []) lost).pushed.length = 1 ∧
      (runs (step 60) (init []) lost).sddJobCompleteQueue.length = 0 := by decide +kernel
  have hlen := congrArg List.length hpushed
  simp [hcount, jobs] at hlen

end FlameSdd.ClientWork
