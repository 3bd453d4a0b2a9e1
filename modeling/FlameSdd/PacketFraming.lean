import FlameSdd.ClientWork
import FlameSdd.SysLib.Framing
import FlameSdd.SysLib.Stringstream
/-!
# The lengths of the outgoing packets

The packets of the client follow each other on a connection without a delimiter;
each carries its size in `cTcLength`. Whoever reads a connection by these lengths
gets the packets that were written, exactly as long as every `send` writes its
packet as a whole or fails: `connections_readable_iff`.
-/
open SysLib SysLib.PackedStruct SysLib.Framing FlameSdd.Protocol FlameSdd.JobComplete FlameSdd.ClientWork

namespace FlameSdd.PacketFraming

/-! ## Packets say their size -/

/-- What every packet begins with. -/
def front : Layout := [("cTcCode", 4), ("cDate", 14), ("cTcLength", 6)]

/-- The size in `cTcLength`. -/
def packetHeader : Header UInt8 where
  width := sizeof front
  value s := ((strtol (field front "cTcLength" s)).getD 0).toNat
  pos := by decide

theorem field_front (l : Layout) (packet : Bytes) :
    field front "cTcLength" (packet.take (sizeof front)) = field (front ++ l) "cTcLength" packet := by
  simp only [front, field, sizeof, List.map_cons, List.map_nil, List.sum_cons, List.sum_nil, List.cons_append,
    List.nil_append, String.reduceEq, if_false, if_true, List.drop_take, List.take_take]
  rfl

theorem strtol_rightField {n : Nat} (hn : n < 10 ^ 6) : strtol (rightField 6 (decimal n)) = some (n : Int) := by
  have hspells : Spells 6 n (rightField 6 (decimal n)) := spells_leftpad (by decide) hn
  have hne : rightField 6 (decimal n) ≠ [] := List.ne_nil_of_length_pos (by rw [hspells.length]; decide)
  rw [strtol_digits hne hspells.digits, hspells.value]

theorem isFrame_of_length {l : Layout} (p : Filled (front ++ l)) (hsize : sizeof (front ++ l) < 10 ^ 6)
    (h : p.members.lookup "cTcLength" = some (rightField 6 (decimal (sizeof (front ++ l))))) :
    packetHeader.IsFrame p.bytes := by
  have hlen := p.length_bytes
  have hwidth : sizeof front ≤ sizeof (front ++ l) := by
    rw [sizeof, sizeof, List.map_append, List.sum_append]
    exact Nat.le_add_right _ _
  have hvalue : packetHeader.value (p.bytes.take packetHeader.width) = p.bytes.length := by
    show ((strtol (field front "cTcLength" (p.bytes.take (sizeof front)))).getD 0).toNat = _
    rw [field_front l, Filled.field_bytes p h, strtol_rightField hsize, hlen]
    rfl
  unfold Header.IsFrame Header.size
  rw [hvalue]
  exact if_pos ⟨hlen ▸ hwidth, hlen ▸ hwidth⟩

/-- `generate_packet_alarm`, with at least the three bytes that it copies. -/
def generatePacketAlarm (currentTime : Timestamp) (alarmCode : { s : Bytes // 3 ≤ s.length }) : Filled sddAlarm where
  members := [
    ("cTcCode", ascii "1198"),
    ("cDate", currentTime.1),
    ("cTcLength", rightField 6 (decimal (sizeof sddAlarm))),
    ("cMessage", alarmCode.1.take 3),
    ("cSpare", List.replicate 23 0x30)]
  fits := by
    have hcode : (ascii "1198").length = 4 := rfl
    have hmessage : (alarmCode.1.take 3).length = 3 := List.length_take_of_le alarmCode.2
    simp [sddAlarm, currentTime.2, hcode, hmessage]

/-- What an alarm is made of. -/
structure Alarm where
  currentTime : Timestamp
  alarmCode : { s : Bytes // 3 ≤ s.length }

def alarmPacket (a : Alarm) : AlarmPacket := ⟨{
  kind := .alarm
  bytes := (generatePacketAlarm a.currentTime a.alarmCode).bytes
  code_eq := by
    have hfield := Filled.field_bytes (f := "cTcCode") (generatePacketAlarm a.currentTime a.alarmCode) rfl
    simpa [field, sddAlarm, Kind.code] using hfield
  size_eq := Filled.length_bytes _ }, rfl⟩

theorem isFrame_alarmPacket (a : Alarm) : packetHeader.IsFrame (alarmPacket a).1.bytes :=
  isFrame_of_length (l := [("cMessage", 3), ("cSpare", 23)]) (generatePacketAlarm a.currentTime a.alarmCode)
    (by decide) rfl

/-- An alive packet writes the size of an alarm packet, which is its own. -/
theorem isFrame_alivePacket (currentTime : Timestamp) (aliveMsgCounter : Nat) (working : Bool) :
    packetHeader.IsFrame (alivePacket currentTime aliveMsgCounter working).bytes :=
  isFrame_of_length (l := [("cCount", 4), ("cWork", 2), ("cSpare", 20)])
    (generatePacketAlive currentTime aliveMsgCounter working) (by decide) rfl

theorem isFrame_generatePacketJobComplete (currentTime : Timestamp) (lotNo mtNo mtTypeCd mtStand : Bytes)
    (frames : Int) : packetHeader.IsFrame
      (generatePacketJobComplete currentTime lotNo mtNo mtTypeCd mtStand frames).bytes :=
  isFrame_of_length (l := [("cLotNo", 15), ("cMtNo", 15), ("cMtTypeCd", 2), ("cMtStand", 30), ("cCount", 5),
    ("cSpare", 10)]) (generatePacketJobComplete currentTime lotNo mtNo mtTypeCd mtStand frames) (by decide) rfl

theorem isFrame_jobCheckWork {currentTime : Timestamp} {payload : Payload} {p : Filled sddJobComplete}
    (h : jobCheckWork currentTime payload = .ok p) : packetHeader.IsFrame p.bytes := by
  cases payload with
  | none => cases h
  | some data =>
    obtain ⟨lotNo, -, h⟩ := bind_eq_ok h
    obtain ⟨mtNo, -, h⟩ := bind_eq_ok h
    obtain ⟨mtTypeCd, -, h⟩ := bind_eq_ok h
    obtain ⟨mtStand, -, h⟩ := bind_eq_ok h
    obtain ⟨frames, -, h⟩ := bind_eq_ok h
    obtain rfl := Except.ok.inj h
    exact isFrame_generatePacketJobComplete currentTime lotNo mtNo mtTypeCd mtStand frames

theorem isFrame_jobPacket {currentTime : Timestamp} {payload : Payload} {p : JobPacket}
    (h : jobPacket currentTime payload = some p) : packetHeader.IsFrame p.1.bytes := by
  unfold jobPacket at h
  split at h
  · rename_i q hq
    obtain rfl := Option.some.inj h
    exact isFrame_jobCheckWork hq
  · cases h

/-! ## Packets on their way -/

/-- Everything that waits to be sent says its size. -/
structure Framed (s : State) : Prop where
  alarms : ∀ p ∈ s.sddAlarmQueue, packetHeader.IsFrame p.1.bytes
  queue : ∀ p ∈ s.sddJobCompleteQueue, packetHeader.IsFrame p.1.bytes
  waiting : ∀ p ∈ s.waiting, packetHeader.IsFrame p.1.bytes

theorem framed_init (alarms : List Alarm) : Framed (init (alarms.map alarmPacket)) where
  alarms p hp := by
    obtain ⟨a, -, rfl⟩ := List.mem_map.1 hp
    exact isFrame_alarmPacket a
  queue := List.forall_mem_nil _
  waiting p hp := by cases hp

theorem framed_push {s : State} (hs : Framed s) {p : JobPacket} (hp : packetHeader.IsFrame p.1.bytes) :
    Framed (push s p) := by
  unfold push
  split
  · refine ⟨hs.alarms, ?_, ?_⟩
    · intro q hq
      rcases List.mem_append.1 hq with hq | hq
      · exact hs.queue q hq
      · rwa [List.mem_singleton.1 hq]
    · intro q hq
      cases hq
  · refine ⟨hs.alarms, hs.queue, ?_⟩
    intro q hq
    obtain rfl := Option.some.inj hq
    exact hp

theorem framed_send {s : State} (hs : Framed s) (p : Packet) (sentBytes : Int) : Framed (send s p sentBytes) := by
  unfold send
  split
  · exact ⟨hs.alarms, hs.queue, hs.waiting⟩
  · exact ⟨hs.alarms, hs.queue, hs.waiting⟩

theorem framed_step (aliveInterval : Int) {s : State} (hs : Framed s) (e : Event) :
    Framed (step aliveInterval s e) := by
  unfold step
  cases e with
  | jobCheck currentTime payload =>
    simp only [jobCheck]
    split
    · rename_i p hp
      exact framed_push hs (hs.waiting p hp)
    · split
      · rename_i p hp
        exact framed_push hs (isFrame_jobPacket hp)
      · exact hs
  | client env =>
    simp only
    split
    · unfold clientTop
      split
      · exact ⟨hs.alarms, hs.queue, hs.waiting⟩
      · split
        · exact ⟨hs.alarms, hs.queue, hs.waiting⟩
        · exact ⟨hs.alarms, hs.queue, hs.waiting⟩
      · split
        · have hsend := framed_send hs (alivePacket env.currentTime s.aliveMsgCounter env.working) env.sentBytes
          exact ⟨hsend.alarms, hsend.queue, hsend.waiting⟩
        · exact ⟨hs.alarms, hs.queue, hs.waiting⟩
    · unfold clientAlarm
      split
      · rename_i p rest _ hqueue
        apply framed_send
        refine ⟨fun q hq => ?_, hs.queue, hs.waiting⟩
        exact hs.alarms q (hqueue ▸ List.mem_cons_of_mem p hq)
      · exact ⟨hs.alarms, hs.queue, hs.waiting⟩
    · unfold clientJobComplete
      split
      · rename_i p rest _ hqueue
        apply framed_send
        refine ⟨hs.alarms, fun q hq => ?_, hs.waiting⟩
        exact hs.queue q (hqueue ▸ List.mem_cons_of_mem p hq)
      · exact ⟨hs.alarms, hs.queue, hs.waiting⟩

theorem isFrame_sending {aliveInterval : Int} {s : State} (hs : Framed s) {env : Env} {p : Packet}
    (hp : sending aliveInterval s env = some p) : packetHeader.IsFrame p.bytes := by
  unfold sending at hp
  split at hp
  · split at hp
    · obtain rfl := Option.some.inj hp
      exact isFrame_alivePacket _ _ _
    · cases hp
  · obtain ⟨q, hq, rfl⟩ := Option.map_eq_some_iff.1 hp
    exact hs.alarms q (List.mem_of_head? hq)
  · obtain ⟨q, hq, rfl⟩ := Option.map_eq_some_iff.1 hp
    exact hs.queue q (List.mem_of_head? hq)
  · cases hp

/-! ## What the connections carry -/

/-- Every connection carries these packets, each of its size, and nothing else.
What was carried or waits was pushed, in this order. -/
structure Carried (s : State) (before : List (List Packet)) (last : List Packet) : Prop where
  closed : s.closed = before.map (·.flatMap Packet.bytes)
  wire : s.wire = last.flatMap Packet.bytes
  frames : ∀ conn ∈ before ++ [last], ∀ p ∈ conn, packetHeader.IsFrame p.bytes
  pushed : (jobs (before.flatten ++ last) ++ s.sddJobCompleteQueue.map Subtype.val).Sublist (s.pushed.map Subtype.val)

/-- Level2 gets the packets of every connection by their lengths, however the
bytes come in. -/
def Readable (s : State) : Prop :=
  ∃ (before : List (List Packet)) (last : List Packet), s.closed = before.map (·.flatMap Packet.bytes) ∧
    s.wire = last.flatMap Packet.bytes ∧
    (∀ conn ∈ before ++ [last], ∀ chunks : List Bytes, chunks.flatten = conn.flatMap Packet.bytes →
      chunks.foldl (feed packetHeader) ([], []) = (conn.map Packet.bytes, [])) ∧
    (jobs (before.flatten ++ last) ++ s.sddJobCompleteQueue.map Subtype.val).Sublist (s.pushed.map Subtype.val)

theorem read_conn_iff (conn : List Packet) :
    (∀ chunks : List Bytes, chunks.flatten = conn.flatMap Packet.bytes →
      chunks.foldl (feed packetHeader) ([], []) = (conn.map Packet.bytes, [])) ↔
      ∀ p ∈ conn, packetHeader.IsFrame p.bytes := by
  rw [List.flatMap_def, read_iff, List.forall_mem_map]

theorem readable_iff (s : State) : Readable s ↔ ∃ before last, Carried s before last := by
  unfold Readable
  simp only [read_conn_iff]
  constructor
  · rintro ⟨before, last, hclosed, hwire, hframes, hjobs⟩
    exact ⟨before, last, hclosed, hwire, hframes, hjobs⟩
  · rintro ⟨before, last, h⟩
    exact ⟨before, last, h.closed, h.wire, h.frames, h.pushed⟩

theorem Carried.same {s s' : State} {before : List (List Packet)} {last : List Packet} (h : Same s s') :
    Carried s' before last ↔ Carried s before last := by
  constructor
  · rintro ⟨hclosed, hwire, hframes, hjobs⟩
    rw [h.closed] at hclosed
    rw [h.wire] at hwire
    rw [h.queue, h.pushed] at hjobs
    exact ⟨hclosed, hwire, hframes, hjobs⟩
  · rintro ⟨hclosed, hwire, hframes, hjobs⟩
    refine ⟨h.closed ▸ hclosed, h.wire ▸ hwire, hframes, ?_⟩
    rw [h.queue, h.pushed]
    exact hjobs

theorem Carried.push {s : State} {before : List (List Packet)} {last : List Packet} (h : Carried s before last)
    (p : JobPacket) : Carried (push s p) before last := by
  unfold ClientWork.push
  split
  · refine ⟨h.closed, h.wire, h.frames, ?_⟩
    simp only [List.map_append, ← List.append_assoc]
    exact h.pushed.append (List.Sublist.refl _)
  · exact ⟨h.closed, h.wire, h.frames, h.pushed⟩

theorem Carried.jobCheck {s : State} {before : List (List Packet)} {last : List Packet} (h : Carried s before last)
    (currentTime : Timestamp) (payload : Payload) : Carried (jobCheck s currentTime payload) before last := by
  unfold ClientWork.jobCheck
  split
  · exact h.push _
  · split
    · exact h.push _
    · exact h

/-- Every packet is written as a whole, or its connection is given up. -/
def WholeOrFail (aliveInterval : Int) (s : State) : Event → Prop
  | .jobCheck _ _ => True
  | .client env => ∀ p ∈ sending aliveInterval s env, (p.bytes.length : Int) ≤ env.sentBytes ∨ env.sentBytes ≤ 0

/-- A packet that fails is lost with its connection. -/
theorem Carried.fail {s t : State} {before : List (List Packet)} {last : List Packet} {p : Packet}
    (h : Carried s before last) (hclosed : t.closed = s.closed) (hwire : t.wire = s.wire)
    (hpushed : t.pushed = s.pushed)
    (hqueue : t.sddJobCompleteQueue.Sublist s.sddJobCompleteQueue) {sentBytes : Int} (hsent : sentBytes ≤ 0) :
    Carried (send t p sentBytes) (before ++ [last]) [] := by
  unfold send
  rw [if_pos hsent]
  refine ⟨?_, rfl, ?_, ?_⟩
  · simp [hclosed, hwire, h.closed, h.wire]
  · intro conn hconn
    rcases List.mem_append.1 hconn with hconn | hconn
    · exact h.frames conn hconn
    · rw [List.mem_singleton.1 hconn]
      exact List.forall_mem_nil _
  · have hjobs := h.pushed
    rw [← hpushed] at hjobs
    simpa using ((List.Sublist.refl _).append (hqueue.map Subtype.val)).trans hjobs

/-- A packet that is written as a whole is the next one of its connection. -/
theorem Carried.whole {s t : State} {before : List (List Packet)} {last : List Packet} {p : Packet}
    (h : Carried s before last) (hp : packetHeader.IsFrame p.bytes) (hclosed : t.closed = s.closed)
    (hwire : t.wire = s.wire) (hpushed : t.pushed = s.pushed)
    (hqueue : jobs [p] ++ t.sddJobCompleteQueue.map Subtype.val = s.sddJobCompleteQueue.map Subtype.val)
    {sentBytes : Int} (hfull : (p.bytes.length : Int) ≤ sentBytes) :
    Carried (send t p sentBytes) before (last ++ [p]) := by
  have hpos := List.length_pos_of_ne_nil (packets_prefixCode.nonempty p)
  unfold send
  rw [if_neg (by omega)]
  refine ⟨hclosed.trans h.closed, ?_, ?_, ?_⟩
  · rw [← full_send p hfull, ← h.wire, ← hwire]
  · intro conn hconn q hq
    rcases List.mem_append.1 hconn with hconn | hconn
    · exact h.frames conn (List.mem_append_left _ hconn) q hq
    · rw [List.mem_singleton.1 hconn] at hq
      rcases List.mem_append.1 hq with hq | hq
      · exact h.frames last (List.mem_append_right _ (List.mem_singleton_self last)) q hq
      · rwa [List.mem_singleton.1 hq]
  · rw [← List.append_assoc, jobs_append _ [p], List.append_assoc, hqueue, hpushed]
    exact h.pushed

theorem carried_step_iff (aliveInterval : Int) {s : State} (hs : Framed s) (e : Event)
    (h : ∃ before last, Carried s before last) :
    (∃ before last, Carried (step aliveInterval s e) before last) ↔ WholeOrFail aliveInterval s e := by
  obtain ⟨before, last, h⟩ := h
  cases e with
  | jobCheck currentTime payload => exact iff_of_true ⟨before, last, h.jobCheck currentTime payload⟩ trivial
  | client env =>
    rcases client_cases aliveInterval s env with ⟨hnone, hsame⟩ | ⟨p, t, hsome, hsame, hclosed, hwire, hpushed, hqueue⟩
    · refine iff_of_true ⟨before, last, (Carried.same hsame).2 h⟩ ?_
      intro p hp
      rw [hnone] at hp
      cases hp
    · simp only [Carried.same hsame, WholeOrFail, hsome, Option.mem_some_iff, forall_eq']
      -- what is sent comes off the queue, if it is a job complete packet
      have htaken : jobs [p] ++ t.sddJobCompleteQueue.map Subtype.val = s.sddJobCompleteQueue.map Subtype.val := by
        rw [jobs_singleton]
        rcases hqueue with ⟨hkind, hqueue⟩ | ⟨hkind, hqueue⟩
        · rw [if_neg hkind, hqueue, List.nil_append]
        · rw [if_pos hkind, hqueue]
          rfl
      have hrest : t.sddJobCompleteQueue.Sublist s.sddJobCompleteQueue := by
        rcases hqueue with ⟨-, hqueue⟩ | ⟨hkind, hqueue⟩
        · rw [hqueue]
        · rw [hqueue]
          exact List.sublist_cons_self _ _
      constructor
      · rintro ⟨before', last', h'⟩
        by_contra hcon
        rw [not_or, not_le] at hcon
        obtain ⟨hshort, hpos⟩ := hcon
        have hcut := h'.wire
        unfold send at hcut
        rw [if_neg hpos] at hcut
        simp only [hwire, h.wire] at hcut
        exact short_send p hpos hshort last last' hcut
      · rintro (hfull | hfail)
        · exact ⟨before, last ++ [p], h.whole (isFrame_sending hs hsome) hclosed hwire hpushed htaken hfull⟩
        · exact ⟨before ++ [last], [], h.fail hclosed hwire hpushed hrest hfail⟩

theorem carried_init (alarms : List AlarmPacket) : Carried (init alarms) [] [] where
  closed := rfl
  wire := rfl
  frames conn hconn := by
    rw [List.mem_singleton.1 hconn]
    exact List.forall_mem_nil _
  pushed := List.Sublist.refl _

/-- After every step of a run Level2 can read every connection by the lengths in
its packets, and gets job complete packets in the order in which they were pushed
and none twice, exactly as long as every `send` writes its packet as a whole or
fails. -/
theorem connections_readable_iff (aliveInterval : Int) (alarms : List Alarm) (evs : List Event) :
    StepsMeet (step aliveInterval) (fun s e => Readable (step aliveInterval s e)) (init (alarms.map alarmPacket)) evs ↔
      StepsMeet (step aliveInterval) (WholeOrFail aliveInterval) (init (alarms.map alarmPacket)) evs := by
  simp only [readable_iff]
  have hinit : ∃ before last, Carried (init (alarms.map alarmPacket)) before last := ⟨[], [], carried_init _⟩
  exact stepsMeet_inv_iff (I := fun s => ∃ before last, Carried s before last)
    (fun _ e hs => framed_step aliveInterval hs e) (fun _ e hs h => carried_step_iff aliveInterval hs e h)
    (framed_init alarms) hinit evs

end FlameSdd.PacketFraming
