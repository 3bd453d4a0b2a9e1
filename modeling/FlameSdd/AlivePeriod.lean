import FlameSdd.ClientWork
/-!
# The period of the alive packets

`alive_time` counts the turns of `_do_client_work` with a connection. It is set
back by an alive packet only, so it still counts the turns of the connection
before when a new one is made. A run is watched with two values more: the turns
since the connection was made or sent an alive packet, and what `alive_time` had
left over when it was made.
-/
open SysLib FlameSdd.JobComplete

namespace FlameSdd.ClientWork

/-! ## What is watched -/

/-- A connection is made. -/
def connecting (s : State) : Event → Bool
  | .jobCheck _ _ => false
  | .client env => s.phase = .top && s.socket = .created && env.connects

/-- A turn of the loop begins with a connection. -/
def connectedTurn (s : State) : Event → Bool
  | .jobCheck _ _ => false
  | .client _ => s.phase = .top && s.socket = .connected

/-- An alive packet is handed to `send`. -/
def sendsAlive (aliveInterval : Int) (s : State) : Event → Bool
  | .jobCheck _ _ => false
  | .client env => (sending aliveInterval s env).any fun p => p.kind = .alive

structure Watched where
  state : State
  /-- The turns of the connection, since it was made or sent an alive packet. -/
  passed : Int
  /-- `alive_time` when it was made, until it sends an alive packet. -/
  left : Int

def watch (aliveInterval : Int) (w : Watched) (e : Event) : Watched where
  state := step aliveInterval w.state e
  passed :=
    if connecting w.state e then 0
    else if sendsAlive aliveInterval w.state e then 1
    else if connectedTurn w.state e then w.passed + 1
    else w.passed
  left :=
    if connecting w.state e then w.state.aliveTime
    else if sendsAlive aliveInterval w.state e then 0
    else w.left

def watchInit (sddAlarmQueue : List AlarmPacket) : Watched := ⟨init sddAlarmQueue, 0, 0⟩

/-- An alive packet is sent in the turns before which exactly `aliveInterval * 10`
turns of the connection have passed, and in no others. -/
def OnTime (aliveInterval : Int) (w : Watched) (e : Event) : Prop :=
  sendsAlive aliveInterval w.state e = true ↔ connectedTurn w.state e = true ∧ w.passed = aliveInterval * 10

/-- The first alive packet of a connection is sent only if `alive_time` was zero
when the connection was made. -/
def StartsFresh (aliveInterval : Int) (w : Watched) (e : Event) : Prop :=
  sendsAlive aliveInterval w.state e = true → w.left = 0

instance (aliveInterval : Int) (w : Watched) (e : Event) : Decidable (OnTime aliveInterval w e) :=
  inferInstanceAs (Decidable (_ ↔ _))

instance (aliveInterval : Int) (w : Watched) (e : Event) : Decidable (StartsFresh aliveInterval w e) :=
  inferInstanceAs (Decidable (_ → _))

/-! ## What a step does to the counter -/

@[simp] theorem send_aliveTime (s : State) (p : Packet) (sentBytes : Int) : (send s p sentBytes).aliveTime = s.aliveTime := by
  unfold send
  split <;> rfl

@[simp] theorem push_aliveTime (s : State) (p : JobPacket) : (push s p).aliveTime = s.aliveTime := by
  unfold push
  split <;> rfl

@[simp] theorem push_socket (s : State) (p : JobPacket) : (push s p).socket = s.socket := by
  unfold push
  split <;> rfl

theorem send_socket {s : State} {p : Packet} {sentBytes : Int} (h : (send s p sentBytes).socket = .connected) :
    s.socket = .connected := by
  unfold send at h
  split at h
  · cases h
  · exact h

/-- An alive packet is due in a turn with a connection, when the counter says so. -/
theorem sendsAlive_iff (aliveInterval : Int) (s : State) (e : Event) :
    sendsAlive aliveInterval s e = true ↔ connectedTurn s e = true ∧ aliveInterval * 10 ≤ s.aliveTime := by
  cases e with
  | jobCheck => simp [sendsAlive, connectedTurn]
  | client env =>
    simp only [sendsAlive, connectedTurn, sending]
    cases hsocket : s.socket with
    | null => simp
    | created => simp
    | connected =>
      cases hphase : s.phase with
      | top =>
        by_cases hdue : aliveInterval * 10 ≤ s.aliveTime
        · simp [hdue, alivePacket]
        · simp [hdue]
      | alarm =>
        -- the other queues hold packets of their own kinds
        cases hq : s.sddAlarmQueue with
        | nil => simp
        | cons p rest => simp [p.2]
      | jobComplete =>
        cases hq : s.sddJobCompleteQueue with
        | nil => simp
        | cons p rest => simp [p.2]

theorem jobCheck_aliveTime (s : State) (currentTime : Timestamp) (payload : Payload) :
    (jobCheck s currentTime payload).aliveTime = s.aliveTime ∧ (jobCheck s currentTime payload).socket = s.socket := by
  unfold jobCheck
  split
  · simp
  · split
    · simp
    · simp

theorem step_aliveTime (aliveInterval : Int) (s : State) (e : Event) :
    (step aliveInterval s e).aliveTime =
      if sendsAlive aliveInterval s e = true then 1
      else if connectedTurn s e = true then s.aliveTime + 1 else s.aliveTime := by
  cases e with
  | jobCheck currentTime payload =>
    simp [step, sendsAlive, connectedTurn, (jobCheck_aliveTime s currentTime payload).1]
  | client env =>
    rw [step]
    cases hphase : s.phase with
    | top =>
      cases hsocket : s.socket with
      | null => simp [clientTop, sendsAlive, sending, connectedTurn, hsocket]
      | created =>
        simp only [clientTop, hsocket]
        split <;> simp [sendsAlive, sending, connectedTurn, hsocket]
      | connected =>
        by_cases hdue : aliveInterval * 10 ≤ s.aliveTime
        · simp [sendsAlive_iff, clientTop, connectedTurn, hphase, hsocket, hdue]
        · simp [sendsAlive_iff, clientTop, connectedTurn, hphase, hsocket, hdue]
    | alarm =>
      simp only [clientAlarm]
      split <;> simp [sendsAlive_iff, connectedTurn, hphase]
    | jobComplete =>
      simp only [clientJobComplete]
      split <;> simp [sendsAlive_iff, connectedTurn, hphase]

/-- A connection that is there after a step was there before, or was made by it. -/
theorem connected_of_step {aliveInterval : Int} {s : State} {e : Event}
    (h : (step aliveInterval s e).socket = .connected) : s.socket = .connected ∨ connecting s e = true := by
  cases e with
  | jobCheck currentTime payload => exact .inl ((jobCheck_aliveTime s currentTime payload).2 ▸ h)
  | client env =>
    simp only [step] at h
    cases hphase : s.phase with
    | top =>
      cases hsocket : s.socket with
      | null => simp [clientTop, hphase, hsocket] at h
      | created =>
        by_cases hc : env.connects
        · exact .inr (by simp [connecting, hphase, hsocket, hc])
        · simp [clientTop, hphase, hsocket, hc] at h
      | connected => exact .inl rfl
    | alarm =>
      simp only [clientAlarm, hphase] at h
      split at h
      · have hs := send_socket h
        exact .inl hs
      · exact .inl h
    | jobComplete =>
      simp only [clientJobComplete, hphase] at h
      split at h
      · have hs := send_socket h
        exact .inl hs
      · exact .inl h

theorem connectedTurn_socket {s : State} {e : Event} (h : connectedTurn s e = true) : s.socket = .connected := by
  cases e with
  | jobCheck => cases h
  | client env =>
    simp only [connectedTurn, Bool.and_eq_true, decide_eq_true_eq] at h
    exact h.2

theorem connecting_socket {s : State} {e : Event} (h : connecting s e = true) : s.socket = .created := by
  cases e with
  | jobCheck => cases h
  | client env =>
    simp only [connecting, Bool.and_eq_true, decide_eq_true_eq] at h
    exact h.1.2

/-! ## The counter -/

structure Counts (aliveInterval : Int) (w : Watched) : Prop where
  nonneg : 0 ≤ w.state.aliveTime
  le : w.state.aliveTime ≤ aliveInterval * 10
  connected : w.state.socket = .connected → w.state.aliveTime = w.passed + w.left ∧ 0 ≤ w.passed ∧ 0 ≤ w.left

theorem watch_counts {aliveInterval : Int} (hi : 1 ≤ aliveInterval) (w : Watched) (e : Event)
    (h : Counts aliveInterval w) : Counts aliveInterval (watch aliveInterval w e) := by
  have htime := step_aliveTime aliveInterval w.state e
  have hdue := sendsAlive_iff aliveInterval w.state e
  obtain ⟨hnonneg, hle, hconn⟩ := h
  refine ⟨?_, ?_, fun hs => ?_⟩
  · show 0 ≤ (step aliveInterval w.state e).aliveTime
    split at htime
    · omega
    · split at htime <;> omega
  · show (step aliveInterval w.state e).aliveTime ≤ aliveInterval * 10
    split at htime
    · omega
    · rename_i hn
      split at htime
      · rename_i ht
        have hlt := mt hdue.2 hn
        simp only [ht, true_and, not_le] at hlt
        omega
      · omega
  · show (step aliveInterval w.state e).aliveTime = (watch aliveInterval w e).passed + (watch aliveInterval w e).left ∧
      0 ≤ (watch aliveInterval w e).passed ∧ 0 ≤ (watch aliveInterval w e).left
    simp only [watch]
    by_cases hc : connecting w.state e = true
    · -- a new connection takes over what the counter holds
      have hturn : ¬connectedTurn w.state e = true := fun ht => by
        have := connectedTurn_socket ht
        rw [connecting_socket hc] at this
        cases this
      rw [if_neg fun hd => hturn (hdue.1 hd).1, if_neg hturn] at htime
      simp only [if_pos hc]
      omega
    · have hsocket := (connected_of_step hs).resolve_right hc
      obtain ⟨heq, hpassed, hleft⟩ := hconn hsocket
      simp only [if_neg hc]
      split at htime
      · rename_i hd
        simp only [hd, if_true]
        omega
      · rename_i hd
        simp only [hd, Bool.false_eq_true, if_false]
        split at htime
        · rename_i ht
          simp only [ht, if_true]
          omega
        · rename_i ht
          simp only [ht, Bool.false_eq_true, if_false]
          omega

theorem init_counts {aliveInterval : Int} (hi : 1 ≤ aliveInterval) (sddAlarmQueue : List AlarmPacket) :
    Counts aliveInterval (watchInit sddAlarmQueue) :=
  ⟨le_refl 0, by simp only [watchInit, init]; omega, nofun⟩

theorem onTime_iff {aliveInterval : Int} {w : Watched} (h : Counts aliveInterval w) (e : Event) :
    OnTime aliveInterval w e ↔ StartsFresh aliveInterval w e := by
  unfold OnTime StartsFresh
  rw [sendsAlive_iff]
  by_cases ht : connectedTurn w.state e = true
  · obtain ⟨heq, hpassed, hleft⟩ := h.connected (connectedTurn_socket ht)
    have hle := h.le
    simp only [ht, true_and]
    constructor
    · intro hon hdue
      have := hon.1 hdue
      omega
    · intro hfresh
      constructor
      · intro hdue
        have := hfresh hdue
        omega
      · omega
  · simp [ht]

/-- The alive packets of a run keep their period exactly as long as none is the
first on a connection that was made with something left on the counter. -/
theorem alive_period_iff (aliveInterval : Int) (hi : 1 ≤ aliveInterval) (sddAlarmQueue : List AlarmPacket)
    (evs : List Event) :
    StepsMeet (watch aliveInterval) (OnTime aliveInterval) (watchInit sddAlarmQueue) evs ↔
      StepsMeet (watch aliveInterval) (StartsFresh aliveInterval) (watchInit sddAlarmQueue) evs :=
  stepsMeet_iff (fun _ e h => onTime_iff h e) (fun w e h _ => watch_counts hi w e h) (init_counts hi sddAlarmQueue) evs

/-- The server accepts the connection, and takes a packet or is gone. -/
def taking : Event := .client ⟨stamp, true, true, 24⟩
def leaving : Event := .client ⟨stamp, true, true, 0⟩

/-- With an interval of one: a connection is made, and its first alive packet is
sent after ten turns. -/
def firstAlive : List Event := List.replicate 32 taking ++ [leaving]

/-- It is lost with that packet. The next connection sends its own after nine. -/
def earlyAlive : List Event := firstAlive ++ List.replicate 32 taking

theorem alive_period_first : StepsMeet (watch 1) (OnTime 1) (watchInit []) firstAlive := by
  rw [alive_period_iff 1 (le_refl 1)]
  decide +kernel

theorem alive_period_early :
    ¬StepsMeet (watch 1) (OnTime 1) (watchInit []) earlyAlive := by
  decide +kernel

end FlameSdd.ClientWork
