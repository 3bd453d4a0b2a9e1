import FlameSdd.SysLib.Monitor
/-!
# The packet queue

`concurrent_queue` is a monitor over a bounded queue. Its calls act like those
of a sequential queue, so nothing is lost, duplicated or reordered:
`pushed_eq_popped`. Its producers and consumers share one condition variable,
and a `notify_one` that reaches a waiter with nothing to do leaves the others
waiting for good: `not_stuck_iff`.
-/
open SysLib

namespace FlameSdd.ConcurrentQueue

variable {α : Type}

/-! ## The critical sections -/

inductive Call (α : Type) where
  | push (item : α)
  /-- Both overloads of `pop`. -/
  | pop
  | popAsync
  | empty

/-- What a call returns. -/
inductive Reply (α : Type) where
  | done
  | item (val : α)
  | failed
  | isEmpty (ret : Bool)

def push (bufferSize : Nat) (item : α) (queue : List α) : Option (List α × Reply α) :=
  if queue.length ≥ bufferSize then none else some (queue ++ [item], .done)

def pop : List α → Option (List α × Reply α)
  | [] => none
  | val :: queue => some (queue, .item val)

def popAsync : List α → List α × Reply α
  | [] => ([], .failed)
  | item :: queue => (queue, .item item)

def empty (queue : List α) : Bool := !(queue.length > 0)

/-- `concurrent_queue<T, _buffer_size_>`. -/
def concurrentQueue (α : Type) (bufferSize : Nat) : Monitor (List α) (Call α) (Reply α) where
  body
    | .push item, queue => push bufferSize item queue
    | .pop, queue => pop queue
    | .popAsync, queue => some (popAsync queue)
    | .empty, queue => some (queue, .isEmpty (empty queue))
  notifies
    | .empty => false
    | _ => true
  quiet op h queue := by
    cases op with
    | empty => exact ⟨_, rfl⟩
    | push | pop | popAsync => cases h

variable {T : Type}

/-! ## First in, first out -/

/-- The items of the calls of `push`, in the order in which they acted. -/
def pushed (history : List (T × Call α × Reply α)) : List α :=
  history.filterMap fun (_, call, _) =>
    match call with
    | .push item => some item
    | _ => none

/-- The items that `pop` and `pop_async` took, in the order in which they acted. -/
def popped (history : List (T × Call α × Reply α)) : List α :=
  history.filterMap fun (_, _, reply) =>
    match reply with
    | .item val => some val
    | _ => none

/-- What one call does to the queue and to the items pushed and popped. -/
theorem body_fifo {bufferSize : Nat} {queue queue' : List α} {call : Call α} {reply : Reply α} (t : T)
    (h : (concurrentQueue α bufferSize).body call queue = some (queue', reply)) :
    queue ++ pushed [(t, call, reply)] = popped [(t, call, reply)] ++ queue' ∧
      (queue.length ≤ bufferSize → queue'.length ≤ bufferSize) := by
  cases call with
  | push item =>
    simp only [concurrentQueue, push] at h
    split at h
    · cases h
    · cases h
      refine ⟨rfl, fun _ => ?_⟩
      rw [List.length_append, List.length_singleton]
      omega
  | pop =>
    cases queue with
    | nil => cases h
    | cons val queue =>
      cases h
      exact ⟨by simp [pushed, popped], Nat.le_of_succ_le⟩
  | popAsync =>
    cases queue with
    | nil =>
      cases h
      exact ⟨rfl, id⟩
    | cons val queue =>
      cases h
      exact ⟨by simp [pushed, popped], Nat.le_of_succ_le⟩
  | empty =>
    cases h
    exact ⟨by simp [pushed, popped], id⟩

theorem pushed_cons (c : T × Call α × Reply α) (history : List (T × Call α × Reply α)) :
    pushed (c :: history) = pushed [c] ++ pushed history := List.filterMap_append (l := [c])

theorem popped_cons (c : T × Call α × Reply α) (history : List (T × Call α × Reply α)) :
    popped (c :: history) = popped [c] ++ popped history := List.filterMap_append (l := [c])

/-- A sequential queue hands out what it held and what was pushed, in order. -/
theorem replays_fifo {bufferSize : Nat} {queue queue' : List α} {history : List (T × Call α × Reply α)}
    (h : (concurrentQueue α bufferSize).Replays queue history queue') :
    queue ++ pushed history = popped history ++ queue' ∧
      (queue.length ≤ bufferSize → queue'.length ≤ bufferSize) := by
  induction history generalizing queue with
  | nil =>
    cases h
    exact ⟨by simp [pushed, popped], id⟩
  | cons c history ih =>
    obtain ⟨t, call, reply⟩ := c
    obtain ⟨next, hb, hrest⟩ := h
    obtain ⟨hone, hlen⟩ := body_fifo t hb
    obtain ⟨hih, hlen'⟩ := ih hrest
    refine ⟨?_, fun hq => hlen' (hlen hq)⟩
    rw [pushed_cons, popped_cons, ← List.append_assoc, hone, List.append_assoc, hih, List.append_assoc]

/-- Where `pop_async` fails, the queue is empty. -/
theorem body_failed {bufferSize : Nat} {queue queue' : List α}
    (h : (concurrentQueue α bufferSize).body .popAsync queue = some (queue', .failed)) : queue = [] := by
  cases queue with
  | nil => rfl
  | cons val queue => cases h

variable [Fintype T] [DecidableEq T]

/-- Whatever the threads do, the items pushed are those popped followed by the
content, the content fits the buffer, and `pop_async` fails only where all that
was pushed is popped. -/
theorem pushed_eq_popped (bufferSize : Nat) (evs : List (Monitor.Event T (Call α))) :
    let s := runs (concurrentQueue α bufferSize).step (Monitor.init []) evs
    pushed s.history = popped s.history ++ s.shared ∧ s.shared.length ≤ bufferSize ∧
      ∀ pre t post, s.history = pre ++ (t, .popAsync, .failed) :: post → pushed pre = popped pre := by
  intro s
  have h : (concurrentQueue α bufferSize).Replays [] s.history s.shared := Monitor.runs_replays [] evs
  obtain ⟨hfifo, hlen⟩ := replays_fifo h
  refine ⟨hfifo, hlen (Nat.zero_le _), fun pre t post hs => ?_⟩
  rw [hs] at h
  obtain ⟨queue, hpre, queue', hb, -⟩ := (Monitor.replays_append _ _ _ _).1 h
  have hempty := body_failed hb
  simpa [hempty] using (replays_fifo hpre).1

/-! ## Stuck queues -/

/-- All threads inside the queue wait, and one of them has an item to pop, or
room to push. -/
def Stuck (bufferSize : Nat) (s : Monitor.State (List α) T (Call α) (Reply α)) : Prop :=
  (∀ t, (s.phase t).inside → (s.phase t).waits) ∧
    (s.shared ≠ [] ∧ (∃ t, s.phase t = .waiting .pop) ∨
      s.shared.length < bufferSize ∧ ∃ t item, s.phase t = .waiting (.push item))

theorem pop_isSome (queue : List α) : (pop queue).isSome ↔ queue ≠ [] := by cases queue <;> simp [pop]

theorem push_isSome (bufferSize : Nat) (item : α) (queue : List α) :
    (push bufferSize item queue).isSome ↔ queue.length < bufferSize := by
  unfold push
  split <;> simp <;> omega

omit [Fintype T] [DecidableEq T] in
/-- Only `pop` and `push` wait, so these are the stuck states of the monitor. -/
theorem monitor_stuck_iff {bufferSize : Nat} {s : Monitor.State (List α) T (Call α) (Reply α)}
    (hs : (concurrentQueue α bufferSize).Sound s) :
    (concurrentQueue α bufferSize).Stuck s ↔ Stuck bufferSize s := by
  constructor
  · rintro ⟨⟨t, ht⟩, hwait⟩
    refine ⟨hwait, ?_⟩
    cases hp : s.phase t with
    | outside | woken | notifying => simp [hp, Monitor.Phase.able] at ht
    | waiting call =>
      rw [hp] at ht
      cases call with
      | pop => exact .inl ⟨(pop_isSome _).1 ht, t, hp⟩
      | push item => exact .inr ⟨(push_isSome _ _ _).1 ht, t, item, hp⟩
      | popAsync | empty =>
        have hloop := hs t
        rw [hp] at hloop
        obtain ⟨queue, hq⟩ := hloop
        cases hq
  · rintro ⟨hwait, ⟨hq, t, hp⟩ | ⟨hq, t, item, hp⟩⟩
    · exact ⟨⟨t, by rw [hp]; exact (pop_isSome _).2 hq⟩, hwait⟩
    · exact ⟨⟨t, by rw [hp]; exact (push_isSome _ _ _).2 hq⟩, hwait⟩

/-- No state of a run is stuck, or becomes stuck when the woken threads check
again, exactly when each `notify_one` wakes a waiter that can go on wherever
there is one, or leaves another thread about to notify or able to go on. -/
theorem not_stuck_iff (bufferSize : Nat) (evs : List (Monitor.Event T (Call α))) :
    (∀ pre, pre <+: evs → ∀ ts : List T,
      ¬Stuck bufferSize (runs (concurrentQueue α bufferSize).step (Monitor.init []) (pre ++ ts.map .resume))) ↔
      StepsMeet (concurrentQueue α bufferSize).step (fun s e => (concurrentQueue α bufferSize).WellAimed s e)
        (Monitor.init []) evs := by
  rw [← Monitor.clear_iff_wellAimed]
  refine forall₂_congr fun pre _ => forall_congr' fun ts => not_congr ?_
  exact (monitor_stuck_iff (Monitor.runs_sound [] _)).symm

/-- Two consumers and a producer on a buffer of one: the second consumer is
woken by the first, finds nothing, and the producer waits on an empty queue. -/
theorem stuck_reachable : ¬∀ bufferSize, 1 ≤ bufferSize → ∀ evs : List (Monitor.Event (Fin 3) (Call Nat)),
    ¬Stuck bufferSize (runs (concurrentQueue Nat bufferSize).step (Monitor.init []) evs) := by
  intro h
  refine h 1 (Nat.le_refl 1) [.call 0 .pop, .call 1 .pop, .call 2 (.push 7), .notify 2 0, .call 2 (.push 8), .resume 0,
    .notify 0 1, .resume 1] ⟨by decide, .inr ⟨by decide, 2, 8, rfl⟩⟩

end FlameSdd.ConcurrentQueue
