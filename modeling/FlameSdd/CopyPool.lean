import FlameSdd.SysLib.Runs
import FlameSdd.SysLib.Tally
import Mathlib.Data.Fintype.Basic
/-!
# The workers that copy images

`copy_defect_images` puts its tasks on a queue and starts up to eight workers,
each with a connection of its own. A worker takes tasks until it finds the queue
empty, and counts the commands that exit with 0 under a lock. However the
workers interleave and whichever fail, every task is in one place only and the
count misses no more than what is on its way to the lock: `Invariant`.
-/
open SysLib SysLib.Tally

namespace FlameSdd.CopyPool

/-! ## The pool -/

/-- `pool_size`, for `n` tasks. -/
def poolSize (n : Nat) : Nat := max 1 (min 8 n)

/-- Where a worker stands. -/
inductive Phase (n : Nat) where
  /-- It has no connection yet. -/
  | starting
  /-- It gets none, and returns. -/
  | failed
  | looping
  /-- It has taken the task, and its command is next. -/
  | executing (task : Fin n)
  /-- The command has exited with 0, and the lock is next. -/
  | locking
  | locked
  /-- It has read `n_copied`. -/
  | adding (nCopied : Nat)
  | added
  /-- It has found the queue empty. -/
  | ended
  deriving DecidableEq

/-- The worker has returned. -/
def Phase.isOver {n : Nat} : Phase n → Bool
  | .failed | .ended => true
  | _ => false

/-- The worker is inside of `with lock`. -/
def Phase.holds {n : Nat} : Phase n → Bool
  | .locked | .adding _ | .added => true
  | _ => false

structure State (n : Nat) where
  taskQ : List (Fin n)
  workers : Fin (poolSize n) → Phase n
  lock : Option (Fin (poolSize n))
  nCopied : Nat
  /-- The commands so far: the exit status, or an exception. -/
  attempts : List (Fin n × Option Int)
  returned : Option Nat

/-- Without tasks nothing is started. -/
def init (n : Nat) : State n where
  taskQ := List.finRange n
  workers _ := .starting
  lock := none
  nCopied := 0
  attempts := []
  returned := if n = 0 then some 0 else none

inductive Event (n : Nat) where
  | connect (w : Fin (poolSize n)) (ok : Bool)
  | getNowait (w : Fin (poolSize n))
  | execCommand (w : Fin (poolSize n)) (exitStatus : Option Int)
  | acquire (w : Fin (poolSize n))
  | read (w : Fin (poolSize n))
  | write (w : Fin (poolSize n))
  | release (w : Fin (poolSize n))
  /-- The last `join` is over. -/
  | join

variable {n : Nat}

def State.set (s : State n) (w : Fin (poolSize n)) (p : Phase n) : State n :=
  { s with workers := Function.update s.workers w p }

theorem State.set_self (s : State n) (w : Fin (poolSize n)) (p : Phase n) : (s.set w p).workers w = p :=
  Function.update_self ..

theorem State.set_other (s : State n) {w v : Fin (poolSize n)} (p : Phase n) (hv : v ≠ w) :
    (s.set w p).workers v = s.workers v := Function.update_of_ne hv ..

/-- What an event does before the pool has returned. -/
def act (s : State n) : Event n → State n
  | .connect w ok =>
    match s.workers w with
    | .starting => s.set w (if ok then .looping else .failed)
    | _ => s
  | .getNowait w =>
    match s.workers w, s.taskQ with
    | .looping, [] => s.set w .ended
    | .looping, task :: rest => { s with taskQ := rest }.set w (.executing task)
    | _, _ => s
  | .execCommand w exitStatus =>
    match s.workers w with
    | .executing task =>
      { s with attempts := s.attempts ++ [(task, exitStatus)] }.set w
        (if exitStatus = some 0 then .locking else .looping)
    | _ => s
  | .acquire w =>
    match s.workers w, s.lock with
    | .locking, none => { s with lock := some w }.set w .locked
    | _, _ => s
  | .read w =>
    match s.workers w with
    | .locked => s.set w (.adding s.nCopied)
    | _ => s
  | .write w =>
    match s.workers w with
    | .adding v => { s with nCopied := v + 1 }.set w .added
    | _ => s
  | .release w =>
    match s.workers w with
    | .added => { s with lock := none }.set w .looping
    | _ => s
  | .join => if ∀ w, (s.workers w).isOver = true then { s with returned := some s.nCopied } else s

def step (s : State n) (e : Event n) : State n := if s.returned.isSome then s else act s e

/-- Everything an event can do. -/
inductive Effect (s : State n) : State n → Prop where
  | nothing : Effect s s
  | connected {w} : s.workers w = .starting → Effect s (s.set w .looping)
  | failed {w} : s.workers w = .starting → Effect s (s.set w .failed)
  | ended {w} : s.workers w = .looping → s.taskQ = [] → Effect s (s.set w .ended)
  | took {w task rest} : s.workers w = .looping → s.taskQ = task :: rest →
      Effect s ({ s with taskQ := rest }.set w (.executing task))
  | copied {w task} : s.workers w = .executing task →
      Effect s ({ s with attempts := s.attempts ++ [(task, some 0)] }.set w .locking)
  | missed {w task exitStatus} : s.workers w = .executing task → exitStatus ≠ some 0 →
      Effect s ({ s with attempts := s.attempts ++ [(task, exitStatus)] }.set w .looping)
  | acquired {w} : s.workers w = .locking → s.lock = none → Effect s ({ s with lock := some w }.set w .locked)
  | read {w} : s.workers w = .locked → Effect s (s.set w (.adding s.nCopied))
  | wrote {w v} : s.workers w = .adding v → Effect s ({ s with nCopied := v + 1 }.set w .added)
  | released {w} : s.workers w = .added → Effect s ({ s with lock := none }.set w .looping)
  | returned : (∀ w, (s.workers w).isOver = true) → Effect s { s with returned := some s.nCopied }

theorem act_effect (s : State n) (e : Event n) : Effect s (act s e) := by
  cases e with
  | connect w ok =>
    rw [act]
    split
    · rename_i hw
      cases ok with
      | true => exact .connected hw
      | false => exact .failed hw
    · exact .nothing
  | getNowait w =>
    rw [act]
    split
    · rename_i hw hq
      exact .ended hw hq
    · rename_i hw hq
      exact .took hw hq
    · exact .nothing
  | execCommand w exitStatus =>
    rw [act]
    split
    · rename_i hw
      by_cases h0 : exitStatus = some 0
      · subst h0
        exact .copied hw
      · rw [if_neg h0]
        exact .missed hw h0
    · exact .nothing
  | acquire w =>
    rw [act]
    split
    · rename_i hw hl
      exact .acquired hw hl
    · exact .nothing
  | read w =>
    rw [act]
    split
    · rename_i hw
      exact .read hw
    · exact .nothing
  | write w =>
    rw [act]
    split
    · rename_i hw
      exact .wrote hw
    · exact .nothing
  | release w =>
    rw [act]
    split
    · rename_i hw
      exact .released hw
    · exact .nothing
  | join =>
    rw [act]
    split
    · rename_i hall
      exact .returned hall
    · exact .nothing

theorem effect (s : State n) (e : Event n) : step s e = s ∨ s.returned = none ∧ Effect s (step s e) := by
  rw [step]
  split
  · exact .inl rfl
  · rename_i h
    exact .inr ⟨by simpa using h, act_effect s e⟩

/-! ## The tasks -/

/-- What the worker has in hand. -/
def Phase.tasks : Phase n → Multiset (Fin n)
  | .executing task => {task}
  | _ => 0

def State.attempted (s : State n) : List (Fin n) := s.attempts.map Prod.fst

/-- Every task is once only on the queue, in the hands of a worker, or attempted. -/
def TasksKept (s : State n) : Prop :=
  (s.attempted : Multiset (Fin n)) + (tally Phase.tasks s.workers + (s.taskQ : Multiset (Fin n))) = List.finRange n

theorem TasksKept.idle {s : State n} (h : TasksKept s) {w : Fin (poolSize n)} {p : Phase n}
    (hw : (s.workers w).tasks = 0) (hp : p.tasks = 0) (lock : Option (Fin (poolSize n))) (nCopied : Nat) :
    TasksKept ({ s with lock := lock, nCopied := nCopied }.set w p) := by
  have htally : tally Phase.tasks (Function.update s.workers w p) = tally Phase.tasks s.workers := by
    rw [tally_update_of_zero hw, hp, add_zero]
  unfold TasksKept at h ⊢
  rw [← h, ← htally]
  rfl

/-- A task that is executed was in hand. -/
theorem TasksKept.executed {s : State n} (h : TasksKept s) {w : Fin (poolSize n)} {task : Fin n} {p : Phase n}
    (hw : s.workers w = .executing task) (hp : p.tasks = 0) (exitStatus : Option Int) :
    TasksKept ({ s with attempts := s.attempts ++ [(task, exitStatus)] }.set w p) := by
  have htally : tally Phase.tasks s.workers = tally Phase.tasks (Function.update s.workers w p) + {task} := by
    have hsum := tally_update Phase.tasks s.workers w p
    rw [hw, hp, add_zero] at hsum
    exact hsum.symm
  have hattempted : (({ s with attempts := s.attempts ++ [(task, exitStatus)] }.set w p).attempted : Multiset (Fin n)) =
      (s.attempted : Multiset (Fin n)) + {task} := by
    rw [State.attempted, State.set, List.map_append, ← Multiset.coe_add]
    rfl
  unfold TasksKept at h ⊢
  rw [← h, htally, hattempted]
  simp only [State.set]
  ac_rfl

theorem TasksKept.took {s : State n} (h : TasksKept s) {w : Fin (poolSize n)} {task : Fin n} {rest : List (Fin n)}
    (hw : s.workers w = .looping) (hq : s.taskQ = task :: rest) :
    TasksKept ({ s with taskQ := rest }.set w (.executing task)) := by
  have htally : tally Phase.tasks (Function.update s.workers w (.executing task)) =
      tally Phase.tasks s.workers + {task} :=
    tally_update_of_zero (by rw [hw]; rfl) _
  have hcons : (s.taskQ : Multiset (Fin n)) = {task} + (rest : Multiset (Fin n)) := by
    rw [hq, ← Multiset.cons_coe, Multiset.singleton_add]
  unfold TasksKept at h ⊢
  rw [← h, hcons, ← add_assoc (tally _ _), ← htally]
  rfl

theorem effect_tasksKept {s s' : State n} (he : Effect s s') (h : TasksKept s) : TasksKept s' := by
  cases he with
  | nothing => exact h
  | took hw hq => exact h.took hw hq
  | copied hw => exact h.executed hw rfl _
  | missed hw _ => exact h.executed hw rfl _
  | returned => exact h
  | connected hw | failed hw | ended hw | acquired hw | read hw | wrote hw | released hw =>
    exact h.idle (by rw [hw]; rfl) rfl _ _

/-! ## The count -/

/-- The worker has a copy that is not counted yet. -/
def Phase.copied : Phase n → Nat
  | .locking | .locked | .adding _ => 1
  | _ => 0

def State.exitedZero (s : State n) : Nat := s.attempts.countP fun a => a.2 = some 0

/-- What the workers will count makes up what is missing. -/
def Counted (s : State n) : Prop := s.nCopied + tally Phase.copied s.workers = s.exitedZero

theorem Counted.idle {s : State n} (h : Counted s) {w : Fin (poolSize n)} {p : Phase n}
    (hw : (s.workers w).copied = p.copied) (taskQ : List (Fin n)) (lock : Option (Fin (poolSize n))) :
    Counted ({ s with taskQ := taskQ, lock := lock }.set w p) := by
  have htally : tally Phase.copied (Function.update s.workers w p) = tally Phase.copied s.workers := by
    have hsum := tally_update Phase.copied s.workers w p
    omega
  unfold Counted at h ⊢
  exact (congrArg _ htally).trans h

theorem effect_counted {s s' : State n} (he : Effect s s') (h : Counted s)
    (hadding : ∀ w v, s.workers w = .adding v → v = s.nCopied) : Counted s' := by
  cases he with
  | nothing => exact h
  | @copied w task hw =>
    have htally : tally Phase.copied (Function.update s.workers w .locking) = tally Phase.copied s.workers + 1 :=
      tally_update_of_zero (by rw [hw]; rfl) _
    have hmore : ({ s with attempts := s.attempts ++ [(task, some 0)] }.set w .locking).exitedZero =
        s.exitedZero + 1 := by
      simp [State.exitedZero, State.set]
    unfold Counted at h ⊢
    rw [hmore, ← h, add_assoc, ← htally]
    rfl
  | @missed w task exitStatus hw h0 =>
    have hsame : ({ s with attempts := s.attempts ++ [(task, exitStatus)] }.set w .looping).exitedZero =
        s.exitedZero := by
      simp [State.exitedZero, State.set, h0]
    have hidle := h.idle (p := .looping) (by rw [hw]; rfl) s.taskQ s.lock
    exact hidle.trans hsame.symm
  | @wrote w v hw =>
    have hsum := tally_update Phase.copied s.workers w .added
    rw [hw] at hsum
    -- nobody has counted since it read the number
    have hv := hadding w v hw
    subst hv
    unfold Counted at h ⊢
    simp only [State.set, State.exitedZero, Phase.copied] at h hsum ⊢
    omega
  | returned => exact h
  | connected hw | failed hw | ended hw | took hw | acquired hw | read hw | released hw =>
    exact h.idle (by rw [hw]; rfl) _ _

/-! ## The lock -/

/-- The lock belongs to the worker inside of it, and what that has read of
`n_copied` is still there. -/
structure Guarded (s : State n) : Prop where
  holds_iff : ∀ w, (s.workers w).holds = true ↔ s.lock = some w
  adding : ∀ w v, s.workers w = .adding v → v = s.nCopied

/-- One worker moves: what is left to show of it and of the others. -/
theorem Guarded.set {s t : State n} {w : Fin (poolSize n)} {p : Phase n} (hworkers : t.workers = s.workers)
    (hself : p.holds = true ↔ t.lock = some w)
    (hothers : ∀ v, v ≠ w → ((s.workers v).holds = true ↔ t.lock = some v))
    (hadding : ∀ x, p = .adding x → x = t.nCopied)
    (hread : ∀ v, v ≠ w → ∀ x, s.workers v = .adding x → x = t.nCopied) : Guarded (t.set w p) := by
  constructor
  · intro v
    by_cases hv : v = w
    · rw [hv, State.set_self]
      exact hself
    · rw [State.set_other t p hv, hworkers]
      exact hothers v hv
  · intro v x hx
    by_cases hv : v = w
    · rw [hv, State.set_self] at hx
      exact hadding x hx
    · rw [State.set_other t p hv, hworkers] at hx
      exact hread v hv x hx

/-- Nobody else is inside of the lock of a worker. -/
theorem Guarded.alone {s : State n} (h : Guarded s) {w v : Fin (poolSize n)} (hw : (s.workers w).holds = true)
    (hv : v ≠ w) : (s.workers v).holds = false := by
  have hlock := (h.holds_iff w).1 hw
  have hiff := h.holds_iff v
  rw [hlock] at hiff
  simpa [Ne.symm hv] using hiff

/-- A worker that moves on without the lock. -/
theorem Guarded.idle {s : State n} (h : Guarded s) {w : Fin (poolSize n)} {p : Phase n}
    (hw : (s.workers w).holds = false) (hp : p.holds = false) (taskQ : List (Fin n))
    (attempts : List (Fin n × Option Int)) : Guarded ({ s with taskQ := taskQ, attempts := attempts }.set w p) := by
  have hlock : s.lock ≠ some w := by
    intro hlock
    rw [(h.holds_iff w).2 hlock] at hw
    cases hw
  refine .set rfl ?_ (fun v _ => h.holds_iff v) ?_ fun v _ => h.adding v
  · -- it does not get the lock by that
    rw [hp]
    exact iff_of_false Bool.false_ne_true hlock
  · rintro x rfl
    cases hp

/-- The worker with the lock moves on inside of it. -/
theorem Guarded.inside {s : State n} (h : Guarded s) {w : Fin (poolSize n)} {p : Phase n}
    (hw : (s.workers w).holds = true) (hp : p.holds = true) (nCopied : Nat)
    (hadding : ∀ v, p = .adding v → v = nCopied) : Guarded ({ s with nCopied := nCopied }.set w p) := by
  refine .set rfl (iff_of_true hp ((h.holds_iff w).1 hw)) (fun v _ => h.holds_iff v) hadding ?_
  intro v hv x hx
  have hout := h.alone hw hv
  rw [hx] at hout
  cases hout

theorem Guarded.acquired {s : State n} (h : Guarded s) {w : Fin (poolSize n)} (hl : s.lock = none) :
    Guarded ({ s with lock := some w }.set w .locked) := by
  have hfree : ∀ v, ¬(s.workers v).holds = true := by
    intro v hv
    have hlock := (h.holds_iff v).1 hv
    rw [hl] at hlock
    cases hlock
  refine .set rfl (iff_of_true rfl rfl) ?_ (by rintro x ⟨⟩) fun v _ => h.adding v
  exact fun v hv => iff_of_false (hfree v) fun heq => hv (Option.some.inj heq).symm

theorem Guarded.released {s : State n} (h : Guarded s) {w : Fin (poolSize n)} (hw : s.workers w = .added) :
    Guarded ({ s with lock := none }.set w .looping) := by
  have hholds : (s.workers w).holds = true := by
    rw [hw]
    rfl
  refine .set rfl (iff_of_false nofun nofun) ?_ (by rintro x ⟨⟩) fun v _ => h.adding v
  exact fun v hv => iff_of_false (by rw [h.alone hholds hv]; nofun) nofun

theorem effect_guarded {s s' : State n} (he : Effect s s') (h : Guarded s) : Guarded s' := by
  cases he with
  | nothing => exact h
  | acquired _ hl => exact h.acquired hl
  | read hw => exact h.inside (by rw [hw]; rfl) rfl _ (by rintro v ⟨⟩; rfl)
  | wrote hw => exact h.inside (by rw [hw]; rfl) rfl _ (by rintro v ⟨⟩)
  | released hw => exact h.released hw
  | returned => exact ⟨h.holds_iff, h.adding⟩
  | connected hw | failed hw | ended hw | took hw | copied hw | missed hw =>
    exact h.idle (by rw [hw]; rfl) rfl _ _

/-! ## Runs -/

structure Invariant (s : State n) : Prop where
  kept : TasksKept s
  counted : Counted s
  guarded : Guarded s
  /-- A worker ends when the queue is empty, and the queue never grows. -/
  empty : ∀ w, s.workers w = .ended → s.taskQ = []
  returned : ∀ count, s.returned = some count → count = s.nCopied ∧ (n = 0 ∨ ∀ w, (s.workers w).isOver = true)

theorem invariant_init (n : Nat) : Invariant (init n) where
  kept := by
    have hnone : tally Phase.tasks (init n).workers = 0 := tally_eq_zero fun _ => rfl
    unfold TasksKept
    rw [hnone, zero_add]
    exact zero_add _
  counted := by
    have hnone : tally Phase.copied (init n).workers = 0 := tally_eq_zero fun _ => rfl
    unfold Counted
    rw [hnone]
    rfl
  guarded := ⟨fun w => by simp [init, Phase.holds], fun w v hv => by cases hv⟩
  empty _ hw := by cases hw
  returned count hc := by
    by_cases hn : n = 0
    · simp only [init, if_pos hn] at hc
      exact ⟨(Option.some.inj hc).symm, .inl hn⟩
    · simp [init, hn] at hc

theorem effect_empty {s s' : State n} (he : Effect s s') (h : ∀ w, s.workers w = .ended → s.taskQ = []) :
    ∀ w, s'.workers w = .ended → s'.taskQ = [] := by
  have hset : ∀ (t : State n) (w : Fin (poolSize n)) (p : Phase n), p ≠ .ended → t.workers = s.workers →
      t.taskQ = s.taskQ → ∀ v, (t.set w p).workers v = .ended → (t.set w p).taskQ = [] := by
    intro t w p hp hworkers hq v hv
    by_cases hvw : v = w
    · rw [hvw, State.set_self] at hv
      exact absurd hv hp
    · rw [State.set_other t p hvw, hworkers] at hv
      exact hq.trans (h v hv)
  cases he with
  | nothing => exact h
  | ended _ hq => exact fun _ _ => hq
  | @took w task rest hw hq =>
    intro v hv
    by_cases hvw : v = w
    · rw [hvw, State.set_self] at hv
      cases hv
    · rw [State.set_other _ _ hvw] at hv
      -- nobody has ended while there is still a task
      have hempty := h v hv
      rw [hq] at hempty
      cases hempty
  | returned => exact h
  | connected | failed | copied | missed | acquired | read | wrote | released =>
    exact hset _ _ _ (by rintro ⟨⟩) rfl rfl

theorem effect_returned {s s' : State n} (he : Effect s s') (hnone : s.returned = none) :
    ∀ count, s'.returned = some count → count = s'.nCopied ∧ ∀ w, (s'.workers w).isOver = true := by
  intro count hc
  cases he with
  | returned hall => exact ⟨(Option.some.inj hc).symm, hall⟩
  | nothing | connected | failed | ended | took | copied | missed | acquired | read | wrote | released =>
    have hsame : s.returned = some count := hc
    rw [hnone] at hsame
    cases hsame

theorem step_invariant (s : State n) (e : Event n) (h : Invariant s) : Invariant (step s e) := by
  rcases effect s e with heq | ⟨hnone, he⟩
  · rw [heq]
    exact h
  · exact ⟨effect_tasksKept he h.kept, effect_counted he h.counted h.guarded.adding, effect_guarded he h.guarded,
      effect_empty he h.empty, fun count hc => (effect_returned he hnone count hc).imp_right .inr⟩

end FlameSdd.CopyPool
