import FlameSdd.CopyPool
/-!
# The number of copies

A pool that has returned has counted the commands which exited with 0, and every
pool returns: until then some worker can move, and each move leaves fewer of
them: `copies_counted`.
-/
open SysLib SysLib.Tally

namespace FlameSdd.CopyPool

variable {n : Nat}

/-! ## Progress -/

/-- How many moves a worker has left, if it takes no further task. -/
def Phase.moves : Phase n → Nat
  | .failed | .ended => 0
  | .looping => 1
  | .starting | .added => 2
  | .adding _ => 3
  | .locked => 4
  | .locking => 5
  | .executing _ => 6

/-- How many moves are left at most. -/
def work (s : State n) : Nat :=
  6 * s.taskQ.length + tally Phase.moves s.workers + (if s.returned = none then 1 else 0)

theorem work_set_lt {s t : State n} {w : Fin (poolSize n)} {p : Phase n} (hworkers : t.workers = s.workers)
    (hreturned : t.returned = s.returned)
    (hlt : 6 * t.taskQ.length + p.moves < 6 * s.taskQ.length + (s.workers w).moves) : work (t.set w p) < work s := by
  have hsum := tally_update Phase.moves s.workers w p
  have hset : work (t.set w p) = 6 * t.taskQ.length + tally Phase.moves (Function.update s.workers w p) +
      (if s.returned = none then 1 else 0) := by
    rw [work, State.set, hworkers, hreturned]
  rw [hset, work]
  omega

theorem effect_work {s s' : State n} (he : Effect s s') (hnone : s.returned = none) (hne : s' ≠ s) :
    work s' < work s := by
  cases he with
  | nothing => exact absurd rfl hne
  | took hw hq => exact work_set_lt rfl rfl (by rw [hw, hq]; simp [Phase.moves]; omega)
  | returned => simp [work, hnone]
  | connected hw | failed hw | ended hw | copied hw | missed hw | acquired hw | read hw | wrote hw | released hw =>
    exact work_set_lt rfl rfl (by rw [hw]; simp [Phase.moves])

theorem step_work {s : State n} {e : Event n} (hne : step s e ≠ s) : work (step s e) < work s := by
  rcases effect s e with heq | ⟨hnone, he⟩
  · exact absurd heq hne
  · exact effect_work he hnone hne

theorem step_ne {s t : State n} {e : Event n} {w : Fin (poolSize n)} {p : Phase n} (hnone : s.returned = none)
    (hact : act s e = t.set w p) (hp : s.workers w ≠ p) : step s e ≠ s := by
  intro heq
  have hstep : step s e = t.set w p := by rw [step, hnone]; exact hact
  have hworker : (step s e).workers w = p := by rw [hstep, State.set_self]
  rw [heq] at hworker
  exact hp hworker

/-- The worker inside of the lock can go on. -/
theorem exists_step_of_holds {s : State n} (hnone : s.returned = none) {w : Fin (poolSize n)}
    (hw : (s.workers w).holds = true) : ∃ e, step s e ≠ s := by
  cases hp : s.workers w with
  | locked =>
    exact ⟨.read w, step_ne (t := s) (w := w) (p := .adding s.nCopied) hnone (by simp only [act, hp])
      (by simp [hp])⟩
  | adding v => exact ⟨.write w, step_ne (p := .added) hnone (by simp only [act, hp]; rfl) (by simp [hp])⟩
  | added => exact ⟨.release w, step_ne (p := .looping) hnone (by simp only [act, hp]; rfl) (by simp [hp])⟩
  | starting | failed | looping | executing | locking | ended =>
    rw [hp] at hw
    cases hw

/-- The pool never hangs before it has returned. -/
theorem exists_step {s : State n} (h : Invariant s) (hnone : s.returned = none) : ∃ e, step s e ≠ s := by
  by_cases hall : ∀ w, (s.workers w).isOver = true
  · -- only the joins are left
    refine ⟨.join, fun heq => ?_⟩
    have hstep : step s .join = { s with returned := some s.nCopied } := by
      rw [step, hnone]
      exact if_pos hall
    rw [heq] at hstep
    have hreturned := congrArg State.returned hstep
    rw [hnone] at hreturned
    cases hreturned
  push Not at hall
  obtain ⟨w, hw⟩ := hall
  cases hp : s.workers w with
  | starting =>
    exact ⟨.connect w false, step_ne (t := s) (p := .failed) hnone (by simp only [act, hp]; rfl) (by simp [hp])⟩
  | looping =>
    cases hq : s.taskQ with
    | nil =>
      exact ⟨.getNowait w, step_ne (t := s) (w := w) (p := .ended) hnone (by simp only [act, hp, hq])
        (by simp [hp])⟩
    | cons task rest =>
      exact ⟨.getNowait w, step_ne (p := .executing task) hnone (by simp only [act, hp, hq]; rfl) (by simp [hp])⟩
  | executing task =>
    exact ⟨.execCommand w none, step_ne (p := .looping) hnone (by simp only [act, hp]; rfl) (by simp [hp])⟩
  | locking =>
    cases hl : s.lock with
    | none => exact ⟨.acquire w, step_ne (p := .locked) hnone (by simp only [act, hp, hl]; rfl) (by simp [hp])⟩
    -- the worker that has it can go on
    | some v => exact exists_step_of_holds hnone ((h.guarded.holds_iff v).2 hl)
  | locked | adding | added => exact exists_step_of_holds hnone (by rw [hp]; rfl)
  | failed | ended =>
    rw [hp] at hw
    exact absurd rfl hw

/-! ## The result -/

theorem attempted_nodup {s : State n} (h : Invariant s) : s.attempted.Nodup := by
  have hall : ((s.attempted : Multiset (Fin n)) +
      (tally Phase.tasks s.workers + (s.taskQ : Multiset (Fin n)))).Nodup := by
    rw [h.kept]
    exact Multiset.coe_nodup.2 (List.nodup_finRange n)
  exact Multiset.coe_nodup.1 (Multiset.nodup_add.1 hall).1

/-- The number of tasks whose command exited with 0. -/
def State.copies (s : State n) : Nat := (Finset.univ.filter fun task => (task, some (0 : Int)) ∈ s.attempts).card

theorem exitedZero_eq_copies {s : State n} (h : s.attempted.Nodup) : s.exitedZero = s.copies := by
  have hnodup : ((s.attempts.filter fun a => a.2 = some 0).map Prod.fst).Nodup := h.sublist (List.filter_sublist.map _)
  have hset : (Finset.univ.filter fun task => (task, some (0 : Int)) ∈ s.attempts) =
      ((s.attempts.filter fun a => a.2 = some 0).map Prod.fst).toFinset := by
    ext task
    simp [List.mem_map, List.mem_filter]
  rw [State.copies, hset, List.toFinset_card_of_nodup hnodup, List.length_map, State.exitedZero,
    List.countP_eq_length_filter]

/-- What has come of the connection of a worker, by where it stands. -/
def Phase.connection : Phase n → Option Bool
  | .starting => none
  | .failed => some false
  | _ => some true

/-- What holds when all workers have returned. -/
theorem returned_spec {s : State n} (h : Invariant s) {count : Nat} (hc : s.returned = some count) :
    count = s.copies ∧ ((∃ w, (s.workers w).connection = some true) → ∀ task, task ∈ s.attempted) := by
  obtain ⟨rfl, hover⟩ := h.returned count hc
  rcases hover with rfl | hover
  · -- there is no task
    have hnil : s.attempts = [] := List.eq_nil_iff_forall_not_mem.2 fun a _ => a.1.elim0
    have hcounted := h.counted
    have hzero : s.exitedZero = 0 := by rw [State.exitedZero, hnil]; rfl
    unfold Counted at hcounted
    refine ⟨?_, fun _ task => task.elim0⟩
    rw [← exitedZero_eq_copies (attempted_nodup h)]
    omega
  -- nobody has a task in hand, or a copy that is not counted
  have hidle : ∀ w, (s.workers w).tasks = 0 ∧ (s.workers w).copied = 0 := by
    intro w
    have hw := hover w
    cases hp : s.workers w with
    | failed | ended => exact ⟨rfl, rfl⟩
    | starting | looping | executing | locking | locked | adding | added =>
      rw [hp] at hw
      cases hw
  constructor
  · have hcounted := h.counted
    unfold Counted at hcounted
    rw [tally_eq_zero fun w => (hidle w).2, add_zero] at hcounted
    rw [hcounted, exitedZero_eq_copies (attempted_nodup h)]
  · -- a worker with a connection has ended, so the queue is empty
    rintro ⟨w, hw⟩ task
    have hended : s.workers w = .ended := by
      have hw' := hover w
      cases hp : s.workers w with
      | ended => rfl
      | failed | starting =>
        rw [hp] at hw
        cases hw
      | looping | executing | locking | locked | adding | added =>
        rw [hp] at hw'
        cases hw'
    have hkept := h.kept
    unfold TasksKept at hkept
    rw [tally_eq_zero fun w => (hidle w).1, h.empty w hended, zero_add, Multiset.coe_nil, add_zero] at hkept
    rw [← Multiset.mem_coe, hkept]
    exact Multiset.mem_coe.2 (List.mem_finRange task)

/-! ## The connections -/

/-- What came of the connection of a worker, if it was tried. -/
def connection (evs : List (Event n)) (w : Fin (poolSize n)) : Option Bool :=
  evs.findSome? fun
    | .connect v ok => if v = w then some ok else none
    | _ => none

theorem connection_append (evs : List (Event n)) (e : Event n) (w : Fin (poolSize n)) :
    connection (evs ++ [e]) w = (connection evs w).or (connection [e] w) := List.findSome?_append

/-- Only its connection gets a worker started. -/
theorem act_starting {s : State n} {w : Fin (poolSize n)} (hw : s.workers w = .starting) (e : Event n) :
    ((act s e).workers w).connection = connection [e] w := by
  have hstays : ∀ {t : State n}, t.workers w = .starting → (t.workers w).connection = none := by
    intro t ht
    rw [ht]
    rfl
  have hother : ∀ {t : State n} {v : Fin (poolSize n)} {p : Phase n}, t.workers = s.workers → v ≠ w →
      ((t.set v p).workers w).connection = none := by
    intro t v p hworkers hv
    rw [State.set_other t p (Ne.symm hv), hworkers]
    exact hstays hw
  have hne : ∀ {v : Fin (poolSize n)}, s.workers v ≠ .starting → v ≠ w := by
    rintro v hv rfl
    exact hv hw
  cases e with
  | connect v ok =>
    by_cases hv : v = w
    · subst hv
      cases ok <;> simp [act, hw, connection, Phase.connection, State.set_self]
    · have hnone : connection [.connect v ok] w = none := by simp [connection, hv]
      rw [hnone, act]
      split
      · exact hother rfl hv
      · exact hstays hw
  | getNowait v =>
    show ((act s (.getNowait v)).workers w).connection = none
    rw [act]
    split
    · rename_i hv _
      exact hother rfl (hne (by simp [hv]))
    · rename_i hv _
      exact hother rfl (hne (by simp [hv]))
    · exact hstays hw
  | execCommand v exitStatus =>
    show ((act s (.execCommand v exitStatus)).workers w).connection = none
    rw [act]
    split
    · rename_i hv
      exact hother rfl (hne (by simp [hv]))
    · exact hstays hw
  | acquire v =>
    show ((act s (.acquire v)).workers w).connection = none
    rw [act]
    split
    · rename_i hv _
      exact hother rfl (hne (by simp [hv]))
    · exact hstays hw
  | read v | write v | release v =>
    show ((act s _).workers w).connection = none
    rw [act]
    split
    · rename_i hv
      exact hother rfl (hne (by simp [hv]))
    · exact hstays hw
  | join =>
    show ((act s .join).workers w).connection = none
    rw [act]
    split <;> exact hstays hw

/-- A worker that was started keeps its connection, or goes on without one. -/
theorem effect_started {s s' : State n} (he : Effect s s') {w : Fin (poolSize n)} {ok : Bool}
    (hw : (s.workers w).connection = some ok) : (s'.workers w).connection = some ok := by
  have hset : ∀ {t : State n} {v : Fin (poolSize n)} {p : Phase n}, t.workers = s.workers →
      (v = w → p.connection = (s.workers v).connection) → ((t.set v p).workers w).connection = some ok := by
    intro t v p hworkers hp
    by_cases hv : v = w
    · subst hv
      rw [State.set_self, hp rfl, hw]
    · rw [State.set_other t p (Ne.symm hv), hworkers, hw]
  have hstarted : ∀ {v : Fin (poolSize n)}, s.workers v = .starting → v ≠ w := by
    rintro v hv rfl
    rw [hv] at hw
    cases hw
  cases he with
  | nothing | returned => exact hw
  | connected hv | failed hv => exact hset rfl fun heq => absurd heq (hstarted hv)
  | ended hv | took hv | copied hv | missed hv | acquired hv | read hv | wrote hv | released hv =>
    exact hset rfl fun _ => by rw [hv]; rfl

/-- A worker stands where its connection has brought it. -/
theorem connection_spec (hn : n ≠ 0) (evs : List (Event n)) (w : Fin (poolSize n)) :
    ((runs step (init n) evs).workers w).connection = connection evs w := by
  induction evs using List.reverseRecOn with
  | nil => rfl
  | append_singleton evs e ih =>
    have hinv : Invariant (runs step (init n) evs) := reachable_inv Invariant (invariant_init n) step_invariant ⟨evs, rfl⟩
    rw [connection_append, runs_append, runs_cons, runs_nil]
    generalize runs step (init n) evs = s at ih hinv ⊢
    rw [← ih]
    cases hconnection : (s.workers w).connection with
    | some ok =>
      rw [Option.some_or]
      rcases effect s e with heq | ⟨-, he⟩
      · rw [heq, hconnection]
      · exact effect_started he hconnection
    | none =>
      rw [Option.none_or]
      have hstarting : s.workers w = .starting := by
        cases hp : s.workers w with
        | starting => rfl
        | failed | ended | looping | executing | locking | locked | adding | added =>
          rw [hp] at hconnection
          cases hconnection
      -- the pool has not returned: this worker has not
      have hnone : s.returned = none := by
        by_contra hsome
        obtain ⟨count, hc⟩ := Option.ne_none_iff_exists'.1 hsome
        rcases (hinv.returned count hc).2 with rfl | hover
        · exact hn rfl
        · have hw := hover w
          rw [hstarting] at hw
          cases hw
      have hstep : step s e = act s e := by
        rw [step, hnone]
        rfl
      rw [hstep, act_starting hstarting e]

/-! ## Every run -/

/-- In every run no task is attempted twice; when the pool returns, the count is
the number of commands that exited with 0, and every task was attempted if any
worker got its connection. The pool gets there: until then some step can be made,
and each step leaves fewer to be made. -/
theorem copies_counted (n : Nat) (evs : List (Event n)) :
    (runs step (init n) evs).attempted.Nodup ∧
    (∀ count, (runs step (init n) evs).returned = some count →
      count = (runs step (init n) evs).copies ∧
      ((∃ w, connection evs w = some true) → ∀ task, task ∈ (runs step (init n) evs).attempted)) ∧
    ((runs step (init n) evs).returned = none → ∃ e, step (runs step (init n) evs) e ≠ runs step (init n) evs) ∧
    ∀ e, step (runs step (init n) evs) e ≠ runs step (init n) evs →
      work (step (runs step (init n) evs) e) < work (runs step (init n) evs) := by
  have hinv : Invariant (runs step (init n) evs) := reachable_inv Invariant (invariant_init n) step_invariant ⟨evs, rfl⟩
  refine ⟨attempted_nodup hinv, fun count hc => ?_, exists_step hinv, fun e hne => step_work hne⟩
  obtain ⟨hcount, hall⟩ := returned_spec hinv hc
  refine ⟨hcount, ?_⟩
  rintro ⟨w, hw⟩ task
  have hn : n ≠ 0 := by
    rintro rfl
    exact task.elim0
  exact hall ⟨w, (connection_spec hn evs w).trans hw⟩ task

/-- The one of two workers that gets its connection. -/
def connected : Fin (poolSize 2) := ⟨1, by decide⟩

/-- Two tasks, the second of which raises an exception. -/
def oneConnection : List (Event 2) :=
  [.connect ⟨0, by decide⟩ false, .connect connected true, .getNowait connected, .execCommand connected (some 0),
    .acquire connected, .read connected, .write connected, .release connected, .getNowait connected,
    .execCommand connected none, .getNowait connected, .join]

theorem copies_counted_one_connection :
    (runs step (init 2) oneConnection).returned = some 1 ∧ (runs step (init 2) oneConnection).copies = 1 ∧
      ∀ task, task ∈ (runs step (init 2) oneConnection).attempted := by
  have hreturned : (runs step (init 2) oneConnection).returned = some 1 := by decide +kernel
  obtain ⟨hcount, hall⟩ := (copies_counted 2 oneConnection).2.1 1 hreturned
  exact ⟨hreturned, hcount.symm, hall ⟨connected, by decide +kernel⟩⟩

end FlameSdd.CopyPool
