import FlameSdd.SysLib.Runs
import Mathlib.Data.Fintype.Basic
/-!
# Monitors with one condition variable

Threads call the operations of a shared object. A call locks a mutex, waits on
the one condition variable as long as it has to, acts on the shared state,
unlocks, and then wakes one waiter. Two results hold for every such object. The
calls act one after the other, as a sequential object would: `runs_replays`.
And no call is left waiting that could go on, as long as each wake-up goes to
a waiter that can, where nobody else is about to act: `clear_iff_wellAimed`.
-/

namespace SysLib

/-- An object whose calls lock a mutex and may wait. -/
structure Monitor (σ Op Res : Type) where
  /-- The critical section, or nothing if the call has to wait. -/
  body : Op → σ → Option (σ × Res)
  /-- The call wakes one waiter after it has unlocked. -/
  notifies : Op → Bool
  /-- A call that wakes nobody never waits, and leaves the state alone. -/
  quiet : ∀ op, notifies op = false → ∀ x, ∃ r, body op x = some (x, r)

namespace Monitor

/-- Where a thread stands. -/
inductive Phase (Op Res : Type) where
  | outside
  /-- On the condition variable. -/
  | waiting (op : Op)
  /-- It was woken, and has to check again. -/
  | woken (op : Op)
  /-- It has unlocked, and `notify_one` comes next. -/
  | notifying (r : Res)

structure State (σ T Op Res : Type) where
  shared : σ
  phase : T → Phase Op Res
  /-- The calls that have acted, in this order. -/
  history : List (T × Op × Res)

inductive Event (T Op : Type) where
  | call (t : T) (op : Op)
  /-- A woken thread gets the mutex. -/
  | resume (t : T)
  /-- `t` notifies, and `w` is the waiter that wakes, if there is any. -/
  | notify (t w : T)
  /-- `w` wakes for no reason. -/
  | spurious (w : T)

variable {σ T Op Res : Type} (M : Monitor σ Op Res)

/-- A sequential object gives these results to these calls, from `x` to `z`. -/
def Replays : σ → List (T × Op × Res) → σ → Prop
  | x, [], z => x = z
  | x, (_, op, r) :: h, z => ∃ y, M.body op x = some (y, r) ∧ Replays y h z

variable {M} in
theorem replays_append (x z : σ) (a b : List (T × Op × Res)) :
    M.Replays x (a ++ b) z ↔ ∃ y, M.Replays x a y ∧ M.Replays y b z := by
  induction a generalizing x with
  | nil => simp [Replays]
  | cons c a ih =>
    constructor
    · rintro ⟨w, hw, h⟩
      obtain ⟨y, ha, hb⟩ := (ih w).1 h
      exact ⟨y, ⟨w, hw, ha⟩, hb⟩
    · rintro ⟨y, ⟨w, hw, ha⟩, hb⟩
      exact ⟨w, hw, (ih w).2 ⟨y, ha, hb⟩⟩

/-! ## Threads -/

def init (x : σ) : State σ T Op Res := ⟨x, fun _ => .outside, []⟩

def Phase.inside : Phase Op Res → Bool
  | .outside => false
  | _ => true

def Phase.waits : Phase Op Res → Bool
  | .waiting _ => true
  | _ => false

def Phase.notifies : Phase Op Res → Bool
  | .notifying _ => true
  | _ => false

variable [DecidableEq T]

/-- The thread holds the mutex, and acts if the call does not have to wait. -/
def attempt (s : State σ T Op Res) (t : T) (op : Op) : State σ T Op Res :=
  match M.body op s.shared with
  | none => { s with phase := Function.update s.phase t (.waiting op) }
  | some (y, r) =>
    { shared := y
      phase := Function.update s.phase t (if M.notifies op then .notifying r else .outside)
      history := s.history ++ [(t, op, r)] }

def step [Fintype T] (s : State σ T Op Res) : Event T Op → State σ T Op Res
  | .call t op =>
    match s.phase t with
    | .outside => M.attempt s t op
    | _ => s
  | .resume t =>
    match s.phase t with
    | .woken op => M.attempt s t op
    | _ => s
  | .notify t w =>
    match s.phase t, s.phase w with
    | .notifying _, .waiting op =>
      { s with phase := Function.update (Function.update s.phase t .outside) w (.woken op) }
    | .notifying _, _ =>
      if ∃ u, (s.phase u).waits then s else { s with phase := Function.update s.phase t .outside }
    | _, _ => s
  | .spurious w =>
    match s.phase w with
    | .waiting op => { s with phase := Function.update s.phase w (.woken op) }
    | _ => s

/-- Everything a step can do. -/
inductive Effect (s : State σ T Op Res) : Event T Op → State σ T Op Res → Prop
  | idle (e : Event T Op) (he : ∀ t w, e = .notify t w → (s.phase t).notifies → ¬(s.phase w).waits) : Effect s e s
  | waits (e : Event T Op) (t : T) (op : Op) (he : e = .call t op ∧ s.phase t = .outside ∨
      e = .resume t ∧ s.phase t = .woken op) (hb : M.body op s.shared = none) :
      Effect s e { s with phase := Function.update s.phase t (.waiting op) }
  | acts (e : Event T Op) (t : T) (op : Op) (y : σ) (r : Res) (he : e = .call t op ∧ s.phase t = .outside ∨
      e = .resume t ∧ s.phase t = .woken op) (hb : M.body op s.shared = some (y, r)) :
      Effect s e
        { shared := y
          phase := Function.update s.phase t (if M.notifies op then .notifying r else .outside)
          history := s.history ++ [(t, op, r)] }
  | wakes (t w : T) (r : Res) (op : Op) (ht : s.phase t = .notifying r) (hw : s.phase w = .waiting op) :
      Effect s (.notify t w)
        { s with phase := Function.update (Function.update s.phase t .outside) w (.woken op) }
  | returns (t w : T) (r : Res) (ht : s.phase t = .notifying r) (hw : ∀ u, ¬(s.phase u).waits) :
      Effect s (.notify t w) { s with phase := Function.update s.phase t .outside }
  | spurious (w : T) (op : Op) (hw : s.phase w = .waiting op) :
      Effect s (.spurious w) { s with phase := Function.update s.phase w (.woken op) }

variable {M}

theorem attempt_effect (s : State σ T Op Res) (e : Event T Op) (t : T) (op : Op)
    (he : e = .call t op ∧ s.phase t = .outside ∨ e = .resume t ∧ s.phase t = .woken op) :
    M.Effect s e (M.attempt s t op) := by
  unfold attempt
  split
  · exact .waits e t op he ‹_›
  · exact .acts e t op _ _ he ‹_›

theorem effect [Fintype T] (s : State σ T Op Res) (e : Event T Op) : M.Effect s e (M.step s e) := by
  cases e with
  | call t op =>
    simp only [step]
    split
    · exact attempt_effect s _ t op (.inl ⟨rfl, ‹_›⟩)
    · exact .idle _ (by simp)
  | resume t =>
    simp only [step]
    split
    · exact attempt_effect s _ t _ (.inr ⟨rfl, ‹_›⟩)
    · exact .idle _ (by simp)
  | notify t w =>
    simp only [step]
    split
    · exact .wakes t w _ _ ‹_› ‹_›
    · rename_i hw
      split
      · refine .idle _ fun t' w' he _ h => ?_
        cases he
        cases hp : s.phase w <;> simp [hp, Phase.waits] at h
        exact hw _ hp
      · exact .returns t w _ ‹_› (not_exists.1 ‹_›)
    · rename_i ht _
      refine .idle _ fun t' w' he h => ?_
      cases he
      cases hp : s.phase t <;> simp [hp, Phase.notifies] at h
      exact (ht _ hp).elim
  | spurious w =>
    simp only [step]
    split
    · exact .spurious w _ ‹_›
    · exact .idle _ (by simp)

/-! ## The calls act one after the other -/

theorem effect_replays {x : σ} {s s' : State σ T Op Res} {e : Event T Op} (he : M.Effect s e s')
    (h : M.Replays x s.history s.shared) : M.Replays x s'.history s'.shared := by
  cases he with
  | idle | waits | wakes | returns | spurious => exact h
  | acts _ _ op y r _ hb => exact (replays_append _ _ _ _).2 ⟨s.shared, h, y, hb, rfl⟩

/-- Whatever the threads do, their calls have acted like those of a sequential
object. -/
theorem runs_replays [Fintype T] (x : σ) (evs : List (Event T Op)) :
    M.Replays x (runs M.step (init x) evs).history (runs M.step (init x) evs).shared := by
  have hr : Reachable M.step (init x) (runs M.step (init x) evs) := ⟨evs, rfl⟩
  have h0 : M.Replays x (init x : State σ T Op Res).history (init x : State σ T Op Res).shared := rfl
  exact reachable_inv (fun s => M.Replays x s.history s.shared) h0 (fun s e h => effect_replays (effect s e) h) hr

/-! ## Wake-ups -/

variable (M)

/-- On the condition variable, with no reason to wait. -/
def Phase.able (x : σ) : Phase Op Res → Bool
  | .waiting op => (M.body op x).isSome
  | _ => false

/-- About to wake another, or to act. -/
def Phase.active (x : σ) : Phase Op Res → Bool
  | .notifying _ => true
  | .woken op => (M.body op x).isSome
  | _ => false

/-- A call could go on, and every call is on the condition variable. -/
def Stuck (s : State σ T Op Res) : Prop :=
  (∃ t, (s.phase t).able M s.shared) ∧ ∀ t, (s.phase t).inside → (s.phase t).waits

/-- While a waiter could go on, a thread is about to wake another or to act. -/
def Progress (s : State σ T Op Res) : Prop :=
  (∃ t, (s.phase t).able M s.shared) → ∃ t, (s.phase t).active M s.shared

/-- Where a waiter could go on, a wake-up goes to such a waiter, or another
thread is about to wake another or to act. -/
def WellAimed (s : State σ T Op Res) : Event T Op → Prop
  | .notify t w => (s.phase t).notifies → (s.phase w).waits → (∃ u, (s.phase u).able M s.shared) →
    (s.phase w).able M s.shared ∨ ∃ u, u ≠ t ∧ (s.phase u).active M s.shared
  | _ => True

/-- A call in the wait loop is one that can have to wait. -/
def Phase.sound : Phase Op Res → Prop
  | .waiting op => ∃ x, M.body op x = none
  | .woken op => ∃ x, M.body op x = none
  | _ => True

def Sound (s : State σ T Op Res) : Prop := ∀ t, (s.phase t).sound M

variable {M}

omit [DecidableEq T] in
theorem sound_init (x : σ) : M.Sound (init x : State σ T Op Res) := fun _ => trivial

/-- A call that can have to wait wakes another in the end. -/
theorem notifies_of_waits {op : Op} {x : σ} (h : M.body op x = none) : M.notifies op := by
  cases hn : M.notifies op with
  | true => rfl
  | false =>
    obtain ⟨r, hr⟩ := M.quiet op hn x
    rw [hr] at h
    cases h

theorem forall_update {P : Phase Op Res → Prop} {f : T → Phase Op Res} (h : ∀ u, P (f u)) (t : T)
    {v : Phase Op Res} (hv : P v) : ∀ u, P (Function.update f t v u) :=
  (Function.forall_update_iff f (fun _ p => P p)).2 ⟨hv, fun u _ => h u⟩

theorem effect_sound {s s' : State σ T Op Res} {e : Event T Op} (he : M.Effect s e s') (h : M.Sound s) :
    M.Sound s' := by
  have hw : ∀ w op, s.phase w = .waiting op → ∃ x, M.body op x = none := fun w op hw => by
    have := h w
    rwa [hw] at this
  cases he with
  | idle => exact h
  | waits _ t op _ hb => exact forall_update (P := fun p => p.sound M) h t ⟨_, hb⟩
  | acts _ t op y r => exact forall_update (P := fun p => p.sound M) h t (by split <;> trivial)
  | wakes t w r op _ hp =>
    exact forall_update (P := fun p => p.sound M)
      (forall_update (P := fun p => p.sound M) (v := .outside) h t trivial) w (hw w op hp)
  | returns t => exact forall_update (P := fun p => p.sound M) (v := .outside) h t trivial
  | spurious w op hp => exact forall_update (P := fun p => p.sound M) h w (hw w op hp)

theorem runs_sound [Fintype T] (x : σ) (evs : List (Event T Op)) : M.Sound (runs M.step (init x) evs) :=
  runs_inv (P := fun _ _ => True) (fun s => M.Sound s) (fun s e h _ => effect_sound (effect s e) h) (sound_init x)
    (stepsMeet_true _ _)

/-! ## Progress -/

omit [DecidableEq T] in
theorem progress_init (x : σ) : M.Progress (init x : State σ T Op Res) := by
  rintro ⟨t, h⟩
  cases h

/-- A thread that is neither a waiter nor active can move to a phase that is
not able. -/
theorem progress_update {s : State σ T Op Res} (h : M.Progress s) {t : T} {p : Phase Op Res}
    (ht : (s.phase t).active M s.shared = false) (hp : p.able M s.shared = false) :
    M.Progress { s with phase := Function.update s.phase t p } := by
  rintro ⟨u, hu⟩
  have hut : u ≠ t := by
    rintro rfl
    simp [hp] at hu
  obtain ⟨v, hv⟩ := h ⟨u, by simpa [hut] using hu⟩
  have hvt : v ≠ t := by
    rintro rfl
    simp [ht] at hv
  exact ⟨v, by simpa [hvt] using hv⟩

/-- A step keeps progress exactly when its wake-up is well aimed. -/
theorem effect_progress {s s' : State σ T Op Res} {e : Event T Op} (he : M.Effect s e s')
    (hl : M.Sound s) (h : M.Progress s) : M.Progress s' ↔ M.WellAimed s e := by
  cases he with
  | idle _ hi =>
    refine iff_of_true h ?_
    cases e with
    | notify t w => exact fun ht hw => absurd hw (hi t w rfl ht)
    | call | resume | spurious => trivial
  | waits _ t op he hb =>
    refine iff_of_true (progress_update h ?_ (by simp [Phase.able, hb])) ?_
    · obtain ⟨-, hp⟩ | ⟨-, hp⟩ := he <;> simp [hp, Phase.active, hb]
    · obtain ⟨rfl, -⟩ | ⟨rfl, -⟩ := he <;> trivial
  | acts _ t op y r he hb =>
    refine iff_of_true ?_ (by obtain ⟨rfl, -⟩ | ⟨rfl, -⟩ := he <;> trivial)
    cases hn : M.notifies op with
    | true => exact fun _ => ⟨t, by simp [Phase.active]⟩
    | false =>
      -- a call that wakes nobody was never in the loop, and leaves the state alone
      obtain ⟨r', hr⟩ := M.quiet op hn s.shared
      obtain ⟨rfl, rfl⟩ : y = s.shared ∧ r = r' := by simpa [hr, eq_comm] using hb
      obtain ⟨-, hp⟩ | ⟨-, hp⟩ := he
      · exact progress_update h (by simp [hp, Phase.active]) (by simp [Phase.able])
      · have hloop := hl t
        rw [hp] at hloop
        obtain ⟨x, hx⟩ := hloop
        simp [notifies_of_waits hx] at hn
  | wakes t w r op ht hw =>
    have hwt : w ≠ t := by
      rintro rfl
      simp [ht] at hw
    constructor
    · intro h' _ _ ⟨u, hu⟩
      by_cases huw : u = w
      · exact .inl (huw ▸ hu)
      · have hut : u ≠ t := by
          rintro rfl
          simp [ht, Phase.able] at hu
        obtain ⟨v, hv⟩ := h' ⟨u, by simpa [huw, hut] using hu⟩
        by_cases hvw : v = w
        · subst hvw
          exact .inl (by simpa [hw, Phase.able, Phase.active] using hv)
        · have hvt : v ≠ t := by
            rintro rfl
            simp [hvw, Phase.active] at hv
          exact .inr ⟨v, hvt, by simpa [hvw, hvt] using hv⟩
    · rintro ha ⟨u, hu⟩
      have huw : u ≠ w := by
        rintro rfl
        simp [Phase.able] at hu
      have hut : u ≠ t := by
        rintro rfl
        simp [huw, Phase.able] at hu
      obtain hr | ⟨v, hvt, hv⟩ := ha (by rw [ht]; rfl) (by rw [hw]; rfl) ⟨u, by simpa [huw, hut] using hu⟩
      · exact ⟨w, by simpa [hw, Phase.able, Phase.active] using hr⟩
      · have hvw : v ≠ w := by
          rintro rfl
          simp [hw, Phase.active] at hv
        exact ⟨v, by simpa [hvw, hvt] using hv⟩
  | returns t w r ht hw =>
    refine iff_of_true ?_ fun _ h => absurd h (hw w)
    rintro ⟨u, hu⟩
    by_cases hut : u = t
    · simp [hut, Phase.able] at hu
    · have := hw u
      simp only [hut, Function.update_of_ne, ne_eq, not_false_eq_true] at hu
      cases hp : s.phase u <;> simp_all [Phase.able, Phase.waits]
  | spurious w op hw =>
    exact iff_of_true (progress_update h (by simp [hw, Phase.active]) (by simp [Phase.able])) trivial

/-! ## Stuck states -/

omit [DecidableEq T] in
theorem Progress.not_stuck {s : State σ T Op Res} (h : M.Progress s) : ¬M.Stuck s := by
  rintro ⟨hable, hwait⟩
  obtain ⟨t, ht⟩ := h hable
  have := hwait t
  cases hp : s.phase t <;> simp_all [Phase.active, Phase.inside, Phase.waits]

/-- What is left of a phase when a woken thread has found nothing to do. -/
def Phase.back : Phase Op Res → Phase Op Res
  | .woken op => .waiting op
  | p => p

theorem step_resume [Fintype T] {s : State σ T Op Res} {t : T} (h : (s.phase t).active M s.shared = false) :
    M.step s (.resume t) = { s with phase := Function.update s.phase t (s.phase t).back } := by
  cases hp : s.phase t with
  | woken op =>
    have hb : M.body op s.shared = none := by simpa [hp, Phase.active] using h
    simp [step, hp, attempt, hb, Phase.back]
  | outside | waiting | notifying =>
    have hback : (s.phase t).back = s.phase t := by rw [hp]; rfl
    rw [← hp, hback, Function.update_eq_self]
    simp only [step, hp]

/-- Where no thread is active, all threads may check again and nothing
happens. -/
theorem runs_resume [Fintype T] {s : State σ T Op Res} (h : ∀ t, (s.phase t).active M s.shared = false)
    (ts : List T) : (runs M.step s (ts.map .resume)).shared = s.shared ∧
      ∀ u, (runs M.step s (ts.map .resume)).phase u = if u ∈ ts then (s.phase u).back else s.phase u := by
  induction ts generalizing s with
  | nil => simp
  | cons t ts ih =>
    rw [List.map_cons, runs_cons, step_resume (h t)]
    have hback : ((s.phase t).back).active M s.shared = false := by
      have := h t
      cases hp : s.phase t <;> simp_all [Phase.back, Phase.active]
    obtain ⟨hs, hu⟩ := ih (s := { s with phase := Function.update s.phase t (s.phase t).back })
      (forall_update (P := fun p => p.active M s.shared = false) h t hback)
    refine ⟨hs, fun u => ?_⟩
    rw [hu]
    by_cases hut : u = t
    · subst hut
      cases s.phase u <;> simp [Phase.back]
    · simp [hut]

/-- Progress fails exactly when the woken threads, checking again, can leave
every thread waiting. -/
theorem progress_iff_not_stuck [Fintype T] {s : State σ T Op Res} (hl : M.Sound s) :
    M.Progress s ↔ ∀ ts : List T, ¬M.Stuck (runs M.step s (ts.map .resume)) := by
  constructor
  · intro h ts
    have hinv : M.Sound (runs M.step s (ts.map .resume)) ∧ M.Progress (runs M.step s (ts.map .resume)) :=
      runs_inv (P := fun s e => M.WellAimed s e) (fun s => M.Sound s ∧ M.Progress s)
        (fun s e hi hw => ⟨effect_sound (effect s e) hi.1, (effect_progress (effect s e) hi.1 hi.2).2 hw⟩)
        ⟨hl, h⟩ (by
          clear h hl
          induction ts generalizing s with
          | nil => trivial
          | cons t ts ih => exact ⟨trivial, ih⟩)
    exact hinv.2.not_stuck
  · intro h
    by_contra hn
    obtain ⟨⟨u, hu⟩, hactive⟩ := Classical.not_imp.1 hn
    have hidle : ∀ t, (s.phase t).active M s.shared = false := by simpa using hactive
    obtain ⟨hs, hphase⟩ := runs_resume hidle Finset.univ.toList
    simp only [Finset.mem_toList, Finset.mem_univ, if_true] at hphase
    refine h Finset.univ.toList ⟨⟨u, ?_⟩, fun t => ?_⟩
    · rw [hs, hphase]
      cases hp : s.phase u <;> simp_all [Phase.able, Phase.back]
    · rw [hphase]
      have := hidle t
      cases hp : s.phase t <;> simp_all [Phase.active, Phase.back, Phase.inside, Phase.waits]

/-- No state of a run is stuck, or becomes stuck when the woken threads check
again, exactly when all its wake-ups are well aimed. -/
theorem clear_iff_wellAimed [Fintype T] (x : σ) (evs : List (Event T Op)) :
    (∀ pre, pre <+: evs → ∀ ts : List T, ¬M.Stuck (runs M.step (init x) (pre ++ ts.map .resume))) ↔
      StepsMeet M.step (fun s e => M.WellAimed s e) (init x) evs := by
  rw [← stepsMeet_inv_iff (J := fun s => M.Sound s) (I := fun s => M.Progress s)
    (fun s e h => effect_sound (effect s e) h) (fun s e hl h => effect_progress (effect s e) hl h)
    (sound_init x) (progress_init x), stepsMeet_next_iff (progress_init x)]
  refine forall₂_congr fun pre _ => ?_
  simp only [runs_append]
  exact (progress_iff_not_stuck (runs_sound x pre)).symm

end Monitor

end SysLib
