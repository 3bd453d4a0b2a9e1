import FlameSdd.LensControl
import FlameSdd.SysLib.Runs
/-!
# One operation at a time

The worker of a lens executes the tasks of a queue, and `focus_move` runs on
the thread that calls it. Nothing keeps the two apart: `one_at_a_time_iff`.
Each read is tagged here with the operation whose read request delivered it.
-/
open SysLib

namespace FlameSdd.LensControl

/-! ## Who delivered what -/

/-- Operations are numbered as they start. `none` stands for bytes from before
the first one. -/
abbrev Tag := Option Nat

/-- For an operation: the one whose read request came last, and those that
delivered the bytes it has fetched, and the bytes of `receivedData`. -/
structure Tags where
  requester : Tag
  fetched : List Tag
  buffer : List Tag

def Tags.next (id : Nat) (g : Tags) : (q : Request) → q.Reply → Tags
  | .hid (.readRequest _), a =>
    { g with requester := if a.retval = success then some id else g.requester, fetched := [] }
  | .hid .getReadResponse, a => if a.retval = success then { g with fetched := g.fetched ++ [g.requester] } else g
  | .copy _, _ => { g with buffer := g.fetched }
  | _, _ => g

/-- All of the bytes were delivered to this operation. -/
def Owned (id : Nat) (tags : List Tag) : Prop := tags ≠ [] ∧ ∀ t ∈ tags, t = some id

/-- `UsbRead2Bytes` consumes the operation's own bytes. -/
def Tags.ok (id : Nat) (g : Tags) : Request → Prop
  | .read2Bytes => Owned id g.buffer
  | _ => True

/-- The operation, started with these tags, consumes only its own bytes. -/
abbrev Alone {α : Type} (id : Nat) (p : LensM α) (P : α → Tags → Prop) (g : Tags) : Prop :=
  p.Always (Tags.next id) (Tags.ok id) P g

section Alone

variable {id : Nat} {α : Type}

theorem alone_call (q : Hid) (g : Tags) : Alone id (call q) (fun _ _ => True) g := ⟨trivial, fun _ => trivial⟩

theorem alone_readResponses (receiveSize rounds : Nat) (receiveData : List UInt8) {g : Tags}
    (hr : g.requester = some id) (hf : ∀ t ∈ g.fetched, t = some id) :
    Alone id (readResponses receiveSize rounds receiveData) (fun r g' => match r with
      | .ok _ => Owned id g'.fetched
      | .error e => e ≠ success) g := by
  induction rounds generalizing receiveData g with
  | zero => exact fun h => by cases h
  | succ rounds ih =>
    rw [readResponses, hid, Program.request_bind]
    refine ⟨trivial, fun a => ?_⟩
    dsimp only
    split
    · exact ‹_›
    · rename_i hsuccess
      have hnext : Tags.next id g (.hid .getReadResponse) a = { g with fetched := g.fetched ++ [g.requester] } :=
        if_pos (not_not.1 hsuccess)
      have hown : ∀ t ∈ g.fetched ++ [g.requester], t = some id := by
        intro t ht
        rcases List.mem_append.1 ht with ht | ht
        · exact hf t ht
        · rw [List.mem_singleton.1 ht, hr]
      rw [hnext]
      split
      · exact ih _ hr hown
      · exact ⟨by simp, hown⟩

/-- A checked call, and a rest that may rely on its success. -/
theorem alone_ifSuccess {x rest : LensM Int} {P : Tags → Prop} {P' : Int → Tags → Prop} {g : Tags}
    (hx : Alone id x (fun r g' => r = success → P g') g) (hrest : ∀ g', P g' → Alone id rest P' g')
    (hfail : ∀ r g', r ≠ success → P' r g') : Alone id (ifSuccess x rest) P' g := by
  refine hx.bind fun retval g' hg' => ?_
  split
  · exact hfail _ _ ‹_›
  · rename_i hsuccess
    exact hrest g' (hg' (not_not.1 hsuccess))

/-- A checked call, and a rest that relies on nothing. -/
theorem alone_then {x rest : LensM Int} {Q : Int → Tags → Prop} {g : Tags} (hx : Alone id x Q g)
    (hrest : ∀ g', Alone id rest (fun _ _ => True) g') : Alone id (ifSuccess x rest) (fun _ _ => True) g :=
  alone_ifSuccess (P := fun _ => True) (hx.mono fun _ _ _ _ => trivial) (fun g' _ => hrest g') fun _ _ _ => trivial

/-- A read that succeeds leaves the operation's own bytes in the buffer. -/
theorem alone_usbRead (rounds : Nat) (segmentOffset : UInt16) (receiveSize : Nat) (g : Tags) :
    Alone id (usbRead rounds segmentOffset receiveSize) (fun r g' => r = success → Owned id g'.buffer) g := by
  have hfail : ∀ (r : Int) (g' : Tags), r ≠ success → r = success → Owned id g'.buffer := fun _ _ hr h => absurd h hr
  refine alone_ifSuccess (P := fun _ => True) ((alone_call _ g).mono fun _ _ _ _ => trivial) (fun g1 _ => ?_) hfail
  refine alone_ifSuccess (P := fun g2 => g2.requester = some id ∧ g2.fetched = []) ?_ (fun g2 h2 => ?_) hfail
  · exact ⟨trivial, fun a hr => ⟨if_pos hr, rfl⟩⟩
  refine alone_ifSuccess (P := fun g3 => g3.requester = some id ∧ g3.fetched = []) ?_ (fun g3 h3 => ?_) hfail
  · exact ⟨trivial, fun a _ => h2⟩
  refine (alone_readResponses receiveSize rounds [] h3.1 (by simp [h3.2])).bind fun r g4 h4 => ?_
  cases r with
  | error e => exact fun hr => absurd hr h4
  | ok receiveData => exact ⟨trivial, fun _ _ => h4⟩

/-- A read that is followed by `UsbRead2Bytes`. -/
theorem alone_read2Bytes {f : UInt16 → LensM α} {P : α → Tags → Prop} {g : Tags} (h : Owned id g.buffer)
    (hf : ∀ v, Alone id (f v) P g) : Alone id (usbRead2Bytes >>= f) P g := ⟨h, hf⟩

theorem alone_assign {f : Lens → Lens} {k : Unit → LensM α} {P : α → Tags → Prop} {g : Tags} (h : Alone id (k ()) P g) :
    Alone id (assign f >>= k) P g := ⟨trivial, fun _ => h⟩

theorem alone_look {f : Lens → LensM α} {P : α → Tags → Prop} {g : Tags} (h : ∀ lens, Alone id (f lens) P g) :
    Alone id (look >>= f) P g := ⟨trivial, h⟩

theorem alone_waitCalc (moveValue speedPPS : UInt16) {f : Nat → LensM α} {P : α → Tags → Prop} {g : Tags}
    (h : ∀ waitTime, Alone id (f waitTime) P g) : Alone id (waitCalc moveValue speedPPS >>= f) P g := by
  unfold waitCalc
  split
  · trivial
  · exact h _

end Alone

/-! ## The four operations -/

section Operations

variable (id rounds : Nat)

theorem alone_status2ReadSet (g : Tags) : Alone id (status2ReadSet rounds) (fun _ _ => True) g :=
  alone_ifSuccess (alone_usbRead rounds _ _ g) (fun _ h => alone_read2Bytes h fun _ => alone_assign trivial)
    fun _ _ _ => trivial

theorem alone_statusLoop (segmentOffset : UInt16) (again : UInt16 → Bool) (error : Int) (left : Nat) (g : Tags) :
    Alone id (statusLoop rounds segmentOffset again error left) (fun _ _ => True) g := by
  induction left generalizing g with
  | zero => trivial
  | succ left ih =>
    refine alone_ifSuccess (alone_usbRead rounds _ _ g) (fun g' h => alone_read2Bytes h fun readStatus => ?_)
      fun _ _ _ => trivial
    split
    · trivial
    · split
      · exact ih g'
      · trivial

theorem alone_statusWait (segmentOffset statusMask : UInt16) (waitTime : Nat) (g : Tags) :
    Alone id (statusWait rounds segmentOffset statusMask waitTime) (fun _ _ => True) g :=
  alone_then (alone_statusLoop id rounds _ _ _ _ g) fun g' => alone_statusLoop id rounds _ _ _ _ g'

theorem alone_usbWrite (segmentOffset writeData : UInt16) (g : Tags) :
    Alone id (usbWrite segmentOffset writeData) (fun _ _ => True) g := alone_call _ g

theorem alone_axisInit (a : Axis) (g : Tags) : Alone id (axisInit rounds a) (fun _ _ => True) g := by
  refine alone_look fun lens => alone_waitCalc _ _ fun waitTime => ?_
  refine alone_then (alone_usbWrite id _ _ g) fun g1 => ?_
  refine alone_then (alone_statusWait id rounds _ _ _ g1) fun g2 => ?_
  refine alone_ifSuccess (alone_usbRead rounds _ _ g2) (fun g3 h => alone_read2Bytes h fun v => alone_assign ?_)
    fun _ _ _ => trivial
  exact (alone_status2ReadSet id rounds g3).bind fun _ _ _ => trivial

theorem alone_deviceMove (segmentOffset addrData mask : UInt16) (waitTime : Nat) (g : Tags) :
    Alone id (deviceMove rounds segmentOffset addrData mask waitTime) (fun _ _ => True) g := by
  refine (alone_usbWrite id _ _ g).bind fun retval g1 _ => ?_
  split
  · refine (alone_statusWait id rounds _ _ _ g1).bind fun retval g2 _ => ?_
    split
    · refine (alone_usbRead rounds _ _ g2).bind fun retval g3 h => ?_
      split
      · trivial
      · rename_i hsuccess
        exact alone_read2Bytes (h (not_not.1 hsuccess)) fun _ => trivial
    · trivial
  · trivial

theorem alone_axisMove (a : Axis) (addrData : UInt16) (g : Tags) :
    Alone id (axisMove rounds a addrData) (fun _ _ => True) g := by
  refine alone_look fun lens => alone_waitCalc _ _ fun waitTime => ?_
  refine (alone_deviceMove id rounds _ _ _ _ g).bind ?_
  rintro ⟨retval, v⟩ g' -
  dsimp only
  split
  · exact alone_assign trivial
  · trivial

theorem alone_focusMove (value : Int) (g : Tags) : Alone id (Command.focusMove rounds value) (fun _ _ => True) g := by
  unfold Command.focusMove
  split
  · trivial
  · refine (alone_axisMove id rounds .focus _ g).bind fun retval _ _ => ?_
    split <;> trivial

theorem alone_orStop {β : Type} (x : Except Exn β) {f : β → LensM Unit} {g : Tags}
    (hf : ∀ b, Alone id (f b) (fun _ _ => True) g) : Alone id (orStop x f) (fun _ _ => True) g := by
  cases x with
  | ok b => exact hf b
  | error e => trivial

theorem alone_execute (api : Json) (g : Tags) : Alone id (execute rounds api) (fun _ _ => True) g := by
  unfold execute
  split
  · refine alone_orStop id _ fun functionName => ?_
    split
    · exact (alone_axisInit id rounds .focus g).bind fun _ _ _ => trivial
    · exact (alone_axisInit id rounds .iris g).bind fun _ _ _ => trivial
    · exact alone_orStop id _ fun value => (alone_axisMove id rounds .focus _ g).bind fun _ _ _ => trivial
    · exact alone_orStop id _ fun value => (alone_axisMove id rounds .iris _ g).bind fun _ _ _ => trivial
    · trivial
  · trivial

end Operations

/-! ## Two threads -/

inductive Party where
  /-- `run_process`. -/
  | worker
  /-- The thread that calls `focus_move`. -/
  | subscriber
  deriving DecidableEq

/-- An operation in progress: what it still has to do, and whose read requests
delivered the bytes it has fetched. -/
structure Operating where
  id : Nat
  rest : LensM Unit
  fetched : List Tag

structure Threads where
  lens : Lens
  queue : List Json
  running : Party → Option Operating
  nextId : Nat
  requester : Tag
  buffer : List Tag
  /-- Each call of `UsbRead2Bytes`: the operation, and the bytes it got. -/
  consumed : List (Nat × List Tag)
  /-- The process has ended. -/
  dead : Bool

inductive ThreadEvent where
  | caller (api : Json)
  /-- The worker takes the next task, and begins to execute it. -/
  | take
  | focusMove (value : Int)
  /-- One request of the operation of `p`; the bridge would answer `a`. -/
  | proceed (p : Party) (a : Answer)

def Threads.init (lens : Lens) : Threads := ⟨lens, [], fun _ => none, 0, none, [], [], false⟩

def perform (lens : Lens) (a : Answer) : (q : Request) → Lens × q.Reply
  | .hid _ => (lens, a)
  | .copy receiveData => (lens.copy receiveData, ())
  | .read2Bytes => (lens, lens.read2Bytes)
  | .look => (lens, lens)
  | .assign f => (f lens, ())

/-- The operation goes on, or has ended. -/
def Threads.settle (s : Threads) (p : Party) (o : Operating) : Threads :=
  match o.rest with
  | .done _ => { s with running := Function.update s.running p none }
  | .stop _ => { s with running := Function.update s.running p none, dead := true }
  | .ask _ _ => { s with running := Function.update s.running p (some o) }

/-- The tags of an operation, with those of the buffer that all share. -/
def Threads.tags (s : Threads) (fetched : List Tag) : Tags := ⟨s.requester, fetched, s.buffer⟩

def consume (id : Nat) (buffer : List Tag) : Request → List (Nat × List Tag)
  | .read2Bytes => [(id, buffer)]
  | _ => []

def Threads.step (rounds : Nat) (s : Threads) (e : ThreadEvent) : Threads :=
  if s.dead then s else
    match e with
    | .caller api => if s.queue.isEmpty then { s with queue := [api] } else s
    | .take =>
      match s.running .worker, s.queue with
      | none, api :: queue =>
        { s with queue := queue, nextId := s.nextId + 1 }.settle .worker ⟨s.nextId, execute rounds api, []⟩
      | _, _ => s
    | .focusMove value =>
      match s.running .subscriber with
      | none => { s with nextId := s.nextId + 1 }.settle .subscriber
          ⟨s.nextId, Command.focusMove rounds value >>= fun _ => pure (), []⟩
      | some _ => s
    | .proceed p a =>
      match s.running p with
      | some ⟨id, .ask q k, fetched⟩ =>
        let (lens, reply) := perform s.lens a q
        let g := (s.tags fetched).next id q reply
        { s with
          lens := lens
          requester := g.requester
          buffer := g.buffer
          consumed := s.consumed ++ consume id s.buffer q }.settle p ⟨id, k reply, g.fetched⟩
      | _ => s

/-! ## Operations kept apart -/

def Threads.AtMostOne (s : Threads) : Prop := s.running .worker = none ∨ s.running .subscriber = none

/-- At most one operation is in progress, and none has consumed what another
one has read. -/
def Threads.OneAtATime (s : Threads) : Prop := s.AtMostOne ∧ ∀ c ∈ s.consumed, Owned c.1 c.2

/-- `focus_move` is called while the worker executes nothing, and the worker
begins a task while no `focus_move` is in progress. -/
def Threads.Apart (rounds : Nat) (s : Threads) : ThreadEvent → Prop
  | .take => s.dead = false → s.running .worker = none → ∀ api queue, s.queue = api :: queue →
      (execute rounds api).ended = false → s.running .subscriber = none
  | .focusMove _ => s.dead = false → s.running .subscriber = none → s.running .worker = none
  | _ => True

/-- An operation in progress consumes only its own bytes from here on. -/
def Threads.Safe (s : Threads) (o : Operating) : Prop := Alone o.id o.rest (fun _ _ => True) (s.tags o.fetched)

structure Threads.Inv (s : Threads) : Prop where
  oneAtATime : s.OneAtATime
  safe : ∀ p o, s.running p = some o → s.Safe o

theorem Threads.init_inv (lens : Lens) : (Threads.init lens).Inv :=
  ⟨⟨.inl rfl, List.forall_mem_nil _⟩, fun _ _ h => by cases h⟩

theorem Threads.running_settle (s : Threads) (p : Party) (o : Operating) :
    (s.settle p o).running = Function.update s.running p (if o.rest.ended then none else some o) := by
  unfold settle
  split <;> simp_all [Program.ended]

theorem Threads.settle_inv {s : Threads} {p : Party} {o : Operating} (hc : ∀ c ∈ s.consumed, Owned c.1 c.2)
    (hs : ∀ p', p' ≠ p → ∀ o', s.running p' = some o' → s.Safe o') (ho : s.Safe o)
    (hother : o.rest.ended = false → ∀ p', p' ≠ p → s.running p' = none) : (s.settle p o).Inv := by
  have hsame : (s.settle p o).requester = s.requester ∧ (s.settle p o).buffer = s.buffer ∧
      (s.settle p o).consumed = s.consumed := by
    unfold settle
    split <;> exact ⟨rfl, rfl, rfl⟩
  have htags : ∀ fetched, (s.settle p o).tags fetched = s.tags fetched := fun fetched => by
    rw [tags, hsame.1, hsame.2.1, tags]
  refine ⟨⟨?_, hsame.2.2 ▸ hc⟩, fun p' o' h => ?_⟩
  · rw [AtMostOne, running_settle]
    cases hended : o.rest.ended with
    | true => cases p <;> simp
    | false => cases p <;> simp [hother hended]
  · rw [Safe, htags]
    rw [running_settle] at h
    by_cases hp : p' = p
    · subst hp
      rw [Function.update_self] at h
      split at h
      · cases h
      · cases h
        exact ho
    · rw [Function.update_of_ne hp] at h
      exact hs p' hp o' h

/-- While the threads are apart, every step keeps one operation at a time. -/
theorem Threads.step_inv (rounds : Nat) {s : Threads} {e : ThreadEvent} (hs : s.Inv) (he : s.Apart rounds e) :
    (s.step rounds e).Inv := by
  unfold step
  split
  · exact hs
  rename_i hdead
  have hdead' : s.dead = false := by simpa using hdead
  cases e with
  | caller api =>
    dsimp only
    split
    · exact ⟨hs.oneAtATime, hs.safe⟩
    · exact hs
  | take =>
    dsimp only
    split
    · rename_i api queue hw hq
      refine settle_inv hs.oneAtATime.2 (fun p' _ => hs.safe p') (alone_execute _ rounds api _) fun hended p' hp => ?_
      cases p' with
      | worker => exact absurd rfl hp
      | subscriber => exact he hdead' hw api queue hq hended
    · exact hs
  | focusMove value =>
    dsimp only
    split
    · rename_i hsub
      refine settle_inv hs.oneAtATime.2 (fun p' _ => hs.safe p')
        ((alone_focusMove _ rounds value _).bind fun _ _ _ => trivial) fun _ p' hp => ?_
      cases p' with
      | worker => exact he hdead' hsub
      | subscriber => exact absurd rfl hp
    · exact hs
  | proceed p a =>
    dsimp only
    split
    · rename_i id q k fetched hrun
      have hother : ∀ p', p' ≠ p → s.running p' = none := fun p' hp => by
        have hone := hs.oneAtATime.1
        cases p <;> cases p' <;> simp_all [AtMostOne]
      obtain ⟨hok, hk⟩ := hs.safe p _ hrun
      refine settle_inv (fun c hc => ?_) (fun p' hp o' h => ?_) (hk _) fun _ => hother
      · rcases List.mem_append.1 hc with hc | hc
        · exact hs.oneAtATime.2 c hc
        · cases q with
          | read2Bytes =>
            cases List.mem_singleton.1 hc
            exact hok
          | hid | copy | look | assign => cases hc
      · have hnone := hother p' hp
        rw [show s.running p' = some o' from h] at hnone
        cases hnone
    · exact hs

theorem ended_focusMove (rounds : Nat) (value : Int) :
    (Command.focusMove rounds value >>= fun _ => .done () : LensM Unit).ended = false := by
  have hrefuse : ¬(isnan value && decide (value ≥ 2 ^ 16 - 1)) = true := by simp [isnan]
  rw [Command.focusMove, if_neg hrefuse]
  rfl

/-- A step after which there is one operation at most was taken with the
threads apart. -/
theorem Threads.apart_of_step (rounds : Nat) {s : Threads} {e : ThreadEvent} (h : (s.step rounds e).AtMostOne) :
    s.Apart rounds e := by
  cases e with
  | caller | proceed => trivial
  | take =>
    intro hdead hw api queue hq hended
    simpa [step, hdead, hw, hq, AtMostOne, running_settle, hended] using h
  | focusMove value =>
    intro hdead hsub
    simpa [step, hdead, hsub, AtMostOne, running_settle, ended_focusMove] using h

/-- In a run there is never more than one operation in progress, and none
consumes what another one has read, exactly when `focus_move` and the tasks of
the worker are kept apart. -/
theorem one_at_a_time_iff (rounds : Nat) (lens : Lens) (evs : List ThreadEvent) :
    StepsMeet (Threads.step rounds) (fun s e => (s.step rounds e).OneAtATime) (.init lens) evs ↔
      StepsMeet (Threads.step rounds) (Threads.Apart rounds) (.init lens) evs :=
  stepsMeet_iff (I := Threads.Inv)
    (fun _ _ hs => ⟨fun h => Threads.apart_of_step rounds h.1, fun h => (Threads.step_inv rounds hs h).oneAtATime⟩)
    (fun _ _ hs h => Threads.step_inv rounds hs (Threads.apart_of_step rounds h.1)) (Threads.init_inv lens) evs

/-- The focus is moved while the worker initializes it. -/
theorem two_operations : ¬∀ (rounds : Nat) (lens : Lens) (evs : List ThreadEvent),
    StepsMeet (Threads.step rounds) (fun s e => (s.step rounds e).OneAtATime) (.init lens) evs := by
  intro h
  let lens : Lens := ⟨fun _ => 0, fun _ => ⟨0, 9091, 0, 2000⟩, 0⟩
  let api : Json := .obj [("function", .str (ascii "focus_initialize"))]
  have hmet := (h 1 lens [.caller api, .take, .focusMove 100]).2.2.1.1
  rcases hmet with h | h <;> exact absurd (congrArg Option.isSome h) (by decide +kernel)

end FlameSdd.LensControl
