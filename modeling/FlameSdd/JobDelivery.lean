import FlameSdd.ActiveTargets
import FlameSdd.JobComplete
import FlameSdd.SysLib.Channel
/-!
# Instructions and line signals on their way to the inference

Level2 data reaches the pending bar as a text through the subscriber, which decodes
it, and the event loop of the window; the signal that a bar has left comes on a
channel of its own. A job carries what the window handled last: `jobs_carry`.
-/
open SysLib SysLib.JsonText FlameSdd.LineSignal FlameSdd.ModelInference FlameSdd.ActiveTargets FlameSdd.DkLevel2Subscriber
  FlameSdd.JobComplete

namespace FlameSdd.JobDelivery

/-- A line signal on its way, with the number of Level2 messages published
before the last bar entered. -/
structure LineMessage where
  bar : Nat
  value : Signals

/-- A job that was put: the bar that the signal reports, and the number of
Level2 messages the window had handled. -/
structure Put where
  bar : Nat
  handled : Nat
  job : Job

structure State where
  /-- The texts of the Level2 data. -/
  lv2 : Channel Bytes
  /-- The loop of the subscriber has not been left. -/
  subscribing : Bool
  /-- What `level2_data_update_signal` carries to the window, each with the number of
  texts before its own. -/
  updates : Channel (Nat × Json)
  lines : Channel LineMessage
  value : Signals
  entered : Nat
  jobLv2Info : Option JobInfo
  jobs : List Put

def init : State := ⟨.empty, true, .empty, .empty, .off, 0, none, []⟩

/-- Level2 data or a line signal is published, or the subscriber, the window or
the inference takes its next message. -/
inductive Event where
  | publish (text : Bytes)
  | lineSignal (value : Signals)
  | subscribe
  | update
  | runInference

def hmdOn (v : Signals) : Bool := v.hmdSignal1On || v.hmdSignal2On

/-- The number of texts that the window is through with: those before the one whose
data it handles next, or else all that the subscriber has taken. -/
def State.handled (s : State) : Nat :=
  match s.updates.next with
  | some (n, _) => n
  | none => s.lv2.delivered

section
variable (floor : Bytes → Int)

/-- What the subscriber sends on of a text. -/
def decoded (text : Bytes) : Option Json :=
  match onMessage (ascii "lv2_dispatch") text with
  | .ok (some (.level2DataUpdate d)) => some (toJson floor (.obj d))
  | _ => none

def step (cfg : Config) (presetFiles : List Bytes) (s : State) : Event → State
  | .publish text => { s with lv2 := s.lv2.send text }
  | .lineSignal value =>
    let entered := if hmdOn value && !hmdOn s.value then s.lv2.sent.length else s.entered
    { s with lines := s.lines.send ⟨entered, value⟩, value := value, entered := entered }
  | .subscribe =>
    if s.subscribing then
      match s.lv2.next with
      | none => s
      | some text =>
        { s with
          lv2 := s.lv2.deliver
          subscribing := goesOn (onMessage (ascii "lv2_dispatch") text)
          updates := match decoded floor text with
            | some data => s.updates.send (s.lv2.delivered, data)
            | none => s.updates }
    else s
  | .update =>
    match s.updates.next with
    | none => s
    | some (_, data) =>
      { s with
        updates := s.updates.deliver
        jobLv2Info := match Window.onUpdateDkLevel2Data presetFiles data with
          | .ok info => ModelInference.step s.jobLv2Info (.addJobLv2Info info)
          | .error _ => s.jobLv2Info }
  | .runInference =>
    match s.lines.next with
    | none => s
    | some m =>
      let job? := put cfg s.jobLv2Info (.lineSignal m.value)
      { s with
        lines := s.lines.deliver
        jobs := s.jobs ++ (job?.map fun j => ⟨m.bar, s.handled, j⟩).toList }

/-! ## What the window has passed on -/

/-- The bar that the window takes over from a text. -/
def takenOver (presetFiles : List Bytes) (text : Bytes) : Option JobInfo :=
  (decoded floor text).bind fun data => (Window.onUpdateDkLevel2Data presetFiles data).toOption

/-- The bar that is pending once the window is through with the texts. -/
def pending (presetFiles : List Bytes) (handled : List Bytes) : Option JobInfo :=
  (handled.filterMap (takenOver floor presetFiles)).getLast?

/-- What the subscriber sends on of the texts it has taken. -/
def relayed (texts : List Bytes) : List (Nat × Json) :=
  texts.zipIdx.filterMap fun (text, n) => (decoded floor text).map fun data => (n, data)

theorem relayed_concat (texts : List Bytes) (text : Bytes) :
    relayed floor (texts ++ [text]) =
      relayed floor texts ++ ((decoded floor text).map fun data => (texts.length, data)).toList := by
  rw [relayed, relayed, List.zipIdx_append, List.filterMap_append]
  congr 1
  cases hdata : decoded floor text with
  | none => simp [hdata]
  | some data => simp [hdata]

/-- Before the data of text `n` the data of the texts before it was sent on. -/
theorem relayed_take {texts : List Bytes} {k n : Nat} {data : Json} (h : (relayed floor texts)[k]? = some (n, data)) :
    n < texts.length ∧ (relayed floor texts).take k = relayed floor (texts.take n) := by
  induction texts using List.reverseRecOn with
  | nil => cases h
  | append_singleton texts text ih =>
    rw [relayed_concat] at h ⊢
    by_cases hk : k < (relayed floor texts).length
    · rw [List.getElem?_append_left hk] at h
      obtain ⟨hn, htake⟩ := ih h
      refine ⟨by rw [List.length_append]; omega, ?_⟩
      rw [List.take_append_of_le_length hk.le, htake, List.take_append_of_le_length hn.le]
    · cases hdata : decoded floor text with
      | none =>
        rw [hdata, Option.map_none, Option.toList_none, List.append_nil] at h
        exact absurd (List.getElem?_eq_some_iff.1 h).1 hk
      | some data' =>
        rw [hdata, Option.map_some, Option.toList_some] at h
        have hlast := (List.getElem?_eq_some_iff.1 h).1
        rw [List.length_append, List.length_singleton] at hlast
        obtain rfl : k = (relayed floor texts).length := by omega
        rw [List.getElem?_concat_length] at h
        obtain ⟨rfl, rfl⟩ := Prod.mk.inj (Option.some.inj h)
        refine ⟨by simp, ?_⟩
        rw [List.take_left, List.take_left]

theorem pending_concat (presetFiles : List Bytes) (handled : List Bytes) (text : Bytes) :
    pending floor presetFiles (handled ++ [text]) =
      match takenOver floor presetFiles text with
      | some info => some info
      | none => pending floor presetFiles handled := by
  unfold pending
  cases h : takenOver floor presetFiles text with
  | some info => simp [h]
  | none => simp [h]

/-- The last message decides, if the window takes it. -/
theorem pending_of_last {presetFiles : List Bytes} {handled : List Bytes} {text : Bytes} {info : JobInfo}
    (h : handled.getLast? = some text) (hinfo : takenOver floor presetFiles text = some info) :
    pending floor presetFiles handled = some info := by
  obtain ⟨rest, rfl⟩ := List.getLast?_eq_some_iff.1 h
  rw [pending_concat, hinfo]

/-- Only what is sent on counts. -/
theorem pending_relayed (presetFiles : List Bytes) (texts : List Bytes) :
    pending floor presetFiles texts =
      ((relayed floor texts).filterMap fun e => (Window.onUpdateDkLevel2Data presetFiles e.2).toOption).getLast? := by
  induction texts using List.reverseRecOn with
  | nil => rfl
  | append_singleton texts text ih =>
    rw [pending_concat, relayed_concat, List.filterMap_append, ih, takenOver]
    cases hdata : decoded floor text with
    | none => simp
    | some data =>
      cases hinfo : Window.onUpdateDkLevel2Data presetFiles data with
      | ok info => simp [hinfo, Except.toOption]
      | error e => simp [hinfo, Except.toOption]

/-! ## Every run -/

/-- The window sees the published messages in order, and every job carries the
bar that was pending when it was put. -/
structure Carried (cfg : Config) (presetFiles : List Bytes) (s : State) : Prop where
  relayed : s.updates.sent = relayed floor s.lv2.taken
  pending_eq : s.jobLv2Info =
    (s.updates.taken.filterMap fun e => (Window.onUpdateDkLevel2Data presetFiles e.2).toOption).getLast?
  handled_le : ∀ r ∈ s.jobs, r.handled ≤ s.lv2.sent.length
  carried : ∀ r ∈ s.jobs, ∃ info, pending floor presetFiles (s.lv2.sent.take r.handled) = some info ∧
    r.job = job cfg info

variable {floor}

/-- The window has handled the data of the texts that it is through with. -/
theorem Carried.taken {cfg : Config} {presetFiles : List Bytes} {s : State} (h : Carried floor cfg presetFiles s) :
    s.handled ≤ s.lv2.sent.length ∧ s.updates.taken = JobDelivery.relayed floor (s.lv2.sent.take s.handled) := by
  have hle := s.lv2.delivered_le
  unfold State.handled
  cases hnext : s.updates.next with
  | none => exact ⟨hle, by rw [Channel.taken_of_next hnext]; exact h.relayed⟩
  | some e =>
    obtain ⟨n, data⟩ := e
    have hget : (JobDelivery.relayed floor s.lv2.taken)[s.updates.delivered]? = some (n, data) := by
      rw [← h.relayed]
      exact hnext
    obtain ⟨hn, htake⟩ := relayed_take floor hget
    rw [Channel.taken, List.length_take] at hn
    refine ⟨by dsimp only; omega, ?_⟩
    rw [Channel.taken, h.relayed, htake, Channel.taken, List.take_take, Nat.min_eq_left (by omega)]

theorem Carried.pending {cfg : Config} {presetFiles : List Bytes} {s : State} (h : Carried floor cfg presetFiles s) :
    s.jobLv2Info = JobDelivery.pending floor presetFiles (s.lv2.sent.take s.handled) := by
  rw [h.pending_eq, h.taken.2, ← pending_relayed]

/-- The subscriber passes on what it can decode of the next message. -/
theorem relayed_deliver {s : State} (h : s.updates.sent = relayed floor s.lv2.taken) {text : Bytes}
    (hnext : s.lv2.next = some text) : relayed floor s.lv2.deliver.taken =
      s.updates.sent ++ ((decoded floor text).map fun data => (s.lv2.delivered, data)).toList := by
  have hlen : s.lv2.taken.length = s.lv2.delivered := List.length_take_of_le s.lv2.delivered_le
  rw [Channel.taken_deliver hnext, relayed_concat, h, hlen]

theorem step_carried (cfg : Config) (presetFiles : List Bytes) (s : State) (e : Event)
    (h : Carried floor cfg presetFiles s) : Carried floor cfg presetFiles (step floor cfg presetFiles s e) := by
  have hpending := h.pending
  have hhandled := h.taken.1
  obtain ⟨hrelay, hpend, hle, hcar⟩ := h
  cases e with
  | publish text =>
    refine ⟨?_, hpend, fun r hr => ?_, fun r hr => ?_⟩
    · show s.updates.sent = JobDelivery.relayed floor (s.lv2.send text).taken
      rw [Channel.taken_send]
      exact hrelay
    · have := hle r hr
      simp only [step, Channel.sent_send, List.length_append]
      omega
    · show ∃ info, JobDelivery.pending floor presetFiles ((s.lv2.send text).sent.take r.handled) = some info ∧ _
      rw [Channel.sent_send, List.take_append_of_le_length (hle r hr)]
      exact hcar r hr
  | lineSignal value => exact ⟨hrelay, hpend, hle, hcar⟩
  | subscribe =>
    simp only [step]
    split
    · split
      · exact ⟨hrelay, hpend, hle, hcar⟩
      · rename_i text hnext
        have htaken := relayed_deliver hrelay hnext
        have hjobs : (∀ r ∈ s.jobs, r.handled ≤ s.lv2.deliver.sent.length) ∧ ∀ r ∈ s.jobs, ∃ info,
            JobDelivery.pending floor presetFiles (s.lv2.deliver.sent.take r.handled) = some info ∧
              r.job = job cfg info := by
          rw [Channel.sent_deliver]
          exact ⟨hle, hcar⟩
        cases hdata : decoded floor text with
        | none =>
          rw [hdata, Option.map_none, Option.toList_none, List.append_nil] at htaken
          exact ⟨htaken.symm, hpend, hjobs.1, hjobs.2⟩
        | some data =>
          rw [hdata, Option.map_some, Option.toList_some] at htaken
          refine ⟨htaken.symm, ?_, hjobs.1, hjobs.2⟩
          show s.jobLv2Info = ((s.updates.send _).taken.filterMap _).getLast?
          rw [Channel.taken_send]
          exact hpend
    · exact ⟨hrelay, hpend, hle, hcar⟩
  | update =>
    simp only [step]
    split
    · exact ⟨hrelay, hpend, hle, hcar⟩
    · rename_i n data hnext
      refine ⟨?_, ?_, hle, hcar⟩
      · rw [Channel.sent_deliver]
        exact hrelay
      · rw [Channel.taken_deliver hnext, List.filterMap_append]
        cases hinfo : Window.onUpdateDkLevel2Data presetFiles data with
        | ok info => simp [hinfo, Except.toOption, ModelInference.step]
        | error e =>
          simp only [List.filterMap_cons, List.filterMap_nil, hinfo, Except.toOption, List.append_nil]
          exact hpend
  | runInference =>
    simp only [step]
    split
    · exact ⟨hrelay, hpend, hle, hcar⟩
    · rename_i m hnext
      refine ⟨hrelay, hpend, fun r hr => ?_, fun r hr => ?_⟩
      · rcases List.mem_append.1 hr with hr | hr
        · exact hle r hr
        · obtain ⟨j, hj, rfl⟩ := Option.map_eq_some_iff.1 (Option.mem_toList.1 hr)
          exact hhandled
      · rcases List.mem_append.1 hr with hr | hr
        · exact hcar r hr
        · obtain ⟨j, hj, rfl⟩ := Option.map_eq_some_iff.1 (Option.mem_toList.1 hr)
          obtain ⟨-, info, hinfo, rfl⟩ := put_eq_some_iff.1 hj
          exact ⟨info, by rw [← hpending, hinfo], rfl⟩

theorem init_carried (cfg : Config) (presetFiles : List Bytes) : Carried floor cfg presetFiles init :=
  ⟨rfl, rfl, nofun, nofun⟩

/-- The window is through with the Level2 messages published before the bar
entered, and with no other, when the inference learns that the bar has left. -/
def InOrder (s : State) : Event → Prop
  | .runInference => ∀ m, s.lines.next = some m → barLeft m.value = true → s.handled = m.bar
  | _ => True

theorem inOrder_of_next {s : State} (h : s.lines.next.map LineMessage.bar = some s.handled) :
    InOrder s .runInference := by
  intro m hnext _
  rw [hnext, Option.map_some] at h
  exact (Option.some.inj h).symm

theorem step_inOrder (cfg : Config) (presetFiles : List Bytes) (s : State) (e : Event)
    (h : ∀ r ∈ s.jobs, r.handled = r.bar) (he : InOrder s e) :
    ∀ r ∈ (step floor cfg presetFiles s e).jobs, r.handled = r.bar := by
  cases e with
  | runInference =>
    simp only [step]
    split
    · exact h
    · rename_i m hnext
      intro r hr
      rcases List.mem_append.1 hr with hr | hr
      · exact h r hr
      · obtain ⟨j, hj, rfl⟩ := Option.map_eq_some_iff.1 (Option.mem_toList.1 hr)
        exact he m hnext (put_eq_some_iff.1 hj).1
  | subscribe =>
    simp only [step]
    split
    · split <;> exact h
    · exact h
  | update => simp only [step]; split <;> exact h
  | _ => exact h

/-- In every run, a job carries the last Level2 message that the window had
taken over; so where the signals are handled in order, it carries the message
published before its bar entered, if the window took that over. -/
theorem jobs_carry (floor : Bytes → Int) (cfg : Config) (presetFiles : List Bytes) (evs : List Event) :
    (∀ r ∈ (runs (step floor cfg presetFiles) init evs).jobs, ∃ info,
        pending floor presetFiles ((runs (step floor cfg presetFiles) init evs).lv2.sent.take r.handled) = some info ∧
          r.job = job cfg info) ∧
      (StepsMeet (step floor cfg presetFiles) InOrder init evs →
        ∀ r ∈ (runs (step floor cfg presetFiles) init evs).jobs, ∀ text info,
          (runs (step floor cfg presetFiles) init evs).lv2.upTo r.bar = some text →
          takenOver floor presetFiles text = some info → r.job = job cfg info) := by
  have hinv : Carried floor cfg presetFiles (runs (step floor cfg presetFiles) init evs) :=
    reachable_inv (Carried floor cfg presetFiles) (init_carried cfg presetFiles) (step_carried cfg presetFiles)
      ⟨evs, rfl⟩
  refine ⟨hinv.carried, fun hord r hr text info htext hinfo => ?_⟩
  have hbar := runs_inv (fun s => ∀ r ∈ s.jobs, r.handled = r.bar) (step_inOrder cfg presetFiles)
    (fun r hr => absurd hr List.not_mem_nil) hord
  obtain ⟨info', hpend, hjob⟩ := hinv.carried r hr
  rw [hbar r hr, pending_of_last floor htext hinfo] at hpend
  rw [hjob, Option.some.inj hpend]

end

/-! ## Two bars -/

/-- The text of an instruction. -/
def textOf (pack : Json) : Bytes := ((dataPack? pack).bind fun pack => (dump pack).toOption).getD []

def paths : ModelInference.Config := ⟨[ascii "local"], [ascii "nas"], false⟩

def presets : List Bytes := [ascii "10_20.preset"]

def entering : Signals := ⟨true, false, true, false⟩

def leaving : Signals := ⟨false, false, true, false⟩

/-- A bar whose data arrives before it enters. -/
def inTime : List Event :=
  [.publish (textOf firstBar), .subscribe, .update, .lineSignal entering, .lineSignal leaving, .runInference,
    .runInference]

def noFloor (_ : Bytes) : Int := 0

theorem takenOver_firstBar : (takenOver noFloor presets (textOf firstBar)).map JobInfo.date =
    some (ascii "20250102030405") := by decide +kernel

theorem jobs_carry_in_time :
    (∀ r ∈ (runs (step noFloor paths presets) init inTime).jobs, ∀ text info,
      (runs (step noFloor paths presets) init inTime).lv2.upTo r.bar = some text →
      takenOver noFloor presets text = some info → r.job = job paths info) ∧
    (runs (step noFloor paths presets) init inTime).jobs.map (fun r => r.job.info.date) =
      [ascii "20250102030405"] := by
  refine ⟨(jobs_carry noFloor paths presets inTime).2 ?_, by decide +kernel⟩
  exact ⟨trivial, trivial, trivial, trivial, trivial, inOrder_of_next (by decide +kernel),
    inOrder_of_next (by decide +kernel), trivial⟩

def secondBar : Json := instruction (ascii "20250102030900")

/-- The data of the second bar overtakes the signal that the first one has left. -/
def overtaken : List Event :=
  [.publish (textOf firstBar), .lineSignal entering, .lineSignal leaving, .publish (textOf secondBar), .subscribe,
    .update, .subscribe, .update, .runInference, .runInference]

/-- The job for the first bar carries the second. -/
theorem job_mixed_up : ¬ ∀ (floor : Bytes → Int) (cfg : ModelInference.Config) (presetFiles : List Bytes)
    (evs : List Event), ∀ r ∈ (runs (step floor cfg presetFiles) init evs).jobs, ∀ text info,
      (runs (step floor cfg presetFiles) init evs).lv2.upTo r.bar = some text →
      takenOver floor presetFiles text = some info → r.job = job cfg info := by
  intro h
  obtain ⟨info, hinfo, hdate⟩ := Option.map_eq_some_iff.1 takenOver_firstBar
  have hjobs : (runs (step noFloor paths presets) init overtaken).jobs.map (fun r => (r.bar, r.job.info.date)) =
      [(1, ascii "20250102030900")] := by decide +kernel
  obtain ⟨r, hr, heq⟩ := List.mem_map.1 (hjobs ▸ List.mem_singleton_self _)
  obtain ⟨hbar, hcarried⟩ := Prod.mk.inj heq
  have htext : (runs (step noFloor paths presets) init overtaken).lv2.upTo r.bar = some (textOf firstBar) := by
    rw [hbar]
    decide +kernel
  rw [h noFloor paths presets overtaken r hr _ info htext hinfo, job, hdate] at hcarried
  exact absurd hcarried (by decide)

end FlameSdd.JobDelivery
