import FlameSdd.Level2Interface
import FlameSdd.LineFanOut
/-!
# The Level2 status in the window

Every client of the server has a receive thread of its own. A status is published
whenever an alive packet comes, and whenever a client is gone, whichever client it
is; the window shows the status that it handled last. So there was a link when the
status was published that it shows as one, but it may miss one that is there: when,
says `status_right_iff`.
-/
open SysLib SysLib.PackedStruct SysLib.JsonText FlameSdd.Protocol FlameSdd.Level2Interface FlameSdd.TcpSocket

namespace FlameSdd.Level2Status

/-! ## The text of a status -/

/-- The `data_pack` of `publish_status`, as it is sent. -/
def statusText (lv2Connect : Bool) : Bytes := print [(ascii "available", .bool lv2Connect)]

/-- `run` of the status subscriber and `on_update_dk_level2_status`: whether the
label is active. What cannot be decoded is passed over. -/
def onStatus (active : Bool) (data : Bytes) : Bool :=
  match DkLevel2Subscriber.decode data with
  | .ok (.obj d) => (LineFanOut.truth d "available").getD false
  | _ => active

theorem onStatus_statusText (active lv2Connect : Bool) : onStatus active (statusText lv2Connect) = lv2Connect := by
  have hkeys : (([(ascii "available", .bool lv2Connect)] : Object).map Prod.fst).Nodup := List.nodup_singleton _
  have hno : Object.NoApostrophe [(ascii "available", .bool lv2Connect)] := by
    have hkey : (0x27 : UInt8) ∉ ascii "available" := by decide
    intro e he
    obtain rfl := List.mem_singleton.1 he
    exact ⟨hkey, nofun⟩
  have hutf8 : Object.isUtf8 [(ascii "available", .bool lv2Connect)] = true := by
    cases lv2Connect <;> decide
  have hdecode : DkLevel2Subscriber.decode (statusText lv2Connect) =
      .ok (.obj (Object.value [(ascii "available", .bool lv2Connect)])) := by
    rw [DkLevel2Subscriber.decode, statusText, if_pos (valid_print hutf8), (loads_exchange_iff hkeys).2 hno]
  rw [onStatus, hdecode]
  rfl

/-- What the window shows after these messages. -/
def shown (log : List Bytes) : Bool := log.foldl onStatus false

theorem shown_append (log : List Bytes) (lv2Connect : Bool) : shown (log ++ [statusText lv2Connect]) = lv2Connect := by
  rw [shown, List.foldl_append]
  exact onStatus_statusText _ lv2Connect

/-! ## The clients -/

/-- A connection: what is in the buffer of its thread, and whether an alive packet
came on it. -/
structure Session where
  tempBuffer : Bytes
  alive : Bool

structure State where
  /-- No exception has left a thread. -/
  running : Bool
  /-- `_is_online` and `_ignore`. -/
  flags : LineSignal.Level2Flags
  clients : Nat → Option Session
  /-- What was published. -/
  log : List Bytes
  /-- The label of the window. -/
  window : Follow.Reader Bool

def init : State := ⟨true, ⟨false, false⟩, fun _ => none, [], ⟨0, false⟩⟩

/-- What one `recv` returns. -/
abbrev Chunk := { c : Bytes // c ≠ [] ∧ c.length ≤ bufferSize }

/-- A client connects, sends or is gone, a line signal comes, or the window handles
its next message. -/
inductive Event where
  | connect (id : Nat) (tempBuffer : Bytes)
  | receive (id : Nat) (chunk : Chunk)
  | close (id : Nat)
  | line (payload : Payload)
  | window

/-- An alive packet by itself. -/
def isAlive (chunk : Bytes) : Bool := chunk.take 4 == ascii "1099" && chunk.length == sizeof lv2MfAlive

/-- The statuses among what the listener publishes. -/
def statuses (out : List Publish) : List Bool :=
  out.filterMap fun
    | .status available => some available
    | _ => none

/-- One chunk in the receive thread of a client. An exception ends the process, and
with it every connection. -/
def onChunk (s : State) (id : Nat) (session : Session) (chunk : Bytes) : State :=
  let data := fill session.tempBuffer chunk
  match onRawReceived s.flags.ignore data chunk.length with
  | .error _ => { s with running := false, clients := fun _ => none }
  | .ok out =>
    { s with
      clients := Function.update s.clients id (some ⟨data, session.alive || isAlive chunk⟩)
      log := s.log ++ (statuses out).map statusText }

def step (s : State) : Event → State
  | .connect id tempBuffer =>
    if s.running = true ∧ s.clients id = none then
      { s with clients := Function.update s.clients id (some ⟨tempBuffer, false⟩) }
    else s
  | .receive id chunk =>
    match s.clients id with
    | some session => onChunk s id session chunk.1
    | none => s
  | .close id =>
    match s.clients id with
    | some _ => { s with clients := Function.update s.clients id none, log := s.log ++ [statusText false] }
    | none => s
  | .line payload => if s.running = true then { s with flags := LineSignal.lineCheckWork payload s.flags } else s
  | .window => { s with window := s.window.read onStatus s.log }

/-! ## What should be shown -/

/-- An alive packet came on a connection that is still there. -/
def Linked (s : State) : Prop := ∃ id session, s.clients id = some session ∧ session.alive = true

/-- When the window has handled what was published, it shows whether there is a link. -/
def Right (s : State) : Prop := shown s.log = true ↔ Linked s

/-- No client is gone while another one is linked, and no packet ends the process
while one is. -/
def Orderly (s : State) : Event → Prop
  | .receive id chunk => s.clients id ≠ none → harmless s.flags.ignore chunk.1 = false → ¬ Linked s
  | .close id => s.clients id ≠ none →
    ∀ other session, other ≠ id → s.clients other = some session → session.alive = false
  | _ => True

/-! ## What a step does -/

/-- The listener publishes a status exactly for an alive packet. -/
theorem statuses_spec {ignore : Bool} {chunk : Bytes} {out : List Publish}
    (h : onRawReceived ignore chunk chunk.length = .ok out) :
    statuses out = if isAlive chunk = true then [true] else [] := by
  have hother : ∀ (pack : Json) (port : Json → Publish), (∀ data, statuses [port data] = []) →
      (if !ignore then do let data ← pack.dump; return [port data] else .ok []) = Except.ok (ε := Exn) out →
      statuses out = [] := by
    intro pack port hport hout
    split at hout
    · obtain ⟨data, -, hout⟩ := bind_eq_ok hout
      obtain rfl := Except.ok.inj hout
      exact hport data
    · obtain rfl := Except.ok.inj hout
      rfl
  unfold onRawReceived at h
  unfold isAlive
  simp only [List.take_length] at h
  by_cases h1099 : chunk.take 4 = ascii "1099"
  · rw [if_pos h1099] at h
    by_cases hlen : chunk.length = sizeof lv2MfAlive
    · rw [if_pos hlen] at h
      obtain rfl := Except.ok.inj h
      simp [h1099, hlen, statuses]
    · rw [if_neg hlen] at h
      obtain rfl := Except.ok.inj h
      simp [hlen, statuses]
  · have halive : (chunk.take 4 == ascii "1099" && chunk.length == sizeof lv2MfAlive) = false := by simp [h1099]
    rw [if_neg h1099] at h
    rw [halive, if_neg Bool.false_ne_true]
    split at h
    · obtain rfl := Except.ok.inj h
      rfl
    · split at h
      · split at h
        · exact hother _ _ (fun _ => rfl) h
        · obtain rfl := Except.ok.inj h
          rfl
      · split at h
        · split at h
          · obtain ⟨pack, -, h⟩ := bind_eq_ok h
            exact hother pack _ (fun _ => rfl) h
          · obtain rfl := Except.ok.inj h
            rfl
        · obtain rfl := Except.ok.inj h
          rfl

/-- A chunk ends the process, or is an alive packet, or changes no status. -/
theorem onChunk_cases (s : State) (id : Nat) (session : Session) (chunk : Bytes) :
    (harmless s.flags.ignore chunk = false ∧
      onChunk s id session chunk = { s with running := false, clients := fun _ => none }) ∨
    (harmless s.flags.ignore chunk = true ∧ isAlive chunk = true ∧ onChunk s id session chunk = { s with
      clients := Function.update s.clients id (some ⟨fill session.tempBuffer chunk, true⟩)
      log := s.log ++ [statusText true] }) ∨
    (harmless s.flags.ignore chunk = true ∧ isAlive chunk = false ∧ onChunk s id session chunk = { s with
      clients := Function.update s.clients id (some ⟨fill session.tempBuffer chunk, session.alive⟩) }) := by
  have hspec := (onRawReceived_spec s.flags.ignore chunk).1
  unfold onChunk
  simp only [onRawReceived_fill]
  cases hout : onRawReceived s.flags.ignore chunk chunk.length with
  | error e =>
    left
    rw [hout] at hspec
    exact ⟨by simpa using hspec, rfl⟩
  | ok out =>
    have hharmless := hspec.1 ⟨out, hout⟩
    right
    simp only [statuses_spec hout]
    cases halive : isAlive chunk with
    | true => exact .inl ⟨hharmless, rfl, by simp⟩
    | false => exact .inr ⟨hharmless, rfl, by simp⟩

/-! ## Links -/

theorem linked_update {s s' : State} {id : Nat} {session : Option Session}
    (h : s'.clients = Function.update s.clients id session) :
    Linked s' ↔ (∃ x, session = some x ∧ x.alive = true) ∨
      ∃ other x, other ≠ id ∧ s.clients other = some x ∧ x.alive = true := by
  unfold Linked
  rw [h]
  constructor
  · rintro ⟨other, x, hx, halive⟩
    by_cases heq : other = id
    · subst heq
      rw [Function.update_self] at hx
      exact .inl ⟨x, hx, halive⟩
    · rw [Function.update_of_ne heq] at hx
      exact .inr ⟨other, x, heq, hx, halive⟩
  · rintro (⟨x, rfl, halive⟩ | ⟨other, x, hne, hx, halive⟩)
    · exact ⟨id, x, Function.update_self _ _ _, halive⟩
    · exact ⟨other, x, by rwa [Function.update_of_ne hne], halive⟩

/-- A client that is as linked as before changes nothing. -/
theorem linked_update_same {s s' : State} (id : Nat) {session : Option Session}
    (h : s'.clients = Function.update s.clients id session)
    (halive : (∃ x, session = some x ∧ x.alive = true) ↔ ∃ x, s.clients id = some x ∧ x.alive = true) :
    Linked s' ↔ Linked s := by
  have hself : s.clients = Function.update s.clients id (s.clients id) := (Function.update_eq_self _ _).symm
  rw [linked_update h, halive, ← linked_update hself]

theorem not_linked_of_none {s : State} (h : s.clients = fun _ => none) : ¬ Linked s := by
  rintro ⟨id, session, hid, -⟩
  rw [h] at hid
  cases hid

/-- A client that is gone was linked, or another one is, or none. -/
theorem linked_close {s s' : State} {id : Nat} (h : s'.clients = Function.update s.clients id none) :
    Linked s' ↔ ∃ other session, other ≠ id ∧ s.clients other = some session ∧ session.alive = true := by
  rw [linked_update h]
  simp

/-- The window is right after a step exactly if the step is orderly. -/
theorem right_step_iff {s : State} (hs : Right s) (e : Event) :
    Right (step s e) ↔ Orderly s e := by
  cases e with
  | connect id tempBuffer =>
    refine iff_of_true ?_ trivial
    unfold step
    simp only
    split
    · rename_i hfree
      have hlinked : Linked { s with clients := Function.update s.clients id (some ⟨tempBuffer, false⟩) } ↔ Linked s :=
        linked_update_same id rfl (by simp [hfree.2])
      rw [Right, hlinked]
      exact hs
    · exact hs
  | receive id chunk =>
    cases hid : s.clients id with
    | none => simpa [step, Orderly, hid] using hs
    | some session =>
      simp only [step, Orderly, hid, ne_eq, reduceCtorEq, not_false_eq_true, true_imp_iff]
      rcases onChunk_cases s id session chunk.1 with ⟨hharm, heq⟩ | ⟨hharm, -, heq⟩ | ⟨hharm, -, heq⟩
      · -- nothing is left, and the status stays as it was
        rw [heq, Right, hharm]
        have hgone : ¬ Linked { s with running := false, clients := fun _ => none } := not_linked_of_none rfl
        simp only [hgone, iff_false, true_imp_iff]
        exact not_congr hs
      · rw [heq, hharm]
        refine iff_of_true ?_ nofun
        rw [Right, shown_append]
        exact iff_of_true rfl ((linked_update rfl).2 (.inl ⟨_, rfl, rfl⟩))
      · rw [heq, hharm]
        refine iff_of_true ?_ nofun
        rw [Right, linked_update_same (s := s) id rfl (by simp [hid])]
        exact hs
  | close id =>
    cases hid : s.clients id with
    | none => simpa [step, Orderly, hid] using hs
    | some session =>
      simp only [step, Orderly, hid, ne_eq, reduceCtorEq, not_false_eq_true, true_imp_iff]
      rw [Right, shown_append, linked_close rfl]
      simp only [Bool.false_eq_true, false_iff, not_exists, not_and, Bool.not_eq_true]
  | line payload =>
    refine iff_of_true ?_ trivial
    unfold step
    simp only
    split <;> exact hs
  | window => exact iff_of_true hs trivial

/-- While the component runs, no link is shown that is not there. -/
def Sound (s : State) : Prop := s.running = true → shown s.log = true → Linked s

theorem sound_step {s : State} (hs : Sound s) (e : Event) : Sound (step s e) := by
  cases e with
  | connect id tempBuffer =>
    unfold step
    simp only
    split
    · rename_i hfree
      intro hrunning hshown
      exact (linked_update_same (s := s) id rfl (by simp [hfree.2])).2 (hs hrunning hshown)
    · exact hs
  | receive id chunk =>
    cases hid : s.clients id with
    | none => simpa [step, hid] using hs
    | some session =>
      simp only [step, hid]
      rcases onChunk_cases s id session chunk.1 with ⟨-, heq⟩ | ⟨-, -, heq⟩ | ⟨-, -, heq⟩
      · rw [heq]
        intro hrunning
        cases hrunning
      · rw [heq]
        intro _ _
        exact (linked_update rfl).2 (.inl ⟨_, rfl, rfl⟩)
      · rw [heq]
        intro hrunning hshown
        exact (linked_update_same (s := s) id rfl (by simp [hid])).2 (hs hrunning hshown)
  | close id =>
    cases hid : s.clients id with
    | none => simpa [step, hid] using hs
    | some session =>
      simp only [step, hid]
      intro _ hshown
      rw [shown_append] at hshown
      cases hshown
  | line payload =>
    unfold step
    simp only
    split <;> exact hs
  | window => exact hs

/-- A step publishes one status at most, and a link is published when there is one. -/
theorem publish_step (s : State) (e : Event) : (step s e).log = s.log ∨
    ∃ m, (step s e).log = s.log ++ [m] ∧ (shown (step s e).log = true → Linked (step s e)) := by
  cases e with
  | connect id tempBuffer =>
    unfold step
    simp only
    split <;> exact .inl rfl
  | receive id chunk =>
    cases hid : s.clients id with
    | none => exact .inl (by simp [step, hid])
    | some session =>
      simp only [step, hid]
      rcases onChunk_cases s id session chunk.1 with ⟨-, heq⟩ | ⟨-, -, heq⟩ | ⟨-, -, heq⟩
      · exact .inl (by rw [heq])
      · rw [heq]
        exact .inr ⟨_, rfl, fun _ => (linked_update rfl).2 (.inl ⟨_, rfl, rfl⟩)⟩
      · exact .inl (by rw [heq])
  | close id =>
    cases hid : s.clients id with
    | none => exact .inl (by simp [step, hid])
    | some session =>
      simp only [step, hid]
      refine .inr ⟨_, rfl, fun hshown => ?_⟩
      rw [shown_append] at hshown
      cases hshown
  | line payload =>
    unfold step
    simp only
    split <;> exact .inl rfl
  | window => exact .inl rfl

/-! ## The window -/

theorem follows_step {s : State} (hs : Follow.Follows onStatus false s.log s.window) (e : Event) :
    Follow.Follows onStatus false (step s e).log (step s e).window := by
  cases e with
  | connect id tempBuffer =>
    unfold step
    simp only
    split
    · exact hs
    · exact hs
  | receive id chunk =>
    cases hid : s.clients id with
    | none => simpa [step, hid] using hs
    | some session =>
      simp only [step, hid]
      rcases onChunk_cases s id session chunk.1 with ⟨-, heq⟩ | ⟨-, -, heq⟩ | ⟨-, -, heq⟩
      · rw [heq]
        exact hs
      · rw [heq]
        exact hs.publish _
      · rw [heq]
        exact hs
  | close id =>
    cases hid : s.clients id with
    | none => simpa [step, hid] using hs
    | some session =>
      simp only [step, hid]
      exact hs.publish _
  | line payload =>
    unfold step
    simp only
    split <;> exact hs
  | window => exact hs.read

/-- For every order of the clients, the line signals and the window: the label is
that of the statuses that were handled. Where it is active, there was a link when
the last of these was published, and while the component runs and nothing is left
to handle, there is one. The status that was published last is right after every
step exactly if no client is gone while another one is linked, and no packet ends
the process while one is. -/
theorem status_right_iff (evs : List Event) :
    let s := runs step init evs
    s.window.state = shown (s.log.take s.window.seen) ∧
    (s.window.state = true → ∃ pre, pre <+: evs ∧ (runs step init pre).log = s.log.take s.window.seen ∧
      Linked (runs step init pre)) ∧
    (s.running = true → s.window.seen = s.log.length → s.window.state = true → Linked s) ∧
    (StepsMeet step (fun s e => Right (step s e)) init evs ↔ StepsMeet step Orderly init evs) := by
  intro s
  have htrue : StepsMeet step (fun _ _ => True) init evs := stepsMeet_true init evs
  have hfollows : Follow.Follows onStatus false s.log s.window :=
    runs_inv (fun s => Follow.Follows onStatus false s.log s.window) (fun s e hs _ => follows_step hs e)
      (Follow.Follows.init onStatus false) htrue
  have hsound : Sound s := runs_inv Sound (fun s e hs _ => sound_step hs e) (fun _ hshown => by cases hshown) htrue
  have hright : Right init := iff_of_false Bool.false_ne_true (not_linked_of_none rfl)
  have hlabel : s.window.state = shown (s.log.take s.window.seen) := hfollows.state_eq
  refine ⟨hlabel, fun hactive => ?_, fun hrunning hall hactive => ?_, ?_⟩
  · have hpos : 0 < s.window.seen := by
      rw [Nat.pos_iff_ne_zero]
      intro hzero
      rw [hlabel, hzero] at hactive
      cases hactive
    obtain ⟨pre, hpre, hlog, hlinked⟩ := Follow.published_at State.log (fun s => shown s.log = true → Linked s)
      (show init.log = [] from rfl) publish_step evs hpos hfollows.seen_le
    refine ⟨pre, hpre, hlog, hlinked ?_⟩
    rw [hlog, ← hlabel, hactive]
  · rw [hlabel, hall, List.take_length] at hactive
    exact hsound hrunning hactive
  · exact stepsMeet_inv_iff (I := Right) (J := fun _ => True) (fun _ _ _ => trivial)
      (fun _ e _ hs => right_step_iff hs e) trivial hright evs

end FlameSdd.Level2Status
