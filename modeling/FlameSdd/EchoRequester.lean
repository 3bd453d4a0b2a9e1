import FlameSdd.SysLib.Runs
/-!
# Echo requests

`SystemEchoRequester.run` sends a text when its poll times out, and compares
the reply with the text it stored. It stores the text before it sends it, and
the REQ socket refuses a text while it waits for a reply: after that the reply
to the text that was sent is no longer recognised. `recognised_iff` says which
runs are free of this.
-/
open SysLib

namespace FlameSdd.EchoRequester

structure State where
  /-- `_echo_msg`. -/
  echoMsg : String
  /-- The REQ socket waits for a reply, and refuses to send. -/
  awaiting : Bool
  /-- The requests on their way, the one that the peer holds, the replies on
  their way, and those that can be received. -/
  requests : List String
  holding : Option String
  replies : List String
  inbox : List String
  /-- What `alive_update_signal` carried: the system, and whether it is alive. -/
  emitted : List (Int × Bool)
  /-- The last text that the socket took, and the texts it refused since. -/
  sent : Option String
  refused : List String
  deriving DecidableEq

def init : State := ⟨"", false, [], none, [], [], [], none, []⟩

/-- A turn of the loop of `run`, with the text it makes up if its poll times
out; a turn of the loop of `_echo_worker_task`; the arrival of a reply. -/
inductive Event where
  | poll (uuid : String)
  | replier
  | arrive

/-- The exception of a refused `send` leaves the turn before it emits. -/
def poll (systemId : Int) (s : State) (uuid : String) : State :=
  match s.inbox with
  | reply :: inbox =>
    { s with inbox := inbox, awaiting := false, emitted := s.emitted ++ [(systemId, decide (reply = s.echoMsg))] }
  | [] =>
    if s.awaiting then { s with echoMsg := uuid, refused := s.refused ++ [uuid] }
    else { s with
      echoMsg := uuid, requests := s.requests ++ [uuid], awaiting := true, emitted := s.emitted ++ [(systemId, false)],
      sent := some uuid, refused := [] }

/-- `recv`, and then `send` of what was received. -/
def replier (s : State) : State :=
  match s.holding, s.requests with
  | some message, _ => { s with holding := none, replies := s.replies ++ [message] }
  | none, message :: requests => { s with requests := requests, holding := some message }
  | none, [] => s

def arrive (s : State) : State :=
  match s.replies with
  | reply :: replies => { s with replies := replies, inbox := s.inbox ++ [reply] }
  | [] => s

def step (systemId : Int) (s : State) : Event → State
  | .poll uuid => poll systemId s uuid
  | .replier => replier s
  | .arrive => arrive s

/-! ## What it is for -/

/-- The echo of the text sent last is received in this step. -/
def Receives (s : State) (e : Event) : Prop :=
  ∃ uuid reply inbox, e = .poll uuid ∧ s.inbox = reply :: inbox ∧ s.sent = some reply

/-- The echo of the text sent last is taken for a sign of life of the system. -/
def Recognised (systemId : Int) (s : State) (e : Event) : Prop :=
  Receives s e → (step systemId s e).emitted = s.emitted ++ [(systemId, true)]

/-- Since the text was sent whose echo is received, no poll has timed out, or
the last one that did made up the same text. -/
def InTime (s : State) (e : Event) : Prop :=
  Receives s e → ∀ message, s.sent = some message → s.refused.getLastD message = message

/-! ## One message in flight -/

/-- What the requester waits for and the peer has not answered, oldest first. -/
def inFlight (s : State) : List String := s.inbox ++ s.replies ++ s.holding.toList ++ s.requests

/-- While the socket waits, the text sent last is in flight, and nothing else
ever is. The text that is stored is the last one that was sent or refused. -/
structure Exchange (s : State) : Prop where
  waits : s.awaiting = true → ∃ message, s.sent = some message ∧ inFlight s = [message] ∧
    s.echoMsg = s.refused.getLastD message
  idle : s.awaiting = false → inFlight s = []

theorem init_exchange : Exchange init := ⟨nofun, fun _ => rfl⟩

theorem Exchange.congr {s s' : State} (h : Exchange s) (hw : s'.awaiting = s.awaiting) (hs : s'.sent = s.sent)
    (hf : inFlight s' = inFlight s) (he : s'.echoMsg = s.echoMsg) (hr : s'.refused = s.refused) : Exchange s' := by
  constructor
  · rw [hw, hs, hf, he, hr]
    exact h.waits
  · rw [hw, hf]
    exact h.idle

/-- A reply that can be received is the only thing in flight, and the text sent last. -/
theorem Exchange.received {s : State} (h : Exchange s) {reply : String} {inbox : List String}
    (hi : s.inbox = reply :: inbox) :
    s.sent = some reply ∧ s.echoMsg = s.refused.getLastD reply ∧
      inbox ++ s.replies ++ s.holding.toList ++ s.requests = [] := by
  have hflight : inFlight s = reply :: (inbox ++ s.replies ++ s.holding.toList ++ s.requests) := by
    rw [inFlight, hi]
    rfl
  cases hw : s.awaiting with
  | false =>
    have hidle := h.idle hw
    rw [hflight] at hidle
    cases hidle
  | true =>
    obtain ⟨message, hsent, hone, hecho⟩ := h.waits hw
    rw [hflight] at hone
    obtain ⟨rfl, hrest⟩ := List.cons.inj hone
    exact ⟨hsent, hecho, hrest⟩

theorem poll_exchange (systemId : Int) {s : State} (h : Exchange s) (uuid : String) :
    Exchange (poll systemId s uuid) := by
  unfold poll
  split
  · rename_i reply inbox hi
    exact ⟨nofun, fun _ => (h.received hi).2.2⟩
  · cases hw : s.awaiting with
    | true =>
      -- the socket refuses the text, which is stored all the same
      obtain ⟨message, hsent, hone, -⟩ := h.waits hw
      rw [if_pos rfl]
      exact ⟨fun _ => ⟨message, hsent, hone, by simp⟩, nofun⟩
    | false =>
      have hidle := h.idle hw
      rw [if_neg Bool.false_ne_true]
      refine ⟨fun _ => ⟨uuid, rfl, ?_, rfl⟩, nofun⟩
      show s.inbox ++ s.replies ++ s.holding.toList ++ (s.requests ++ [uuid]) = [uuid]
      rw [← List.append_assoc, ← inFlight, hidle]
      rfl

theorem replier_exchange {s : State} (h : Exchange s) : Exchange (replier s) := by
  unfold replier
  split
  · rename_i message _ hh
    exact h.congr rfl rfl (by simp [inFlight, hh]) rfl rfl
  · rename_i message requests hh hr
    exact h.congr rfl rfl (by simp [inFlight, hh, hr]) rfl rfl
  · exact h

theorem arrive_exchange {s : State} (h : Exchange s) : Exchange (arrive s) := by
  unfold arrive
  split
  · rename_i reply replies hr
    exact h.congr rfl rfl (by simp [inFlight, hr]) rfl rfl
  · exact h

theorem step_exchange (systemId : Int) (s : State) (e : Event) (h : Exchange s) : Exchange (step systemId s e) := by
  cases e with
  | poll uuid => exact poll_exchange systemId h uuid
  | replier => exact replier_exchange h
  | arrive => exact arrive_exchange h

theorem recognised_iff_inTime (systemId : Int) {s : State} (h : Exchange s) (e : Event) :
    Recognised systemId s e ↔ InTime s e := by
  refine forall_congr' ?_
  rintro ⟨uuid, reply, inbox, rfl, hi, hsent⟩
  have hemitted : (step systemId s (.poll uuid)).emitted = s.emitted ++ [(systemId, decide (reply = s.echoMsg))] := by
    rw [step, poll, hi]
  rw [hemitted, (h.received hi).2.1]
  simp [hsent, eq_comm]

/-- Every echo of the text sent last is recognised exactly when it is received
before another text is stored. -/
theorem recognised_iff (systemId : Int) (evs : List Event) :
    StepsMeet (step systemId) (Recognised systemId) init evs ↔ StepsMeet (step systemId) InTime init evs :=
  stepsMeet_iff (fun _ e h => recognised_iff_inTime systemId h e) (fun s e h _ => step_exchange systemId s e h)
    init_exchange evs

/-- A poll times out while the reply is on its way. -/
def slow : List Event := [.poll "a", .replier, .replier, .poll "b", .arrive, .poll "c"]

theorem not_recognised_slow : ¬ StepsMeet (step 1) (Recognised 1) init slow := by
  rintro ⟨-, -, -, -, -, h, -⟩
  have hemitted := h ⟨"c", "a", [], rfl, rfl, rfl⟩
  exact absurd hemitted (by decide)

end FlameSdd.EchoRequester
