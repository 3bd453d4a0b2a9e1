import FlameSdd.JobComplete
import FlameSdd.LightControl
import FlameSdd.SysLib.Follow
/-!
# One line signal, four subscribers

The DAQ publishes every change of the lines once. The grabber, the Level2
interface, the lights and the inference handle the messages in order, each at its
own pace, while the window may set the lights, too. Whatever the pace, the cameras
stream and the lights are lit by the same rule of the messages that were handled:
`signals_agree`.
-/
open SysLib SysLib.JsonText FlameSdd.LineSignal FlameSdd.ModelInference

namespace FlameSdd.LineFanOut

/-! ## The text of a message -/

/-- The members of a message, in the order of their names. -/
def lineMembers (value : Signals) : Object :=
  [(ascii "hmd_signal_1_on", .bool value.hmdSignal1On), (ascii "hmd_signal_2_on", .bool value.hmdSignal2On),
    (ascii "offline_signal_on", .bool value.offlineSignalOn), (ascii "online_signal_on", .bool value.onlineSignalOn)]

/-- `data_pack.dump()`. -/
def lineText (value : Signals) : Bytes := print (lineMembers value)

/-- `json::parse` of the components. -/
def parse (data : Bytes) : Payload := (loads data).map (JobComplete.toJson fun _ => 0)

/-- A truth value of a decoded message. -/
def truth (data : List (Bytes × Value)) (key : String) : Option Bool :=
  match data.lookup (ascii key) with
  | some (.bool b) => some b
  | _ => none

/-- What the subscribers of the monitor read, by the exchange of the quotes and
`json.loads`. -/
def monitorSignals (data : Bytes) : Option Signals :=
  match DkLevel2Subscriber.decode data with
  | .ok (.obj d) => do
    let hmdSignal1On ← truth d "hmd_signal_1_on"
    let hmdSignal2On ← truth d "hmd_signal_2_on"
    let onlineSignalOn ← truth d "online_signal_on"
    let offlineSignalOn ← truth d "offline_signal_on"
    return ⟨hmdSignal1On, hmdSignal2On, onlineSignalOn, offlineSignalOn⟩
  | _ => none

theorem nodup_lineMembers (value : Signals) : ((lineMembers value).map Prod.fst).Nodup := by
  have hkeys : [ascii "hmd_signal_1_on", ascii "hmd_signal_2_on", ascii "offline_signal_on",
    ascii "online_signal_on"].Nodup := by decide
  exact hkeys

theorem noApostrophe_lineMembers (value : Signals) : (lineMembers value).NoApostrophe := by
  have hkeys : ∀ key ∈ [ascii "hmd_signal_1_on", ascii "hmd_signal_2_on", ascii "offline_signal_on",
    ascii "online_signal_on"], (0x27 : UInt8) ∉ key := by decide
  intro e he
  simp only [lineMembers, List.mem_cons, List.not_mem_nil, or_false] at he
  rcases he with rfl | rfl | rfl | rfl <;> exact ⟨hkeys _ (by simp), nofun⟩

theorem decode_lineText (value : Signals) :
    DkLevel2Subscriber.decode (lineText value) = .ok (.obj (lineMembers value).value) := by
  have hutf8 : (lineMembers value).isUtf8 = true := by
    obtain ⟨hmd1, hmd2, online, offline⟩ := value
    revert hmd1 hmd2 online offline
    decide
  rw [DkLevel2Subscriber.decode, lineText, if_pos (valid_print hutf8),
    (loads_exchange_iff (nodup_lineMembers value)).2 (noApostrophe_lineMembers value)]

/-- The monitor reads what was published. -/
theorem monitorSignals_lineText (value : Signals) : monitorSignals (lineText value) = some value := by
  rw [monitorSignals, decode_lineText]
  rfl

/-- So do the components. -/
theorem readSignals_lineText (value : Signals) : ∃ data, parse (lineText value) = some data ∧
    readSignals data = .ok (some (value.hmdSignal1On, value.hmdSignal2On, value.onlineSignalOn)) := by
  rw [parse, lineText, loads_print (nodup_lineMembers value)]
  exact ⟨_, rfl, rfl⟩

/-! ## The subscribers -/

def onGrabber (g : Grabber) (value : Signals) : Grabber := imageStreamControlTask (parse (lineText value)) g

def onLevel2 (flags : Level2Flags) (value : Signals) : Level2Flags := lineCheckWork (parse (lineText value)) flags

/-- `run` of the light control on one message; what cannot be decoded is passed
over. -/
def onLight (lightIds : List Nat) (s : LightControl.State) (value : Signals) : LightControl.State :=
  match monitorSignals (lineText value) with
  | some value => LightControl.onLineSignal lightIds s value
  | none => s

/-- The inference, with the number of the message that each job was put at. -/
structure Inference where
  jobLv2Info : Option JobInfo
  jobs : List (Nat × Job)

/-- `run` of the inference on message `n`. -/
def onInference (cfg : Config) (s : Inference) (n : Nat) (value : Signals) : Inference :=
  match monitorSignals (lineText value) with
  | some value => { s with jobs := s.jobs ++ ((run cfg value s.jobLv2Info).map fun job => (n, job)).toList }
  | none => s

/-! ## What the messages say -/

/-- A bar comes in. -/
def enters (value : Signals) : Bool := value.hmdSignal1On && value.onlineSignalOn

/-- The end of a bar has passed the second detector. -/
def leaves (value : Signals) : Bool := !value.hmdSignal2On && value.onlineSignalOn

/-- A bar came in, and none of the messages after that says that it left. -/
def Passing (log : List Signals) : Prop := Follow.Since enters leaves log

/-! ## The system -/

structure State where
  /-- `prev_dio_values`. -/
  prev : Signals
  /-- What was published. -/
  log : List Signals
  grabber : Follow.Reader Grabber
  level2 : Follow.Reader Level2Flags
  light : Follow.Reader LightControl.State
  inference : Follow.Reader Inference
  /-- The window has set the lights since they handled the last message by which a
  bar comes in or leaves. -/
  manual : Bool

def init : State where
  prev := Signals.off
  log := []
  grabber := ⟨0, ⟨false, .running⟩⟩
  level2 := ⟨0, ⟨false, false⟩⟩
  light := ⟨0, LightControl.init⟩
  inference := ⟨0, ⟨none, []⟩⟩
  manual := false

/-- The DAQ reads the lines, a subscriber handles its next message, the window sets
the lights or turns them off, or the inference learns about a bar. -/
inductive Event where
  | sample (value : Signals)
  | grabber
  | level2
  | light
  | inference
  | lightSet (values : List Int)
  | lightOff
  | addJobLv2Info (info : JobInfo)

def step (lightIds : List Nat) (cfg : Config) (s : State) : Event → State
  | .sample value => { s with prev := value, log := s.log ++ dioReadTask s.prev [value] }
  | .grabber => { s with grabber := s.grabber.read onGrabber s.log }
  | .level2 => { s with level2 := s.level2.read onLevel2 s.log }
  | .light =>
    { s with
      light := s.light.read (onLight lightIds) s.log
      manual := s.manual && !s.log[s.light.seen]?.any fun value => enters value || leaves value }
  | .inference =>
    { s with inference := s.inference.read (fun i => onInference cfg i s.inference.seen) s.log }
  | .lightSet values =>
    { s with
      light := { s.light with state := (LightControl.setControlMulti s.light.state lightIds values).1 }
      manual := true }
  | .lightOff =>
    { s with light := { s.light with state := (LightControl.setOff s.light.state lightIds).1 }, manual := true }
  | .addJobLv2Info info =>
    { s with inference := { s.inference with state := { s.inference.state with jobLv2Info := some info } } }

/-- The packet that was sent last shows the brightness that is remembered. -/
def Lit (lightIds : List Nat) (s : LightControl.State) : Prop :=
  ∃ packet, s.sent.getLast? = some packet ∧ LightControl.Shows packet (lightIds.zip s.brightnessArray)

/-- The packet that was sent last, if any, shows nothing. -/
def Dark (lightIds : List Nat) (s : LightControl.State) : Prop :=
  ∀ packet, s.sent.getLast? = some packet → LightControl.Shows packet (lightIds.map fun id => (id, 0))

/-- Every value is a byte. -/
def AreBytes (values : List Int) : Prop := ∀ b ∈ values, 0 ≤ b ∧ b < 256

/-- The window sets values that are bytes. -/
def Event.Settable : Event → Prop
  | .lightSet values => AreBytes values
  | _ => True

theorem onGrabber_eq {g : Grabber} (hg : g.control = .running) (value : Signals) :
    onGrabber g value = ⟨Follow.latch enters leaves g.imageStreamEnable value, .running⟩ := by
  obtain ⟨data, hparse, hread⟩ := readSignals_lineText value
  obtain ⟨enable, control⟩ := g
  obtain rfl : control = .running := hg
  have henters : (value.hmdSignal1On && value.onlineSignalOn) = enters value := rfl
  have hleaves : (!value.hmdSignal2On && value.onlineSignalOn) = leaves value := rfl
  simp only [onGrabber, imageStreamControlTask, hparse, hread, if_true, Follow.latch, henters, hleaves]
  by_cases hin : enters value = true
  · rw [if_pos hin, if_pos hin]
  · rw [if_neg hin, if_neg hin]
    by_cases hout : leaves value = true
    · rw [if_pos hout, if_pos hout]
    · rw [if_neg hout, if_neg hout]

theorem onLevel2_eq (flags : Level2Flags) (value : Signals) :
    onLevel2 flags value = ⟨value.onlineSignalOn, value.hmdSignal1On || value.hmdSignal2On⟩ := by
  obtain ⟨data, hparse, hread⟩ := readSignals_lineText value
  simp only [onLevel2, lineCheckWork, hparse, hread]

/-- Slots that fit are sent in a packet that shows them. -/
theorem sendFilled_fits {slots : List (Nat × Int)} (hslots : ∀ slot ∈ slots, LightControl.SlotFits slot)
    (s : LightControl.State) :
    ∃ packet, LightControl.sendFilled s slots = ({ s with sent := s.sent ++ [packet] }, .ok ()) ∧
      LightControl.Shows packet slots := by
  obtain ⟨dmxData, hfill, hshown⟩ := LightControl.fill_ok hslots LightControl.zeros
  refine ⟨_, by rw [LightControl.sendFilled, hfill], LightControl.length_packet dmxData, fun k hk => ?_⟩
  rw [LightControl.drop_packet]
  have hget : dmxData.toList[k]? = some dmxData[k] := by simp [hk]
  rw [hget, Option.map_some, hshown k hk]
  simp [LightControl.zeros]

section
variable {lightIds : List Nat} (hids : ∀ id ∈ lightIds, id < 512)
include hids

theorem setOff_spec (s : LightControl.State) :
    ∃ packet, LightControl.setOff s lightIds = ({ s with sent := s.sent ++ [packet] }, .ok ()) ∧
      LightControl.Shows packet (lightIds.map fun id => (id, 0)) := by
  refine sendFilled_fits (fun slot hslot => ?_) s
  obtain ⟨id, hid, rfl⟩ := List.mem_map.1 hslot
  exact ⟨hids id hid, by simp⟩

/-- What the subscriber remembers is what it sends when a bar comes in. -/
theorem onLight_spec {s : LightControl.State} (hrunning : s.running = true) (hbytes : AreBytes s.brightnessArray)
    (value : Signals) :
    (onLight lightIds s value).running = true ∧ (onLight lightIds s value).brightnessArray = s.brightnessArray ∧
      ((enters value = true ∧ (lightIds.length = s.brightnessArray.length → Lit lightIds (onLight lightIds s value))) ∨
        (enters value = false ∧ leaves value = true ∧ Dark lightIds (onLight lightIds s value)) ∨
        (enters value = false ∧ leaves value = false ∧ onLight lightIds s value = s)) := by
  have henters : (value.hmdSignal1On && value.onlineSignalOn) = enters value := rfl
  have hleaves : (!value.hmdSignal2On && value.onlineSignalOn) = leaves value := rfl
  rw [onLight, monitorSignals_lineText]
  simp only [LightControl.onLineSignal, hrunning, if_true, henters, hleaves]
  cases hin : enters value with
  | true =>
    rw [if_pos rfl]
    by_cases hlen : lightIds.length = s.brightnessArray.length
    · obtain ⟨packet, hsend, hshows⟩ := LightControl.setControlMulti_fits hlen ⟨hids, hbytes⟩ s
      rw [hsend]
      exact ⟨rfl, rfl, .inl ⟨rfl, fun _ => ⟨packet, by simp [LightControl.goOn], hshows⟩⟩⟩
    · rw [LightControl.setControlMulti_mismatch hlen]
      exact ⟨rfl, rfl, .inl ⟨rfl, fun h => absurd h hlen⟩⟩
  | false =>
    rw [if_neg Bool.false_ne_true]
    cases hout : leaves value with
    | true =>
      obtain ⟨packet, hsend, hshows⟩ := setOff_spec hids s
      rw [if_pos rfl, hsend]
      refine ⟨rfl, rfl, .inr (.inl ⟨rfl, rfl, fun p hp => ?_⟩)⟩
      obtain rfl : packet = p := by simpa [LightControl.goOn] using hp
      exact hshows
    | false =>
      rw [if_neg Bool.false_ne_true]
      exact ⟨hrunning, rfl, .inr (.inr ⟨rfl, rfl, rfl⟩)⟩

end

/-- What the lights show follows the messages they handled, unless the window has
set them since. -/
structure LightInv (lightIds : List Nat) (log : List Signals) (manual : Bool)
    (r : Follow.Reader LightControl.State) : Prop where
  seen_le : r.seen ≤ log.length
  running : r.state.running = true
  bytes : AreBytes r.state.brightnessArray
  lit : manual = false → Passing (log.take r.seen) → lightIds.length = r.state.brightnessArray.length →
    Lit lightIds r.state
  dark : manual = false → ¬ Passing (log.take r.seen) → Dark lightIds r.state

section
variable {lightIds : List Nat} {log : List Signals} {manual : Bool} {r : Follow.Reader LightControl.State}

theorem LightInv.publish (h : LightInv lightIds log manual r) (value : Signals) :
    LightInv lightIds (log ++ [value]) manual r := by
  obtain ⟨hle, hrunning, hbytes, hlit, hdark⟩ := h
  refine ⟨Nat.le_trans hle (by simp), hrunning, hbytes, ?_, ?_⟩
  · rwa [List.take_append_of_le_length hle]
  · rwa [List.take_append_of_le_length hle]

variable (hids : ∀ id ∈ lightIds, id < 512)
include hids

theorem LightInv.read (h : LightInv lightIds log manual r) : LightInv lightIds log
    (manual && !log[r.seen]?.any fun value => enters value || leaves value) (r.read (onLight lightIds) log) := by
  obtain ⟨hle, hrunning, hbytes, hlit, hdark⟩ := h
  cases hm : log[r.seen]? with
  | none => simpa [Follow.Reader.read, hm] using ⟨hle, hrunning, hbytes, hlit, hdark⟩
  | some value =>
    have hlt : r.seen < log.length := (List.getElem?_eq_some_iff.1 hm).1
    have htake : log.take (r.seen + 1) = log.take r.seen ++ [value] := by
      rw [List.take_add_one, hm, Option.toList_some]
    obtain ⟨hrunning', hremember, hcases⟩ := onLight_spec hids hrunning hbytes value
    simp only [Follow.Reader.read, hm, Option.any_some]
    refine ⟨hlt, hrunning', by rwa [hremember], fun hmanual => ?_, fun hmanual => ?_⟩
    · rw [htake, Passing, Follow.since_append, hremember]
      rcases hcases with ⟨hin, hlit'⟩ | ⟨hin, hout, -⟩ | ⟨hin, hout, hsame⟩
      · exact fun _ => hlit'
      · simp [hin, hout]
      · rw [hsame]
        simpa [hin, hout, Passing] using hlit (by simpa [hin, hout] using hmanual)
    · rw [htake, Passing, Follow.since_append]
      rcases hcases with ⟨hin, -⟩ | ⟨hin, hout, hdark'⟩ | ⟨hin, hout, hsame⟩
      · exact fun hno => absurd (.inl hin) hno
      · exact fun _ => hdark'
      · rw [hsame]
        simpa [hin, hout, Passing] using hdark (by simpa [hin, hout] using hmanual)

theorem LightInv.set (h : LightInv lightIds log manual r) {values : List Int} (hvalues : AreBytes values) :
    LightInv lightIds log true { r with state := (LightControl.setControlMulti r.state lightIds values).1 } := by
  by_cases hlen : lightIds.length = values.length
  · obtain ⟨packet, hsend, -⟩ := LightControl.setControlMulti_fits hlen ⟨hids, hvalues⟩ r.state
    rw [hsend]
    exact ⟨h.seen_le, h.running, hvalues, nofun, nofun⟩
  · rw [LightControl.setControlMulti_mismatch hlen]
    exact ⟨h.seen_le, h.running, h.bytes, nofun, nofun⟩

theorem LightInv.off (h : LightInv lightIds log manual r) :
    LightInv lightIds log true { r with state := (LightControl.setOff r.state lightIds).1 } := by
  obtain ⟨packet, hsend, -⟩ := setOff_spec hids r.state
  rw [hsend]
  exact ⟨h.seen_le, h.running, h.bytes, nofun, nofun⟩

end

/-! ## What the others derive -/

theorem Follows.grabber {log : List Signals} {r : Follow.Reader Grabber}
    (h : Follow.Follows onGrabber ⟨false, .running⟩ log r) :
    r.state.imageStreamEnable = true ↔ Passing (log.take r.seen) := by
  refine (h.inv (fun l g => g.control = .running ∧ (g.imageStreamEnable = true ↔ Passing l)) ?_ ?_).2
  · exact ⟨rfl, iff_of_false Bool.false_ne_true Follow.not_since_nil⟩
  · rintro l g value ⟨hrunning, hpassing⟩
    rw [onGrabber_eq hrunning]
    exact ⟨rfl, Follow.latch_since hpassing value⟩

/-- While the Level2 data is used, a bar that came in has not left only if the
line is not online. -/
theorem Follows.level2 {log : List Signals} {r : Follow.Reader Level2Flags}
    (h : Follow.Follows onLevel2 ⟨false, false⟩ log r) (hpassing : Passing (log.take r.seen))
    (hignore : r.state.ignore = false) : r.state.isOnline = false := by
  refine h.inv (fun l flags => Passing l → flags.ignore = false → flags.isOnline = false) ?_ ?_ hpassing hignore
  · exact fun hp => absurd hp Follow.not_since_nil
  · intro l flags value _ hp hignore
    rw [onLevel2_eq] at hignore ⊢
    obtain ⟨hmd1, hmd2, online, offline⟩ := value
    rw [Passing, Follow.since_append] at hp
    cases online with
    | false => rfl
    | true => simp_all [enters, leaves]

/-- Once a bar has left, a bar passes only after another one came in. -/
theorem not_passing_of_left {l : List Signals} {n : Nat} {value : Signals} (hn : l[n]? = some value)
    (hleft : barLeft value = true) (hno : ∀ v ∈ l.drop (n + 1), enters v = false) : ¬ Passing l := by
  have hin : enters value = false ∧ leaves value = true := by
    obtain ⟨hmd1, hmd2, online, offline⟩ := value
    simp_all [barLeft, enters, leaves]
  have hsplit : l = l.take (n + 1) ++ l.drop (n + 1) := (List.take_append_drop _ _).symm
  rw [List.take_add_one, hn, Option.toList_some] at hsplit
  rw [hsplit]
  generalize l.drop (n + 1) = rest at hno
  induction rest using List.reverseRecOn with
  | nil => simp [Passing, Follow.since_append, hin]
  | append_singleton rest v ih =>
    rw [← List.append_assoc, Passing, Follow.since_append]
    simp only [List.mem_append, List.mem_singleton] at hno
    rintro (hv | ⟨-, hp⟩)
    · rw [hno v (.inr rfl)] at hv
      cases hv
    · exact ih (fun w hw => hno w (.inl hw)) hp

/-! ## Every run -/

structure Inv (lightIds : List Nat) (s : State) : Prop where
  grabber : Follow.Follows onGrabber ⟨false, .running⟩ s.log s.grabber
  level2 : Follow.Follows onLevel2 ⟨false, false⟩ s.log s.level2
  light : LightInv lightIds s.log s.manual s.light
  jobs : ∀ e ∈ s.inference.state.jobs, ∃ value, s.log[e.1]? = some value ∧ barLeft value = true

variable {lightIds : List Nat} {cfg : Config}

theorem init_inv : Inv lightIds init where
  grabber := .init _ _
  level2 := .init _ _
  light := ⟨Nat.le_refl 0, rfl, nofun, fun _ hp => absurd hp Follow.not_since_nil, nofun⟩
  jobs := nofun

theorem Inv.publish {s : State} (h : Inv lightIds s) (prev value : Signals) :
    Inv lightIds { s with prev, log := s.log ++ [value] } where
  grabber := h.grabber.publish value
  level2 := h.level2.publish value
  light := h.light.publish value
  jobs e he := by
    obtain ⟨v, hv, hleft⟩ := h.jobs e he
    have hlt := (List.getElem?_eq_some_iff.1 hv).1
    exact ⟨v, by rw [List.getElem?_append_left hlt, hv], hleft⟩

theorem step_inv (hids : ∀ id ∈ lightIds, id < 512) (s : State) (e : Event) (h : Inv lightIds s) (he : e.Settable) :
    Inv lightIds (step lightIds cfg s e) := by
  cases e with
  | sample value =>
    simp only [step, dioReadTask]
    split
    · simpa using ⟨h.grabber, h.level2, h.light, h.jobs⟩
    · exact h.publish value value
  | grabber => exact ⟨h.grabber.read, h.level2, h.light, h.jobs⟩
  | level2 => exact ⟨h.grabber, h.level2.read, h.light, h.jobs⟩
  | light => exact ⟨h.grabber, h.level2, h.light.read hids, h.jobs⟩
  | inference =>
    refine ⟨h.grabber, h.level2, h.light, ?_⟩
    simp only [step, Follow.Reader.read]
    cases hm : s.log[s.inference.seen]? with
    | none => exact h.jobs
    | some value =>
      simp only [onInference, monitorSignals_lineText]
      intro e he
      rcases List.mem_append.1 he with hold | hnew
      · exact h.jobs e hold
      · obtain ⟨job, hjob, rfl⟩ : ∃ job, run cfg value s.inference.state.jobLv2Info = some job ∧
            (s.inference.seen, job) = e := by simpa using hnew
        refine ⟨value, hm, ?_⟩
        by_contra hleft
        rw [run, if_neg hleft] at hjob
        cases hjob
  | lightSet values => exact ⟨h.grabber, h.level2, h.light.set hids he, h.jobs⟩
  | lightOff => exact ⟨h.grabber, h.level2, h.light.off hids, h.jobs⟩
  | addJobLv2Info info => exact ⟨h.grabber, h.level2, h.light, h.jobs⟩

/-- In every run, whatever the pace of the subscribers and whenever the window sets
the lights: the cameras stream while a bar passes by the messages that were handled.
Where the lights have handled as many and were not set since the last bar came in or
left, they show the brightness that is remembered, if it is one for all lights,
while the cameras stream, and nothing else. A job is put while no bar passes, as
long as none came in after its message. Where the Level2 interface has handled as
many and uses its data while the cameras stream, the line is not online. -/
theorem signals_agree (hids : ∀ id ∈ lightIds, id < 512) (cfg : Config) (evs : List Event)
    (hset : ∀ e ∈ evs, e.Settable) :
    let s := runs (step lightIds cfg) init evs
    (s.grabber.state.imageStreamEnable = true ↔ Passing (s.log.take s.grabber.seen)) ∧
    (s.light.seen = s.grabber.seen → s.manual = false →
      if s.grabber.state.imageStreamEnable then
        lightIds.length = s.light.state.brightnessArray.length → Lit lightIds s.light.state
      else Dark lightIds s.light.state) ∧
    (∀ e ∈ s.inference.state.jobs, e.1 < s.grabber.seen →
      (∀ value ∈ (s.log.take s.grabber.seen).drop (e.1 + 1), enters value = false) →
      s.grabber.state.imageStreamEnable = false) ∧
    (s.level2.seen = s.grabber.seen → s.grabber.state.imageStreamEnable = true → s.level2.state.ignore = false →
      s.level2.state.isOnline = false) := by
  intro s
  have hinv : Inv lightIds s :=
    runs_inv (Inv lightIds) (step_inv hids) init_inv ((stepsMeet_forall_iff init evs).2 hset)
  have hstream := Follows.grabber hinv.grabber
  refine ⟨hstream, ?_, ?_, ?_⟩
  · intro hseen hmanual
    have hlit := hinv.light.lit hmanual
    have hdark := hinv.light.dark hmanual
    rw [hseen] at hlit hdark
    split
    · rename_i henable
      exact hlit (hstream.1 henable)
    · rename_i henable
      exact hdark fun hp => henable (hstream.2 hp)
  · intro e he hlt hno
    obtain ⟨value, hvalue, hleft⟩ := hinv.jobs e he
    have hget : (s.log.take s.grabber.seen)[e.1]? = some value := by rw [List.getElem?_take_of_lt hlt, hvalue]
    have hnot := not_passing_of_left hget hleft hno
    rw [← Bool.not_eq_true, hstream]
    exact hnot
  · intro hseen henable hignore
    refine Follows.level2 hinv.level2 ?_ hignore
    rw [hseen]
    exact hstream.1 henable

/-- Two lights are set, a bar comes in, and the lines go off. -/
def barIn : List Event :=
  [.lightSet [200, 100], .sample ⟨true, false, true, false⟩, .sample .off, .light, .grabber, .level2, .light, .grabber,
    .level2]

/-- The lines come back without the bar. -/
def barOut : List Event :=
  [.addJobLv2Info ⟨[], 0, 0, [], [], [], [], []⟩, .sample ⟨false, false, true, false⟩, .inference, .inference, .inference,
    .light, .grabber, .level2]

theorem signals_agree_bar : ∃ s s' : State,
    s = runs (step [1, 2] ⟨[], [], false⟩) init barIn ∧
    s' = runs (step [1, 2] ⟨[], [], false⟩) init (barIn ++ barOut) ∧
    (s.grabber.state.imageStreamEnable = true ∧ Lit [1, 2] s.light.state ∧ s.light.state.brightnessArray = [200, 100] ∧
      s.level2.state.ignore = false ∧ s.level2.state.isOnline = false) ∧
    (s'.inference.state.jobs.map Prod.fst = [2] ∧ s'.grabber.state.imageStreamEnable = false ∧
      Dark [1, 2] s'.light.state) := by
  have hids : ∀ id ∈ [1, 2], id < 512 := by decide
  have hset : ∀ e ∈ barIn ++ barOut, e.Settable := by
    have hbytes : AreBytes [200, 100] := by
      unfold AreBytes
      decide
    simp only [barIn, barOut, List.cons_append, List.nil_append, List.forall_mem_cons]
    exact ⟨hbytes, trivial, trivial, trivial, trivial, trivial, trivial, trivial, trivial, trivial, trivial, trivial,
      trivial, trivial, trivial, trivial, trivial, List.forall_mem_nil _⟩
  have hin := signals_agree hids ⟨[], [], false⟩ barIn fun e he => hset e (List.mem_append_left _ he)
  have hout := signals_agree hids ⟨[], [], false⟩ (barIn ++ barOut) hset
  refine ⟨_, _, rfl, rfl, ?_, ?_⟩
  · have hseen : (runs (step [1, 2] ⟨[], [], false⟩) init barIn).light.seen = 2 ∧
        (runs (step [1, 2] ⟨[], [], false⟩) init barIn).grabber.seen = 2 ∧
        (runs (step [1, 2] ⟨[], [], false⟩) init barIn).level2.seen = 2 := by decide +kernel
    have hflags : (runs (step [1, 2] ⟨[], [], false⟩) init barIn).manual = false ∧
        (runs (step [1, 2] ⟨[], [], false⟩) init barIn).grabber.state.imageStreamEnable = true ∧
        (runs (step [1, 2] ⟨[], [], false⟩) init barIn).level2.state.ignore = false ∧
        (runs (step [1, 2] ⟨[], [], false⟩) init barIn).light.state.brightnessArray = [200, 100] := by decide +kernel
    generalize runs (step [1, 2] ⟨[], [], false⟩) init barIn = s at hin hseen hflags ⊢
    obtain ⟨hlight, hgrabber, hlevel2⟩ := hseen
    obtain ⟨hmanual, hon, hignore, hremember⟩ := hflags
    obtain ⟨-, hlights, -, hoffline⟩ := hin
    have hlit := hlights (hlight.trans hgrabber.symm) hmanual
    rw [if_pos hon] at hlit
    exact ⟨hon, hlit (by rw [hremember]; rfl), hremember, hignore, hoffline (hlevel2.trans hgrabber.symm) hon hignore⟩
  · have hseen : (runs (step [1, 2] ⟨[], [], false⟩) init (barIn ++ barOut)).light.seen = 3 ∧
        (runs (step [1, 2] ⟨[], [], false⟩) init (barIn ++ barOut)).grabber.seen = 3 ∧
        (runs (step [1, 2] ⟨[], [], false⟩) init (barIn ++ barOut)).log.length = 3 := by decide +kernel
    have hflags : (runs (step [1, 2] ⟨[], [], false⟩) init (barIn ++ barOut)).manual = false ∧
        (runs (step [1, 2] ⟨[], [], false⟩) init (barIn ++ barOut)).inference.state.jobs.map Prod.fst = [2] := by
      decide +kernel
    generalize runs (step [1, 2] ⟨[], [], false⟩) init (barIn ++ barOut) = s at hout hseen hflags ⊢
    obtain ⟨hlight, hgrabber, hlog⟩ := hseen
    obtain ⟨hmanual, hjob⟩ := hflags
    obtain ⟨-, hlights, hjobs, -⟩ := hout
    obtain ⟨e, he, hmessage⟩ : ∃ e ∈ s.inference.state.jobs, e.1 = 2 := List.mem_map.1 (by rw [hjob]; decide)
    -- the job was put at the last message
    have hoff := hjobs e he (by omega) (by rw [hmessage, List.drop_eq_nil_of_le (by simp; omega)]; exact nofun)
    have hdark := hlights (hlight.trans hgrabber.symm) hmanual
    rw [if_neg (by rw [hoff]; exact Bool.false_ne_true)] at hdark
    exact ⟨hjob, hoff, hdark⟩

end FlameSdd.LineFanOut
