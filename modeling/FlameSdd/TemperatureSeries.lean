import FlameSdd.SysLib.Deque
import FlameSdd.SysLib.Runs
/-!
# The temperature plot

`on_update_temperature` appends the time of a message to one deque and the value
of each controller to a deque of its own. It stops at the first controller that
the message has no value of, and the deques after it get nothing: `aligned_iff`.
-/
open SysLib

namespace FlameSdd.TemperatureSeries

/-- A message: when it was handled, and the values of the controllers that could
be read. -/
structure Values (T V : Type) where
  now : T
  value : Nat → Option V

/-- An entry of a deque, with the number of the message that it comes from. -/
abbrev Entry (α : Type) := Nat × α

/-- `__frame_temperature_x` and `__frame_temperature_y`. -/
structure State (T F : Type) (maxlen : Nat) where
  messages : Nat
  x : Deque (Entry T) maxlen
  y : List (Deque (Entry F) maxlen)

section

variable {T V F : Type} {maxlen : Nat} (float : V → Option F) (temperatureIds : List Nat)

/-- `deque(maxlen=...)`, one for the time and one for each controller. -/
def init : State T F maxlen := ⟨0, .empty, temperatureIds.map fun _ => .empty⟩

/-- `float(values[str(id)])`, which raises for a value that is missing or no number. -/
def reading (values : Values T V) (id : Nat) : Option F := values.value id >>= float

/-- The loop over `temperature_ids` that appends, up to the first exception. -/
def appendValues (message : Nat) (values : Values T V) :
    List Nat → List (Deque (Entry F) maxlen) → List (Deque (Entry F) maxlen)
  | id :: ids, d :: ds =>
    match reading float values id with
    | none => d :: ds
    | some v => d.append (message, v) :: appendValues message values ids ds
  | _, ds => ds

/-- `on_update_temperature`. -/
def onUpdateTemperature (s : State T F maxlen) (values : Values T V) : State T F maxlen where
  messages := s.messages + 1
  x := s.x.append (s.messages, values.now)
  y := appendValues float s.messages values temperatureIds s.y

/-- The deques have the same length, and their entries come from the same messages. -/
def Aligned (s : State T F maxlen) : Prop := ∀ d ∈ s.y, d.items.map Prod.fst = s.x.items.map Prod.fst

instance (s : State T F maxlen) : Decidable (Aligned s) :=
  inferInstanceAs (Decidable (∀ d ∈ s.y, d.items.map Prod.fst = s.x.items.map Prod.fst))

/-- Every controller has a value in the message. -/
def Complete (values : Values T V) : Prop := ∀ id ∈ temperatureIds, (reading float values id).isSome

/-- What every state has: a deque for each controller, and only entries of
messages that were handled. -/
structure Wf (s : State T F maxlen) : Prop where
  length : s.y.length = temperatureIds.length
  x : ∀ e ∈ s.x.items, e.1 < s.messages
  y : ∀ d ∈ s.y, ∀ e ∈ d.items, e.1 < s.messages

variable {float temperatureIds}

theorem appendValues_length (message : Nat) (values : Values T V) (ids : List Nat) (ds : List (Deque (Entry F) maxlen)) :
    (appendValues float message values ids ds).length = ds.length := by
  induction ids generalizing ds with
  | nil => rfl
  | cons id ids ih =>
    cases ds with
    | nil => rfl
    | cons d ds =>
      rw [appendValues]
      split
      · rfl
      · simp [ih]

/-- A deque after the loop is as before, or has an entry of the message more. -/
theorem mem_appendValues {message : Nat} {values : Values T V} {ids : List Nat} {ds : List (Deque (Entry F) maxlen)}
    {d : Deque (Entry F) maxlen} (h : d ∈ appendValues float message values ids ds) :
    d ∈ ds ∨ ∃ d' ∈ ds, ∃ v, d = d'.append (message, v) := by
  induction ids generalizing ds with
  | nil => exact .inl h
  | cons id ids ih =>
    cases ds with
    | nil => exact .inl h
    | cons d0 ds =>
      rw [appendValues] at h
      split at h
      · exact .inl h
      · rename_i v _
        rcases List.mem_cons.1 h with rfl | h
        · exact .inr ⟨d0, List.mem_cons_self, v, rfl⟩
        · rcases ih h with hold | ⟨d', hd', v', rfl⟩
          · exact .inl (List.mem_cons_of_mem _ hold)
          · exact .inr ⟨d', List.mem_cons_of_mem _ hd', v', rfl⟩

theorem onUpdateTemperature_wf {s : State T F maxlen} (h : Wf temperatureIds s) (values : Values T V) :
    Wf temperatureIds (onUpdateTemperature float temperatureIds s values) where
  length := (appendValues_length _ _ _ _).trans h.length
  x := by
    intro e he
    rcases Deque.mem_append he with he | rfl
    · exact Nat.lt_succ_of_lt (h.x e he)
    · exact Nat.lt_succ_self _
  y := by
    intro d hd e he
    rcases mem_appendValues hd with hold | ⟨d', hd', v, rfl⟩
    · exact Nat.lt_succ_of_lt (h.y d hold e he)
    · rcases Deque.mem_append he with he | rfl
      · exact Nat.lt_succ_of_lt (h.y d' hd' e he)
      · exact Nat.lt_succ_self _

/-- A complete message goes to all deques. -/
theorem appendValues_complete {message : Nat} {values : Values T V} {ids : List Nat}
    {ds : List (Deque (Entry F) maxlen)} (hlen : ds.length = ids.length)
    (h : ∀ id ∈ ids, (reading float values id).isSome) {d : Deque (Entry F) maxlen}
    (hd : d ∈ appendValues float message values ids ds) : ∃ d' ∈ ds, ∃ v, d = d'.append (message, v) := by
  induction ids generalizing ds with
  | nil =>
    rw [List.length_eq_zero_iff.1 hlen] at hd
    cases hd
  | cons id ids ih =>
    obtain ⟨d0, ds, rfl⟩ := List.exists_cons_of_length_eq_add_one hlen
    obtain ⟨hid, hids⟩ := List.forall_mem_cons.1 h
    obtain ⟨v, hv⟩ := Option.isSome_iff_exists.1 hid
    simp only [appendValues, hv] at hd
    rcases List.mem_cons.1 hd with rfl | hd
    · exact ⟨d0, List.mem_cons_self, v, rfl⟩
    · obtain ⟨d', hd', v', heq⟩ := ih (Nat.succ.inj hlen) hids hd
      exact ⟨d', List.mem_cons_of_mem _ hd', v', heq⟩

/-- The deque of a controller that has no value gets nothing. -/
theorem appendValues_incomplete {message : Nat} {values : Values T V} {ids : List Nat}
    {ds : List (Deque (Entry F) maxlen)} (hlen : ds.length = ids.length)
    (h : ¬∀ id ∈ ids, (reading float values id).isSome) : ∃ d ∈ ds, d ∈ appendValues float message values ids ds := by
  induction ids generalizing ds with
  | nil => exact absurd (by simp) h
  | cons id ids ih =>
    obtain ⟨d0, ds, rfl⟩ := List.exists_cons_of_length_eq_add_one hlen
    rw [appendValues]
    cases hv : reading float values id with
    | none => exact ⟨d0, List.mem_cons_self, List.mem_cons_self⟩
    | some v =>
      rw [List.forall_mem_cons, hv] at h
      obtain ⟨d, hd, hd'⟩ := ih (Nat.succ.inj hlen) fun hids => h ⟨rfl, hids⟩
      exact ⟨d, List.mem_cons_of_mem _ hd, List.mem_cons_of_mem _ hd'⟩

/-- An update keeps the deques aligned exactly when its message is complete. -/
theorem aligned_step_iff (hmax : 0 < maxlen) {s : State T F maxlen} (hw : Wf temperatureIds s) (h : Aligned s)
    (values : Values T V) :
    Aligned (onUpdateTemperature float temperatureIds s values) ↔ Complete float temperatureIds values := by
  constructor
  · intro ha
    by_contra hc
    obtain ⟨d, hold, hnew⟩ := @appendValues_incomplete _ _ _ _ float s.messages _ _ _ hw.length hc
    -- the time of the message is there, and its value is not
    have hx : s.messages ∈ d.items.map Prod.fst := by
      rw [ha d hnew]
      exact List.mem_map_of_mem (Deque.self_mem_append hmax s.x (s.messages, values.now))
    obtain ⟨e, he, heq⟩ := List.mem_map.1 hx
    exact absurd (hw.y d hold e he) (by omega)
  · intro hc d hd
    obtain ⟨d', hd', v, rfl⟩ := appendValues_complete hw.length hc hd
    exact Deque.map_append_congr (h d' hd') rfl

theorem init_wf : Wf temperatureIds (init temperatureIds : State T F maxlen) where
  length := List.length_map _
  x := by simp [init]
  y := by simp [init]

theorem init_aligned : Aligned (init temperatureIds : State T F maxlen) := by
  simp [Aligned, init]

theorem aligned_of_zero (s : State T F 0) : Aligned s := by
  intro d _
  rw [d.items_of_zero, s.x.items_of_zero]
  rfl

variable (float temperatureIds)

/-- After every update the entries of all deques come from the same messages,
exactly when every message has a value of every controller, or the deques hold
nothing, or there is only the one of the time. -/
theorem aligned_iff (maxlen : Nat) (messages : List (Values T V)) :
    StepsMeet (onUpdateTemperature float temperatureIds)
        (fun s values => Aligned (onUpdateTemperature float temperatureIds s values))
        (init temperatureIds : State T F maxlen) messages ↔
      maxlen = 0 ∨ temperatureIds = [] ∨ ∀ values ∈ messages, Complete float temperatureIds values := by
  rcases Nat.eq_zero_or_pos maxlen with rfl | hmax
  · refine iff_of_true ?_ (.inl rfl)
    exact (stepsMeet_iff (I := fun _ => True) (P := fun _ _ => True)
      (fun _ _ _ => iff_true_intro (aligned_of_zero _)) (fun _ _ _ _ => trivial) trivial messages).2
      (stepsMeet_true _ _)
  have hwf : ∀ (s : State T F maxlen) (values : Values T V), Wf temperatureIds s →
      Wf temperatureIds (onUpdateTemperature float temperatureIds s values) := fun _ values hw =>
    onUpdateTemperature_wf hw values
  have hrun := stepsMeet_inv_iff hwf (fun s values hw ha => aligned_step_iff hmax hw ha values) init_wf init_aligned
    messages
  rw [hrun, stepsMeet_forall_iff]
  constructor
  · exact fun h => .inr (.inr h)
  · rintro (h0 | rfl | h)
    · omega
    · exact fun values _ => by simp [Complete]
    · exact h

end

/-- The values of the controllers that could be read, at a time. -/
def reply (now : Nat) (value : Nat → Option Nat) : Values Nat Nat := ⟨now, value⟩

/-- The second message has no value of the second controller. -/
def partialReply : List (Values Nat Nat) := [reply 10 some, reply 11 fun id => if id = 2 then none else some id]

theorem not_aligned_partial :
    ¬StepsMeet (onUpdateTemperature some [1, 2])
      (fun s values => Aligned (onUpdateTemperature some [1, 2] s values))
      (init [1, 2] : State Nat Nat 200) partialReply := by
  rintro ⟨-, h, -⟩
  exact absurd h (by decide)

end FlameSdd.TemperatureSeries
