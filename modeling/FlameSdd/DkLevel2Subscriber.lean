import FlameSdd.Json
import FlameSdd.SysLib.JsonTail
import Mathlib.Data.List.Sort
/-!
# Level2 data on its way to the monitor

`data_pack.dump()` writes the text that `DKLevel2DataSubscriber` decodes, after
it made a quote of every apostrophe. The object arrives exactly when no text in
it holds an apostrophe: `monitor_reads_iff`.
-/
open SysLib SysLib.JsonText

namespace FlameSdd.DkLevel2Subscriber

/-! ## The text -/

/-- A flat `json` object. -/
structure DataPack where
  members : Object
  nodup : (members.map Prod.fst).Nodup

/-- The members as `std::map` keeps them. -/
def DataPack.inOrder (pack : DataPack) : Object := pack.members.insertionSort fun a b => a.1 ≤ b.1

/-- `dump`, which throws on a text that is not UTF-8. -/
def dump (pack : DataPack) : Except Exn Bytes :=
  if pack.members.isUtf8 then .ok (print pack.inOrder) else .error .typeError

/-! ## The subscriber -/

/-- What one turn of `run` can raise. -/
inductive RunError where
  | unicodeDecodeError
  | jsonDecodeError
  | typeError
  deriving DecidableEq, Repr

/-- `json.loads(data.decode('utf8').replace("'", '"'))`. -/
def decode (data : Bytes) : Except RunError Value :=
  if Utf8.valid data then
    match loads (exchange data) with
    | some v => .ok v
    | none => .error .jsonDecodeError
  else .error .unicodeDecodeError

/-- The signals of the subscriber; both carry a `dict`. -/
inductive Signal where
  | level2DataUpdate (data : List (Bytes × Value))
  | labelingJob (data : List (Bytes × Value))

/-- `emit` on a decoded value. -/
def emit (signal : List (Bytes × Value) → Signal) : Value → Except RunError (Option Signal)
  | .obj d => .ok (some (signal d))
  | _ => .error .typeError

/-- One message in `run`. -/
def onMessage (topic data : Bytes) : Except RunError (Option Signal) :=
  if Utf8.valid topic then
    if topic = ascii "lv2_dispatch" then do emit .level2DataUpdate (← decode data)
    else if topic = ascii "labeling_job_dispatch" then do emit .labelingJob (← decode data)
    else .ok none
  else .error .unicodeDecodeError

/-- The loop passes over a `JSONDecodeError`, and breaks at any other. -/
def goesOn : Except RunError (Option Signal) → Bool
  | .ok _ => true
  | .error .jsonDecodeError => true
  | .error _ => false

/-! ## What arrives -/

theorem inOrder_perm (pack : DataPack) : pack.inOrder.Perm pack.members := List.perm_insertionSort _ _

theorem inOrder_nodup (pack : DataPack) : (pack.inOrder.map Prod.fst).Nodup :=
  ((inOrder_perm pack).map Prod.fst).nodup_iff.2 pack.nodup

theorem dump_ok_iff {pack : DataPack} {data : Bytes} :
    dump pack = .ok data ↔ pack.members.isUtf8 = true ∧ data = print pack.inOrder := by
  unfold dump
  split
  · rename_i h
    simp [h, eq_comm]
  · rename_i h
    simp [h]

/-- What was dumped is decoded as its text is. -/
theorem decode_dump {pack : DataPack} {data : Bytes} (h : dump pack = .ok data) :
    decode data = match loads (exchange (print pack.inOrder)) with
      | some v => .ok v
      | none => .error .jsonDecodeError := by
  obtain ⟨hutf8, rfl⟩ := dump_ok_iff.1 h
  have hsorted : pack.inOrder.isUtf8 = true := by
    rw [Object.isUtf8, List.all_eq_true]
    intro e he
    exact List.all_eq_true.1 hutf8 e ((inOrder_perm pack).mem_iff.1 he)
  rw [decode, if_pos (valid_print hsorted)]

/-- A text that was dumped is read as an object, if it is read at all. -/
theorem loads_dumped {m : Object} {v : Value} (h : loads (exchange (print m)) = some v) : ∃ d, v = .obj d := by
  have hbrace : ∃ u, exchange (print m) = 0x7b :: u := by
    cases m with
    | nil => exact ⟨_, rfl⟩
    | cons e m => exact ⟨_, rfl⟩
  obtain ⟨u, hu⟩ := hbrace
  rw [hu] at h
  obtain ⟨rest, -, ⟨-, rfl⟩ | ⟨fuel, l, -, rfl⟩⟩ := loads_brace h
  · exact ⟨[], rfl⟩
  · exact ⟨dict l, rfl⟩

/-- Dumped data never ends the loop: what cannot be decoded is passed over. -/
theorem goesOn_dump {pack : DataPack} {topic data : Bytes} (htopic : Utf8.valid topic = true)
    (h : dump pack = .ok data) : goesOn (onMessage topic data) = true := by
  have hemit : ∀ signal, goesOn (do emit signal (← decode data)) = true := by
    intro signal
    rw [decode_dump h]
    split
    · rename_i v hv
      obtain ⟨d, rfl⟩ := loads_dumped hv
      rfl
    · rfl
  rw [onMessage, if_pos htopic]
  split
  · exact hemit _
  · split
    · exact hemit _
    · rfl

/-- What the window is sent is what was decoded. -/
theorem decode_of_update {data : Bytes} {d : List (Bytes × Value)}
    (h : onMessage (ascii "lv2_dispatch") data = .ok (some (.level2DataUpdate d))) : decode data = .ok (.obj d) := by
  rw [onMessage, if_pos (by decide), if_pos rfl] at h
  cases hdata : decode data with
  | error e =>
    rw [hdata] at h
    cases h
  | ok v =>
    rw [hdata] at h
    cases v with
    | obj d' =>
      obtain ⟨⟩ := Except.ok.inj h
      rfl
    | _ => cases h

/-- The monitor reads the object that was dumped exactly when no text in it
holds an apostrophe. -/
theorem monitor_reads_iff {pack : DataPack} {data : Bytes} (h : dump pack = .ok data) :
    (∃ d, decode data = .ok (.obj d) ∧ d.Perm pack.members.value) ↔ pack.members.NoApostrophe := by
  have hperm : pack.inOrder.value.Perm pack.members.value := (inOrder_perm pack).map _
  have hsame : pack.inOrder.NoApostrophe ↔ pack.members.NoApostrophe := by
    apply forall_congr'
    intro e
    rw [(inOrder_perm pack).mem_iff]
  rw [decode_dump h, ← hsame]
  constructor
  · rintro ⟨d, hd, hdperm⟩
    split at hd
    · rename_i v hv
      obtain rfl := Except.ok.inj hd
      exact noApostrophe_of_loads hv fun e he => hdperm.mem_iff.2 (hperm.mem_iff.1 he)
    · cases hd
  · intro hno
    rw [(loads_exchange_iff (inOrder_nodup pack)).2 hno]
    exact ⟨_, rfl, hperm⟩

/-- A plain material number. -/
def plainPack : DataPack := ⟨[(ascii "mt_no", .str (ascii "A-17")), (ascii "fm_length", .int 60)], by decide⟩

theorem monitor_reads_plain :
    (∃ d, decode (ascii "\x7b\"fm_length\":60,\"mt_no\":\"A-17\"\x7d") = .ok (.obj d) ∧
      d.Perm plainPack.members.value) ↔
      plainPack.members.NoApostrophe :=
  monitor_reads_iff (by decide +kernel)

/-- A material number that holds an apostrophe. -/
def quotedPack : DataPack := ⟨[(ascii "mt_no", .str (ascii "A'17"))], by decide⟩

/-- Its text is refused. -/
theorem apostrophe_not_read : ¬ ∀ (pack : DataPack) (data : Bytes), dump pack = .ok data →
    ∃ d, decode data = .ok (.obj d) ∧ d.Perm pack.members.value := by
  intro h
  obtain ⟨d, hd, -⟩ := h quotedPack (ascii "\x7b\"mt_no\":\"A'17\"\x7d") (by decide +kernel)
  have hrefused : (decode (ascii "\x7b\"mt_no\":\"A'17\"\x7d")).isOk = false := by decide +kernel
  rw [hd] at hrefused
  cases hrefused

end FlameSdd.DkLevel2Subscriber
