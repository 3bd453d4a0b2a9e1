import FlameSdd.DefectNames
import FlameSdd.ImageField
import FlameSdd.JobComplete
import FlameSdd.LabelUpdate
/-!
# Labels on their way to the window

A labeling packet holds up to fifteen names. The listener publishes it, the
subscriber decodes its text, and the window reads the names off the data by their
numbers: those of the packet, in order and without the blank ones.
-/
open SysLib SysLib.JsonText SysLib.PackedStruct FlameSdd.Protocol FlameSdd.Level2Interface FlameSdd.DkLevel2Subscriber
  FlameSdd.JobComplete FlameSdd.ModelInference FlameSdd.ImageField FlameSdd.LabelUpdate

namespace FlameSdd.LabelDelivery

/-! ## The data -/

/-- What one packet brings to `on_update_label`. -/
def labelingJob (packet : Bytes) : Option (List (Bytes × Value)) :=
  match onRawReceived false packet packet.length with
  | .ok [.labelingJobDispatch pack] => do
    let pack ← dataPack? pack
    let data ← (dump pack).toOption
    match (onMessage (ascii "labeling_job_dispatch") data).toOption with
    | some (some (.labelingJob d)) => some d
    | _ => none
  | _ => none

/-- A labeling packet that can be decoded and whose texts come through. -/
structure Readable (packet : Bytes) : Prop where
  code : packet.take 4 = ascii "1002"
  length : packet.length = sizeof lv2DefectLabeled
  prints : labeledPrints packet = true
  noApostrophe : ∀ e ∈ labeledMembers, 0x27 ∉ text lv2DefectLabeled packet e.2

/-- The names that are not blank. -/
def names (packet : Bytes) : List Bytes := (imageFields.map (text lv2DefectLabeled packet)).filter (· ≠ [])

/-- The members of the pack as they are dumped. -/
def labeledObject (packet : Bytes) : Object :=
  labeledMembers.map fun e => (ascii e.1, .str (text lv2DefectLabeled packet e.2))

theorem labeledObject_nodup (packet : Bytes) : ((labeledObject packet).map Prod.fst).Nodup := by
  have hnodup : (labeledMembers.map fun e => ascii e.1).Nodup := by decide
  rwa [labeledObject, List.map_map]

def labeledDataPack (packet : Bytes) : DataPack := ⟨labeledObject packet, labeledObject_nodup packet⟩

theorem dataPack?_labeledPack (packet : Bytes) : dataPack? (labeledPack packet) = some (labeledDataPack packet) := by
  have hmembers : ∀ l : List (String × String),
      ((l.map fun e => (e.1, Json.str (text lv2DefectLabeled packet e.2))).mapM
        fun e => (scalar? e.2).map fun v => (ascii e.1, v)) =
      some (l.map fun e => (ascii e.1, Scalar.str (text lv2DefectLabeled packet e.2))) := by
    intro l
    induction l with
    | nil => rfl
    | cons e l ih =>
      rw [List.map_cons, List.mapM_cons, ih]
      rfl
  rw [labeledPack, dataPack?, hmembers]
  show (if h : ((labeledObject packet).map Prod.fst).Nodup then some (⟨labeledObject packet, h⟩ : DataPack) else none) = _
  exact dif_pos (labeledObject_nodup packet)

variable {packet : Bytes}

theorem Readable.onRawReceived_eq (h : Readable packet) :
    onRawReceived false packet packet.length = .ok [.labelingJobDispatch (labeledPack packet)] := by
  have hdump : (labeledPack packet).dump = .ok (labeledPack packet) :=
    Json.dump_ok_iff.2 ⟨by rw [labeledPack_dumps, h.prints], rfl⟩
  unfold onRawReceived
  rw [List.take_length, h.code, if_neg (by decide), if_neg (by decide), if_pos rfl, if_pos h.length]
  show (do let data ← (labeledPack packet).dump; return [Publish.labelingJobDispatch data]) = _
  rw [hdump]
  rfl

/-- What is dumped is UTF-8 and holds no apostrophe. -/
theorem Readable.isUtf8 (h : Readable packet) : (labeledObject packet).isUtf8 = true := by
  have hkeys : ∀ e ∈ labeledMembers, Utf8.valid (ascii e.1) = true := by decide
  rw [labeledObject, Object.isUtf8, List.all_map, List.all_eq_true]
  intro e he
  have htext : Utf8.valid (text lv2DefectLabeled packet e.2) = true := List.all_eq_true.1 h.prints e he
  simp [hkeys e he, htext]

theorem Readable.object_noApostrophe (h : Readable packet) : (labeledObject packet).NoApostrophe := by
  have hkeys : ∀ e ∈ labeledMembers, (0x27 : UInt8) ∉ ascii e.1 := by decide
  intro e he
  obtain ⟨e, hmem, rfl⟩ := List.mem_map.1 he
  refine ⟨hkeys e hmem, ?_⟩
  rintro t ⟨⟩
  exact h.noApostrophe e hmem

/-- The data holds the text of every member under its key. -/
theorem Readable.labelingJob_lookup (h : Readable packet) :
    ∃ d, labelingJob packet = some d ∧
      ∀ e ∈ labeledMembers, d.lookup (ascii e.1) = some (.str (text lv2DefectLabeled packet e.2)) := by
  have hno : (labeledDataPack packet).inOrder.NoApostrophe :=
    fun e he => h.object_noApostrophe e ((inOrder_perm _).mem_iff.1 he)
  have hdump : dump (labeledDataPack packet) = .ok (print (labeledDataPack packet).inOrder) :=
    dump_ok_iff.2 ⟨h.isUtf8, rfl⟩
  have hdecode : decode (print (labeledDataPack packet).inOrder) = .ok (.obj (labeledDataPack packet).inOrder.value) := by
    rw [decode_dump hdump, (loads_exchange_iff (inOrder_nodup _)).2 hno]
  have hmessage : onMessage (ascii "labeling_job_dispatch") (print (labeledDataPack packet).inOrder) =
      .ok (some (.labelingJob (labeledDataPack packet).inOrder.value)) := by
    rw [onMessage, if_pos (by decide), if_neg (by decide), if_pos rfl, hdecode]
    rfl
  refine ⟨(labeledDataPack packet).inOrder.value, ?_, fun e he => ?_⟩
  · simp only [labelingJob, h.onRawReceived_eq, dataPack?_labeledPack, hdump, hmessage, Except.toOption,
      Option.bind_eq_bind, Option.bind_some]
  · have hnodup : ((labeledDataPack packet).inOrder.value.map Prod.fst).Nodup := by
      have hnodup := inOrder_nodup (labeledDataPack packet)
      rwa [Object.value, List.map_map]
    refine (lookup_eq_some_iff_mem hnodup).2 ?_
    rw [Object.value, List.mem_map]
    have hmem : (ascii e.1, Scalar.str (text lv2DefectLabeled packet e.2)) ∈ labeledObject packet :=
      List.mem_map_of_mem (f := fun e => (ascii e.1, Scalar.str (text lv2DefectLabeled packet e.2))) he
    exact ⟨_, (inOrder_perm (labeledDataPack packet)).mem_iff.2 hmem, rfl⟩

/-! ## The names -/

/-- The numbers of the loop go through the names of the packet in order. -/
theorem keys_eq : ((List.range' 1 15).map fun id => ascii "mea_image" ++ decimal id) =
    (labeledMembers.drop 2).map fun e => ascii e.1 := by decide

theorem labeledName?_text (s : Bytes) :
    labeledName? (some (.str s)) = if s = [] then none else (Window.parseLabeledFilename s).toOption := rfl

theorem filterMap_labeledName? (l : List Bytes) :
    (l.filterMap fun s => labeledName? (some (.str s))) =
      (l.filter (· ≠ [])).filterMap fun s => (Window.parseLabeledFilename s).toOption := by
  induction l with
  | nil => rfl
  | cons s l ih =>
    rw [List.filterMap_cons, labeledName?_text]
    by_cases hs : s = []
    · rw [if_pos hs, List.filter_cons_of_neg (by simpa using hs)]
      exact ih
    · rw [if_neg hs, List.filter_cons_of_pos (by simpa using hs), List.filterMap_cons, ih]

/-- The window reads every name of the packet that it can split. -/
theorem Readable.labeledNames_eq (h : Readable packet) :
    ∃ d, labelingJob packet = some d ∧
      labeledNames d = (names packet).filterMap fun s => (Window.parseLabeledFilename s).toOption := by
  obtain ⟨d, hjob, hlookup⟩ := h.labelingJob_lookup
  refine ⟨d, hjob, ?_⟩
  have hread : labeledNames d = ((List.range' 1 15).map fun id => ascii "mea_image" ++ decimal id).filterMap
      fun k => labeledName? (d.lookup k) := by
    rw [labeledNames, List.filterMap_map]
    rfl
  rw [hread, keys_eq, List.filterMap_map, names, ← filterMap_labeledName?, imageFields, List.map_map, List.filterMap_map]
  refine List.filterMap_congr fun e he => ?_
  show labeledName? (d.lookup (ascii e.1)) = _
  rw [hlookup e (List.mem_of_mem_drop he)]
  rfl

end FlameSdd.LabelDelivery
