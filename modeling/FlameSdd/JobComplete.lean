import FlameSdd.DkLevel2Subscriber
import FlameSdd.Level2Interface
import FlameSdd.Window
/-!
# The job complete packet

An instruction becomes a text for the monitor, a job, a message back to the
Level2 interface, and at last the packet that reports the job. The packet
repeats the identifiers of the instruction, and its count is the number of
frames as long as five digits hold it: `job_complete_echoes`.
-/
open SysLib SysLib.PackedStruct SysLib.JsonText FlameSdd.Protocol FlameSdd.MtStand FlameSdd.Level2Interface
  FlameSdd.DkLevel2Subscriber FlameSdd.ModelInference

namespace FlameSdd.JobComplete

/-! ## The packet -/

/-- `get_current_time`, by `%Y%m%d%H%M%S`. -/
abbrev Timestamp := { s : Bytes // s.length = 14 }

/-- `memcpy` of `left << setw(w) << setfill(' ')`. -/
def leftField (w : Nat) (s : Bytes) : Bytes := (s.rightpad w 0x20).take w

/-- `memcpy` of `right << setw(w) << setfill('0')`. -/
def rightField (w : Nat) (s : Bytes) : Bytes := (s.leftpad w 0x30).take w

@[simp] theorem length_leftField (w : Nat) (s : Bytes) : (leftField w s).length = w := by
  simp only [leftField, List.rightpad, List.length_take, List.length_append, List.length_replicate]
  omega

@[simp] theorem length_rightField (w : Nat) (s : Bytes) : (rightField w s).length = w := by
  simp only [rightField, List.leftpad, List.length_take, List.length_append, List.length_replicate]
  omega

def generatePacketJobComplete (currentTime : Timestamp) (lotNo mtNo mtTypeCd mtStand : Bytes) (frames : Int) :
    Filled sddJobComplete where
  members := [
    ("cTcCode", ascii "1101"),
    ("cDate", currentTime.1),
    ("cTcLength", rightField 6 (decimal (sizeof sddJobComplete))),
    ("cLotNo", leftField 15 lotNo),
    ("cMtNo", leftField 15 mtNo),
    ("cMtTypeCd", leftField 2 mtTypeCd),
    ("cMtStand", leftField 30 mtStand),
    ("cCount", rightField 5 (decimalInt frames)),
    ("cSpare", List.replicate 10 0x30)]
  fits := by
    have hcode : (ascii "1101").length = 4 := rfl
    simp [sddJobComplete, currentTime.2, hcode]

/-- The message of `push_job_complete_to_lv2`, which passes the raw standard for
`mt_stand`. -/
def pushJobCompleteToLv2 (job : Job) (frames : Nat) : Json :=
  .obj [("date", .str job.info.date), ("lot_no", .str job.info.lotNo), ("mt_no", .str job.info.mtNo),
    ("mt_type_cd", .str job.info.mtTypeCd), ("mt_stand", .str job.info.mtStandRaw), ("frames", .int frames)]

/-- `_job_check_work` on one message: the packet that it pushes. -/
def jobCheckWork (currentTime : Timestamp) : Payload → Except Exn (Filled sddJobComplete)
  | none => .error .parseError
  | some data => do
    let lotNo ← data.index "lot_no" >>= Json.getString
    let mtNo ← data.index "mt_no" >>= Json.getString
    let mtTypeCd ← data.index "mt_type_cd" >>= Json.getString
    let mtStand ← data.index "mt_stand" >>= Json.getString
    let frames ← data.index "frames" >>= Json.getInt
    return generatePacketJobComplete currentTime lotNo mtNo mtTypeCd mtStand frames

/-! ## From an instruction to its job -/

def scalar? : Json → Option Scalar
  | .bool b => some (.bool b)
  | .int i => some (.int i)
  | .str s => some (.str s)
  | _ => none

/-- A value of the component as the flat object that is dumped. -/
def dataPack? : Json → Option DataPack
  | .obj m => do
    let members ← m.mapM fun e => (scalar? e.2).map fun v => (ascii e.1, v)
    if h : (members.map Prod.fst).Nodup then some ⟨members, h⟩ else none
  | _ => none

def keyText (k : Bytes) : String := String.ofList (k.map fun c => Char.ofNat c.toNat)

section
variable (floor : Bytes → Int)

mutual
/-- A decoded value as the window reads it; `floor` is what `int` makes of a
spelled floating-point number. -/
def toJson : Value → Json
  | .null => .null
  | .bool b => .bool b
  | .int i => .int i
  | .float text => .float (floor text)
  | .str s => .str s
  | .arr items => .arr (toJsonItems items)
  | .obj members => .obj (toJsonMembers members)

def toJsonItems : List Value → List Json
  | [] => []
  | v :: l => toJson v :: toJsonItems l

def toJsonMembers : List (Bytes × Value) → List (String × Json)
  | [] => []
  | (k, v) :: m => (keyText k, toJson v) :: toJsonMembers m
end

/-- The Level2 data of the pending bar after one packet: the listener publishes
it, the subscriber decodes its text, and the window passes it on. -/
def derivedInfo (presetFiles : List Bytes) (packet : Bytes) : Option JobInfo :=
  match onRawReceived false packet packet.length with
  | .ok [.lv2Dispatch pack] => do
    let pack ← dataPack? pack
    let data ← (dump pack).toOption
    match (onMessage (ascii "lv2_dispatch") data).toOption with
    | some (some (.level2DataUpdate d)) => (Window.onUpdateDkLevel2Data presetFiles (toJson floor (.obj d))).toOption
    | _ => none
  | _ => none

end

/-! ## What the job keeps of the instruction -/

/-- The members behind the date and the length, in the order of their keys. -/
def behindLength (packet : Bytes) (fmSpeed height t1 t2 width : Int) : Object :=
  [(ascii "fm_speed", .int fmSpeed),
   (ascii "lot_no", .str (text lv2MfInstruction packet "cLotNo")),
   (ascii "mt_no", .str (text lv2MfInstruction packet "cMtNo")),
   (ascii "mt_stand", .str (text lv2MfInstruction packet "cMtStand")),
   (ascii "mt_stand_height", .int height),
   (ascii "mt_stand_norm", .str (mtstandNormalize (field lv2MfInstruction "cMtStand" packet))),
   (ascii "mt_stand_raw", .str (field lv2MfInstruction "cMtStand" packet)),
   (ascii "mt_stand_t1", .int t1), (ascii "mt_stand_t2", .int t2), (ascii "mt_stand_width", .int width),
   (ascii "mt_type_cd", .str (text lv2MfInstruction packet "cMtTypeCd"))]

theorem dataPack?_members {m : List (String × Json)} {pack : DataPack} (h : dataPack? (.obj m) = some pack) :
    (m.mapM fun e => (scalar? e.2).map fun v => (ascii e.1, v)) = some pack.members := by
  obtain ⟨members, hm, h⟩ := Option.bind_eq_some_iff.1 h
  rw [hm]
  split at h
  · rw [← Option.some.inj h]
  · cases h

/-- The date comes first in the text of an instruction. -/
theorem dataPack?_instruction {packet : Bytes} {pack : Json} {dp : DataPack} (h : instructionPack packet = .ok pack)
    (hdp : dataPack? pack = some dp) :
    ∃ fmLength fmSpeed height t1 t2 width, dp.inOrder =
      (ascii "date", .str (text lv2MfInstruction packet "cDate")) :: (ascii "fm_length", .int fmLength) ::
        behindLength packet fmSpeed height t1 t2 width := by
  obtain ⟨height, width, t1, t2, fmLength, fmSpeed, -, -, rfl⟩ := instructionPack_eq h
  refine ⟨fmLength, fmSpeed, height, t1, t2, width, ?_⟩
  have hmembers := dataPack?_members hdp
  simp only [List.mapM_cons, List.mapM_nil, scalar?, Option.map_some, Option.bind_eq_bind, Option.bind_some,
    Option.pure_def, Option.some.injEq] at hmembers
  rw [DataPack.inOrder, ← hmembers]
  rfl

/-- The fields of an instruction that the packet repeats. -/
def echoed : List String := ["cLotNo", "cMtNo", "cMtTypeCd", "cMtStand"]

theorem behindLength_noApostrophe {packet : Bytes} (h : ∀ f ∈ echoed, 0x27 ∉ field lv2MfInstruction f packet)
    (fmLength fmSpeed height t1 t2 width : Int) : Object.NoApostrophe
      ((ascii "fm_length", .int fmLength) :: behindLength packet fmSpeed height t1 t2 width) := by
  have hfield : ∀ f ∈ echoed, 0x27 ∉ text lv2MfInstruction packet f :=
    fun f hf hmem => h f hf (List.mem_filter.1 hmem).1
  have hnorm := (kept_notMem (by decide)).mtstandNormalize (h "cMtStand" (by decide))
  have int : ∀ k, 0x27 ∉ ascii k → ∀ i : Int, 0x27 ∉ ascii k ∧ ∀ t, Scalar.int i = .str t → 0x27 ∉ t :=
    fun k hk i => ⟨hk, nofun⟩
  have str : ∀ k, 0x27 ∉ ascii k → ∀ s : Bytes, 0x27 ∉ s → 0x27 ∉ ascii k ∧ ∀ t, Scalar.str s = .str t → 0x27 ∉ t := by
    refine fun k hk s hs => ⟨hk, ?_⟩
    rintro t ⟨⟩
    exact hs
  intro e he
  simp only [behindLength, List.mem_cons, List.not_mem_nil, or_false] at he
  rcases he with rfl | rfl | rfl | rfl | rfl | rfl | rfl | rfl | rfl | rfl | rfl | rfl
  · exact int "fm_length" (by decide) _
  · exact int "fm_speed" (by decide) _
  · exact str "lot_no" (by decide) _ (hfield "cLotNo" (by decide))
  · exact str "mt_no" (by decide) _ (hfield "cMtNo" (by decide))
  · exact str "mt_stand" (by decide) _ (hfield "cMtStand" (by decide))
  · exact int "mt_stand_height" (by decide) _
  · exact str "mt_stand_norm" (by decide) _ hnorm
  · exact str "mt_stand_raw" (by decide) _ (h "cMtStand" (by decide))
  · exact int "mt_stand_t1" (by decide) _
  · exact int "mt_stand_t2" (by decide) _
  · exact int "mt_stand_width" (by decide) _
  · exact str "mt_type_cd" (by decide) _ (hfield "cMtTypeCd" (by decide))

/-! ## What the window reads -/

theorem ascii_keyText (k : Bytes) : ascii (keyText k) = k := by
  have hbyte : ∀ c : UInt8, (Char.ofNat c.toNat).toUInt8 = c := by
    intro c
    have hlt := c.toNat_lt
    have hvalid : c.toNat.isValidChar := .inl (by omega)
    apply UInt8.toNat.inj
    rw [Char.ofNat, dif_pos hvalid]
    show c.toNat % 256 = c.toNat
    omega
  rw [ascii, keyText, String.toList_ofList, List.map_map]
  exact (List.map_congr_left fun c _ => hbyte c).trans (List.map_id k)

theorem member?_toJson (floor : Bytes → Int) (d : List (Bytes × Value)) {k : String} (hk : keyText (ascii k) = k) :
    (toJson floor (.obj d)).member? k = (d.lookup (ascii k)).map (toJson floor) := by
  rw [toJson, Json.member?]
  induction d with
  | nil => simp [toJsonMembers]
  | cons e d ih =>
    obtain ⟨b, v⟩ := e
    rw [toJsonMembers, List.lookup_cons, List.lookup_cons]
    by_cases hb : ascii k = b
    · subst hb
      rw [hk, beq_self_eq_true, beq_self_eq_true]
      rfl
    · have hkey : (k == keyText b) = false := by
        rw [beq_eq_false_iff_ne]
        rintro rfl
        exact hb (ascii_keyText b)
      have hbyte : (ascii k == b) = false := by simpa using hb
      rw [hkey, hbyte]
      exact ih

/-- What `add_job_lv2_info` takes from the data. -/
theorem jobLv2Info_spec {data : Json} {info : JobInfo} (h : Window.jobLv2Info data = .ok info) :
    data.valueString "lot_no" (ascii "-") = .ok info.lotNo ∧ data.valueString "mt_no" (ascii "-") = .ok info.mtNo ∧
      data.valueString "mt_type_cd" (ascii "-") = .ok info.mtTypeCd ∧
      data.valueString "mt_stand_raw" [] = .ok info.mtStandRaw := by
  unfold Window.jobLv2Info at h
  obtain ⟨_, -, h⟩ := bind_eq_ok h
  obtain ⟨_, -, h⟩ := bind_eq_ok h
  obtain ⟨_, -, h⟩ := bind_eq_ok h
  obtain ⟨_, hmtNo, h⟩ := bind_eq_ok h
  obtain ⟨_, hlotNo, h⟩ := bind_eq_ok h
  obtain ⟨_, hmtTypeCd, h⟩ := bind_eq_ok h
  obtain ⟨_, hmtStandRaw, h⟩ := bind_eq_ok h
  obtain ⟨_, -, h⟩ := bind_eq_ok h
  obtain rfl := Except.ok.inj h
  exact ⟨hlotNo, hmtNo, hmtTypeCd, hmtStandRaw⟩

theorem jobLv2Info_of_update {presetFiles : List Bytes} {data : Json} {info : JobInfo}
    (h : Window.onUpdateDkLevel2Data presetFiles data = .ok info) : Window.jobLv2Info data = .ok info := by
  obtain ⟨_, -, h⟩ := bind_eq_ok h
  obtain ⟨_, -, h⟩ := bind_eq_ok h
  obtain ⟨_, -, h⟩ := bind_eq_ok h
  obtain ⟨_, -, h⟩ := bind_eq_ok h
  split at h
  · cases h
  · exact h

/-- The data that the window is sent holds the members of the instruction,
whatever its date held. -/
theorem lookup_decoded {packet data : Bytes} {pack : Json} {dp : DataPack} {d : List (Bytes × Value)}
    (hclean : ∀ f ∈ echoed, 0x27 ∉ field lv2MfInstruction f packet) (hpack : instructionPack packet = .ok pack)
    (hdp : dataPack? pack = some dp) (hdump : dump dp = .ok data) (hdecode : decode data = .ok (.obj d)) :
    d.lookup (ascii "lot_no") = some (.str (text lv2MfInstruction packet "cLotNo")) ∧
      d.lookup (ascii "mt_no") = some (.str (text lv2MfInstruction packet "cMtNo")) ∧
      d.lookup (ascii "mt_type_cd") = some (.str (text lv2MfInstruction packet "cMtTypeCd")) ∧
      d.lookup (ascii "mt_stand_raw") = some (.str (field lv2MfInstruction "cMtStand" packet)) := by
  obtain ⟨fmLength, fmSpeed, height, t1, t2, width, horder⟩ := dataPack?_instruction hpack hdp
  have hloads : loads (exchange (print dp.inOrder)) = some (.obj d) := by
    rw [decode_dump hdump] at hdecode
    split at hdecode
    · rename_i v hv
      rw [hv, Except.ok.inj hdecode]
    · cases hdecode
  rw [horder] at hloads
  obtain ⟨pre, hd⟩ := loads_exchange_tail (c := 0x66) (k := ascii "m_length") rfl (by decide)
    (behindLength_noApostrophe hclean fmLength fmSpeed height t1 t2 width) hloads
  obtain rfl : d = _ := by
    injection hd
  have hkeys : ((Object.value ((ascii "fm_length", .int fmLength) ::
      behindLength packet fmSpeed height t1 t2 width)).map Prod.fst).Nodup := by
    have hnodup : [ascii "fm_length", ascii "fm_speed", ascii "lot_no", ascii "mt_no", ascii "mt_stand",
      ascii "mt_stand_height", ascii "mt_stand_norm", ascii "mt_stand_raw", ascii "mt_stand_t1", ascii "mt_stand_t2",
      ascii "mt_stand_width", ascii "mt_type_cd"].Nodup := by decide
    exact hnodup
  exact ⟨lookup_dict_append pre hkeys rfl, lookup_dict_append pre hkeys rfl, lookup_dict_append pre hkeys rfl,
    lookup_dict_append pre hkeys rfl⟩

/-- The data of a pending bar, on its way from the packet to the window. -/
theorem derivedInfo_decoded {floor : Bytes → Int} {presetFiles : List Bytes} {packet : Bytes} {info : JobInfo}
    (h : derivedInfo floor presetFiles packet = some info) :
    packet.length = sizeof lv2MfInstruction ∧ ∃ pack dp data d, instructionPack packet = .ok pack ∧
      dataPack? pack = some dp ∧ dump dp = .ok data ∧ decode data = .ok (.obj d) ∧
      Window.jobLv2Info (toJson floor (.obj d)) = .ok info := by
  have ok : ∀ {ε α : Type} {x : Except ε α} {a : α}, x.toOption = some a → x = .ok a := by
    intro ε α x a hx
    cases x with
    | error e => cases hx
    | ok b => rw [Option.some.inj hx]
  unfold derivedInfo at h
  split at h
  · rename_i pack hraw
    obtain ⟨-, hlen, hpack⟩ := lv2Dispatch_spec hraw List.mem_cons_self
    rw [List.take_length] at hpack
    obtain ⟨dp, hdp, h⟩ := Option.bind_eq_some_iff.1 h
    obtain ⟨data, hdata, h⟩ := Option.bind_eq_some_iff.1 h
    split at h
    · rename_i d hmessage
      exact ⟨hlen, pack, dp, data, d, hpack, hdp, ok hdata, decode_of_update (ok hmessage), jobLv2Info_of_update (ok h)⟩
    · cases h
  · cases h

/-- A text of the data, as the window reads it. -/
theorem valueString_toJson {floor : Bytes → Int} {d : List (Bytes × Value)} {k : String} {t v dflt : Bytes}
    (hk : keyText (ascii k) = k) (hd : d.lookup (ascii k) = some (.str t))
    (hv : (toJson floor (.obj d)).valueString k dflt = .ok v) : v = t := by
  have hmember : (toJson floor (.obj d)).member? k = some (.str t) := by
    rw [member?_toJson floor d hk, hd, Option.map_some, toJson]
  rw [Json.valueString_of_member hmember] at hv
  exact (Except.ok.inj hv).symm

/-- A pending bar has the texts of its instruction. -/
theorem derivedInfo_spec {floor : Bytes → Int} {presetFiles : List Bytes} {packet : Bytes} {info : JobInfo}
    (hclean : ∀ f ∈ echoed, 0x27 ∉ field lv2MfInstruction f packet)
    (h : derivedInfo floor presetFiles packet = some info) :
    packet.length = sizeof lv2MfInstruction ∧ info.lotNo = text lv2MfInstruction packet "cLotNo" ∧
      info.mtNo = text lv2MfInstruction packet "cMtNo" ∧ info.mtTypeCd = text lv2MfInstruction packet "cMtTypeCd" ∧
      info.mtStandRaw = field lv2MfInstruction "cMtStand" packet := by
  obtain ⟨hlen, pack, dp, data, d, hpack, hdp, hdump, hdecode, hjob⟩ := derivedInfo_decoded h
  obtain ⟨hlot, hmt, htype, hstand⟩ := lookup_decoded hclean hpack hdp hdump hdecode
  obtain ⟨hlotNo, hmtNo, hmtTypeCd, hmtStandRaw⟩ := jobLv2Info_spec hjob
  exact ⟨hlen, valueString_toJson (by decide) hlot hlotNo, valueString_toJson (by decide) hmt hmtNo,
    valueString_toJson (by decide) htype hmtTypeCd, valueString_toJson (by decide) hstand hmtStandRaw⟩

/-! ## The fields of the packet -/

/-- A member that holds an identifier on the left and blanks behind it. -/
def Identifier (s : Bytes) : Prop :=
  ∃ w k, s = w ++ List.replicate k 0x20 ∧ ∀ c ∈ w, 0x21 ≤ c ∧ c ≤ 0x7e ∧ c ≠ 0x22 ∧ c ≠ 0x27

/-- Printable ASCII without apostrophes. -/
def Printable (s : Bytes) : Prop := ∀ c ∈ s, 0x20 ≤ c ∧ c ≤ 0x7e ∧ c ≠ 0x27

theorem isspace_lt {c : UInt8} (h : isspace c = true) : c < 0x21 := by
  unfold isspace at h
  grind

theorem Identifier.noApostrophe {s : Bytes} (h : Identifier s) : 0x27 ∉ s := by
  obtain ⟨w, k, rfl, hw⟩ := h
  intro hmem
  rcases List.mem_append.1 hmem with hmem | hmem
  · exact (hw _ hmem).2.2.2 rfl
  · cases (List.mem_replicate.1 hmem).2

/-- Padded again, an identifier fills its member as before. -/
theorem Identifier.leftField_removeSpace {s : Bytes} (h : Identifier s) : leftField s.length (removeSpace s) = s := by
  obtain ⟨w, k, rfl, hw⟩ := h
  have hkeep : removeSpace w = w := by
    apply List.filter_eq_self.2
    intro c hc
    have hlow : isspace c ≠ true := fun hsp => absurd (isspace_lt hsp) (UInt8.not_lt.2 (hw c hc).1)
    simp [hlow]
  have hdrop : removeSpace (List.replicate k 0x20) = [] := by
    simp [removeSpace, isspace]
  have hall : removeSpace (w ++ List.replicate k 0x20) = w := by
    rw [removeSpace, List.filter_append, ← removeSpace, ← removeSpace, hkeep, hdrop, List.append_nil]
  have hpad : w.rightpad (w ++ List.replicate k 0x20).length 0x20 = w ++ List.replicate k 0x20 := by
    simp [List.rightpad]
  rw [hall, leftField, hpad, List.take_length]

theorem leftField_self (s : Bytes) : leftField s.length s = s := by
  simp [leftField, List.rightpad]

/-- Five digits hold a number below 100000, and no other one. -/
theorem cCount_iff (n : Nat) :
    strtol (rightField 5 (decimalInt ((n : Int).bmod (2 ^ 32)))) = some (n : Int) ↔ n < 100000 := by
  constructor
  · intro h
    simpa using strtol_bound h
  · intro h
    have hint : (n : Int).bmod (2 ^ 32) = n := Int.bmod_eq_of_le (by omega) (by omega)
    have hlen : (decimal n).length ≤ 5 := length_decimal_le (by decide) (by simpa using h)
    have hfield : rightField 5 (decimalInt n) = List.replicate (5 - (decimal n).length) 48 ++ decimal n := by
      rw [rightField, List.leftpad]
      apply List.take_of_length_le
      simp [decimalInt]
      omega
    rw [hint, hfield, strtol_digits (by simp [decimal_ne_nil]) ?_, digitsVal_zeros, digitsVal_decimal]
    intro c hc
    rcases List.mem_append.1 hc with hc | hc
    · rw [(List.mem_replicate.1 hc).2]
      rfl
    · exact decimal_isdigit n c hc

/-- The packet repeats the identifiers of the instruction that the job comes
from, and counts the frames up to 99999. -/
theorem job_complete_echoes {floor : Bytes → Int} {presetFiles : List Bytes} {packet : Bytes} {info : JobInfo} {j : Job}
    (cfg : Config) (value : LineSignal.Signals) (currentTime : Timestamp) (n : Nat)
    (hlotNo : Identifier (field lv2MfInstruction "cLotNo" packet))
    (hmtNo : Identifier (field lv2MfInstruction "cMtNo" packet))
    (hmtTypeCd : Identifier (field lv2MfInstruction "cMtTypeCd" packet))
    (hmtStand : Printable (field lv2MfInstruction "cMtStand" packet))
    (hinfo : derivedInfo floor presetFiles packet = some info) (hjob : run cfg value (some info) = some j) :
    ∃ p, jobCheckWork currentTime (some (pushJobCompleteToLv2 j n)) = .ok p ∧ p.bytes.length = 101 ∧
      (∀ f ∈ echoed, field sddJobComplete f p.bytes = field lv2MfInstruction f packet) ∧
      field sddJobComplete "cTcLength" p.bytes = ascii "000101" ∧
      (strtol (field sddJobComplete "cCount" p.bytes) = some (n : Int) ↔ n < 100000) := by
  have hclean : ∀ f ∈ echoed, 0x27 ∉ field lv2MfInstruction f packet := by
    simp only [echoed, List.forall_mem_cons]
    exact ⟨hlotNo.noApostrophe, hmtNo.noApostrophe, hmtTypeCd.noApostrophe, fun h => (hmtStand _ h).2.2 rfl,
      List.forall_mem_nil _⟩
  obtain ⟨hlen, hlot, hmt, htype, hstand⟩ := derivedInfo_spec hclean hinfo
  have hsize : ∀ f ∈ echoed, (field lv2MfInstruction f packet).length = memberSize lv2MfInstruction f := by
    intro f hf
    have hmember : ∀ f ∈ echoed, f ∈ lv2MfInstruction.map Prod.fst := by decide
    exact field_length hlen.ge (hmember f hf)
  have hpad : ∀ f ∈ echoed, Identifier (field lv2MfInstruction f packet) →
      leftField (memberSize lv2MfInstruction f) (text lv2MfInstruction packet f) = field lv2MfInstruction f packet := by
    intro f hf hid
    rw [← hsize f hf, text, hid.leftField_removeSpace]
  obtain rfl : job cfg info = j := by
    unfold run at hjob
    split at hjob
    · exact Option.some.inj hjob
    · cases hjob
  refine ⟨_, rfl, Filled.length_bytes _, ?_, ?_, ?_⟩
  · simp only [echoed, List.forall_mem_cons]
    refine ⟨?_, ?_, ?_, ?_, List.forall_mem_nil _⟩
    · rw [Filled.field_bytes _ rfl, ← hpad "cLotNo" (by decide) hlotNo, ← hlot]
      rfl
    · rw [Filled.field_bytes _ rfl, ← hpad "cMtNo" (by decide) hmtNo, ← hmt]
      rfl
    · rw [Filled.field_bytes _ rfl, ← hpad "cMtTypeCd" (by decide) hmtTypeCd, ← htype]
      rfl
    · have hself := leftField_self (field lv2MfInstruction "cMtStand" packet)
      rw [hsize "cMtStand" (by decide)] at hself
      rw [Filled.field_bytes _ rfl, ← hself, ← hstand]
      rfl
  · have hsum : sizeof sddJobComplete = 101 := rfl
    have hdecimal : decimal 101 = ascii "101" := by
      simp [decimal]
      decide
    rw [Filled.field_bytes _ rfl, hsum, hdecimal]
    decide
  · rw [Filled.field_bytes _ rfl]
    exact cCount_iff n

/-- An instruction for lot `LOT-17`, with zeros where nothing else is said. -/
def h200 : Bytes :=
  ascii "100120250804095316000512LOT-17         MT-42          " ++ List.replicate 17 0x30 ++
    ascii "HBH 200 x 200 x 8/12            " ++ List.replicate 409 0x30

def stamp : Timestamp := ⟨ascii "20250804101500", by decide⟩

def paths : Config := ⟨[ascii "local"], [ascii "nas"], false⟩

def leaving : LineSignal.Signals := ⟨false, false, true, false⟩

/-- The whole part of a spelled number without an exponent. -/
def wholePart (spelled : Bytes) : Int := (strtol spelled).getD 0

theorem identifier_h200 : ∀ f ∈ ["cLotNo", "cMtNo", "cMtTypeCd"], Identifier (field lv2MfInstruction f h200) := by
  simp only [List.forall_mem_cons]
  exact ⟨⟨ascii "LOT-17", 9, by decide +kernel, by decide +kernel⟩,
    ⟨ascii "MT-42", 10, by decide +kernel, by decide +kernel⟩, ⟨ascii "HB", 0, by decide +kernel, by decide +kernel⟩,
      nofun⟩

theorem printable_h200 : Printable (field lv2MfInstruction "cMtStand" h200) := by
  unfold Printable
  decide +kernel

theorem derivedInfo_h200 : ∃ info, derivedInfo wholePart [ascii "0_0.preset"] h200 = some info :=
  Option.isSome_iff_exists.1 (by decide +kernel)

theorem job_complete_echoes_h200 : ∃ info p,
    jobCheckWork stamp (some (pushJobCompleteToLv2 (job paths info) 1234)) = .ok p ∧
      field sddJobComplete "cLotNo" p.bytes = ascii "LOT-17         " ∧
      strtol (field sddJobComplete "cCount" p.bytes) = some 1234 := by
  obtain ⟨info, hinfo⟩ := derivedInfo_h200
  obtain ⟨p, hp, -, hecho, -, hcount⟩ := job_complete_echoes paths leaving stamp 1234
    (identifier_h200 "cLotNo" (by decide)) (identifier_h200 "cMtNo" (by decide))
    (identifier_h200 "cMtTypeCd" (by decide)) printable_h200 hinfo rfl
  have hlot : field lv2MfInstruction "cLotNo" h200 = ascii "LOT-17         " := by decide +kernel
  exact ⟨info, p, hp, (hecho "cLotNo" (by decide)).trans hlot, hcount.2 (by decide)⟩

/-- The count of 100000 frames reads 10000. -/
theorem job_complete_count_cut : ¬ ∀ (floor : Bytes → Int) (presetFiles : List Bytes) (packet : Bytes) (info : JobInfo)
    (cfg : Config) (value : LineSignal.Signals) (j : Job) (currentTime : Timestamp) (n : Nat),
    Identifier (field lv2MfInstruction "cLotNo" packet) → Identifier (field lv2MfInstruction "cMtNo" packet) →
    Identifier (field lv2MfInstruction "cMtTypeCd" packet) → Printable (field lv2MfInstruction "cMtStand" packet) →
    derivedInfo floor presetFiles packet = some info → run cfg value (some info) = some j →
    ∃ p, jobCheckWork currentTime (some (pushJobCompleteToLv2 j n)) = .ok p ∧
      strtol (field sddJobComplete "cCount" p.bytes) = some (n : Int) := by
  intro h
  obtain ⟨info, hinfo⟩ := derivedInfo_h200
  obtain ⟨p, hp, hcount⟩ := h wholePart _ h200 info paths leaving _ stamp 100000 (identifier_h200 "cLotNo" (by decide))
    (identifier_h200 "cMtNo" (by decide)) (identifier_h200 "cMtTypeCd" (by decide)) printable_h200 hinfo rfl
  obtain rfl := Except.ok.inj hp
  rw [Filled.field_bytes _ rfl] at hcount
  exact absurd ((cCount_iff 100000).1 hcount) (by decide)

end FlameSdd.JobComplete
