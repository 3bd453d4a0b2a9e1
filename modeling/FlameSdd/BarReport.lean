import FlameSdd.BarJourney
import FlameSdd.PacketFraming
/-!
# The report of a bar

The instruction of a bar reaches the monitor as a text, and the job of the bar
reports to Level2 by a packet. From packet to packet: the report repeats the
identifiers of the instruction, and it counts the images that the cameras sent in
between, as long as five digits hold their number.
-/
open SysLib SysLib.PackedStruct SysLib.JsonText FlameSdd.Protocol FlameSdd.Level2Interface
  FlameSdd.DkLevel2Subscriber FlameSdd.JobComplete FlameSdd.ModelInference FlameSdd.InferenceRun FlameSdd.BarImages
  FlameSdd.BarSite FlameSdd.BarJourney FlameSdd.PacketFraming

namespace FlameSdd.BarReport

/-! ## What the window reads of a text -/

theorem toJson_scalar {floor : Bytes → Int} {j : Json} {v : Scalar} (h : scalar? j = some v) :
    toJson floor v.value = j := by
  cases j with
  | bool b =>
    obtain rfl := Option.some.inj h
    rw [Scalar.value, toJson]
  | int i =>
    obtain rfl := Option.some.inj h
    rw [Scalar.value, toJson]
  | str s =>
    obtain rfl := Option.some.inj h
    rw [Scalar.value, toJson]
  | null => cases h
  | float i => cases h
  | arr l => cases h
  | obj m => cases h

/-- A member of a flat object, by its key as bytes. -/
theorem lookup_members {floor : Bytes → Int} {m : List (String × Json)} {members : Object} {k : String}
    (h : (m.mapM fun e => (scalar? e.2).map fun v => (ascii e.1, v)) = some members)
    (hkeys : ∀ e ∈ m, ascii k = ascii e.1 → k = e.1) :
    (members.value.lookup (ascii k)).map (toJson floor) = m.lookup k := by
  induction m generalizing members with
  | nil =>
    obtain rfl := Option.some.inj h
    rfl
  | cons e m ih =>
    obtain ⟨hkey, hrestKeys⟩ := List.forall_mem_cons.1 hkeys
    rw [List.mapM_cons] at h
    obtain ⟨v, hv, h⟩ := Option.bind_eq_some_iff.1 h
    obtain ⟨rest, hrest, h⟩ := Option.bind_eq_some_iff.1 h
    obtain rfl := Option.some.inj h
    obtain ⟨v, hscalar, rfl⟩ := Option.map_eq_some_iff.1 hv
    obtain ⟨a, j⟩ := e
    rw [Object.value, List.map_cons, List.lookup_cons, List.lookup_cons]
    by_cases hk : k = a
    · subst hk
      rw [beq_self_eq_true, beq_self_eq_true]
      exact congrArg some (toJson_scalar hscalar)
    · have hbyte : (ascii k == ascii a) = false := by
        rw [beq_eq_false_iff_ne]
        exact fun heq => hk (hkey heq)
      have hstring : (k == a) = false := by simpa using hk
      rw [hbyte, hstring]
      exact ih hrest hrestKeys

/-- What is dumped without apostrophes is read with the members it had. -/
theorem member?_arrived {floor : Bytes → Int} {m : List (String × Json)} {pack : DataPack} {data : Bytes}
    {d : List (Bytes × Value)} (hpack : dataPack? (.obj m) = some pack) (hno : pack.inOrder.NoApostrophe)
    (hdump : dump pack = .ok data) (hdecode : decode data = .ok (.obj d)) {k : String} (hk : keyText (ascii k) = k)
    (hkeys : ∀ e ∈ m, keyText (ascii e.1) = e.1) :
    (toJson floor (.obj d)).member? k = m.lookup k := by
  rw [decode_dump hdump, (loads_exchange_iff (inOrder_nodup pack)).2 hno] at hdecode
  obtain rfl : pack.inOrder.value = d := by
    injection Except.ok.inj hdecode
  have hperm : pack.inOrder.value.Perm pack.members.value := (inOrder_perm pack).map _
  have hnodup : (pack.inOrder.value.map Prod.fst).Nodup := by
    have hnodup := inOrder_nodup pack
    rwa [Object.value, List.map_map]
  rw [member?_toJson floor _ hk, lookup_perm hperm hnodup]
  refine lookup_members (dataPack?_members hpack) fun e he heq => ?_
  rw [← hk, heq, hkeys e he]

/-- The members that `add_job_lv2_info` is given. -/
def infoKeys : List String :=
  ["date", "mt_stand_height", "mt_stand_width", "mt_no", "lot_no", "mt_type_cd", "mt_stand_raw", "mt_stand_norm"]

/-- The members of an instruction. -/
def packKeys : List String :=
  ["date", "lot_no", "mt_no", "mt_stand", "mt_stand_raw", "mt_stand_norm", "mt_stand_height", "mt_stand_width",
    "mt_stand_t1", "mt_stand_t2", "fm_length", "mt_type_cd", "fm_speed"]

theorem value_congr {α : Type} (get : Json → Except Exn α) {m m' : List (String × Json)} {k : String} (dflt : α)
    (h : m.lookup k = m'.lookup k) : (Json.obj m).value get k dflt = (Json.obj m').value get k dflt := by
  rw [Json.value, Json.value, h]

theorem jobLv2Info_congr {m m' : List (String × Json)} (h : ∀ k ∈ infoKeys, m.lookup k = m'.lookup k) :
    Window.jobLv2Info (.obj m) = Window.jobLv2Info (.obj m') := by
  have hvalue : ∀ {α : Type} (get : Json → Except Exn α) (k : String), k ∈ infoKeys → ∀ dflt : α,
      (Json.obj m).value get k dflt = (Json.obj m').value get k dflt :=
    fun get k hk dflt => value_congr get dflt (h k hk)
  have hdate : (Json.obj m).member? "date" = (Json.obj m').member? "date" := h "date" (by decide)
  unfold Window.jobLv2Info Window.tenth Json.valueString
  rw [hdate, hvalue _ "mt_stand_height" (by decide), hvalue _ "mt_stand_width" (by decide), hvalue _ "mt_no" (by decide),
    hvalue _ "lot_no" (by decide), hvalue _ "mt_type_cd" (by decide), hvalue _ "mt_stand_raw" (by decide),
    hvalue _ "mt_stand_norm" (by decide)]

/-- The monitor is told of the bar what the interface made of its instruction. -/
theorem derivedInfo_pack {floor : Bytes → Int} {presetFiles : List Bytes} (b : Bar) {info : JobInfo}
    (hclean : ∀ f ∈ echoed, 0x27 ∉ field lv2MfInstruction f b.packet)
    (h : derivedInfo floor presetFiles b.packet = some info) : Window.jobLv2Info b.pack = .ok info := by
  obtain ⟨-, pack, dp, data, d, hpack, hdp, hdump, hdecode, hjob⟩ := derivedInfo_decoded h
  obtain rfl : b.pack = pack := Except.ok.inj (b.pack_eq.symm.trans hpack)
  obtain ⟨fmLength, fmSpeed, height, t1, t2, width, horder⟩ := dataPack?_instruction hpack hdp
  have hno : dp.inOrder.NoApostrophe := by
    rw [horder]
    intro e he
    rcases List.mem_cons.1 he with rfl | he
    · have hkey : (0x27 : UInt8) ∉ ascii "date" := by decide
      refine ⟨hkey, ?_⟩
      rintro t ⟨⟩ hmem
      exact absurd (b.date.2 _ hmem) (by decide)
    · exact behindLength_noApostrophe hclean fmLength fmSpeed height t1 t2 width e he
  obtain ⟨height, width, t1, t2, fmLength, fmSpeed, -, -, hobj⟩ := instructionPack_eq hpack
  rw [hobj] at hdp ⊢
  rw [toJson] at hjob
  rw [← hjob]
  refine (jobLv2Info_congr fun k hk => ?_).symm
  have hinfoKeys : ∀ k ∈ infoKeys, keyText (ascii k) = k := by decide
  have hpackKeys : ∀ k ∈ packKeys, keyText (ascii k) = k := by decide
  have hread : (toJson floor (.obj d)).member? k = _ :=
    member?_arrived hdp hno hdump hdecode (hinfoKeys k hk) fun e he => hpackKeys e.1 (List.mem_map_of_mem he)
  rw [toJson, Json.member?] at hread
  exact hread

/-- What the monitor knows of the bar is what its instruction says: the window reads
the text as it would read the message that was published. -/
structure Told (b : Bar) (info : JobInfo) : Prop where
  published : Window.jobLv2Info b.pack = .ok info
  date : info.date = text lv2MfInstruction b.packet "cDate"
  lotNo : info.lotNo = text lv2MfInstruction b.packet "cLotNo"
  mtNo : info.mtNo = text lv2MfInstruction b.packet "cMtNo"
  mtTypeCd : info.mtTypeCd = text lv2MfInstruction b.packet "cMtTypeCd"
  mtStandRaw : info.mtStandRaw = field lv2MfInstruction "cMtStand" b.packet
  mtStandNorm : info.mtStandNorm = b.mtStandNorm

theorem told_of_derivedInfo {floor : Bytes → Int} {presetFiles : List Bytes} (b : Bar) {info : JobInfo}
    (hclean : ∀ f ∈ echoed, 0x27 ∉ field lv2MfInstruction f b.packet)
    (h : derivedInfo floor presetFiles b.packet = some info) : Told b info := by
  have hpublished := derivedInfo_pack b hclean h
  obtain ⟨info', hinfo', hdate, hnorm⟩ := BarDirectory.jobLv2Info_instruction b.pack_eq
  obtain rfl : info' = info := Except.ok.inj (hinfo'.symm.trans hpublished)
  obtain ⟨-, hlot, hmt, htype, hraw⟩ := derivedInfo_spec hclean h
  exact ⟨hpublished, hdate, hlot, hmt, htype, hraw, hnorm⟩

/-! ## The report -/

/-- What identifies the bar holds no blank inside, and its standard is printable. -/
structure Identified (b : Bar) : Prop where
  lotNo : Identifier (field lv2MfInstruction "cLotNo" b.packet)
  mtNo : Identifier (field lv2MfInstruction "cMtNo" b.packet)
  mtTypeCd : Identifier (field lv2MfInstruction "cMtTypeCd" b.packet)
  mtStand : Printable (field lv2MfInstruction "cMtStand" b.packet)

theorem Identified.noApostrophe {b : Bar} (h : Identified b) :
    ∀ f ∈ echoed, 0x27 ∉ field lv2MfInstruction f b.packet := by
  simp only [echoed, List.forall_mem_cons]
  exact ⟨h.lotNo.noApostrophe, h.mtNo.noApostrophe, h.mtTypeCd.noApostrophe, fun hmem => (h.mtStand _ hmem).2.2 rfl,
    List.forall_mem_nil _⟩

/-- Without its blanks and padded again, an identifier is what it was. -/
theorem leftField_text {packet : Bytes} {f : String} (hlen : packet.length = sizeof lv2MfInstruction)
    (hf : f ∈ lv2MfInstruction.map Prod.fst) (hid : Identifier (field lv2MfInstruction f packet)) :
    leftField (memberSize lv2MfInstruction f) (text lv2MfInstruction packet f) = field lv2MfInstruction f packet := by
  rw [← field_length hlen.ge hf, text, hid.leftField_removeSpace]

/-- The packet for a job of the bar. -/
theorem report_spec {floor : Bytes → Int} {presetFiles : List Bytes} {b : Bar} (hid : Identified b) {job : Job}
    (hinfo : derivedInfo floor presetFiles b.packet = some job.info) (currentTime : Timestamp) (n : Nat) :
    ∃ p, jobCheckWork currentTime (some (pushJobCompleteToLv2 job n)) = .ok p ∧ packetHeader.IsFrame p.bytes ∧
      (∀ f ∈ echoed, field sddJobComplete f p.bytes = field lv2MfInstruction f b.packet) ∧
      (strtol (field sddJobComplete "cCount" p.bytes) = some (n : Int) ↔ n < 100000) := by
  obtain ⟨hlen, hlot, hmt, htype, hstand⟩ := derivedInfo_spec hid.noApostrophe hinfo
  have hframe : packetHeader.IsFrame (generatePacketJobComplete currentTime job.info.lotNo job.info.mtNo
      job.info.mtTypeCd job.info.mtStandRaw ((n : Int).bmod (2 ^ 32))).bytes :=
    PacketFraming.isFrame_generatePacketJobComplete currentTime _ _ _ _ _
  refine ⟨_, rfl, hframe, ?_, ?_⟩
  · simp only [echoed, List.forall_mem_cons]
    refine ⟨?_, ?_, ?_, ?_, List.forall_mem_nil _⟩
    · rw [Filled.field_bytes _ rfl, ← leftField_text hlen (by decide) hid.lotNo, ← hlot]
      rfl
    · rw [Filled.field_bytes _ rfl, ← leftField_text hlen (by decide) hid.mtNo, ← hmt]
      rfl
    · rw [Filled.field_bytes _ rfl, ← leftField_text hlen (by decide) hid.mtTypeCd, ← htype]
      rfl
    · have hself := leftField_self (field lv2MfInstruction "cMtStand" b.packet)
      rw [field_length hlen.ge (by decide)] at hself
      rw [Filled.field_bytes _ rfl, ← hself, ← hstand]
      rfl
  · rw [Filled.field_bytes _ rfl]
    exact cCount_iff n

theorem length_sentImages (sent : Nat → List Bytes) :
    (sentImages sent).length = (cameras.map fun cam => (sent cam).length).sum := by
  simp [sentImages, List.length_flatMap]

theorem identifier_zeros (n : Nat) : Identifier (List.replicate n 0x30) := by
  refine ⟨List.replicate n 0x30, 0, (List.append_nil _).symm, fun c hc => ?_⟩
  rw [(List.mem_replicate.1 hc).2]
  decide

theorem identified_h200 : Identified BarSite.h200 := by
  have hlotNo : field lv2MfInstruction "cLotNo" BarSite.h200.packet = List.replicate 15 0x30 := by decide +kernel
  have hmtNo : field lv2MfInstruction "cMtNo" BarSite.h200.packet = List.replicate 15 0x30 := by decide +kernel
  have hmtTypeCd : field lv2MfInstruction "cMtTypeCd" BarSite.h200.packet = List.replicate 2 0x30 := by decide +kernel
  refine ⟨hlotNo ▸ identifier_zeros 15, hmtNo ▸ identifier_zeros 15, hmtTypeCd ▸ identifier_zeros 2, ?_⟩
  unfold Printable
  decide +kernel

theorem derivedInfo_h200 : ∃ info, derivedInfo wholePart [ascii "0_0.preset"] BarSite.h200.packet = some info :=
  Option.isSome_iff_exists.1 (by decide +kernel)

theorem barSent_count :
    (cameras.map fun cam => ((runs (BarImages.step home.stacker) barStart barSent).sent cam).length).sum = 3 := by
  rw [← length_sentImages, sentImages_barSent]
  rfl

end FlameSdd.BarReport
