import FlameSdd.MtStand
import FlameSdd.Protocol
import FlameSdd.TcpSocket
/-!
# What Level2 sends

The listener that `_do_server_work` installs on a Level2 connection decodes a
packet, publishes it, or rejects it. It has no exception handler, and neither
has the receive thread that calls it: `on_raw_received_returns_iff` says exactly
on which chunks it returns.
-/
open SysLib SysLib.PackedStruct FlameSdd.Protocol FlameSdd.MtStand

namespace FlameSdd.Level2Interface

/-! ## Decoding -/

def removeSpace (s : Bytes) : Bytes := s.filter fun c => !isspace c

/-- `stoi` and `stol`: a number of `w` bits at the start of the text, or a throw. -/
def stoSigned (w : Nat) (s : Bytes) : Except Exn Int :=
  match strtol s with
  | none => .error .invalidArgument
  | some i => if -2 ^ (w - 1) ≤ i ∧ i < 2 ^ (w - 1) then .ok i else .error .outOfRange

def stoi : Bytes → Except Exn Int := stoSigned 32

def stol : Bytes → Except Exn Int := stoSigned 64

/-- A text member of a packet, without its blanks. -/
def text (l : Layout) (packet : Bytes) (f : String) : Bytes := removeSpace (field l f packet)

/-- The `data_pack` of an instruction (TC code 1001). -/
def instructionPack (packet : Bytes) : Except Exn Json := do
  let member := text lv2MfInstruction packet
  let mtStandRaw := field lv2MfInstruction "cMtStand" packet
  let mtStandHeight ← stoi (member "cStandSize2")
  let mtStandWidth ← stoi (member "cStandSize1")
  let mtStandT1 ← stoi (member "cStandSize3")
  let mtStandT2 ← stoi (member "cStandSize4")
  let fmLength ← stol (member "cFMLength")
  let fmSpeed ← stoi (member "cFMSpeed")
  return .obj [
    ("date", .str (member "cDate")),
    ("lot_no", .str (member "cLotNo")),
    ("mt_no", .str (member "cMtNo")),
    ("mt_stand", .str (member "cMtStand")),
    ("mt_stand_raw", .str mtStandRaw),
    ("mt_stand_norm", .str (mtstandNormalize mtStandRaw)),
    ("mt_stand_height", .int mtStandHeight),
    ("mt_stand_width", .int mtStandWidth),
    ("mt_stand_t1", .int mtStandT1),
    ("mt_stand_t2", .int mtStandT2),
    ("fm_length", .int fmLength),
    ("mt_type_cd", .str (member "cMtTypeCd")),
    ("fm_speed", .int fmSpeed)]

/-- The keys of a labeling message with the members they hold. -/
def labeledMembers : List (String × String) :=
  [("date", "cDate"), ("mt_no", "cMtNo"), ("mea_image1", "cMea_Image1"), ("mea_image2", "cMea_Image2"),
   ("mea_image3", "cMea_Image3"), ("mea_image4", "cMea_Image4"), ("mea_image5", "cMea_Image5"),
   ("mea_image6", "cMea_Image6"), ("mea_image7", "cMea_Image7"), ("mea_image8", "cMea_Image8"),
   ("mea_image9", "cMea_Image9"), ("mea_image10", "cMea_Image10"), ("mea_image11", "cMea_Image11"),
   ("mea_image12", "cMea_Image12"), ("mea_image13", "cMea_Image13"), ("mea_image14", "cMea_Image14"),
   ("mea_image15", "cMea_Image15")]

/-- The `data_pack` of a labeling packet (TC code 1002). -/
def labeledPack (packet : Bytes) : Json :=
  .obj (labeledMembers.map fun e => (e.1, .str (text lv2DefectLabeled packet e.2)))

/-! ## The listener -/

/-- What the component publishes, by port. -/
inductive Publish where
  | status (available : Bool)
  | labelingJobDispatch (pack : Json)
  | lv2Dispatch (pack : Json)

/-- The `on_raw_received` listener; `ignore` is the flag `_ignore`. A packet of
TC code 1098 is only logged. -/
def onRawReceived (ignore : Bool) (data : Bytes) (length : Nat) : Except Exn (List Publish) :=
  let packet := data.take length
  if data.take 4 = ascii "1099" then
    if length = sizeof lv2MfAlive then .ok [.status true] else .ok []
  else if data.take 4 = ascii "1098" then .ok []
  -- a packet is decoded even while it is ignored
  else if data.take 4 = ascii "1002" then
    if length = sizeof lv2DefectLabeled then
      let pack := labeledPack packet
      if !ignore then do
        let data ← pack.dump
        return [.labelingJobDispatch data]
      else .ok []
    else .ok []
  else if data.take 4 = ascii "1001" then
    if length = sizeof lv2MfInstruction then do
      let pack ← instructionPack packet
      if !ignore then do
        let data ← pack.dump
        return [.lv2Dispatch data]
      else .ok []
    else .ok []
  else .ok []

/-! ## Numbers -/

/-- The members that `stoi` and `stol` read. -/
def instructionNumbers : List String :=
  ["cStandSize2", "cStandSize1", "cStandSize3", "cStandSize4", "cFMLength", "cFMSpeed"]

/-- Every number of an instruction starts with digits, up to blanks and a sign. -/
def decodes (packet : Bytes) : Bool := instructionNumbers.all fun f => hasNumber (text lv2MfInstruction packet f)

theorem text_length_le (l : Layout) (packet : Bytes) (f : String) : (text l packet f).length ≤ memberSize l f :=
  (List.length_filter_le _ _).trans (field_length_le l f packet)

/-- A short text is in range, so it converts as soon as it spells a number. -/
theorem stoSigned_ok_iff {w : Nat} {s : Bytes} (hs : s.length ≤ 6) (hw : 32 ≤ w) :
    (∃ i, stoSigned w s = .ok i) ↔ hasNumber s = true := by
  unfold stoSigned hasNumber
  cases h : strtol s with
  | none => simp
  | some i =>
    have hb : i.natAbs < 10 ^ 6 := (strtol_bound h).trans_le (Nat.pow_le_pow_right (by omega) hs)
    have hp : (2 : Int) ^ 31 ≤ 2 ^ (w - 1) := pow_le_pow_right₀ (by omega) (by omega)
    simp only [Option.isSome_some, iff_true]
    exact ⟨i, if_pos ⟨by omega, by omega⟩⟩

theorem bind_ok_iff {α β : Type} {x : Except Exn α} {f : α → Except Exn β} :
    (∃ b, (x >>= f) = .ok b) ↔ ∃ a, x = .ok a ∧ ∃ b, f a = .ok b := by
  cases x with
  | error e => simp [bind, Except.bind]
  | ok a => simp [bind, Except.bind]

/-- An instruction decodes exactly when its numbers do. -/
theorem instructionPack_ok_iff (packet : Bytes) :
    (∃ pack, instructionPack packet = .ok pack) ↔ decodes packet = true := by
  have num : ∀ f w, memberSize lv2MfInstruction f ≤ 6 → 32 ≤ w →
      ((∃ i, stoSigned w (text lv2MfInstruction packet f) = .ok i) ↔
        hasNumber (text lv2MfInstruction packet f) = true) :=
    fun f w hf hw => stoSigned_ok_iff ((text_length_le _ _ _).trans hf) hw
  simp only [instructionPack, decodes, instructionNumbers, List.all_cons, List.all_nil, Bool.and_true,
    Bool.and_eq_true]
  rw [← num "cStandSize2" 32 (by decide) (by decide), ← num "cStandSize1" 32 (by decide) (by decide),
    ← num "cStandSize3" 32 (by decide) (by decide), ← num "cStandSize4" 32 (by decide) (by decide),
    ← num "cFMLength" 64 (by decide) (by decide), ← num "cFMSpeed" 32 (by decide) (by decide)]
  simp only [bind_ok_iff, stoi, stol]
  constructor
  · rintro ⟨h, hh, w, hw, t1, ht1, t2, ht2, l, hl, v, hv, -⟩
    exact ⟨⟨h, hh⟩, ⟨w, hw⟩, ⟨t1, ht1⟩, ⟨t2, ht2⟩, ⟨l, hl⟩, ⟨v, hv⟩⟩
  · rintro ⟨⟨h, hh⟩, ⟨w, hw⟩, ⟨t1, ht1⟩, ⟨t2, ht2⟩, ⟨l, hl⟩, ⟨v, hv⟩⟩
    exact ⟨h, hh, w, hw, t1, ht1, t2, ht2, l, hl, v, hv, _, rfl⟩

/-! ## Texts -/

/-- The text members of an instruction that are published without their blanks. -/
def instructionTexts : List String := ["cDate", "cLotNo", "cMtNo", "cMtTypeCd"]

/-- Every text of an instruction is UTF-8; the standard is published with its blanks too. -/
def instructionPrints (packet : Bytes) : Bool :=
  (instructionTexts.all fun f => Utf8.valid (text lv2MfInstruction packet f)) &&
    Utf8.valid (field lv2MfInstruction "cMtStand" packet)

/-- Every text of a labeling packet is UTF-8. -/
def labeledPrints (packet : Bytes) : Bool :=
  labeledMembers.all fun e => Utf8.valid (text lv2DefectLabeled packet e.2)

theorem valid_removeSpace {s : Bytes} (h : Utf8.valid s = true) : Utf8.valid (removeSpace s) = true :=
  Utf8.valid_filter (fun c hc => isspace_ascii (by simpa using hc)) h

theorem dumpsMembers_texts (l : List (String × String)) (g : String → Bytes) :
    Json.dumpsMembers (l.map fun e => (e.1, .str (g e.2))) = l.all fun e => Utf8.valid (g e.2) := by
  induction l with
  | nil => rfl
  | cons e l ih => simp [ih]

theorem labeledPack_dumps (packet : Bytes) : (labeledPack packet).dumps = labeledPrints packet := by
  rw [labeledPack, Json.dumps_obj, dumpsMembers_texts, labeledPrints]

/-- The members of a decoded instruction, by what they were decoded from. -/
theorem instructionPack_eq {packet : Bytes} {pack : Json} (h : instructionPack packet = .ok pack) :
    ∃ height width t1 t2 fmLength fmSpeed : Int,
      stoi (text lv2MfInstruction packet "cStandSize2") = .ok height ∧
      stoi (text lv2MfInstruction packet "cStandSize1") = .ok width ∧
      pack = .obj [
        ("date", .str (text lv2MfInstruction packet "cDate")),
        ("lot_no", .str (text lv2MfInstruction packet "cLotNo")),
        ("mt_no", .str (text lv2MfInstruction packet "cMtNo")),
        ("mt_stand", .str (text lv2MfInstruction packet "cMtStand")),
        ("mt_stand_raw", .str (field lv2MfInstruction "cMtStand" packet)),
        ("mt_stand_norm", .str (mtstandNormalize (field lv2MfInstruction "cMtStand" packet))),
        ("mt_stand_height", .int height), ("mt_stand_width", .int width),
        ("mt_stand_t1", .int t1), ("mt_stand_t2", .int t2), ("fm_length", .int fmLength),
        ("mt_type_cd", .str (text lv2MfInstruction packet "cMtTypeCd")), ("fm_speed", .int fmSpeed)] := by
  unfold instructionPack at h
  obtain ⟨height, hh, h⟩ := bind_eq_ok h
  obtain ⟨width, hw, h⟩ := bind_eq_ok h
  obtain ⟨t1, -, h⟩ := bind_eq_ok h
  obtain ⟨t2, -, h⟩ := bind_eq_ok h
  obtain ⟨fmLength, -, h⟩ := bind_eq_ok h
  obtain ⟨fmSpeed, -, h⟩ := bind_eq_ok h
  exact ⟨height, width, t1, t2, fmLength, fmSpeed, hh, hw, (Except.ok.inj h).symm⟩

theorem instructionPack_dumps {packet : Bytes} {pack : Json} (h : instructionPack packet = .ok pack) :
    pack.dumps = instructionPrints packet := by
  obtain ⟨_, _, _, _, _, _, -, -, rfl⟩ := instructionPack_eq h
  have hraw : (Utf8.valid (text lv2MfInstruction packet "cMtStand") &&
      (Utf8.valid (field lv2MfInstruction "cMtStand" packet) &&
        Utf8.valid (mtstandNormalize (field lv2MfInstruction "cMtStand" packet)))) =
      Utf8.valid (field lv2MfInstruction "cMtStand" packet) := by
    cases hv : Utf8.valid (field lv2MfInstruction "cMtStand" packet) with
    | false => simp
    | true => simp [text, valid_removeSpace hv, valid_mtstandNormalize hv]
  simp only [Json.dumps_obj, Json.dumpsMembers_cons, Json.dumpsMembers_nil, Json.dumps_str, Json.dumps_int,
    instructionPrints, instructionTexts, List.all_cons, List.all_nil, Bool.and_true, Bool.true_and]
  conv_rhs => rw [← hraw]
  ac_rfl

/-! ## When the listener returns -/

/-- The chunks on which no exception leaves the listener. -/
def harmless (ignore : Bool) (chunk : Bytes) : Bool :=
  if chunk.take 4 = ascii "1002" ∧ chunk.length = sizeof lv2DefectLabeled then ignore || labeledPrints chunk
  else if chunk.take 4 = ascii "1001" ∧ chunk.length = sizeof lv2MfInstruction then
    decodes chunk && (ignore || instructionPrints chunk)
  else true

/-- The chunks that are, by themselves, a packet the listener publishes something for. -/
def actedOn (ignore : Bool) (chunk : Bytes) : Bool :=
  (chunk.take 4 == ascii "1099" && chunk.length == sizeof lv2MfAlive) ||
  !ignore && ((chunk.take 4 == ascii "1002" && chunk.length == sizeof lv2DefectLabeled) ||
    (chunk.take 4 == ascii "1001" && chunk.length == sizeof lv2MfInstruction))

/-- What earlier chunks left in the buffer does not reach the listener. -/
theorem onRawReceived_fill (ignore : Bool) (tempBuffer chunk : Bytes) :
    onRawReceived ignore (TcpSocket.fill tempBuffer chunk) chunk.length =
      onRawReceived ignore chunk chunk.length := by
  have hcode : ∀ code : Bytes, code.length = 4 → (0 : UInt8) ∉ code →
      ((TcpSocket.fill tempBuffer chunk).take 4 = code ↔ chunk.take 4 = code) := by
    intro code h4 h0
    rw [← h4]
    exact TcpSocket.take_fill_eq_iff tempBuffer chunk h0
  simp only [onRawReceived, TcpSocket.take_fill, List.take_length, hcode (ascii "1099") rfl (by decide),
    hcode (ascii "1098") rfl (by decide), hcode (ascii "1002") rfl (by decide), hcode (ascii "1001") rfl (by decide)]

/-- Publishing a pack: nothing is sent while the line is ignored. -/
theorem publish_spec (ignore : Bool) (pack : Json) (port : Json → Publish) :
    ((∃ out, (if !ignore then do let data ← pack.dump; return [port data] else .ok []) = Except.ok (ε := Exn) out) ↔
        (ignore || pack.dumps) = true) ∧
      ∀ out, (if !ignore then do let data ← pack.dump; return [port data] else .ok []) = Except.ok (ε := Exn) out →
        (out ≠ [] ↔ ignore = false) := by
  cases ignore with
  | true => simp
  | false =>
    cases hd : pack.dumps <;> simp [Json.dump, hd, Functor.map, Except.map]

/-- The listener returns exactly on the harmless chunks, and then publishes
something exactly for the packets it acts on. -/
theorem onRawReceived_spec (ignore : Bool) (chunk : Bytes) :
    ((∃ out, onRawReceived ignore chunk chunk.length = .ok out) ↔ harmless ignore chunk = true) ∧
      ∀ out, onRawReceived ignore chunk chunk.length = .ok out → (out ≠ [] ↔ actedOn ignore chunk = true) := by
  unfold onRawReceived harmless actedOn
  simp only [List.take_length]
  by_cases h1099 : chunk.take 4 = ascii "1099"
  · rw [h1099]
    by_cases hl : chunk.length = sizeof lv2MfAlive <;> simp +decide [hl]
  by_cases h1098 : chunk.take 4 = ascii "1098"
  · rw [h1098]
    simp +decide
  by_cases h1002 : chunk.take 4 = ascii "1002"
  · rw [h1002]
    by_cases hl : chunk.length = sizeof lv2DefectLabeled
    · have hpub := publish_spec ignore (labeledPack chunk) .labelingJobDispatch
      rw [labeledPack_dumps] at hpub
      simpa +decide [hl] using hpub
    · simp +decide [hl]
  by_cases h1001 : chunk.take 4 = ascii "1001"
  · rw [h1001]
    by_cases hl : chunk.length = sizeof lv2MfInstruction
    · have hdec := instructionPack_ok_iff chunk
      cases hp : instructionPack chunk with
      | error e =>
        have hfail : decodes chunk = false := by simpa [hp] using hdec
        simp +decide [hl, hfail, bind, Except.bind]
      | ok pack =>
        have hok : decodes chunk = true := hdec.1 ⟨pack, hp⟩
        have hpub := publish_spec ignore pack .lv2Dispatch
        rw [instructionPack_dumps hp] at hpub
        have hbind : ∀ f : Json → Except Exn (List Publish), (Except.ok pack >>= f) = f pack := fun _ => rfl
        simpa +decide [hl, hok, hbind] using hpub
    · simp +decide [hl]
  · simp [h1099, h1098, h1002, h1001]

/-- What is dispatched is a decoded instruction, and only while `_ignore` is false. -/
theorem lv2Dispatch_spec {ignore : Bool} {data : Bytes} {length : Nat} {out : List Publish} {pack : Json}
    (h : onRawReceived ignore data length = .ok out) (hm : .lv2Dispatch pack ∈ out) :
    ignore = false ∧ length = sizeof lv2MfInstruction ∧ instructionPack (data.take length) = .ok pack := by
  have publish : ∀ (j : Json) (port : Json → Publish),
      (if !ignore then do let data ← j.dump; return [port data] else .ok []) = Except.ok (ε := Exn) out →
        ignore = false ∧ out = [port j] := by
    intro j port hp
    cases ignore with
    | true =>
      obtain rfl := Except.ok.inj hp
      cases hm
    | false =>
      cases hd : j.dump with
      | error e =>
        rw [hd] at hp
        cases hp
      | ok j' =>
        rw [hd] at hp
        obtain rfl := (Json.dump_ok_iff.1 hd).2
        exact ⟨rfl, (Except.ok.inj hp).symm⟩
  unfold onRawReceived at h
  split at h
  · split at h
    · obtain rfl := Except.ok.inj h
      simp at hm
    · obtain rfl := Except.ok.inj h
      cases hm
  split at h
  · obtain rfl := Except.ok.inj h
    cases hm
  split at h
  · split at h
    · obtain ⟨-, rfl⟩ := publish _ .labelingJobDispatch h
      simp at hm
    · obtain rfl := Except.ok.inj h
      cases hm
  split at h
  · split at h
    · rename_i hlen
      dsimp only at h
      cases hpack : instructionPack (data.take length) with
      | error e =>
        rw [hpack] at h
        cases h
      | ok j =>
        rw [hpack] at h
        obtain ⟨hign, rfl⟩ := publish j .lv2Dispatch h
        obtain rfl : pack = j := by simpa using hm
        exact ⟨hign, hlen, rfl⟩
    · obtain rfl := Except.ok.inj h
      cases hm
  · obtain rfl := Except.ok.inj h
    cases hm

/-- An instruction that decodes is dispatched as it was decoded. -/
theorem onRawReceived_instruction {chunk : Bytes} {pack : Json} (hcode : chunk.take 4 = ascii "1001")
    (hlen : chunk.length = sizeof lv2MfInstruction) (hpack : instructionPack chunk = .ok pack)
    (hprints : instructionPrints chunk = true) :
    onRawReceived false chunk chunk.length = .ok [.lv2Dispatch pack] := by
  have hdump : pack.dump = .ok pack := Json.dump_ok_iff.2 ⟨by rw [instructionPack_dumps hpack, hprints], rfl⟩
  have hbind : ∀ f : Json → Except Exn (List Publish), (Except.ok pack >>= f) = f pack := fun _ => rfl
  unfold onRawReceived
  rw [List.take_length, hcode, if_neg (by decide), if_neg (by decide), if_neg (by decide), if_pos rfl, if_pos hlen,
    hpack, hbind, Bool.not_false, if_pos rfl, hdump]
  rfl

/-- On exactly which chunks the listener returns, whatever the buffer held before. -/
theorem on_raw_received_returns_iff (ignore : Bool) (tempBuffer chunk : Bytes) :
    (∃ out, onRawReceived ignore (TcpSocket.fill tempBuffer chunk) chunk.length = .ok out) ↔
      harmless ignore chunk = true := by
  rw [onRawReceived_fill]
  exact (onRawReceived_spec ignore chunk).1

/-- An instruction whose fields are all blank. -/
def blankInstruction : Bytes := ascii "1001" ++ List.replicate 508 0x20

/-- The listener throws on it: `stoi` meets an empty text. -/
theorem on_raw_received_throws : ¬ ∀ (ignore : Bool) (tempBuffer chunk : Bytes),
    ∃ out, onRawReceived ignore (TcpSocket.fill tempBuffer chunk) chunk.length = .ok out := by
  intro h
  have hret := h false [] blankInstruction
  rw [onRawReceived_fill] at hret
  have hharm : harmless false blankInstruction = true := (onRawReceived_spec _ _).1.1 hret
  exact absurd hharm (by decide +kernel)

end FlameSdd.Level2Interface
