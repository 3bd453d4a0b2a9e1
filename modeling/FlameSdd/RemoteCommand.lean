import FlameSdd.DefectCopies
import FlameSdd.JobComplete
import FlameSdd.Standards
/-!
# The remote command

A worker of the copy pool sends `cp` with two paths to a shell, neither of them
quoted. Blanks never reach the paths, but every other character of the date, the
material number and the standard does: `remote_command_plain_iff`.
-/
open SysLib SysLib.Tokens SysLib.PackedStruct SysLib.JsonText FlameSdd.Protocol FlameSdd.MtStand
  FlameSdd.Level2Interface FlameSdd.DkLevel2Subscriber FlameSdd.ModelInference FlameSdd.DefectRenaming
  FlameSdd.DefectCopies FlameSdd.JobComplete

namespace FlameSdd.RemoteCommand

/-! ## The command -/

/-- `cmd`. -/
def remoteCommand (task : Bytes × Bytes) : Bytes := ascii "cp " ++ task.1 ++ ascii " " ++ task.2

/-- `copy_tasks`, which the pool numbers. -/
def copyTasks (info : JobInfo) (rows : List Row) : List (Bytes × Bytes) := rows.filterMap (copyDefectImage info)

/-- The command that a worker executes for a task. -/
def command (info : JobInfo) (rows : List Row) (task : Fin (copyTasks info rows).length) : Bytes :=
  remoteCommand ((copyTasks info rows).get task)

/-- White space, and what a shell takes for more than itself. -/
def isShellMeta (c : UInt8) : Bool := isspace c || (ascii "|&;<>()$`\\\"'*?[]#~=%!\x7b\x7d^").contains c

/-- The shell has nothing to take for more than itself. -/
def Clean (s : Bytes) : Prop := ∀ c ∈ s, isShellMeta c = false

instance (s : Bytes) : Decidable (Clean s) := List.decidableBAll ..

/-- The two blanks of the template are all. -/
def PlainCommand (cmd : Bytes) : Prop := cmd.filter isShellMeta = [0x20, 0x20]

instance (cmd : Bytes) : Decidable (PlainCommand cmd) := inferInstanceAs (Decidable (_ = _))

theorem clean_append {s t : Bytes} : Clean (s ++ t) ↔ Clean s ∧ Clean t := List.forall_mem_append

theorem Clean.mono {s t : Bytes} (h : Clean t) (hsub : s ⊆ t) : Clean s := fun c hc => h c (hsub hc)

theorem clean_nil : Clean [] := List.forall_mem_nil _

theorem filter_eq_nil_iff_clean {s : Bytes} : s.filter isShellMeta = [] ↔ Clean s := by
  simp [Clean, List.filter_eq_nil_iff]

theorem plainCommand_iff (task : Bytes × Bytes) : PlainCommand (remoteCommand task) ↔ Clean task.1 ∧ Clean task.2 := by
  have hcp : (ascii "cp ").filter isShellMeta = [0x20] := by decide
  have hblank : (ascii " ").filter isShellMeta = [0x20] := by decide
  rw [PlainCommand, remoteCommand, List.filter_append, List.filter_append, List.filter_append, hcp, hblank,
    ← filter_eq_nil_iff_clean, ← filter_eq_nil_iff_clean]
  constructor
  · intro h
    have hlen := congrArg List.length h
    simp only [List.length_append, List.length_cons, List.length_nil] at hlen
    exact ⟨List.length_eq_zero_iff.1 (by omega), List.length_eq_zero_iff.1 (by omega)⟩
  · rintro ⟨hsrc, hdst⟩
    rw [hsrc, hdst]
    rfl

/-- A shell that cuts a plain command at blanks finds `cp` and its two operands. -/
theorem splitOn_remoteCommand {task : Bytes × Bytes} (h : PlainCommand (remoteCommand task)) :
    (remoteCommand task).splitOn 0x20 = [ascii "cp", task.1, task.2] := by
  obtain ⟨hsrc, hdst⟩ := (plainCommand_iff task).1 h
  have hspace : ∀ {s : Bytes}, Clean s → (0x20 : UInt8) ∉ s := fun hs hmem => Bool.noConfusion (hs _ hmem)
  have hcmd : remoteCommand task = ascii "cp" ++ 0x20 :: (task.1 ++ 0x20 :: task.2) := by
    have hcp : ascii "cp " = ascii "cp" ++ [0x20] := rfl
    have hblank : ascii " " = [0x20] := rfl
    simp [remoteCommand, hcp, hblank]
  rw [hcmd, List.splitOn_append_cons_self_of_not_mem (by decide),
    List.splitOn_append_cons_self_of_not_mem (hspace hsrc), List.splitOn_eq_singleton (hspace hdst)]

/-! ## The paths -/

theorem clean_digits {s : Bytes} (h : ∀ c ∈ s, isdigit c = true) : Clean s := by
  have hall : ∀ n < 256, isdigit (UInt8.ofNat n) = true → isShellMeta (UInt8.ofNat n) = false := by decide +kernel
  intro c hc
  have hdigit := h c hc
  rw [← UInt8.ofNat_toNat (x := c)] at hdigit ⊢
  exact hall c.toNat c.toNat_lt hdigit

theorem clean_decimalInt (i : Int) : Clean (decimalInt i) := by
  intro c hc
  rcases decimalInt_mem hc with rfl | hdigit
  · decide
  · exact clean_digits (s := [c]) (by simpa using hdigit) c List.mem_cons_self

theorem clean_copyStand {info : JobInfo} : Clean (copyStand info) ↔ Clean info.mtStandNorm := by
  unfold copyStand
  split
  · rename_i hnil
    have hempty : info.mtStandNorm = [] := by simpa using hnil
    rw [hempty]
    refine iff_of_true ?_ clean_nil
    simp only [clean_append]
    exact ⟨⟨⟨by decide, clean_decimalInt _⟩, by decide⟩, clean_decimalInt _⟩
  · exact Iff.rfl

/-- The name of an image is put in as it is, and nothing else but the fields. -/
theorem clean_copyTask {info : JobInfo} {imageFilename : Bytes} (himage : Clean imageFilename) :
    Clean (copyTask info imageFilename).1 ∧ Clean (copyTask info imageFilename).2 ↔
      Clean info.date ∧ Clean info.mtNo ∧ Clean info.mtStandNorm := by
  have hday : Clean info.date → Clean (Utf8.takeChars 8 info.date) :=
    fun h => h.mono fun c hc => Utf8.mem_of_mem_takeChars hc
  have hcamera : Clean ((imageFilename.splitOn 0x5f).headD []) := by
    obtain ⟨first, rest, hsplit⟩ := List.exists_cons_of_ne_nil (List.splitOn_ne_nil 0x5f imageFilename)
    rw [hsplit, List.headD_cons]
    exact himage.mono fun c hc => mem_of_mem_splitOnP (hsplit ▸ List.mem_cons_self) hc
  have hfixed : Clean (ascii "/volume1/sdd/") ∧ Clean (ascii "/") ∧ Clean (ascii "/camera_") ∧ Clean (ascii "_x.jpg") ∧
      Clean (ascii "/volume1/sdd/defect_images/") ∧ Clean (ascii "_") := by decide
  obtain ⟨hmount, hslash, hfolder, hext, himages, hsep⟩ := hfixed
  -- the name of the copy holds all three, the path of the image no more than them
  have hdst : Clean (copyTask info imageFilename).2 ↔ Clean info.date ∧ Clean info.mtNo ∧ Clean info.mtStandNorm := by
    simp only [copyTask, newFilename, clean_append, clean_copyStand, himages, hsep, himage, hext, true_and, and_true]
    rw [and_assoc, and_comm (a := Clean info.mtStandNorm)]
  refine ⟨fun h => hdst.1 h.2, fun h => ⟨?_, hdst.2 h⟩⟩
  obtain ⟨hdate, -, hnorm⟩ := h
  simp only [copyTask, copyDirname, clean_append, clean_copyStand]
  exact ⟨⟨⟨⟨⟨⟨⟨⟨hmount, hday hdate⟩, hslash⟩, ⟨hdate, hsep⟩, hnorm⟩, hfolder⟩, hcamera⟩, hslash⟩, himage⟩, hext⟩

theorem plain_copyTask_iff {info : JobInfo} {imageFilename : Bytes} (himage : Clean imageFilename) :
    PlainCommand (remoteCommand (copyTask info imageFilename)) ↔
      Clean info.date ∧ Clean info.mtNo ∧ Clean info.mtStandNorm :=
  (plainCommand_iff _).trans (clean_copyTask himage)

/-- Every command for a bar with clean names is `cp` with two operands. -/
theorem command_plain {info : JobInfo} {rows : List Row}
    (hclean : Clean info.date ∧ Clean info.mtNo ∧ Clean info.mtStandNorm)
    (himages : ∀ row ∈ rows, Clean (copyImageFilename row)) (task : Fin (copyTasks info rows).length) :
    ∃ src dst, (command info rows task).splitOn 0x20 = [ascii "cp", src, dst] := by
  obtain ⟨row, hrow, hcopy⟩ := List.mem_filterMap.1 (List.get_mem (copyTasks info rows) task)
  rw [copyDefectImage, Option.ite_none_right_eq_some, Option.some.injEq] at hcopy
  have hplain : PlainCommand (command info rows task) := by
    rw [command, ← hcopy.2]
    exact (plain_copyTask_iff (himages row hrow)).2 hclean
  exact ⟨_, _, splitOn_remoteCommand hplain⟩

theorem clean_replaceSlash {s : Bytes} : Clean (replaceSlash s) ↔ Clean s := by
  have hchar : ∀ c : UInt8, isShellMeta (if c == 47 then 95 else c) = isShellMeta c :=
    underscore_for_slash (by decide)
  simp only [Clean, replaceSlash, List.forall_mem_map, hchar]

theorem clean_join {ts : List Bytes} : Clean (join 120 ts) ↔ ∀ t ∈ ts, Clean t := by
  constructor
  · exact fun h t ht c hc => h c (mem_join_of_mem ht hc)
  · intro h c hc
    rcases mem_join hc with rfl | ⟨t, ht, hct⟩
    · decide
    · exact h t ht c hct

/-- A normal form is clean if and only if the dimensions it keeps are. -/
theorem clean_normalForm (u : Bytes) : Clean (normalForm u) ↔ ∀ t ∈ keepDims (tokens isX u), Clean t := by
  unfold normalForm
  split
  · rename_i hnil
    rw [hnil, clean_replaceSlash]
    refine iff_of_true (fun c hc => ?_) (List.forall_mem_nil _)
    have hx := tokens_eq_nil_iff.1 hnil c hc
    simp only [isX, Bool.or_eq_true, beq_iff_eq] at hx
    rcases hx with rfl | rfl <;> decide
  · rw [clean_replaceSlash, clean_join]

theorem clean_mtstandNormalize {raw : Bytes} (hraw : raw ≠ []) :
    Clean (mtstandNormalize raw) ↔ ∀ t ∈ keepDims (tokens isX (squeeze raw)), Clean t := by
  by_cases hblank : squeeze raw = []
  · rw [mtstandNormalize_blank hraw hblank, hblank]
    exact iff_of_true clean_nil (List.forall_mem_nil _)
  · rw [mtstandNormalize_eq hblank, clean_normalForm]

/-! ## From the instruction to the command -/

/-- No field that reaches the message holds an apostrophe. -/
def Unquoted (packet : Bytes) : Prop := ∀ f ∈ "cDate" :: echoed, 0x27 ∉ field lv2MfInstruction f packet

/-- Without apostrophes the data is what was dumped. -/
theorem decoded_unquoted {packet data : Bytes} {pack : Json} {dp : DataPack} {d : List (Bytes × Value)}
    (hunquoted : Unquoted packet) (hpack : instructionPack packet = .ok pack) (hdp : dataPack? pack = some dp)
    (hdump : dump dp = .ok data) (hdecode : decode data = .ok (.obj d)) :
    ∃ fmLength fmSpeed height t1 t2 width,
      d = Object.value ((ascii "date", .str (text lv2MfInstruction packet "cDate")) ::
      (ascii "fm_length", .int fmLength) :: behindLength packet fmSpeed height t1 t2 width) := by
  obtain ⟨hdate, hechoed⟩ := List.forall_mem_cons.1 hunquoted
  obtain ⟨fmLength, fmSpeed, height, t1, t2, width, horder⟩ := dataPack?_instruction hpack hdp
  refine ⟨fmLength, fmSpeed, height, t1, t2, width, ?_⟩
  have hno : dp.inOrder.NoApostrophe := by
    rw [horder]
    have hkey : 0x27 ∉ ascii "date" := by decide
    refine List.forall_mem_cons.2 ⟨⟨hkey, ?_⟩, behindLength_noApostrophe hechoed fmLength fmSpeed height t1 t2 width⟩
    rintro s ⟨⟩
    exact fun hmem => hdate (List.mem_filter.1 hmem).1
  rw [decode_dump hdump, (loads_exchange_iff (inOrder_nodup dp)).2 hno] at hdecode
  have hobj : Value.obj dp.inOrder.value = .obj d := Except.ok.inj hdecode
  rw [← Value.obj.inj hobj, horder]

/-- The names that `add_job_lv2_info` takes from the data. -/
theorem jobLv2Info_names {data : Json} {info : JobInfo} (h : Window.jobLv2Info data = .ok info) :
    (data.member? "date").elim (.error .outOfRange) Json.getString = .ok info.date ∧
      data.valueString "mt_no" (ascii "-") = .ok info.mtNo ∧
        data.valueString "mt_stand_norm" [] = .ok info.mtStandNorm := by
  unfold Window.jobLv2Info at h
  obtain ⟨_, hdate, h⟩ := bind_eq_ok h
  obtain ⟨_, -, h⟩ := bind_eq_ok h
  obtain ⟨_, -, h⟩ := bind_eq_ok h
  obtain ⟨_, hmtNo, h⟩ := bind_eq_ok h
  obtain ⟨_, -, h⟩ := bind_eq_ok h
  obtain ⟨_, -, h⟩ := bind_eq_ok h
  obtain ⟨_, -, h⟩ := bind_eq_ok h
  obtain ⟨_, hmtStandNorm, h⟩ := bind_eq_ok h
  obtain rfl := Except.ok.inj h
  exact ⟨hdate, hmtNo, hmtStandNorm⟩

/-- What an instruction without apostrophes gives to the names of the copies. -/
theorem names_of_derivedInfo {floor : Bytes → Int} {presetFiles : List Bytes} {packet : Bytes} {info : JobInfo}
    (hunquoted : Unquoted packet) (h : derivedInfo floor presetFiles packet = some info) :
    info.date = text lv2MfInstruction packet "cDate" ∧ info.mtNo = text lv2MfInstruction packet "cMtNo" ∧
      info.mtStandNorm = mtstandNormalize (field lv2MfInstruction "cMtStand" packet) := by
  obtain ⟨-, pack, dp, data, d, hpack, hdp, hdump, hdecode, hjob⟩ := derivedInfo_decoded h
  obtain ⟨fmLength, fmSpeed, height, t1, t2, width, rfl⟩ := decoded_unquoted hunquoted hpack hdp hdump hdecode
  obtain ⟨hdate, hmtNo, hmtStandNorm⟩ := jobLv2Info_names hjob
  rw [member?_toJson floor _ (by decide)] at hdate
  exact ⟨(Except.ok.inj hdate).symm, valueString_toJson (by decide) rfl hmtNo,
    valueString_toJson (by decide) rfl hmtStandNorm⟩

/-- The fields of an instruction are clean, of the standard the dimensions that
its normal form keeps. -/
def CleanFields (packet : Bytes) : Prop :=
  Clean (text lv2MfInstruction packet "cDate") ∧ Clean (text lv2MfInstruction packet "cMtNo") ∧
    ∀ t ∈ keepDims (tokens isX (squeeze (field lv2MfInstruction "cMtStand" packet))), Clean t

/-- For every instruction that is accepted and every defective image `cam_idx.jpg`,
the command is plain if and only if the date, the material number and the
normalised standard of the bar are clean; without apostrophes, if and only if
the fields of the instruction are. -/
theorem remote_command_plain_iff {floor : Bytes → Int} {presetFiles : List Bytes} {packet : Bytes} {info : JobInfo}
    (row : Row) (i : ImageName) (hinfo : derivedInfo floor presetFiles packet = some info)
    (hdefect : row.isDefect = true) (hname : row.filename = i.name) (hext : i.ext = ascii "jpg") :
    ∃ task, copyDefectImage info row = some task ∧
      (PlainCommand (remoteCommand task) ↔ Clean info.date ∧ Clean info.mtNo ∧ Clean info.mtStandNorm) ∧
      (Unquoted packet → (PlainCommand (remoteCommand task) ↔ CleanFields packet)) := by
  have himage : Clean (copyImageFilename row) := by
    have hjpg : 0x2e :: i.ext ∈ InferenceRun.extensions := by
      rw [hext]
      decide
    have hlen : i.ext.length - 3 = 0 := by
      rw [hext]
      rfl
    -- the name without its extension
    rw [copyImageFilename_name hname hjpg, hlen, List.take_zero, List.append_nil, clean_append]
    exact ⟨clean_digits i.camera_digits.2, List.forall_mem_cons.2 ⟨by decide, clean_digits i.idx_digits.2⟩⟩
  have hplain := @plain_copyTask_iff info _ himage
  refine ⟨_, if_pos hdefect, hplain, fun hunquoted => ?_⟩
  obtain ⟨hdate, hmtNo, hmtStandNorm⟩ := names_of_derivedInfo hunquoted hinfo
  have hraw : field lv2MfInstruction "cMtStand" packet ≠ [] := by
    have hfield := field_length (f := "cMtStand") (derivedInfo_decoded hinfo).1.ge (by decide)
    intro hnil
    rw [hnil] at hfield
    exact absurd hfield (by decide)
  rw [hplain, hdate, hmtNo, hmtStandNorm, clean_mtstandNormalize hraw, CleanFields]

instance (packet : Bytes) : Decidable (CleanFields packet) :=
  inferInstanceAs (Decidable
    (_ ∧ _ ∧ ∀ t ∈ keepDims (tokens isX (squeeze (field lv2MfInstruction "cMtStand" packet))), Clean t))

theorem remote_command_plain_h200 : ∃ info task, derivedInfo wholePart [ascii "0_0.preset"] h200 = some info ∧
    copyDefectImage info (resultRow (ascii "3_17.jpg") (ascii "1")) = some task ∧
      PlainCommand (remoteCommand task) := by
  obtain ⟨info, hinfo⟩ := derivedInfo_h200
  obtain ⟨task, htask, -, hiff⟩ := remote_command_plain_iff (resultRow (ascii "3_17.jpg") (ascii "1"))
    (DefectCopies.image (ascii "jpg") jpg_plain) hinfo (by decide +kernel) (by decide +kernel) rfl
  have hunquoted : Unquoted h200 := by
    unfold Unquoted
    decide +kernel
  exact ⟨info, task, hinfo, htask, (hiff hunquoted).2 (by decide +kernel)⟩

/-- The same instruction, for the material `A;reboot;B`. -/
def rebooting : Bytes := h200.take 39 ++ ascii "A;reboot;B     " ++ h200.drop 54

/-- Its copies run `reboot`. -/
theorem remote_command_injected : ¬ ∀ (floor : Bytes → Int) (presetFiles : List Bytes) (packet : Bytes) (info : JobInfo)
    (row : Row) (i : ImageName) (task : Bytes × Bytes),
    (∀ f ∈ ["cDate", "cMtNo", "cMtStand"], Printable (field lv2MfInstruction f packet)) →
    derivedInfo floor presetFiles packet = some info → row.isDefect = true → row.filename = i.name →
    i.ext = ascii "jpg" → copyDefectImage info row = some task → PlainCommand (remoteCommand task) := by
  intro h
  have hprintable : ∀ f ∈ ["cDate", "cMtNo", "cMtStand"], Printable (field lv2MfInstruction f rebooting) := by
    unfold Printable
    decide +kernel
  have hunquoted : Unquoted rebooting := by
    unfold Unquoted
    decide +kernel
  have hsome : ∃ info, derivedInfo wholePart [ascii "0_0.preset"] rebooting = some info :=
    Option.isSome_iff_exists.1 (by decide +kernel)
  obtain ⟨info, hinfo⟩ := hsome
  have hplain := h wholePart _ rebooting info (resultRow (ascii "3_17.jpg") (ascii "1"))
      (DefectCopies.image (ascii "jpg") jpg_plain) _
    hprintable hinfo (by decide +kernel) (by decide +kernel) rfl (if_pos (by decide +kernel))
  have hmtNo : (0x3b : UInt8) ∈ info.mtNo := by
    rw [(names_of_derivedInfo hunquoted hinfo).2.1]
    decide +kernel
  have hdst := ((plainCommand_iff _).1 hplain).2
  have hclean := hdst 0x3b (by simp [copyTask, newFilename, hmtNo])
  exact absurd hclean (by decide)

end FlameSdd.RemoteCommand
