import FlameSdd.ModelInference
import FlameSdd.SysLib.Unicode
/-!
# The monitor window

What `AppWindow` does with a Level2 message and with the names of labeled
images.
-/
open SysLib FlameSdd.ModelInference

namespace FlameSdd.Window

/-! ## Level2 data -/

/-- `__parse_filename`: the two numbers of a preset name. -/
def parseFilename (filename : Bytes) : Option (Nat × Nat) :=
  let name := Unicode.codePoints filename
  let width := name.takeWhile Unicode.isDecimal
  match name.dropWhile Unicode.isDecimal with
  | 0x5f :: rest =>
    let height := rest.takeWhile Unicode.isDecimal
    let suffix := rest.dropWhile Unicode.isDecimal
    -- `$` also matches before a line feed at the end
    if width ≠ [] ∧ height ≠ [] ∧ (suffix = Unicode.points ".preset" ∨ suffix = Unicode.points ".preset\n") then
      some (Unicode.decimalVal width, Unicode.decimalVal height)
    else none
  | _ => none

/-- The loop of `__find_nearest_preset`, with the nearest file so far and its distance. -/
def nearestPreset (h b : Int) : Option (Int × Bytes) → List Bytes → Option Bytes
  | best, [] => best.map Prod.snd
  | best, filename :: filenames =>
    match parseFilename filename with
    | none => nearestPreset h b best filenames
    | some (width, height) =>
      let distance := (width - h) ^ 2 + (height - b) ^ 2
      if best.all fun e => distance < e.1 then nearestPreset h b (some (distance, filename)) filenames
      else nearestPreset h b best filenames

def findNearestPreset (h b : Int) (filenames : List Bytes) : Option Bytes := nearestPreset h b none filenames

/-- `int(data.get(k, 0)/10)`. -/
def tenth (data : Json) (k : String) : Except Exn Int := (fun i => i.tdiv 10) <$> data.value Json.getNumber k 0

/-- The arguments of `add_job_lv2_info`, for a message of the types that Level2
data has. -/
def jobLv2Info (data : Json) : Except Exn JobInfo := do
  let date ← (data.member? "date").elim (.error .outOfRange) Json.getString
  let mtStandHeight ← tenth data "mt_stand_height"
  let mtStandWidth ← tenth data "mt_stand_width"
  let mtNo ← data.valueString "mt_no" (ascii "-")
  let lotNo ← data.valueString "lot_no" (ascii "-")
  let mtTypeCd ← data.valueString "mt_type_cd" (ascii "-")
  let mtStandRaw ← data.valueString "mt_stand_raw" []
  let mtStandNorm ← data.valueString "mt_stand_norm" []
  return { date, mtStandHeight, mtStandWidth, mtNo, lotNo, mtTypeCd, mtStandRaw, mtStandNorm }

/-- `on_update_dk_level2_data`: the call of `add_job_lv2_info`, or the exception
that is logged before it. -/
def onUpdateDkLevel2Data (presetFiles : List Bytes) (data : Json) : Except Exn JobInfo := do
  let mtStandHeight ← tenth data "mt_stand_height"
  let mtStandWidth ← tenth data "mt_stand_width"
  let _ ← tenth data "mt_stand_t1"
  let _ ← tenth data "mt_stand_t2"
  match findNearestPreset mtStandWidth mtStandHeight presetFiles with
  -- the numbers of the preset are looked for in None
  | none => .error .typeError
  | some _ => jobLv2Info data

/-! ## Labeled images -/

/-- The parts of the name of a labeled image. -/
structure LabeledName where
  timestamp : Bytes
  mtStandNorm : Bytes
  mtNo : Bytes
  cameraId : Bytes
  imageIdx : Bytes
  defectLabel : Bytes
  deriving DecidableEq

/-- `filename.rsplit('.', 1)[0]`. -/
def removeExtension (filename : Bytes) : Bytes :=
  match filename.reverse.dropWhile (· ≠ 0x2e) with
  | [] => filename
  | _ :: s => s.reverse

/-- `_parse_labeled_filename`; a name with less than six parts has no sixth. -/
def parseLabeledFilename (filename : Bytes) : Except Exn LabeledName :=
  match (removeExtension filename).splitOn 0x5f with
  | timestamp :: mtStandNorm :: mtNo :: cameraId :: imageIdx :: defectLabel :: _ =>
    .ok { timestamp, mtStandNorm, mtNo, cameraId, imageIdx, defectLabel }
  | _ => .error .outOfRange

theorem removeExtension_append (s : Bytes) {ext : Bytes} (h : (0x2e : UInt8) ∉ ext) :
    removeExtension (s ++ 0x2e :: ext) = s := by
  have hrev : (s ++ 0x2e :: ext).reverse = ext.reverse ++ 0x2e :: s.reverse := by simp
  have hdrop : (ext.reverse ++ 0x2e :: s.reverse).dropWhile (· ≠ 0x2e) = 0x2e :: s.reverse := by
    rw [List.dropWhile_append_of_pos]
    · simp
    · intro c hc
      have hne : c ≠ 0x2e := fun heq => h (heq ▸ List.mem_reverse.1 hc)
      simpa using hne
  rw [removeExtension, hrev, hdrop]
  simp

end FlameSdd.Window
