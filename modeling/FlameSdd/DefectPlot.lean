import FlameSdd.DefectNames
import FlameSdd.InferenceRun
import Mathlib.Data.Rat.Defs
import Mathlib.Algebra.Order.Field.Rat
import Mathlib.Tactic.Positivity
/-!
# The defect plot

The window scales a frame to a place on the product by a tenth of the rows of
`result.csv`. That is the number of frames of a camera where all ten have the same
number: `plot_accepts_iff`, `plot_accepts_balanced`.
-/
open SysLib FlameSdd.DefectNames FlameSdd.InferenceRun

namespace FlameSdd.DefectPlot

/-! ## The file -/

/-- The texts of the five measures of an image. -/
structure Metrics where
  mae : Bytes
  ssim : Bytes
  gradMae : Bytes
  lapDiff : Bytes
  pixSum : Bytes

/-- A row that the collector took off the queue. -/
structure Result where
  row : InferenceRun.Row
  metrics : Metrics

def Result.columns (r : Result) : List Bytes :=
  [r.row.image.2, r.metrics.mae, r.metrics.ssim, r.metrics.gradMae, r.metrics.lapDiff, r.metrics.pixSum,
    decimalInt r.row.result]

def header : List Bytes := ["filename", "MAE", "SSIM", "Grad_MAE", "Laplacian_Diff", "Pixel_Sum", "result"].map ascii

/-- The rows of `result.csv`. -/
def resultCsv (results : List Result) : List (List Bytes) := header :: results.map Result.columns

/-! ## The plot -/

/-- The exceptions that the slot does not catch. -/
inductive Exn where
  | stopIteration
  | indexError
  | zeroDivision
  deriving DecidableEq

/-- A defect on the grid. -/
structure Point where
  x : Rat
  y : Nat
  deriving DecidableEq

/-- `re.match(r"(\d+)_(\d+)\.jpg", ...)`: the two numbers a name starts with. -/
def matchName (filename : Bytes) : Option (Nat × Nat) :=
  let name := Unicode.codePoints filename
  let camera := name.takeWhile Unicode.isDecimal
  match name.dropWhile Unicode.isDecimal with
  | 0x5f :: rest =>
    let frame := rest.takeWhile Unicode.isDecimal
    if camera ≠ [] ∧ frame ≠ [] ∧ Unicode.points ".jpg" <+: rest.dropWhile Unicode.isDecimal then
      some (Unicode.decimalVal camera, Unicode.decimalVal frame)
    else none
  | _ => none

/-- One round of the loop: the point of a defect. -/
def plotRow (rowCount : Nat) (fmLength : Int) (row : List Bytes) : Except Exn (Option Point) :=
  match row with
  | [] => .error .indexError
  | filename :: _ =>
    match matchName filename with
    | none => .ok none
    | some (y, frame) =>
      -- the place is computed for every row, whatever its result
      if rowCount / 10 = 0 then .error .zeroDivision
      else
        match row[6]? with
        | none => .error .indexError
        | some text =>
          -- a text that is no number is logged, and the row is left out
          .ok (if Unicode.toInt (Unicode.codePoints text) = some 1 then
            some ⟨frame * fmLength / (rowCount / 10 : Nat), y⟩ else none)

/-- The loop, for the rows that are left. -/
def plotRows (rowCount : Nat) (fmLength : Int) : List (List Bytes) → Except Exn (List Point)
  | [] => .ok []
  | row :: rows => do
    let point ← plotRow rowCount fmLength row
    let points ← plotRows rowCount fmLength rows
    return point.toList ++ points

/-- `on_update_sdd_result_binary`, for the rows of the file: the points that are
drawn, none where there is no file. -/
def onUpdateSddResultBinary (csvfile : Option (List (List Bytes))) (fmLength : Int) : Except Exn (List Point) :=
  match csvfile with
  | none => .ok []
  | some [] => .error .stopIteration
  | some (_ :: rows) => plotRows rows.length fmLength rows

/-- Every defect is drawn on the product. -/
def Accepts (csvfile : Option (List (List Bytes))) (fmLength : Int) : Prop :=
  ∃ points, onUpdateSddResultBinary csvfile fmLength = .ok points ∧ ∀ p ∈ points, 0 < p.x ∧ p.x ≤ fmLength

/-! ## Names of frames -/

def frameName (camera frame : Nat) : Bytes := imageFilename camera frame ++ ascii ".jpg"

theorem codePoints_frameName (camera frame : Nat) :
    Unicode.codePoints (frameName camera frame) =
      (decimal camera).map UInt8.toNat ++ 0x5f :: ((decimal frame).map UInt8.toNat ++ Unicode.points ".jpg") := by
  have hascii : ∀ c ∈ frameName camera frame, c < 0x80 := by
    intro c hc
    simp only [frameName, imageFilename, List.mem_append] at hc
    rcases hc with ((hc | hc) | hc) | hc
    · exact isdigit_ascii (decimal_isdigit camera c hc)
    · have hsep : ∀ c ∈ ascii "_", c < 0x80 := by decide +kernel
      exact hsep c hc
    · exact isdigit_ascii (decimal_isdigit frame c hc)
    · have hext : ∀ c ∈ ascii ".jpg", c < 0x80 := by decide +kernel
      exact hext c hc
  have hsep : (ascii "_").map UInt8.toNat = [0x5f] := rfl
  rw [Unicode.codePoints_ascii hascii]
  simp [frameName, imageFilename, Unicode.points, hsep]

theorem matchName_frameName (camera frame : Nat) : matchName (frameName camera frame) = some (camera, frame) := by
  have hext : Unicode.points ".jpg" = 0x2e :: Unicode.points "jpg" := rfl
  obtain ⟨hframe, hrest⟩ := Unicode.decimal_split (Unicode.isDecimal_decimal frame) (c := 0x2e) (by decide)
    (Unicode.points "jpg")
  obtain ⟨hcamera, hdrop⟩ := Unicode.decimal_split (Unicode.isDecimal_decimal camera) (c := 0x5f) (by decide)
    ((decimal frame).map UInt8.toNat ++ Unicode.points ".jpg")
  rw [← hext] at hframe hrest
  have hne : ∀ n, (decimal n).map UInt8.toNat ≠ [] := fun n => by simp [decimal_ne_nil]
  simp only [matchName, codePoints_frameName, hcamera, hdrop, hframe, hrest]
  rw [if_pos ⟨hne camera, hne frame, List.prefix_refl _⟩, Unicode.decimalVal_decimal, Unicode.decimalVal_decimal]

theorem frameName_injective (camera : Nat) : Function.Injective (frameName camera) := by
  intro frame frame' h
  have hmatch := matchName_frameName camera frame
  rw [h, matchName_frameName] at hmatch
  exact ((Prod.mk.inj (Option.some.inj hmatch)).2).symm

/-- The images of a product, camera `c` having frames 1 to `n c`. -/
def frames (n : Nat → Nat) : List Image :=
  (List.range' 1 10).flatMap fun camera => (List.range' 1 (n camera)).map fun frame => (camera, frameName camera frame)

/-- The rows are one for each image, in any order. -/
def Collected (n : Nat → Nat) (results : List Result) : Prop := (results.map fun r => r.row.image).Perm (frames n)

theorem mem_frames {n : Nat → Nat} {image : Image} (h : image ∈ frames n) :
    ∃ camera frame, image = (camera, frameName camera frame) ∧ 1 ≤ frame ∧ frame ≤ n camera := by
  obtain ⟨camera, -, h⟩ := List.mem_flatMap.1 h
  obtain ⟨frame, hframe, rfl⟩ := List.mem_map.1 h
  rw [List.mem_range'_1] at hframe
  exact ⟨camera, frame, rfl, by omega, by omega⟩

theorem length_frames (n : Nat → Nat) : (frames n).length = ((List.range' 1 10).map n).sum := by
  simp [frames, List.length_flatMap]

theorem accepted_frameName (camera frame : Nat) : accepted (frameName camera frame) = true := by
  obtain ⟨c, s, hcons⟩ := List.exists_cons_of_ne_nil (decimal_ne_nil camera)
  have hdigit := decimal_isdigit camera c (by simp [hcons])
  have hdot : c ≠ 0x2e := by
    rintro rfl
    exact absurd hdigit (by decide)
  refine List.any_eq_true.2 ⟨ascii ".jpg", by decide, ?_⟩
  rw [globs, Bool.and_eq_true, List.isSuffixOf_iff_suffix]
  refine ⟨?_, List.suffix_append _ _⟩
  simpa [frameName, imageFilename, hcons] using hdot

/-- What the collector has when it stops, where the folders hold the frames. -/
theorem collected_runs {folders : Folders} {n : Nat → Nat} (evs : List InspectionEvent) (metrics : Image → Metrics)
    (hfolders : ∀ camera, (folders camera).names.Perm ((List.range' 1 (n camera)).map (frameName camera))) :
    let s := runs (Inspection.step folders) Inspection.init evs
    s.endSignals = cameraGroups.length → Collected n (s.results.map fun row => ⟨row, metrics row.image⟩) := by
  intro s hend
  have hfiles := (Inspection.flow_runs folders evs).perm_imageFiles (listed_runs folders evs) hend
  have hframes : (imageFiles folders).Perm (frames n) := by
    refine (List.Perm.refl _).flatMap fun camera _ => ?_
    have hall : (folders camera).names.filter accepted = (folders camera).names := by
      refine List.filter_eq_self.2 fun name hname => ?_
      obtain ⟨frame, -, rfl⟩ := List.mem_map.1 ((hfolders camera).subset hname)
      exact accepted_frameName camera frame
    have hmap := (hfolders camera).map fun name => (camera, name)
    rw [List.map_map] at hmap
    rw [hall]
    exact hmap
  rw [Collected, List.map_map]
  exact hfiles.trans hframes

/-! ## The loop over results -/

theorem plotRow_columns {r : Result} {camera frame : Nat} (rowCount : Nat) (fmLength : Int)
    (h : r.row.image = (camera, frameName camera frame)) :
    plotRow rowCount fmLength r.columns =
      if rowCount / 10 = 0 then .error .zeroDivision
      else .ok (if r.row.result = 1 then some ⟨frame * fmLength / (rowCount / 10 : Nat), camera⟩ else none) := by
  have hint : Unicode.toInt (Unicode.codePoints (decimalInt r.row.result)) = some 1 ↔ r.row.result = 1 := by
    rw [Unicode.toInt_decimalInt, Option.some.injEq]
  unfold plotRow
  simp only [Result.columns, h, matchName_frameName]
  simp [hint]

/-- Where there is a scale, the loop ends, and its points are those of the defects. -/
theorem plotRows_columns {rowCount : Nat} (fmLength : Int) (hscale : rowCount / 10 ≠ 0) {results : List Result}
    (h : ∀ r ∈ results, ∃ camera frame, r.row.image = (camera, frameName camera frame)) :
    ∃ points, plotRows rowCount fmLength (results.map Result.columns) = .ok points ∧
      ∀ p, p ∈ points ↔ ∃ camera frame : Nat, ⟨(camera, frameName camera frame), 1⟩ ∈ results.map Result.row ∧
        p = ⟨frame * fmLength / (rowCount / 10 : Nat), camera⟩ := by
  induction results with
  | nil => exact ⟨[], rfl, by simp⟩
  | cons r results ih =>
    obtain ⟨camera, frame, himage⟩ := h r List.mem_cons_self
    obtain ⟨points, hpoints, hmem⟩ := ih fun r' hr' => h r' (List.mem_cons_of_mem r hr')
    rw [List.map_cons, plotRows, plotRow_columns rowCount fmLength himage, if_neg hscale, hpoints]
    refine ⟨_, rfl, fun p => ?_⟩
    by_cases hresult : r.row.result = 1
    · -- the row adds its point
      have hrow : r.row = ⟨(camera, frameName camera frame), 1⟩ := by rw [← himage, ← hresult]
      rw [if_pos hresult, Option.toList_some, List.singleton_append, List.mem_cons, hmem, List.map_cons, hrow]
      constructor
      · rintro (rfl | ⟨camera', frame', hmem', rfl⟩)
        · exact ⟨camera, frame, List.mem_cons_self, rfl⟩
        · exact ⟨camera', frame', List.mem_cons_of_mem _ hmem', rfl⟩
      · rintro ⟨camera', frame', hmem', rfl⟩
        rcases List.mem_cons.1 hmem' with heq | hmem'
        · obtain ⟨rfl, hname⟩ := Prod.mk.inj (congrArg Row.image heq)
          obtain rfl := frameName_injective camera' hname
          exact .inl rfl
        · exact .inr ⟨camera', frame', hmem', rfl⟩
    · have hrow : ∀ camera' frame', (⟨(camera', frameName camera' frame'), 1⟩ : Row) ≠ r.row :=
        fun camera' frame' heq => hresult (congrArg Row.result heq).symm
      rw [if_neg hresult, Option.toList_none, List.nil_append, hmem]
      simp [hrow]

/-- A frame is on the product if and only if it is not behind the scale. -/
theorem onProduct_iff {frame scale : Nat} {fmLength : Int} (hframe : 1 ≤ frame) (hscale : scale ≠ 0)
    (hlength : 0 < fmLength) :
    (0 < (frame * fmLength / scale : Rat) ∧ (frame * fmLength / scale : Rat) ≤ fmLength) ↔ frame ≤ scale := by
  have hf : (0 : Rat) < frame := by exact_mod_cast hframe
  have hs : (0 : Rat) < scale := by exact_mod_cast Nat.pos_of_ne_zero hscale
  have hl : (0 : Rat) < fmLength := by exact_mod_cast hlength
  have hpos : (0 : Rat) < frame * fmLength / scale := by positivity
  rw [and_iff_right hpos, div_le_iff₀ hs, mul_comm (fmLength : Rat), mul_le_mul_iff_left₀ hl, Nat.cast_le]

theorem accepts_nil (fmLength : Int) : Accepts (some (resultCsv [])) fmLength := ⟨[], rfl, by simp⟩

section
variable {n : Nat → Nat} {results : List Result}

theorem Collected.image (h : Collected n results) :
    ∀ r ∈ results, ∃ camera frame, r.row.image = (camera, frameName camera frame) ∧ 1 ≤ frame ∧ frame ≤ n camera :=
  fun _ hr => mem_frames (h.subset (List.mem_map_of_mem hr))

theorem Collected.frame (h : Collected n results) {camera frame : Nat} {result : Int}
    (hrow : ⟨(camera, frameName camera frame), result⟩ ∈ results.map Result.row) : 1 ≤ frame ∧ frame ≤ n camera := by
  obtain ⟨r, hr, heq⟩ := List.mem_map.1 hrow
  obtain ⟨camera', frame', himage, hframe⟩ := h.image r hr
  rw [heq] at himage
  obtain ⟨rfl, hname⟩ := Prod.mk.inj himage
  rwa [frameName_injective camera hname]

theorem onUpdateSddResultBinary_resultCsv (results : List Result) (fmLength : Int) :
    onUpdateSddResultBinary (some (resultCsv results)) fmLength =
      plotRows results.length fmLength (results.map Result.columns) := by
  rw [resultCsv, onUpdateSddResultBinary, List.length_map]

/-- With less than ten rows there is no scale: the first row divides by zero. -/
theorem Collected.few_rows (h : Collected n results) (fmLength : Int) (hne : results ≠ []) (hfew : results.length < 10) :
    onUpdateSddResultBinary (some (resultCsv results)) fmLength = .error .zeroDivision := by
  obtain ⟨r, rs, rfl⟩ := List.exists_cons_of_ne_nil hne
  obtain ⟨camera, frame, himage, -⟩ := h.image r List.mem_cons_self
  rw [onUpdateSddResultBinary_resultCsv, List.map_cons, plotRows, plotRow_columns _ fmLength himage,
    if_pos (Nat.div_eq_of_lt hfew)]
  rfl

/-- With ten rows or more the loop ends, and the places decide. -/
theorem Collected.ten_rows (h : Collected n results) {fmLength : Int} (hlength : 0 < fmLength)
    (hten : 10 ≤ results.length) :
    Accepts (some (resultCsv results)) fmLength ↔ ∀ camera frame : Nat,
      ⟨(camera, frameName camera frame), 1⟩ ∈ results.map Result.row → frame ≤ results.length / 10 := by
  have hscale : results.length / 10 ≠ 0 := by omega
  obtain ⟨points, hpoints, hmem⟩ := plotRows_columns fmLength hscale
    fun r hr => (h.image r hr).imp fun camera h => h.imp fun frame h => h.1
  unfold Accepts
  rw [onUpdateSddResultBinary_resultCsv, hpoints]
  constructor
  · rintro ⟨points', hpoints', hall⟩ camera frame hrow
    obtain rfl := Except.ok.inj hpoints'
    exact (onProduct_iff (h.frame hrow).1 hscale hlength).1 (hall _ ((hmem _).2 ⟨camera, frame, hrow, rfl⟩))
  · intro hall
    refine ⟨points, rfl, fun p hp => ?_⟩
    obtain ⟨camera, frame, hrow, rfl⟩ := (hmem p).1 hp
    exact (onProduct_iff (h.frame hrow).1 hscale hlength).2 (hall camera frame hrow)

end

/-- With the same number of frames for every camera the plot takes any results. -/
theorem plot_accepts_balanced {k : Nat} {results : List Result} {fmLength : Int}
    (hcollected : Collected (fun _ => k) results) (hlength : 0 < fmLength) :
    Accepts (some (resultCsv results)) fmLength := by
  have hrows : results.length = 10 * k := by
    have hlen := hcollected.length_eq
    rw [List.length_map, length_frames, List.map_const', List.sum_replicate] at hlen
    simpa using hlen
  rcases Nat.eq_zero_or_pos k with rfl | hk
  · rw [List.eq_nil_of_length_eq_zero hrows]
    exact accepts_nil fmLength
  · refine (hcollected.ten_rows hlength (by omega)).2 fun camera frame hrow => ?_
    have hframe := (hcollected.frame hrow).2
    omega

/-- The plot accepts a file of the collector if and only if there are ten rows, or
none, and no defect is in a frame behind a tenth of the rows. -/
theorem plot_accepts_iff (n : Nat → Nat) (results : List Result) (fmLength : Int) (hcollected : Collected n results)
    (hlength : 0 < fmLength) :
    Accepts (some (resultCsv results)) fmLength ↔
      (results = [] ∨ 10 ≤ results.length) ∧ ∀ camera frame : Nat,
        ⟨(camera, frameName camera frame), 1⟩ ∈ results.map Result.row → frame ≤ results.length / 10 := by
  by_cases hempty : results = []
  · subst hempty
    simpa using accepts_nil fmLength
  · by_cases hten : 10 ≤ results.length
    · rw [and_iff_right (.inr hten)]
      exact hcollected.ten_rows hlength hten
    · have herror := hcollected.few_rows fmLength hempty (by omega)
      constructor
      · rintro ⟨points, hpoints, -⟩
        rw [herror] at hpoints
        cases hpoints
      · rintro ⟨hnone | hten', -⟩
        · exact absurd hnone hempty
        · exact absurd hten' hten

/-- A file with the same result for every image. -/
def constantResults (n : Nat → Nat) (result : Int) : List Result :=
  (frames n).map fun image => ⟨⟨image, result⟩, ⟨[], [], [], [], []⟩⟩

theorem collected_constantResults (n : Nat → Nat) (result : Int) : Collected n (constantResults n result) := by
  rw [Collected, constantResults, List.map_map]
  exact .of_eq (List.map_id _)

theorem plot_accepts_ten : Accepts (some (resultCsv (constantResults (fun _ => 1) 1))) 100 := by
  have hten : (constantResults (fun _ => 1) 1).length = 10 := rfl
  have hcollected := collected_constantResults (fun _ => 1) 1
  refine (plot_accepts_iff (fun _ => 1) _ 100 hcollected (by decide)).2 ⟨.inr hten.ge, fun camera frame hrow => ?_⟩
  rw [hten]
  exact (hcollected.frame hrow).2

/-- A product with a single image is not drawn at all. -/
theorem plot_rejects_one : ¬ ∀ (n : Nat → Nat) (results : List Result) (fmLength : Int), Collected n results →
    0 < fmLength → Accepts (some (resultCsv results)) fmLength := by
  intro h
  obtain ⟨points, hpoints, -⟩ := h _ _ 100 (collected_constantResults (fun camera => if camera = 3 then 1 else 0) 0)
    (by decide)
  have herror : onUpdateSddResultBinary
      (some (resultCsv (constantResults (fun camera => if camera = 3 then 1 else 0) 0))) 100 =
        .error .zeroDivision := by decide +kernel
  rw [herror] at hpoints
  cases hpoints

end FlameSdd.DefectPlot
