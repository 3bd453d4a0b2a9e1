import FlameSdd.DefectNames
import FlameSdd.Level2Interface
import FlameSdd.Standards
/-!
# Names in the fields of Level2

Level2 returns the names of labeled images in fields of 60 bytes. The names that
the inference makes are as long as their parts, of which the standard alone may
have 30 bytes: `names_fit_iff`.
-/
open SysLib SysLib.Tokens SysLib.PackedStruct FlameSdd.Protocol FlameSdd.MtStand FlameSdd.ModelInference
  FlameSdd.DefectNames

namespace FlameSdd.ImageField

/-- The members of a labeling packet that hold the name of an image. -/
def imageFields : List String := (Level2Interface.labeledMembers.drop 2).map Prod.snd

def Fits (name : Bytes) : Prop := ∀ f ∈ imageFields, name.length ≤ memberSize lv2DefectLabeled f

theorem fits_iff (name : Bytes) : Fits name ↔ name.length ≤ 60 := by
  have hsize : ∀ f ∈ imageFields, memberSize lv2DefectLabeled f = 60 := by decide
  constructor
  · intro h
    exact h "cMea_Image1" (by decide)
  · intro h f hf
    rw [hsize f hf]
    exact h

/-- The bytes of the raw standard that a name keeps, with one `x` between any two
dimensions. A blank standard is replaced by the numbers of the section. -/
def standLength (raw : Bytes) (width height : Int) : Nat :=
  if squeeze raw = [] then (ascii "Unknown").length + (decimalInt width).length + 1 + (decimalInt height).length
  else if tokens isX (squeeze raw) = [] then (squeeze raw).length
  else (keepDims (tokens isX (squeeze raw))).flatten.length + ((keepDims (tokens isX (squeeze raw))).length - 1)

theorem length_normalForm (u : Bytes) : (normalForm u).length =
    if tokens isX u = [] then u.length
    else (keepDims (tokens isX u)).flatten.length + ((keepDims (tokens isX u)).length - 1) := by
  unfold normalForm
  split
  · exact length_replaceSlash u
  · rw [length_replaceSlash, length_join]

theorem length_copyStand {info : JobInfo} {raw : Bytes} (hraw : raw ≠ [])
    (hnorm : info.mtStandNorm = mtstandNormalize raw) :
    (copyStand info).length = standLength raw info.mtStandWidth info.mtStandHeight := by
  by_cases hblank : squeeze raw = []
  · -- the copies are named by the numbers of the section
    have hnil : info.mtStandNorm = [] := hnorm.trans (mtstandNormalize_blank hraw hblank)
    have hx : (ascii "X").length = 1 := rfl
    simp [copyStand, hnil, standLength, hblank, hx]
    omega
  · have hne : mtstandNormalize raw ≠ [] := by
      rw [Ne, mtstandNormalize_eq_nil_iff hraw, ← squeeze_eq_nil_iff]
      exact hblank
    have hstand : copyStand info = normalForm (squeeze raw) := by
      rw [copyStand, hnorm, if_neg (by simpa using hne), mtstandNormalize_eq hblank]
    rw [hstand, length_normalForm, standLength, if_neg hblank]

/-- The name of a defect image, part by part. -/
theorem length_newFilename (info : JobInfo) (camera frame : Nat) :
    (newFilename info (imageFilename camera frame)).length =
      info.date.length + (copyStand info).length + info.mtNo.length + (decimal camera).length +
      (decimal frame).length + 10 := by
  have hsep : (ascii "_").length = 1 := rfl
  have hext : (ascii "_x.jpg").length = 6 := rfl
  simp only [newFilename, imageFilename, List.length_append, hsep, hext]
  omega

/-- The name of a defect image fits the fields if and only if its date, standard,
material number, camera and frame have 50 bytes at most. -/
theorem names_fit_iff (info : JobInfo) (raw : Bytes) (camera frame : Nat) (hraw : raw ≠ [])
    (hnorm : info.mtStandNorm = mtstandNormalize raw) :
    Fits (newFilename info (imageFilename camera frame)) ↔
      info.date.length + standLength raw info.mtStandWidth info.mtStandHeight + info.mtNo.length +
        (decimal camera).length + (decimal frame).length ≤ 50 := by
  rw [fits_iff, length_newFilename, length_copyStand hraw hnorm]
  omega

/-- A bar of the given standard and material number. -/
def namedBar (raw mtNo : Bytes) : JobInfo := { bar raw with mtNo := mtNo }

/-- A short standard leaves room for everything else. -/
theorem names_fit_h200 : Fits (newFilename
    (namedBar (ascii "H 200 x 100 x 8/12            ") (ascii "SA1234567890123")) (imageFilename 10 99999)) :=
  (names_fit_iff (namedBar (ascii "H 200 x 100 x 8/12            ") (ascii "SA1234567890123"))
    (ascii "H 200 x 100 x 8/12            ") 10 99999 (by decide) rfl).2 (by decide +kernel)

/-- The name of an image of a standard with a grade has 69 bytes. -/
theorem names_do_not_fit : ¬ ∀ (info : JobInfo) (raw : Bytes) (camera frame : Nat), info.date.length = 14 →
    raw.length = 30 → info.mtStandNorm = mtstandNormalize raw → info.mtNo.length ≤ 15 → 1 ≤ camera → camera ≤ 10 →
    frame < 100000 → Fits (newFilename info (imageFilename camera frame)) := by
  intro h
  have hfit := h (namedBar (ascii "W 44 x 15-3/4 x 335 ASTM-A992 ") (ascii "SA1234567890123"))
    (ascii "W 44 x 15-3/4 x 335 ASTM-A992 ") 10 99999 rfl rfl rfl (by decide) (by decide) (by decide) (by decide)
  rw [fits_iff] at hfit
  exact absurd hfit (by decide +kernel)

end FlameSdd.ImageField
