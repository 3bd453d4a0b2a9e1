import FlameSdd.MtStand
import FlameSdd.Window
/-!
# Names of defect images

The inference joins its fields with underscores, and the window splits the name
at them. The normalised standard has underscores of its own where the standard
has slashes: `parse_relabel_iff`.
-/
open SysLib FlameSdd.MtStand FlameSdd.ModelInference FlameSdd.Window

namespace FlameSdd.DefectNames

/-- The name of a frame, without its extension. -/
def imageFilename (camera frame : Nat) : Bytes := decimal camera ++ ascii "_" ++ decimal frame

/-- The name with its last component `x` replaced by a label. -/
def relabel (filename label : Bytes) : Bytes := filename.take (filename.length - 5) ++ label ++ ascii ".jpg"

theorem relabel_x (s label : Bytes) : relabel (s ++ ascii "x.jpg") label = s ++ label ++ ascii ".jpg" := by
  have hx : (ascii "x.jpg").length = 5 := rfl
  have hlen : (s ++ ascii "x.jpg").length - 5 = s.length := by
    rw [List.length_append, hx]
    omega
  rw [relabel, hlen, List.take_left]

/-- A labeled name, field by field. -/
theorem removeExtension_relabel (info : JobInfo) (camera frame : Nat) (label : Bytes) :
    removeExtension (relabel (newFilename info (imageFilename camera frame)) label) =
      info.date ++ 0x5f :: (copyStand info ++ 0x5f :: (info.mtNo ++ 0x5f :: (decimal camera ++ 0x5f ::
        (decimal frame ++ 0x5f :: label)))) := by
  have hname : newFilename info (imageFilename camera frame) =
      info.date ++ ascii "_" ++ copyStand info ++ ascii "_" ++ info.mtNo ++ ascii "_" ++ imageFilename camera frame ++
        ascii "_" ++ ascii "x.jpg" := by
    simp only [newFilename, List.append_assoc]
    rfl
  have hext : ascii ".jpg" = 0x2e :: ascii "jpg" := rfl
  have hsep : ascii "_" = [0x5f] := rfl
  rw [hname, relabel_x, hext, removeExtension_append _ (by decide)]
  simp [imageFilename, hsep]

theorem decimal_no_separator (n : Nat) : (0x5f : UInt8) ∉ decimal n := by
  intro h
  exact absurd (decimal_isdigit n _ h) (by decide)

/-- A standard that is not blank goes into the name as it is. -/
theorem copyStand_eq {info : JobInfo} {raw : Bytes} (hraw : raw.any (fun c => !isspace c) = true)
    (hnorm : info.mtStandNorm = mtstandNormalize raw) : copyStand info = info.mtStandNorm := by
  obtain ⟨c, hc, hns⟩ := List.any_eq_true.1 hraw
  have hne : mtstandNormalize raw ≠ [] := by
    rw [Ne, mtstandNormalize_eq_nil_iff (List.ne_nil_of_mem hc)]
    intro hall
    rw [hall c hc] at hns
    exact Bool.noConfusion hns
  rw [copyStand, if_neg]
  rw [hnorm]
  simpa using hne

/-- The window reads back what the inference wrote if and only if the normalised
standard has no underscore. -/
theorem parse_relabel_iff (info : JobInfo) (raw : Bytes) (camera frame : Nat) (label : Bytes)
    (hdate : info.date.length = 14 ∧ ∀ c ∈ info.date, isdigit c = true)
    (hraw : raw.any (fun c => !isspace c) = true) (hnorm : info.mtStandNorm = mtstandNormalize raw)
    (hmtNo : (0x5f : UInt8) ∉ info.mtNo) (hlabel : (0x5f : UInt8) ∉ label ∧ (0x2e : UInt8) ∉ label) :
    parseLabeledFilename (relabel (newFilename info (imageFilename camera frame)) label) =
        .ok ⟨info.date, info.mtStandNorm, info.mtNo, decimal camera, decimal frame, label⟩ ↔
      (0x5f : UInt8) ∉ info.mtStandNorm := by
  have hdate' : (0x5f : UInt8) ∉ info.date := fun h => absurd (hdate.2 _ h) (by decide)
  rw [parseLabeledFilename, removeExtension_relabel, copyStand_eq hraw hnorm,
    List.splitOn_append_cons_self_of_not_mem hdate']
  constructor
  · intro h hsep
    -- the standard is cut at its first underscore
    obtain ⟨a, b, heq, ha⟩ := List.eq_append_cons_of_mem hsep
    rw [heq, List.append_assoc, List.cons_append, List.splitOn_append_cons_self_of_not_mem ha] at h
    split at h
    · rename_i heq'
      obtain ⟨-, hnorm', -⟩ : _ ∧ _ ∧ _ := by simpa using heq'
      have hstand := congrArg LabeledName.mtStandNorm (Except.ok.inj h)
      have hlen := congrArg List.length (hnorm'.trans hstand)
      simp at hlen
    · cases h
  · intro hnorm'
    -- no field has a separator, so every cut is between two fields
    rw [List.splitOn_append_cons_self_of_not_mem hnorm', List.splitOn_append_cons_self_of_not_mem hmtNo,
      List.splitOn_append_cons_self_of_not_mem (decimal_no_separator camera),
      List.splitOn_append_cons_self_of_not_mem (decimal_no_separator frame), List.splitOn_eq_singleton hlabel.1]

/-- A bar with the given standard. -/
def bar (raw : Bytes) : JobInfo :=
  { date := ascii "20250102030405", mtStandHeight := 20, mtStandWidth := 10, mtNo := ascii "B1", lotNo := ascii "L1",
    mtTypeCd := ascii "01", mtStandRaw := raw, mtStandNorm := mtstandNormalize raw }

theorem parse_relabel_iff_h :
    parseLabeledFilename (relabel (newFilename (bar (ascii "H 200 x 100")) (imageFilename 3 17)) (ascii "scab")) =
        .ok ⟨ascii "20250102030405", mtstandNormalize (ascii "H 200 x 100"), ascii "B1", decimal 3, decimal 17,
          ascii "scab"⟩ ↔
      (0x5f : UInt8) ∉ mtstandNormalize (ascii "H 200 x 100") :=
  parse_relabel_iff (bar (ascii "H 200 x 100")) (ascii "H 200 x 100") 3 17 (ascii "scab") ⟨rfl, by decide +kernel⟩
    (by decide) rfl (by decide) ⟨by decide, by decide⟩

/-- A standard with a fraction is cut at the underscore that stands for its slash. -/
theorem parse_relabel_fraction : ¬ ∀ (info : JobInfo) (raw : Bytes) (camera frame : Nat) (label : Bytes),
    info.date.length = 14 ∧ (∀ c ∈ info.date, isdigit c = true) → raw.any (fun c => !isspace c) = true →
    info.mtStandNorm = mtstandNormalize raw → (0x5f : UInt8) ∉ info.mtNo →
    (0x5f : UInt8) ∉ label ∧ (0x2e : UInt8) ∉ label →
    parseLabeledFilename (relabel (newFilename info (imageFilename camera frame)) label) =
      .ok ⟨info.date, info.mtStandNorm, info.mtNo, decimal camera, decimal frame, label⟩ := by
  intro h
  have hread := h (bar (ascii "W 14 x 6-3/4 x 30")) (ascii "W 14 x 6-3/4 x 30") 3 17 (ascii "scab")
    ⟨rfl, by decide +kernel⟩ (by decide) rfl (by decide) ⟨by decide, by decide⟩
  have hcut : parseLabeledFilename
      (relabel (newFilename (bar (ascii "W 14 x 6-3/4 x 30")) (imageFilename 3 17)) (ascii "scab")) =
      .ok ⟨ascii "20250102030405", ascii "W14x6-3", ascii "4x30", ascii "B1", ascii "3", ascii "17"⟩ := by
    decide +kernel
  rw [hcut] at hread
  exact absurd (Except.ok.inj hread) (by decide +kernel)

end FlameSdd.DefectNames
