import FlameSdd.JobComplete
/-!
# The length of the product

The plot of the defects is scaled by `fm_length` of the job description, which
is made of a line signal and of what `add_job_lv2_info` keeps of the instruction.
Neither has the length, so the default goes to the plot:
`product_length_shown_iff`.
-/
open SysLib SysLib.PackedStruct FlameSdd.Protocol FlameSdd.Level2Interface FlameSdd.ModelInference FlameSdd.JobComplete
open FlameSdd.LineSignal (Signals publishLineSignal)

namespace FlameSdd.ProductLength

/-! ## The job description -/

/-- A value in a job description. -/
inductive DescValue where
  | json (j : Json)
  | path (p : Path)

/-- A `dict` with a job description. -/
abbrev JobDesc := String → Option DescValue

namespace JobDesc

def set (desc : JobDesc) (k : String) (v : DescValue) : JobDesc := Function.update desc k (some v)

def get (desc : JobDesc) (k : String) (dflt : DescValue) : DescValue := (desc k).getD dflt

end JobDesc

/-- A decoded message. -/
def message (data : Json) : JobDesc := fun k => (data.member? k).map .json

/-- What `run` makes of a line signal and the pending bar. -/
def jobDescription (cfg : Config) (info : JobInfo) (data : Json) : JobDesc :=
  (message data)
    |>.set "sdd_in_path" (.path (targetDir cfg.imagesRootPath info))
    |>.set "sdd_out_path" (.path (targetDir cfg.outRootPath info))
    |>.set "save_visual" (.json (.bool cfg.saveVisual))
    |>.set "mt_no" (.json (.str info.mtNo))
    |>.set "date" (.json (.str info.date))
    |>.set "mt_stand_width" (.json (.int info.mtStandWidth))
    |>.set "mt_stand_height" (.json (.int info.mtStandHeight))
    |>.set "lot_no" (.json (.str info.lotNo))
    |>.set "mt_type_cd" (.json (.str info.mtTypeCd))
    |>.set "mt_stand_raw" (.json (.str info.mtStandRaw))
    |>.set "mt_stand_norm" (.json (.str info.mtStandNorm))

/-- The description that an event puts on the queue. -/
def putDescription (cfg : Config) (jobLv2Info : Option JobInfo) : Event → Option JobDesc
  | .addJobLv2Info _ => none
  | .lineSignal v =>
    if barLeft v then jobLv2Info.map fun info => jobDescription cfg info (publishLineSignal v) else none

/-! ## The plot -/

/-- An `int` argument of a signal. -/
def intArgument : DescValue → Except Exn Int
  | .json (.int i) => .ok i
  | .json (.bool b) => .ok (if b then 1 else 0)
  | _ => .error .typeError

/-- The length that `processing_result_signal` carries. -/
def emittedLength (desc : JobDesc) : Except Exn Int := intArgument (desc.get "fm_length" (.json (.int 100)))

/-- `setXRange` in `on_update_sdd_result_binary`. -/
def xRange (fmLength : Int) : Int × Int := (0, fmLength)

/-- The plot goes up to the length. -/
def ShowsLength (desc : JobDesc) (length : Int) : Prop := xRange <$> emittedLength desc = .ok (0, length)

/-! ## From the instruction to the plot -/

/-- The description has what the job has. -/
structure Describes (desc : JobDesc) (j : Job) : Prop where
  sddInPath : desc "sdd_in_path" = some (.path j.sddInPath)
  sddOutPath : desc "sdd_out_path" = some (.path j.sddOutPath)
  saveVisual : desc "save_visual" = some (.json (.bool j.saveVisual))
  mtNo : desc "mt_no" = some (.json (.str j.info.mtNo))
  date : desc "date" = some (.json (.str j.info.date))
  mtStandWidth : desc "mt_stand_width" = some (.json (.int j.info.mtStandWidth))
  mtStandHeight : desc "mt_stand_height" = some (.json (.int j.info.mtStandHeight))
  lotNo : desc "lot_no" = some (.json (.str j.info.lotNo))
  mtTypeCd : desc "mt_type_cd" = some (.json (.str j.info.mtTypeCd))
  mtStandRaw : desc "mt_stand_raw" = some (.json (.str j.info.mtStandRaw))
  mtStandNorm : desc "mt_stand_norm" = some (.json (.str j.info.mtStandNorm))

theorem jobDescription_describes (cfg : Config) (info : JobInfo) (data : Json) :
    Describes (jobDescription cfg info data) (job cfg info) := by
  constructor <;> rfl

/-- No step sets the length, and a published message has none. -/
theorem jobDescription_fmLength (cfg : Config) (info : JobInfo) (v : Signals) :
    jobDescription cfg info (publishLineSignal v) "fm_length" = none := rfl

/-- A job is put with its description, for the bar that is pending. -/
theorem description_of_put {cfg : Config} {s : Option JobInfo} {v : Signals} {j : Job}
    (h : put cfg s (.lineSignal v) = some j) :
    ∃ info, s = some info ∧ j = job cfg info ∧
      putDescription cfg s (.lineSignal v) = some (jobDescription cfg info (publishLineSignal v)) := by
  obtain ⟨hleft, info, rfl, rfl⟩ := put_eq_some_iff.1 h
  exact ⟨info, rfl, rfl, if_pos hleft⟩

theorem emittedLength_jobDescription (cfg : Config) (info : JobInfo) (v : Signals) :
    emittedLength (jobDescription cfg info (publishLineSignal v)) = .ok 100 := by
  rw [emittedLength, JobDesc.get, jobDescription_fmLength]
  rfl

/-- An instruction that leads to a pending bar has a length. -/
theorem length_of_derivedInfo {floor : Bytes → Int} {presetFiles : List Bytes} {packet : Bytes} {info : JobInfo}
    (h : derivedInfo floor presetFiles packet = some info) :
    ∃ length, stol (text lv2MfInstruction packet "cFMLength") = .ok length := by
  unfold derivedInfo at h
  split at h
  · rename_i pack hraw
    obtain ⟨-, -, hpack⟩ := lv2Dispatch_spec hraw List.mem_cons_self
    rw [List.take_length] at hpack
    obtain ⟨_, -, hpack⟩ := bind_eq_ok hpack
    obtain ⟨_, -, hpack⟩ := bind_eq_ok hpack
    obtain ⟨_, -, hpack⟩ := bind_eq_ok hpack
    obtain ⟨_, -, hpack⟩ := bind_eq_ok hpack
    obtain ⟨length, hlength, -⟩ := bind_eq_ok hpack
    exact ⟨length, hlength⟩
  · cases h

/-- Whatever line signals follow an instruction until its bar has left, the plot
goes up to the length of the instruction if and only if that is 100. -/
theorem product_length_shown_iff {floor : Bytes → Int} {presetFiles : List Bytes} {packet : Bytes} {info : JobInfo}
    (cfg : Config) (s : Option JobInfo) (evs : List Event) (v : Signals) {j : Job}
    (hinfo : derivedInfo floor presetFiles packet = some info) (hevs : ∀ e ∈ evs, isAdd e = false)
    (hput : put cfg (runs step s (.addJobLv2Info info :: evs)) (.lineSignal v) = some j) :
    ∃ length desc, stol (text lv2MfInstruction packet "cFMLength") = .ok length ∧
      putDescription cfg (runs step s (.addJobLv2Info info :: evs)) (.lineSignal v) = some desc ∧
      j = job cfg info ∧ Describes desc j ∧ (ShowsLength desc length ↔ length = 100) := by
  obtain ⟨length, hlength⟩ := length_of_derivedInfo hinfo
  obtain ⟨pending, hpending, rfl, hdesc⟩ := description_of_put hput
  have hsame : runs step s (.addJobLv2Info info :: evs) = some info := runs_of_no_add hevs
  obtain rfl := Option.some.inj (hsame.symm.trans hpending)
  refine ⟨length, _, hlength, hdesc, rfl, jobDescription_describes cfg info _, ?_⟩
  rw [ShowsLength, emittedLength_jobDescription]
  constructor
  · intro h
    exact (Prod.mk.inj (Except.ok.inj h)).2.symm
  · rintro rfl
    rfl

/-- An instruction for a product of length 85. -/
def length85 : Bytes := h200.take 214 ++ ascii "000085" ++ h200.drop 220

theorem derivedInfo_length85 : ∃ info, derivedInfo wholePart [ascii "0_0.preset"] length85 = some info :=
  Option.isSome_iff_exists.1 (by decide +kernel)

theorem product_length_shown_iff_85 :
    ∃ info length desc, stol (text lv2MfInstruction length85 "cFMLength") = .ok length ∧
    putDescription paths (runs step none [.addJobLv2Info info, .lineSignal ⟨true, false, true, false⟩])
      (.lineSignal leaving) =
      some desc ∧ (ShowsLength desc length ↔ length = 100) := by
  obtain ⟨info, hinfo⟩ := derivedInfo_length85
  obtain ⟨length, desc, hlength, hdesc, -, -, hiff⟩ := product_length_shown_iff paths none
    [.lineSignal ⟨true, false, true, false⟩] leaving hinfo (by decide) rfl
  exact ⟨info, length, desc, hlength, hdesc, hiff⟩

/-- The plot of a product of length 85 goes up to 100. -/
theorem product_length_lost : ¬ ∀ (floor : Bytes → Int) (presetFiles : List Bytes) (packet : Bytes) (info : JobInfo)
    (cfg : Config) (s : Option JobInfo) (evs : List Event) (v : Signals) (j : Job),
    derivedInfo floor presetFiles packet = some info → (∀ e ∈ evs, isAdd e = false) →
    put cfg (runs step s (.addJobLv2Info info :: evs)) (.lineSignal v) = some j →
    ∃ length desc, stol (text lv2MfInstruction packet "cFMLength") = .ok length ∧
      putDescription cfg (runs step s (.addJobLv2Info info :: evs)) (.lineSignal v) = some desc ∧
        ShowsLength desc length := by
  intro h
  obtain ⟨info, hinfo⟩ := derivedInfo_length85
  obtain ⟨length, desc, hlength, hdesc, hshown⟩ := h wholePart [ascii "0_0.preset"] length85 info paths none [] leaving
    (job paths info) hinfo (List.forall_mem_nil _) rfl
  have h85 : stol (text lv2MfInstruction length85 "cFMLength") = .ok 85 := by decide +kernel
  obtain rfl := Except.ok.inj (hlength.symm.trans h85)
  obtain rfl := Option.some.inj hdesc
  rw [ShowsLength, emittedLength_jobDescription] at hshown
  exact absurd (Prod.mk.inj (Except.ok.inj hshown)).2 (by decide)

end FlameSdd.ProductLength
