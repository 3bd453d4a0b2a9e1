import FlameSdd.JobDelivery
import FlameSdd.PresetSelection
import FlameSdd.SysLib.Program
/-!
# What Level2 data does to the window

`on_update_dk_level2_data` hands the data to the inference and sends the
nearest preset to cameras, lights and lenses. An exception anywhere in it is
logged and ends it; without a preset it ends before the pending bar is updated:
`pending_updated_iff`.
-/
open SysLib FlameSdd.ModelInference FlameSdd.PresetSelection

namespace FlameSdd.Level2Update

/-! ## Presets -/

/-- A text, as `int` and `float` read it. -/
inductive Text where
  | integer (i : Int)
  | decimal (q : Rat)
  | other
  deriving DecidableEq

def Text.int : Text → Except Exn Int
  | .integer i => .ok i
  | _ => .error .invalidArgument

def Text.float : Text → Except Exn Rat
  | .integer i => .ok i
  | .decimal q => .ok q
  | .other => .error .invalidArgument

/-- The three members of a preset file, each a value for every id, as text. -/
structure Preset where
  focusValue : Option (Nat → Option Text)
  cameraExposureTime : Option (Nat → Option Text)
  lightValue : Option (Nat → Option Text)

/-- The configuration, and the directory of the presets. -/
structure Config where
  cameraIds : List Nat
  lightIds : List Nat
  presetFiles : List Bytes
  /-- What `json.load` reads, where the file exists and is JSON. -/
  load : Bytes → Option Preset
  useLensControl : Bool
  useCameraControl : Bool
  useLightControl : Bool
  useNearestPresetAutoSelect : Bool

/-! ## The window -/

/-- What the window shows and remembers, and what was last sent to each device. -/
structure State where
  jobLv2Info : Option JobInfo
  comboboxPreset : Bytes
  lastPresetFile : Bytes
  systemOnline : Bool
  editFocusValue : Nat → Text
  editExposureTimeValue : Nat → Text
  editLightLevelValue : Nat → Text
  focus : Nat → Option Int
  exposureTime : Nat → Option Rat
  brightness : Option (List Int)

inductive Request where
  | look
  | assign (f : State → State)

def Request.Answer : Request → Type
  | .look => State
  | .assign _ => Unit

def window (s : State) : (q : Request) → State × q.Answer
  | .look => (s, s)
  | .assign f => (f s, ())

abbrev WindowM := Program Request Request.Answer Exn

def look : WindowM State := Program.request Request.look

def assign (f : State → State) : WindowM Unit := Program.request (Request.assign f)

def lift {α : Type} : Except Exn α → WindowM α
  | .ok a => .done a
  | .error e => .stop e

@[simp] theorem lift_ok {α : Type} (a : α) : lift (.ok a) = .done a := rfl

@[simp] theorem run_look {α : Type} (f : State → WindowM α) (s : State) :
    (look >>= f).run window s = (f s).run window s := rfl

@[simp] theorem run_assign {α : Type} (g : State → State) (f : Unit → WindowM α) (s : State) :
    (assign g >>= f).run window s = (f ()).run window (g s) := rfl

@[simp] theorem run_assign_end (g : State → State) (s : State) : (assign g).run window s = (g s, .ok ()) := rfl

/-! ## The buttons -/

/-- `setText` for every id that the preset has. -/
def fill (values : Nat → Option Text) (edits : Nat → Text) (id : Nat) : Text := (values id).getD (edits id)

/-- `preset[k]`. -/
def member (m : Option (Nat → Option Text)) : WindowM (Nat → Option Text) := lift (m.elim (.error .outOfRange) .ok)

/-- `on_btn_preset_load`: the preset is shown, and remembered, but not sent. -/
def onBtnPresetLoad (cfg : Config) : WindowM Unit := do
  let selectedPreset := (← look).comboboxPreset
  assign fun s => { s with lastPresetFile := selectedPreset }
  if selectedPreset ≠ [] then
    match cfg.load selectedPreset with
    -- only a message box
    | none => pure ()
    | some preset =>
      let focusValue ← member preset.focusValue
      assign fun s => { s with editFocusValue := fill focusValue s.editFocusValue }
      let cameraExposureTime ← member preset.cameraExposureTime
      assign fun s => { s with editExposureTimeValue := fill cameraExposureTime s.editExposureTimeValue }
      let lightValue ← member preset.lightValue
      assign fun s => { s with editLightLevelValue := fill lightValue s.editLightLevelValue }

/-- `on_btn_focus_set`; without lens control, only a message box. -/
def onBtnFocusSet (cfg : Config) (id : Nat) : WindowM Unit := do
  if cfg.useLensControl then
    let focusValue ← lift ((← look).editFocusValue id).int
    assign fun s => { s with focus := Function.update s.focus id (some focusValue) }

def onBtnFocusPresetSetAll (cfg : Config) : WindowM Unit := cfg.cameraIds.forM (onBtnFocusSet cfg)

/-- `__exposure_time_set`; without camera control, only a message box. -/
def exposureTimeSet (cfg : Config) (id : Nat) : WindowM Unit := do
  if cfg.useCameraControl then
    let etVal ← lift ((← look).editExposureTimeValue id).float
    assign fun s => { s with exposureTime := Function.update s.exposureTime id (some etVal) }

def onBtnExposureTimeSetAll (cfg : Config) : WindowM Unit := cfg.cameraIds.forM (exposureTimeSet cfg)

/-- `set_control_multi`: a packet of 512 bytes, if every light and its value have
a place in it. -/
def setControlMulti (deviceIds : List Nat) (brightness : List Int) : WindowM Unit :=
  if (∀ id ∈ deviceIds, id < 512) ∧ ∀ b ∈ brightness, 0 ≤ b ∧ b < 256 then
    assign fun s => { s with brightness := some brightness }
  else .stop .outOfRange

def onBtnLightLevelSetAll (cfg : Config) : WindowM Unit := do
  let s ← look
  let brightness ← lift ((List.range cfg.lightIds.length).mapM fun idx => (s.editLightLevelValue (idx + 1)).int)
  -- without light control there is no subscriber to call
  if cfg.useLightControl then setControlMulti cfg.lightIds brightness else .stop .typeError

/-! ## Level2 data -/

/-- The end of `on_update_dk_level2_data`. -/
def applyPreset (cfg : Config) (nearPreset : Option Bytes) : WindowM Unit :=
  match nearPreset with
  | none => pure ()
  | some nearPreset => do
    assign fun s => { s with comboboxPreset := nearPreset }
    if cfg.useNearestPresetAutoSelect then
      let s ← look
      if s.systemOnline then
        if s.lastPresetFile ≠ nearPreset then
          onBtnPresetLoad cfg
          onBtnExposureTimeSetAll cfg
          onBtnLightLevelSetAll cfg
          onBtnFocusPresetSetAll cfg
          assign fun s => { s with lastPresetFile := nearPreset }
        else
          onBtnLightLevelSetAll cfg

/-- `on_update_dk_level2_data`, with the inference in use. -/
def onUpdateDkLevel2Data (cfg : Config) (data : Json) : WindowM Unit := do
  let info ← lift (Window.onUpdateDkLevel2Data cfg.presetFiles data)
  assign fun s => { s with jobLv2Info := some info }
  -- the dimensions of the pending bar are the ones the preset was looked for with
  applyPreset cfg (Window.findNearestPreset info.mtStandWidth info.mtStandHeight cfg.presetFiles)

/-- The window after the handler, whose exceptions are logged. -/
def updated (cfg : Config) (s : State) (data : Json) : State := ((onUpdateDkLevel2Data cfg data).run window s).1

/-! ## The pending bar -/

/-- Level2 data, as the interface publishes it. -/
structure Level2Data where
  date : Bytes
  lotNo : Bytes
  mtNo : Bytes
  mtStand : Bytes
  mtStandRaw : Bytes
  mtStandNorm : Bytes
  mtStandHeight : Int
  mtStandWidth : Int
  mtStandT1 : Int
  mtStandT2 : Int
  fmLength : Int
  mtTypeCd : Bytes
  fmSpeed : Int

def Level2Data.toJson (d : Level2Data) : Json := .obj [
  ("date", .str d.date), ("lot_no", .str d.lotNo), ("mt_no", .str d.mtNo), ("mt_stand", .str d.mtStand),
  ("mt_stand_raw", .str d.mtStandRaw), ("mt_stand_norm", .str d.mtStandNorm), ("mt_stand_height", .int d.mtStandHeight),
  ("mt_stand_width", .int d.mtStandWidth), ("mt_stand_t1", .int d.mtStandT1), ("mt_stand_t2", .int d.mtStandT2),
  ("fm_length", .int d.fmLength), ("mt_type_cd", .str d.mtTypeCd), ("fm_speed", .int d.fmSpeed)]

/-- Every instruction that decodes is published as such data. -/
theorem instructionPack_toJson {packet : Bytes} {pack : Json} (h : Level2Interface.instructionPack packet = .ok pack) :
    ∃ d : Level2Data, pack = d.toJson := by
  obtain ⟨height, width, t1, t2, fmLength, fmSpeed, -, -, rfl⟩ := Level2Interface.instructionPack_eq h
  exact ⟨⟨_, _, _, _, _, _, height, width, t1, t2, fmLength, _, fmSpeed⟩, rfl⟩

/-- The pending bar that the data describes. -/
def Level2Data.jobInfo (d : Level2Data) : JobInfo where
  date := d.date
  mtStandHeight := d.mtStandHeight.tdiv 10
  mtStandWidth := d.mtStandWidth.tdiv 10
  mtNo := d.mtNo
  lotNo := d.lotNo
  mtTypeCd := d.mtTypeCd
  mtStandRaw := d.mtStandRaw
  mtStandNorm := d.mtStandNorm

/-- The preset that is nearest to the data. -/
def selected (cfg : Config) (d : Level2Data) : Option Bytes :=
  selectedPreset cfg.presetFiles d.mtStandWidth d.mtStandHeight

theorem onUpdateDkLevel2Data_toJson (cfg : Config) (d : Level2Data) :
    Window.onUpdateDkLevel2Data cfg.presetFiles d.toJson =
      match selected cfg d with
      | none => .error .typeError
      | some _ => .ok d.jobInfo := rfl

/-- Something is selected as soon as one name is a preset's. -/
theorem isSome_selected_iff (cfg : Config) (d : Level2Data) :
    (selected cfg d).isSome ↔ ∃ f ∈ cfg.presetFiles, (Window.parseFilename f).isSome := by
  rw [selected, selectedPreset_eq, Option.isSome_map, ← Option.ne_none_iff_isSome, ne_eq,
    ArgMin.firstMin_eq_none_iff, List.filterMap_eq_nil_iff]
  simp [entry, ← Option.ne_none_iff_isSome]

/-! ## The handler leaves the pending bar alone, once it is updated -/

/-- What does not touch the pending bar. -/
abbrev KeepsJob {α : Type} (p : WindowM α) : Prop := Program.Within window (Program.Keeps State.jobLv2Info) p

theorem keepsJob_assign {f : State → State} (h : ∀ s, (f s).jobLv2Info = s.jobLv2Info) : KeepsJob (assign f) :=
  Program.within_request h

theorem keepsJob_look : KeepsJob look := Program.within_request fun _ => rfl

theorem keepsJob_lift {α : Type} (x : Except Exn α) : KeepsJob (lift x) := by
  cases x with
  | ok a => exact Program.within_done a
  | error e => exact Program.within_stop e

theorem keepsJob_assign_bind {α : Type} {f : State → State} {p : Unit → WindowM α}
    (h : ∀ s, (f s).jobLv2Info = s.jobLv2Info) (hp : KeepsJob (p ())) : KeepsJob (assign f >>= p) :=
  (keepsJob_assign h).bind fun _ => hp

/-- A button that reads an edit and sends what it reads. -/
theorem keepsJob_send {c : Prop} [Decidable c] {α : Type} {x : State → Except Exn α} {f : α → State → State}
    (h : ∀ a s, (f a s).jobLv2Info = s.jobLv2Info) :
    KeepsJob (if c then look >>= fun s => lift (x s) >>= fun a => assign (f a) else pure ()) := by
  split
  · exact keepsJob_look.bind fun s => (keepsJob_lift (x s)).bind fun a => keepsJob_assign (h a)
  · exact Program.within_done _

/-- The load button shows a preset, as far as it has the members, and remembers it. -/
theorem presetLoad_effect (cfg : Config) (s : State) :
    ∃ focus exposureTime light, ((onBtnPresetLoad cfg).run window s).1 =
      { s with
        lastPresetFile := s.comboboxPreset
        editFocusValue := focus
        editExposureTimeValue := exposureTime
        editLightLevelValue := light } := by
  by_cases hsel : s.comboboxPreset = []
  · exact ⟨_, _, _, by simp only [onBtnPresetLoad, run_look, run_assign, hsel]; rfl⟩
  · cases hload : cfg.load s.comboboxPreset with
    | none => exact ⟨_, _, _, by simp only [onBtnPresetLoad, run_look, run_assign, if_pos hsel, hload]; rfl⟩
    | some preset =>
      -- the first member that is missing ends it
      obtain ⟨focusValue, cameraExposureTime, lightValue⟩ := preset
      simp only [onBtnPresetLoad, run_look, run_assign, if_pos hsel, hload]
      cases focusValue with
      | none => exact ⟨_, _, _, rfl⟩
      | some focusValue =>
        cases cameraExposureTime with
        | none => exact ⟨_, _, _, rfl⟩
        | some cameraExposureTime =>
          cases lightValue with
          | none => exact ⟨_, _, _, rfl⟩
          | some lightValue => exact ⟨_, _, _, rfl⟩

/-- The lights are all that this button changes. -/
theorem lightLevelSetAll_effect (cfg : Config) (s : State) :
    ∃ brightness, ((onBtnLightLevelSetAll cfg).run window s).1 = { s with brightness := brightness } := by
  rw [onBtnLightLevelSetAll, run_look]
  cases (List.range cfg.lightIds.length).mapM fun idx => (s.editLightLevelValue (idx + 1)).int with
  | error e => exact ⟨_, rfl⟩
  | ok brightness =>
    simp only [lift_ok, Program.done_bind]
    split
    · rw [setControlMulti]
      split
      · exact ⟨_, rfl⟩
      · exact ⟨_, rfl⟩
    · exact ⟨_, rfl⟩

theorem keepsJob_presetLoad (cfg : Config) : KeepsJob (onBtnPresetLoad cfg) := by
  intro s
  obtain ⟨focus, exposureTime, light, h⟩ := presetLoad_effect cfg s
  rw [h]
  rfl

theorem keepsJob_focusSet (cfg : Config) (id : Nat) : KeepsJob (onBtnFocusSet cfg id) :=
  keepsJob_send fun _ _ => rfl

theorem keepsJob_exposureTimeSet (cfg : Config) (id : Nat) : KeepsJob (exposureTimeSet cfg id) :=
  keepsJob_send fun _ _ => rfl

theorem keepsJob_lightLevelSetAll (cfg : Config) : KeepsJob (onBtnLightLevelSetAll cfg) := by
  intro s
  obtain ⟨brightness, h⟩ := lightLevelSetAll_effect cfg s
  rw [h]
  rfl

theorem keepsJob_applyPreset (cfg : Config) (nearPreset : Option Bytes) : KeepsJob (applyPreset cfg nearPreset) := by
  cases nearPreset with
  | none => exact Program.within_done _
  | some f =>
    refine keepsJob_assign_bind (fun _ => rfl) ?_
    split
    · refine keepsJob_look.bind fun s => ?_
      split
      · split
        · refine (keepsJob_presetLoad cfg).bind fun _ => ?_
          refine (Program.Within.forM fun id _ => keepsJob_exposureTimeSet cfg id).bind fun _ => ?_
          refine (keepsJob_lightLevelSetAll cfg).bind fun _ => ?_
          refine (Program.Within.forM fun id _ => keepsJob_focusSet cfg id).bind fun _ => ?_
          exact keepsJob_assign fun _ => rfl
        · exact keepsJob_lightLevelSetAll cfg
      · exact Program.within_done _
    · exact Program.within_done _

/-- The pending bar after the handler: another one only if a preset was found. -/
theorem jobLv2Info_updated (cfg : Config) (s : State) (data : Json) :
    (updated cfg s data).jobLv2Info =
      match Window.onUpdateDkLevel2Data cfg.presetFiles data with
      | .ok info => some info
      | .error _ => s.jobLv2Info := by
  unfold updated onUpdateDkLevel2Data
  cases Window.onUpdateDkLevel2Data cfg.presetFiles data with
  | error e => rfl
  | ok info => exact keepsJob_applyPreset cfg _ { s with jobLv2Info := some info }

/-- It is the pending bar of the delivery of jobs. -/
theorem jobLv2Info_delivered (cfg : Config) (floor : Bytes → Int) (paths : ModelInference.Config) (s : State)
    (s' : JobDelivery.State) (h : s.jobLv2Info = s'.jobLv2Info) {n : Nat} {data : Json}
    (hnext : s'.updates.next = some (n, data)) :
    (updated cfg s data).jobLv2Info = (JobDelivery.step floor paths cfg.presetFiles s' .update).jobLv2Info := by
  rw [jobLv2Info_updated, h]
  simp only [JobDelivery.step, hnext]
  rfl

/-- The pending bar is the one of the data. -/
def Holds (jobLv2Info : Option JobInfo) (d : Level2Data) : Prop :=
  ∃ info, jobLv2Info = some info ∧ info.date = d.date ∧ info.mtNo = d.mtNo ∧ info.lotNo = d.lotNo ∧
    info.mtTypeCd = d.mtTypeCd ∧ info.mtStandRaw = d.mtStandRaw ∧ info.mtStandNorm = d.mtStandNorm

/-- The handler leaves the bar of its data pending if and only if some preset
has the form of one, or that bar was pending before. -/
theorem pending_updated_iff (cfg : Config) (s : State) (d : Level2Data) :
    Holds (updated cfg s d.toJson).jobLv2Info d ↔
      (∃ f ∈ cfg.presetFiles, (Window.parseFilename f).isSome) ∨ Holds s.jobLv2Info d := by
  rw [← isSome_selected_iff cfg d, jobLv2Info_updated, onUpdateDkLevel2Data_toJson]
  cases selected cfg d with
  | none => simp
  | some f => exact iff_of_true ⟨d.jobInfo, rfl, rfl, rfl, rfl, rfl, rfl, rfl⟩ (.inl rfl)

/-! ## A directory without presets -/

def noPresets : Config where
  cameraIds := [1]
  lightIds := [17]
  presetFiles := [ascii "readme.txt"]
  load _ := none
  useLensControl := true
  useCameraControl := true
  useLightControl := true
  useNearestPresetAutoSelect := true

/-- The window as it starts. -/
def init (cfg : Config) : State where
  jobLv2Info := none
  comboboxPreset := cfg.presetFiles.headD []
  lastPresetFile := []
  systemOnline := true
  editFocusValue _ := .other
  editExposureTimeValue _ := .other
  editLightLevelValue _ := .other
  focus _ := none
  exposureTime _ := none
  brightness := none

/-- A bar. -/
def barData (date : Bytes) (width height : Int) : Level2Data where
  date := date
  lotNo := ascii "L1"
  mtNo := ascii "A1"
  mtStand := ascii "H300X300"
  mtStandRaw := ascii "H 300 x 300"
  mtStandNorm := ascii "H300x300"
  mtStandHeight := height
  mtStandWidth := width
  mtStandT1 := 100
  mtStandT2 := 150
  fmLength := 12000
  mtTypeCd := ascii "H"
  fmSpeed := 10

/-- There the bar before stays pending. -/
theorem pending_not_updated : ¬ ∀ (cfg : Config) (s : State) (d : Level2Data),
    Holds (updated cfg s d.toJson).jobLv2Info d := by
  intro h
  let before := (barData (ascii "20250102030405") 3000 3000).jobInfo
  obtain ⟨info, hinfo, hdate, -⟩ := h noPresets { init noPresets with jobLv2Info := some before }
    (barData (ascii "20250102030900") 3000 3000)
  rw [jobLv2Info_updated] at hinfo
  obtain rfl : before = info := Option.some.inj hinfo
  exact absurd hdate (by decide)

end FlameSdd.Level2Update
