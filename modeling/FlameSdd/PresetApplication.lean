import FlameSdd.Level2Update
/-!
# The preset that was sent

The window takes the preset that it remembers for the one that it sent. The load
button makes it remember one that is only shown, so that an update which selects
this preset sends nothing but the lights: `follows_selection_iff`.
-/
open SysLib FlameSdd.PresetSelection FlameSdd.Level2Update

namespace FlameSdd.PresetApplication

/-! ## Runs -/

/-- The load button with a preset selected, or Level2 data. -/
inductive Event where
  | load (selected : Bytes)
  | update (data : Level2Data)

def step (cfg : Config) (s : State) : Event → State
  | .load selected => ((onBtnPresetLoad cfg).run window { s with comboboxPreset := selected }).1
  | .update data => updated cfg s data.toJson

/-! ## What a preset holds -/

def focusOf (cfg : Config) (preset : Bytes) (id : Nat) : Option Int := do
  let values ← (← cfg.load preset).focusValue
  (← values id).int.toOption

def exposureTimeOf (cfg : Config) (preset : Bytes) (id : Nat) : Option Rat := do
  let values ← (← cfg.load preset).cameraExposureTime
  (← values id).float.toOption

/-- Every camera has a focus and an exposure time, and every light a brightness. -/
structure Complete (cfg : Config) (p : Preset) : Prop where
  focus : ∃ values, p.focusValue = some values ∧ ∀ id ∈ cfg.cameraIds, ∃ t v, values id = some t ∧ t.int = .ok v
  exposureTime : ∃ values, p.cameraExposureTime = some values ∧
    ∀ id ∈ cfg.cameraIds, ∃ t v, values id = some t ∧ t.float = .ok v
  light : ∃ values, p.lightValue = some values ∧
    ∀ idx < cfg.lightIds.length, ∃ t v, values (idx + 1) = some t ∧ t.int = .ok v ∧ 0 ≤ v ∧ v < 256

/-- Presets are selected automatically and can be sent, and there is one to select. -/
structure InUse (cfg : Config) : Prop where
  autoSelect : cfg.useNearestPresetAutoSelect = true
  lensControl : cfg.useLensControl = true
  cameraControl : cfg.useCameraControl = true
  lightControl : cfg.useLightControl = true
  lightIds : ∀ id ∈ cfg.lightIds, id < 512
  wellNamed : ∃ f ∈ cfg.presetFiles, (Window.parseFilename f).isSome
  complete : ∀ f ∈ cfg.presetFiles, ∃ p, cfg.load f = some p ∧ Complete cfg p

/-- What was last sent to each camera is what the preset holds for it. -/
def Applied (cfg : Config) (preset : Bytes) (s : State) : Prop :=
  ∀ id ∈ cfg.cameraIds, (∃ v, s.focus id = some v ∧ focusOf cfg preset id = some v) ∧
    ∃ v, s.exposureTime id = some v ∧ exposureTimeOf cfg preset id = some v

/-! ## Sending -/

variable {cfg : Config}

theorem run_focusSetAll (hlens : cfg.useLensControl = true) {s : State}
    (hvalue : ∀ id ∈ cfg.cameraIds, ∃ v, (s.editFocusValue id).int = .ok v) :
    (onBtnFocusPresetSetAll cfg).run window s =
      ({ s with
        focus := fun id => if id ∈ cfg.cameraIds then (s.editFocusValue id).int.toOption else s.focus id },
        .ok ()) := by
  refine Program.run_forM_update (g := fun focus => { s with focus := focus }) (fun id hid focus => ?_) s.focus
  obtain ⟨v, hv⟩ := hvalue id hid
  rw [onBtnFocusSet, if_pos hlens, run_look]
  simp only [hv]
  rfl

theorem run_exposureTimeSetAll (hcamera : cfg.useCameraControl = true) {s : State}
    (hvalue : ∀ id ∈ cfg.cameraIds, ∃ v, (s.editExposureTimeValue id).float = .ok v) :
    (onBtnExposureTimeSetAll cfg).run window s =
      ({ s with
        exposureTime := fun id =>
          if id ∈ cfg.cameraIds then (s.editExposureTimeValue id).float.toOption else s.exposureTime id }, .ok ()) := by
  refine Program.run_forM_update (g := fun exposureTime => { s with exposureTime := exposureTime })
    (fun id hid exposureTime => ?_) s.exposureTime
  obtain ⟨v, hv⟩ := hvalue id hid
  rw [exposureTimeSet, if_pos hcamera, run_look]
  simp only [hv]
  rfl

/-- The values of a list that are all read. -/
theorem mapM_ok {α β : Type} {f : α → Except Exn β} {l : List α} {p : β → Prop} (h : ∀ a ∈ l, ∃ b, f a = .ok b ∧ p b) :
    ∃ bs, l.mapM f = .ok bs ∧ ∀ b ∈ bs, p b := by
  induction l with
  | nil => exact ⟨[], rfl, List.forall_mem_nil _⟩
  | cons a l ih =>
    obtain ⟨⟨b, hb, hpb⟩, hl⟩ := List.forall_mem_cons.1 h
    obtain ⟨bs, hbs, hp⟩ := ih hl
    refine ⟨b :: bs, ?_, List.forall_mem_cons.2 ⟨hpb, hp⟩⟩
    rw [List.mapM_cons, hb, hbs]
    rfl

theorem run_lightLevelSetAll (hlight : cfg.useLightControl = true) (hids : ∀ id ∈ cfg.lightIds, id < 512) {s : State}
    (hvalue : ∀ idx < cfg.lightIds.length, ∃ v, (s.editLightLevelValue (idx + 1)).int = .ok v ∧ 0 ≤ v ∧ v < 256) :
    (onBtnLightLevelSetAll cfg).run window s =
      ({ s with
        brightness :=
          ((List.range cfg.lightIds.length).mapM fun idx => (s.editLightLevelValue (idx + 1)).int).toOption },
          .ok ()) := by
  obtain ⟨brightness, hread, hrange⟩ := mapM_ok fun idx hidx => hvalue idx (List.mem_range.1 hidx)
  rw [onBtnLightLevelSetAll, run_look, hread, lift_ok, Program.done_bind, if_pos hlight, setControlMulti,
    if_pos ⟨hids, hrange⟩]
  rfl

/-- A complete preset is shown as a whole. -/
theorem run_presetLoad {s : State} {p : Preset} (hne : s.comboboxPreset ≠ [])
    (hload : cfg.load s.comboboxPreset = some p) {focusValue cameraExposureTime lightValue : Nat → Option Text}
    (hf : p.focusValue = some focusValue) (he : p.cameraExposureTime = some cameraExposureTime)
    (hl : p.lightValue = some lightValue) :
    (onBtnPresetLoad cfg).run window s =
      ({ s with
        lastPresetFile := s.comboboxPreset
        editFocusValue := fill focusValue s.editFocusValue
        editExposureTimeValue := fill cameraExposureTime s.editExposureTimeValue
        editLightLevelValue := fill lightValue s.editLightLevelValue }, .ok ()) := by
  simp only [onBtnPresetLoad, run_look, run_assign, if_pos hne, hload, hf, he, hl]
  rfl

/-! ## One step -/

theorem exists_selected (h : InUse cfg) (d : Level2Data) : ∃ f, selected cfg d = some f :=
  Option.isSome_iff_exists.1 ((isSome_selected_iff cfg d).2 h.wellNamed)

theorem ne_nil_of_selected {d : Level2Data} {f : Bytes} (h : selected cfg d = some f) : f ≠ [] := by
  rintro rfl
  exact Bool.noConfusion (mem_of_selectedPreset h).2

theorem updated_toJson {d : Level2Data} {f : Bytes} (h : selected cfg d = some f) (s : State) :
    updated cfg s d.toJson = ((applyPreset cfg (some f)).run window { s with jobLv2Info := some d.jobInfo }).1 := by
  rw [← h, updated, onUpdateDkLevel2Data, onUpdateDkLevel2Data_toJson, h, lift_ok, Program.done_bind, run_assign, ← h]
  rfl

/-- An update sends the preset it selects, unless it is the one remembered. -/
theorem update_other (h : InUse cfg) {s : State} (honline : s.systemOnline = true) {d : Level2Data} {f : Bytes}
    (hsel : selected cfg d = some f) (hlast : s.lastPresetFile ≠ f) :
    Applied cfg f (step cfg s (.update d)) ∧ (step cfg s (.update d)).lastPresetFile = f ∧
      (step cfg s (.update d)).systemOnline = true := by
  obtain ⟨p, hload, ⟨focusValue, hfocusValue, hfocus⟩, ⟨exposureTime, hexposureTime, hexposure⟩,
    ⟨lightValue, hlightValue, hlight⟩⟩ := h.complete f (mem_of_selectedPreset hsel).1
  have hfill : ∀ {values : Nat → Option Text} {edits id t}, values id = some t → fill values edits id = t := by
    intro values edits id t ht
    rw [fill, ht, Option.getD_some]
  have hshown := run_presetLoad (s := { s with jobLv2Info := some d.jobInfo, comboboxPreset := f })
    (ne_nil_of_selected hsel) hload hfocusValue hexposureTime hlightValue
  -- each handler starts in the state that the one before it leaves
  rw [step, updated_toJson hsel, applyPreset, run_assign, if_pos h.autoSelect, run_look, if_pos honline, if_pos hlast,
    Program.run_bind_ok hshown, Program.run_bind_ok (run_exposureTimeSetAll h.cameraControl ?_),
    Program.run_bind_ok (run_lightLevelSetAll h.lightControl h.lightIds ?_),
    Program.run_bind_ok (run_focusSetAll h.lensControl ?_), run_assign_end]
  · refine ⟨fun id hid => ?_, rfl, honline⟩
    obtain ⟨t, v, ht, hv⟩ := hfocus id hid
    obtain ⟨t', v', ht', hv'⟩ := hexposure id hid
    refine ⟨⟨v, ?_, ?_⟩, v', ?_, ?_⟩
    · simp only [if_pos hid, hfill ht, hv]
      rfl
    · simp [focusOf, hload, hfocusValue, ht, hv, Except.toOption]
    · simp only [if_pos hid, hfill ht', hv']
      rfl
    · simp [exposureTimeOf, hload, hexposureTime, ht', hv', Except.toOption]
  · intro id hid
    obtain ⟨t, v, ht, hv⟩ := hfocus id hid
    exact ⟨v, (congrArg Text.int (hfill ht)).trans hv⟩
  · intro idx hidx
    obtain ⟨t, v, ht, hv, hrange⟩ := hlight idx hidx
    exact ⟨v, (congrArg Text.int (hfill ht)).trans hv, hrange⟩
  · intro id hid
    obtain ⟨t, v, ht, hv⟩ := hexposure id hid
    exact ⟨v, (congrArg Text.float (hfill ht)).trans hv⟩

theorem update_same (h : InUse cfg) {s : State} (honline : s.systemOnline = true) {d : Level2Data} {f : Bytes}
    (hsel : selected cfg d = some f) (hlast : s.lastPresetFile = f) :
    (step cfg s (.update d)).focus = s.focus ∧ (step cfg s (.update d)).exposureTime = s.exposureTime ∧
      (step cfg s (.update d)).lastPresetFile = f ∧ (step cfg s (.update d)).systemOnline = true := by
  obtain ⟨brightness, heffect⟩ :=
    lightLevelSetAll_effect cfg { s with jobLv2Info := some d.jobInfo, comboboxPreset := f }
  have hstep : step cfg s (.update d) =
      { s with jobLv2Info := some d.jobInfo, comboboxPreset := f, brightness := brightness } := by
    rw [step, updated_toJson hsel, applyPreset, run_assign, if_pos h.autoSelect, run_look, if_pos honline,
      if_neg (not_not.2 hlast)]
    exact heffect
  rw [hstep]
  exact ⟨rfl, rfl, hlast, honline⟩

theorem step_load (s : State) (f : Bytes) :
    (step cfg s (.load f)).focus = s.focus ∧ (step cfg s (.load f)).exposureTime = s.exposureTime ∧
      (step cfg s (.load f)).lastPresetFile = f ∧ (step cfg s (.load f)).systemOnline = s.systemOnline := by
  obtain ⟨_, _, _, heffect⟩ := presetLoad_effect cfg { s with comboboxPreset := f }
  rw [step, heffect]
  exact ⟨rfl, rfl, rfl, rfl⟩

/-! ## Runs of loads and updates -/

/-- The preset that the last update selected. -/
def lastSelected (cfg : Config) (evs : List Event) : Option Bytes :=
  (evs.filterMap fun
    | .load _ => none
    | .update d => selected cfg d).getLast?

/-- After every update the cameras have what they were last sent from the preset
that is nearest to it. -/
def FollowsSelection (cfg : Config) (evs : List Event) : Prop :=
  ∀ pre d, pre ++ [.update d] <+: evs →
    ∃ f, selected cfg d = some f ∧ Applied cfg f (runs (step cfg) (init cfg) (pre ++ [.update d]))

/-- A preset that is loaded just before an update selects it holds the same for
the cameras as the one that was selected before. -/
def ShownAreSent (cfg : Config) (evs : List Event) : Prop :=
  ∀ pre f d, pre ++ [.load f, .update d] <+: evs → selected cfg d = some f →
    ∀ id ∈ cfg.cameraIds, ∃ q, lastSelected cfg pre = some q ∧ focusOf cfg q id = focusOf cfg f id ∧
      exposureTimeOf cfg q id = exposureTimeOf cfg f id

/-- The preset that was selected last holds the same for the cameras as this one. -/
def HeldBefore (cfg : Config) (evs : List Event) (f : Bytes) : Prop :=
  ∀ id ∈ cfg.cameraIds, ∃ q, lastSelected cfg evs = some q ∧ focusOf cfg q id = focusOf cfg f id ∧
    exposureTimeOf cfg q id = exposureTimeOf cfg f id

/-- The preset that the window remembers. -/
def remembered (cfg : Config) (evs : List Event) : Bytes :=
  match evs.getLast? with
  | none => []
  | some (.load f) => f
  | some (.update d) => (selected cfg d).getD []

/-- What the run tells of the window. -/
structure Invariant (cfg : Config) (evs : List Event) (s : State) : Prop where
  online : s.systemOnline = true
  remembers : s.lastPresetFile = remembered cfg evs
  sent : match lastSelected cfg evs with
    | none => ∀ id, s.focus id = none
    | some q => Applied cfg q s

theorem follows_concat (evs : List Event) (e : Event) :
    FollowsSelection cfg (evs ++ [e]) ↔ FollowsSelection cfg evs ∧ ∀ d, e = .update d →
      ∃ f, selected cfg d = some f ∧ Applied cfg f (runs (step cfg) (init cfg) (evs ++ [.update d])) := by
  constructor
  · intro h
    refine ⟨fun pre d hp => h pre d (hp.trans (List.prefix_append _ _)), ?_⟩
    rintro d rfl
    exact h evs d List.prefix_rfl
  · rintro ⟨h, he⟩ pre d hp
    rcases List.prefix_concat_iff.1 hp with heq | hp
    · obtain ⟨rfl, hlast⟩ := List.append_inj' heq rfl
      obtain rfl := List.cons.inj hlast |>.1
      exact he d rfl
    · exact h pre d hp

theorem shown_concat (evs : List Event) (e : Event) :
    ShownAreSent cfg (evs ++ [e]) ↔ ShownAreSent cfg evs ∧ ∀ pre f d, evs = pre ++ [.load f] → e = .update d →
      selected cfg d = some f → HeldBefore cfg pre f := by
  constructor
  · intro h
    refine ⟨fun pre f d hp => h pre f d (hp.trans (List.prefix_append _ _)), ?_⟩
    rintro pre f d rfl rfl
    exact h pre f d (by simp)
  · rintro ⟨h, he⟩ pre f d hp
    rw [List.append_cons] at hp
    rcases List.prefix_concat_iff.1 hp with heq | hp
    · obtain ⟨hpre, hlast⟩ := List.append_inj' heq rfl
      exact he pre f d hpre.symm (List.cons.inj hlast).1.symm
    · exact h pre f d (by rwa [List.append_cons])

theorem lastSelected_load (evs : List Event) (f : Bytes) :
    lastSelected cfg (evs ++ [.load f]) = lastSelected cfg evs := by
  simp [lastSelected]

theorem lastSelected_update (evs : List Event) {d : Level2Data} {f : Bytes} (h : selected cfg d = some f) :
    lastSelected cfg (evs ++ [.update d]) = some f := by
  simp [lastSelected, h]

/-- What the cameras were last sent is also what another preset holds for them. -/
theorem Invariant.applied_iff {evs : List Event} {s : State} (inv : Invariant cfg evs s) (f : Bytes) :
    Applied cfg f s ↔ HeldBefore cfg evs f := by
  have hsent := inv.sent
  unfold HeldBefore
  cases hlast : lastSelected cfg evs with
  | none =>
    -- nothing was sent yet, so nothing is applied
    rw [hlast] at hsent
    constructor
    · intro h id hid
      obtain ⟨⟨v, hv, -⟩, -⟩ := h id hid
      rw [hsent id] at hv
      cases hv
    · intro h id hid
      obtain ⟨_, hnone, -⟩ := h id hid
      cases hnone
  | some q =>
    rw [hlast] at hsent
    constructor
    · intro h id hid
      obtain ⟨⟨v, hv, hfv⟩, w, hw, hfw⟩ := h id hid
      obtain ⟨⟨v', hv', hqv⟩, w', hw', hqw⟩ := hsent id hid
      exact ⟨q, rfl, by rw [hqv, ← hv', hv, hfv], by rw [hqw, ← hw', hw, hfw]⟩
    · intro h id hid
      obtain ⟨q', hq', hfocus, hexposure⟩ := h id hid
      obtain rfl : q = q' := Option.some.inj hq'
      obtain ⟨⟨v, hv, hqv⟩, w, hw, hqw⟩ := hsent id hid
      exact ⟨⟨v, hv, by rw [← hfocus, hqv]⟩, w, hw, by rw [← hexposure, hqw]⟩

/-- Whether an update leaves the preset it selects applied. -/
theorem Invariant.update_iff (h : InUse cfg) {evs : List Event} {s : State} (inv : Invariant cfg evs s) {d : Level2Data}
    {f : Bytes} (hsel : selected cfg d = some f) :
    Applied cfg f (step cfg s (.update d)) ↔ ∀ pre, evs = pre ++ [.load f] → HeldBefore cfg pre f := by
  by_cases hlast : s.lastPresetFile = f
  · obtain ⟨hfocus, hexposure, -, -⟩ := update_same h inv.online hsel hlast
    have hsame : Applied cfg f (step cfg s (.update d)) ↔ Applied cfg f s := by
      unfold Applied
      rw [hfocus, hexposure]
    rw [hsame]
    have hrem := inv.remembers
    rw [hlast] at hrem
    rcases List.eq_nil_or_concat evs with rfl | ⟨pre, e, rfl⟩
    · exact absurd hrem (ne_nil_of_selected hsel)
    rw [List.concat_eq_append] at inv hrem ⊢
    cases e with
    | load g =>
      -- it is only shown: what counts is the preset before
      have hg : f = g := by simpa [remembered] using hrem
      rw [inv.applied_iff f, HeldBefore, lastSelected_load, hg]
      constructor
      · rintro happlied pre' heq
        obtain ⟨rfl, -⟩ := List.append_inj' heq rfl
        exact happlied
      · intro hshown
        exact hshown pre rfl
    | update d' =>
      -- it was sent by the update before
      obtain ⟨g, hg⟩ := exists_selected h d'
      have hfg : f = g := by simpa [remembered, hg] using hrem
      have hsent := inv.sent
      rw [lastSelected_update pre hg, ← hfg] at hsent
      refine iff_of_true hsent fun pre' heq => ?_
      have hcons := (List.append_inj' heq rfl).2
      cases (List.cons.inj hcons).1
  · -- it is sent, and was not loaded just before
    refine iff_of_true (update_other h inv.online hsel hlast).1 ?_
    rintro pre rfl
    exact absurd (by simpa [remembered] using inv.remembers) hlast

theorem Invariant.concat (h : InUse cfg) {evs : List Event} {s : State} (inv : Invariant cfg evs s) {e : Event}
    (happlied : ∀ d, e = .update d → ∃ f, selected cfg d = some f ∧ Applied cfg f (step cfg s (.update d))) :
    Invariant cfg (evs ++ [e]) (step cfg s e) := by
  cases e with
  | load f =>
    obtain ⟨hfocus, hexposure, hlast, honline⟩ := step_load s f
    have hsent := inv.sent
    refine ⟨honline.trans inv.online, by simpa [remembered] using hlast, ?_⟩
    rw [lastSelected_load]
    unfold Applied at hsent ⊢
    rwa [hfocus, hexposure]
  | update d =>
    obtain ⟨f, hsel, hf⟩ := happlied d rfl
    have hrest : (step cfg s (.update d)).lastPresetFile = f ∧ (step cfg s (.update d)).systemOnline = true := by
      by_cases hlast : s.lastPresetFile = f
      · exact (update_same h inv.online hsel hlast).2.2
      · exact (update_other h inv.online hsel hlast).2
    refine ⟨hrest.2, by simpa [remembered, hsel] using hrest.1, ?_⟩
    rw [lastSelected_update evs hsel]
    exact hf

theorem invariant_init (cfg : Config) : Invariant cfg [] (init cfg) := ⟨rfl, rfl, fun _ => rfl⟩

theorem follows_spec (h : InUse cfg) (evs : List Event) :
    (FollowsSelection cfg evs ↔ ShownAreSent cfg evs) ∧
      (FollowsSelection cfg evs → Invariant cfg evs (runs (step cfg) (init cfg) evs)) := by
  induction evs using List.reverseRecOn with
  | nil =>
    refine ⟨iff_of_true ?_ ?_, fun _ => invariant_init cfg⟩
    · intro pre d hp
      simp at hp
    · intro pre f d hp
      simp at hp
  | append_singleton evs e ih =>
    obtain ⟨hiff, hinv⟩ := ih
    have hrun : runs (step cfg) (init cfg) (evs ++ [e]) = step cfg (runs (step cfg) (init cfg) evs) e :=
      runs_append _ _ _
    constructor
    · rw [follows_concat, shown_concat, hiff]
      refine and_congr_right fun hshown => ?_
      have inv := hinv (hiff.2 hshown)
      constructor
      · rintro hlast pre f d hpre rfl hsel
        obtain ⟨f', hsel', happlied⟩ := hlast d rfl
        obtain rfl : f' = f := Option.some.inj (hsel'.symm.trans hsel)
        rw [hrun] at happlied
        exact (inv.update_iff h hsel).1 happlied pre hpre
      · rintro hlast d rfl
        obtain ⟨f, hsel⟩ := exists_selected h d
        refine ⟨f, hsel, ?_⟩
        rw [hrun]
        exact (inv.update_iff h hsel).2 fun pre hpre => hlast pre f d hpre rfl hsel
    · intro hfollows
      obtain ⟨hfollows, hlast⟩ := (follows_concat evs e).1 hfollows
      rw [hrun]
      refine (hinv hfollows).concat h fun d hd => ?_
      subst hd
      obtain ⟨f, hsel, happlied⟩ := hlast d rfl
      rw [hrun] at happlied
      exact ⟨f, hsel, happlied⟩

/-! ## Two presets -/

/-- The same focus, exposure time and brightness everywhere. -/
def uniform (focus exposureTime brightness : Int) : Preset where
  focusValue := some fun _ => some (.integer focus)
  cameraExposureTime := some fun _ => some (.integer exposureTime)
  lightValue := some fun _ => some (.integer brightness)

def twoPresets : Config where
  cameraIds := [1, 2]
  lightIds := [17, 7]
  presetFiles := [ascii "300_300.preset", ascii "400_200.preset"]
  load f :=
    if f = ascii "300_300.preset" then some (uniform 1400 50 150)
    else if f = ascii "400_200.preset" then some (uniform 1500 30 150)
    else none
  useLensControl := true
  useCameraControl := true
  useLightControl := true
  useNearestPresetAutoSelect := true

theorem complete_uniform (cfg : Config) (focus exposureTime : Int) : Complete cfg (uniform focus exposureTime 150) :=
  ⟨⟨_, rfl, fun _ _ => ⟨_, _, rfl, rfl⟩⟩, ⟨_, rfl, fun _ _ => ⟨_, _, rfl, rfl⟩⟩,
    ⟨_, rfl, fun _ _ => ⟨_, _, rfl, rfl, by decide, by decide⟩⟩⟩

theorem inUse_twoPresets : InUse twoPresets where
  autoSelect := rfl
  lensControl := rfl
  cameraControl := rfl
  lightControl := rfl
  lightIds := by decide
  wellNamed := ⟨_, List.mem_cons_self, by decide⟩
  complete := by
    intro f hf
    rcases List.mem_pair.1 hf with rfl | rfl
    · exact ⟨_, rfl, complete_uniform _ _ _⟩
    · exact ⟨_, rfl, complete_uniform _ _ _⟩

/-- A section of 300 by 300. -/
def bar300 : Level2Data := barData (ascii "20250102030405") 3000 3000

theorem selected_bar300 : selected twoPresets bar300 = some (ascii "300_300.preset") := by decide

/-- After every update of a run the cameras have the preset it selects, if and
only if no update selects one that was loaded just before, unless that holds the
same as the one selected before. -/
theorem follows_selection_iff (cfg : Config) (h : InUse cfg) (evs : List Event) :
    FollowsSelection cfg evs ↔ ShownAreSent cfg evs := (follows_spec h evs).1

/-- A preset that was sent may be loaded again. -/
theorem applied_after_reload : FollowsSelection twoPresets
    [.update bar300, .load (ascii "300_300.preset"), .update bar300] := by
  refine (follows_selection_iff twoPresets inUse_twoPresets _).2 ((shown_concat [_, _] _).2 ⟨?_, ?_⟩)
  · refine (shown_concat [_] _).2 ⟨(shown_concat [] _).2 ⟨?_, ?_⟩, ?_⟩
    · intro pre f d hp
      simp at hp
    · intro pre f d hpre
      simp at hpre
    · rintro pre f d hpre ⟨⟩
  · intro pre f d hpre hd hsel id hid
    rw [← List.singleton_append] at hpre
    obtain ⟨rfl, hload⟩ := List.append_inj' hpre rfl
    obtain rfl : ascii "300_300.preset" = f := Event.load.inj (List.cons.inj hload).1
    exact ⟨_, lastSelected_update [] selected_bar300, rfl, rfl⟩

/-- A preset that was only loaded is taken for one that was sent. -/
theorem loaded_not_sent : ¬ ∀ (cfg : Config), InUse cfg → ∀ evs, FollowsSelection cfg evs := by
  intro h
  obtain ⟨f, hsel, happlied⟩ := h twoPresets inUse_twoPresets [.load (ascii "300_300.preset"), .update bar300]
    [.load (ascii "300_300.preset")] bar300 List.prefix_rfl
  obtain ⟨hfocus, -, hlast, honline⟩ := step_load (init twoPresets) (ascii "300_300.preset")
  obtain ⟨⟨v, hv, -⟩, -⟩ := happlied 1 List.mem_cons_self
  have hrun := (update_same inUse_twoPresets honline selected_bar300 hlast).1
  have hnone : (runs (step twoPresets) (init twoPresets)
      ([.load (ascii "300_300.preset")] ++ [.update bar300])).focus 1 = none := by
    rw [runs_append]
    exact (congrFun hrun 1).trans (congrFun hfocus 1)
  rw [hnone] at hv
  cases hv

end FlameSdd.PresetApplication
