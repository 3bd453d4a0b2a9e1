import FlameSdd.SysLib.ArgMin
import FlameSdd.Window
/-!
# The nearest preset

The window looks for the preset whose numbers are nearest to the dimensions of
the bar. Among the files of the directory only names `number_number.preset`
count, and the first of the nearest is selected: `selected_preset_nearest`.
-/
open SysLib SysLib.ArgMin SysLib.Unicode FlameSdd.Window

namespace FlameSdd.PresetSelection

/-- The call of `__find_nearest_preset` in `on_update_dk_level2_data`. -/
def selectedPreset (presetFiles : List Bytes) (mtStandWidth mtStandHeight : Int) : Option Bytes :=
  findNearestPreset (mtStandWidth.tdiv 10) (mtStandHeight.tdiv 10) presetFiles

/-- The name is `number_number.preset`, with these numbers. -/
def IsPreset (filename : Bytes) (width height : Nat) : Prop :=
  ∃ w h, w ≠ [] ∧ (∀ c ∈ w, isDecimal c = true) ∧ h ≠ [] ∧ (∀ c ∈ h, isDecimal c = true) ∧
    codePoints filename = w ++ 0x5f :: (h ++ points ".preset") ∧ width = decimalVal w ∧ height = decimalVal h

/-- The squared distance of a preset from a bar. -/
def distance (mtStandWidth mtStandHeight : Int) (width height : Nat) : Int :=
  (width - mtStandWidth.tdiv 10) ^ 2 + (height - mtStandHeight.tdiv 10) ^ 2

/-- The first of the nearest presets. -/
def IsNearest (filenames : List Bytes) (mtStandWidth mtStandHeight : Int) (filename : Bytes) : Prop :=
  ∃ pre post width height, filenames = pre ++ filename :: post ∧ IsPreset filename width height ∧
    (∀ f ∈ pre, ∀ w h, IsPreset f w h →
      distance mtStandWidth mtStandHeight width height < distance mtStandWidth mtStandHeight w h) ∧
    ∀ f ∈ post, ∀ w h, IsPreset f w h →
      distance mtStandWidth mtStandHeight width height ≤ distance mtStandWidth mtStandHeight w h

/-! ## Names -/

/-- Without line breaks, the names that are parsed are the names of that form. -/
theorem parseFilename_eq_some_iff {filename : Bytes} (hline : 0x0a ∉ codePoints filename) {width height : Nat} :
    parseFilename filename = some (width, height) ↔ IsPreset filename width height := by
  have hdot : points ".preset" = 0x2e :: points "preset" := rfl
  constructor
  · intro h
    unfold parseFilename at h
    simp only at h
    split at h
    · rename_i rest hrest
      split at h
      · rename_i hparts
        obtain ⟨hw, hh, hsuffix⟩ := hparts
        have hname : codePoints filename = (codePoints filename).takeWhile isDecimal ++ 0x5f ::
            (rest.takeWhile isDecimal ++ rest.dropWhile isDecimal) := by
          rw [List.takeWhile_append_dropWhile, ← hrest, List.takeWhile_append_dropWhile]
        -- `$` also matches in front of a line break at the end
        have hsuffix' : rest.dropWhile isDecimal = points ".preset" := by
          refine hsuffix.resolve_right fun hfeed => hline ?_
          have hmem : 0x0a ∈ points ".preset\n" := by decide
          rw [hname, hfeed]
          simp [hmem]
        rw [hsuffix'] at hname
        obtain ⟨rfl, rfl⟩ := Prod.mk.inj (Option.some.inj h)
        exact ⟨_, _, hw, fun c hc => List.mem_takeWhile_imp hc, hh, fun c hc => List.mem_takeWhile_imp hc,
          hname, rfl, rfl⟩
      · cases h
    · cases h
  · rintro ⟨w, h, hwne, hw, hhne, hh, hname, rfl, rfl⟩
    obtain ⟨hwtake, hwdrop⟩ := decimal_split hw (c := 0x5f) (by decide) (h ++ points ".preset")
    obtain ⟨hhtake, hhdrop⟩ := decimal_split hh (c := 0x2e) (by decide) (points "preset")
    rw [← hdot] at hhtake hhdrop
    unfold parseFilename
    simp only [hname, hwtake, hwdrop, hhtake, hhdrop]
    simp [hwne, hhne]

/-! ## The loop -/

/-- What a name has to offer. -/
def entry (mtStandWidth mtStandHeight : Int) (filename : Bytes) : Option (Int × Bytes) :=
  (parseFilename filename).map fun p => (distance mtStandWidth mtStandHeight p.1 p.2, filename)

theorem nearestPreset_eq (W H : Int) (best : Option (Int × Bytes)) (filenames : List Bytes) :
    nearestPreset (W.tdiv 10) (H.tdiv 10) best filenames =
      ((filenames.filterMap (entry W H)).foldl (better Prod.fst) best).map Prod.snd := by
  induction filenames generalizing best with
  | nil => rfl
  | cons filename filenames ih =>
    rw [nearestPreset]
    cases hparse : parseFilename filename with
    | none =>
      have hnone : entry W H filename = none := by rw [entry, hparse]; rfl
      rw [List.filterMap_cons_none hnone]
      exact ih best
    | some p =>
      have hsome : entry W H filename = some (distance W H p.1 p.2, filename) := by rw [entry, hparse]; rfl
      rw [List.filterMap_cons_some hsome, List.foldl_cons]
      by_cases hbest : best.all (fun e => distance W H p.1 p.2 < e.1) = true
      · have hbetter : better Prod.fst best (distance W H p.1 p.2, filename) = some (distance W H p.1 p.2, filename) :=
          if_pos hbest
        rw [hbetter, ← ih]
        exact if_pos hbest
      · have hkeep : better Prod.fst best (distance W H p.1 p.2, filename) = best := if_neg hbest
        rw [hkeep, ← ih]
        exact if_neg hbest

theorem selectedPreset_eq (filenames : List Bytes) (W H : Int) :
    selectedPreset filenames W H = (firstMin Prod.fst (filenames.filterMap (entry W H))).map Prod.snd :=
  nearestPreset_eq W H none filenames

/-! ## The selection -/

variable {W H : Int} {filename : Bytes} {filenames : List Bytes}

theorem entry_eq_some_iff (hline : 0x0a ∉ codePoints filename) {e : Int × Bytes} :
    entry W H filename = some e ↔
      ∃ width height, IsPreset filename width height ∧ e = (distance W H width height, filename) := by
  rw [entry, Option.map_eq_some_iff]
  constructor
  · rintro ⟨⟨width, height⟩, hparse, rfl⟩
    exact ⟨width, height, (parseFilename_eq_some_iff hline).1 hparse, rfl⟩
  · rintro ⟨width, height, hpreset, rfl⟩
    exact ⟨(width, height), (parseFilename_eq_some_iff hline).2 hpreset, rfl⟩

theorem entry_eq_none_iff (hline : 0x0a ∉ codePoints filename) :
    entry W H filename = none ↔ ∀ width height, ¬ IsPreset filename width height := by
  rw [← not_iff_not, ← ne_eq, Option.ne_none_iff_exists']
  simp [entry_eq_some_iff hline]

/-- A name that is selected comes with its distance. -/
theorem selectedPreset_eq_some_iff (filenames : List Bytes) (W H : Int) (filename : Bytes) :
    selectedPreset filenames W H = some filename ↔
      ∃ d, IsFirstMin Prod.fst (filenames.filterMap (entry W H)) (d, filename) := by
  rw [selectedPreset_eq, Option.map_eq_some_iff]
  constructor
  · rintro ⟨⟨d, f⟩, hmin, rfl⟩
    exact ⟨d, firstMin_eq_some_iff.1 hmin⟩
  · rintro ⟨d, hmin⟩
    exact ⟨(d, filename), firstMin_eq_some_iff.2 hmin, rfl⟩

/-- What bounds the distance of every entry bounds the distance of every preset. -/
theorem forall_entry_iff (hlines : ∀ f ∈ filenames, 0x0a ∉ codePoints f) {p : Int → Prop} :
    (∀ f ∈ filenames, ∀ e, entry W H f = some e → p e.1) ↔
      ∀ f ∈ filenames, ∀ w h, IsPreset f w h → p (distance W H w h) := by
  constructor
  · intro hentry f hf w h hpreset
    exact hentry f hf (distance W H w h, f) ((entry_eq_some_iff (hlines f hf)).2 ⟨w, h, hpreset, rfl⟩)
  · intro hpresets f hf e he
    obtain ⟨w, h, hpreset, rfl⟩ := (entry_eq_some_iff (hlines f hf)).1 he
    exact hpresets f hf w h hpreset

theorem mem_of_selectedPreset (h : selectedPreset filenames W H = some filename) :
    filename ∈ filenames ∧ (parseFilename filename).isSome := by
  obtain ⟨d, hmin⟩ := (selectedPreset_eq_some_iff filenames W H filename).1 h
  obtain ⟨pre, f, post, rfl, hf, -, -⟩ := isFirstMin_filterMap_iff.1 hmin
  obtain ⟨p, hparse, heq⟩ := Option.map_eq_some_iff.1 hf
  obtain rfl : f = filename := congrArg Prod.snd heq
  exact ⟨List.mem_append_right _ List.mem_cons_self, Option.isSome_of_eq_some hparse⟩

/-- The loop selects the first of the nearest presets. -/
theorem selectedPreset_eq_some_iff_isNearest (hlines : ∀ f ∈ filenames, 0x0a ∉ codePoints f) :
    selectedPreset filenames W H = some filename ↔ IsNearest filenames W H filename := by
  rw [selectedPreset_eq_some_iff]
  constructor
  · rintro ⟨d, hmin⟩
    obtain ⟨pre, f, post, rfl, hf, hpre, hpost⟩ := isFirstMin_filterMap_iff.1 hmin
    simp only [List.forall_mem_append, List.forall_mem_cons] at hlines
    obtain ⟨hlpre, hlf, hlpost⟩ := hlines
    obtain ⟨width, height, hpreset, heq⟩ := (entry_eq_some_iff hlf).1 hf
    obtain ⟨rfl, rfl⟩ := Prod.mk.inj heq
    exact ⟨pre, post, width, height, rfl, hpreset, (forall_entry_iff hlpre).1 hpre, (forall_entry_iff hlpost).1 hpost⟩
  · rintro ⟨pre, post, width, height, rfl, hpreset, hpre, hpost⟩
    simp only [List.forall_mem_append, List.forall_mem_cons] at hlines
    obtain ⟨hlpre, hlf, hlpost⟩ := hlines
    refine ⟨distance W H width height, isFirstMin_filterMap_iff.2 ⟨pre, filename, post, rfl, ?_, ?_, ?_⟩⟩
    · exact (entry_eq_some_iff hlf).2 ⟨width, height, hpreset, rfl⟩
    · exact (forall_entry_iff hlpre).2 hpre
    · exact (forall_entry_iff hlpost).2 hpost

/-- Nothing is selected where there is no preset. -/
theorem selectedPreset_eq_none_iff (hlines : ∀ f ∈ filenames, 0x0a ∉ codePoints f) :
    selectedPreset filenames W H = none ↔ ∀ f ∈ filenames, ∀ w h, ¬ IsPreset f w h := by
  rw [selectedPreset_eq, Option.map_eq_none_iff, firstMin_eq_none_iff, List.filterMap_eq_nil_iff]
  exact forall₂_congr fun f hf => entry_eq_none_iff (hlines f hf)

/-- The least distance is the one of the selected preset. -/
theorem minDistance_eq_some (hlines : ∀ f ∈ filenames, 0x0a ∉ codePoints f) {width height : Nat}
    (hsel : selectedPreset filenames W H = some filename) (hpreset : IsPreset filename width height) :
    (firstMin Prod.fst (filenames.filterMap (entry W H))).map Prod.fst = some (distance W H width height) := by
  obtain ⟨d, hmin⟩ := (selectedPreset_eq_some_iff filenames W H filename).1 hsel
  obtain ⟨pre, f, post, rfl, hf, -, -⟩ := isFirstMin_filterMap_iff.1 hmin
  have hlf := hlines f (List.mem_append_right _ List.mem_cons_self)
  obtain ⟨w, h, hpreset', heq⟩ := (entry_eq_some_iff hlf).1 hf
  obtain ⟨rfl, rfl⟩ := Prod.mk.inj heq
  -- a name has one pair of numbers only
  have hnumbers : some (w, h) = some (width, height) := by
    rw [← (parseFilename_eq_some_iff hlf).2 hpreset', (parseFilename_eq_some_iff hlf).2 hpreset]
  obtain ⟨rfl, rfl⟩ := Prod.mk.inj (Option.some.inj hnumbers)
  rw [firstMin_eq_some_iff.2 hmin]
  rfl

/-- In another order the selected preset may be another one, as far from the bar. -/
theorem distance_perm {filenames' : List Bytes} (hperm : filenames.Perm filenames')
    (hlines : ∀ f ∈ filenames, 0x0a ∉ codePoints f) {filename' : Bytes} {w h w' h' : Nat}
    (hsel : selectedPreset filenames W H = some filename) (hpreset : IsPreset filename w h)
    (hsel' : selectedPreset filenames' W H = some filename') (hpreset' : IsPreset filename' w' h') :
    distance W H w h = distance W H w' h' := by
  have hlines' : ∀ f ∈ filenames', 0x0a ∉ codePoints f := fun f hf => hlines f (hperm.mem_iff.2 hf)
  have hmin := firstMin_perm (f := Prod.fst) (hperm.filterMap (entry W H))
  rw [minDistance_eq_some hlines hsel hpreset, minDistance_eq_some hlines' hsel' hpreset'] at hmin
  exact Option.some.inj hmin

/-- A name of another form is passed over. -/
theorem selectedPreset_skip {pre post : List Bytes} (hline : 0x0a ∉ codePoints filename)
    (hother : ∀ w h, ¬ IsPreset filename w h) :
    selectedPreset (pre ++ filename :: post) W H = selectedPreset (pre ++ post) W H := by
  have hnone : entry W H filename = none := (entry_eq_none_iff hline).2 hother
  rw [selectedPreset_eq, selectedPreset_eq, List.filterMap_append, List.filterMap_cons_none hnone,
    List.filterMap_append]

/-- The selected preset is the first of the nearest, nothing only where there
is no preset; another order selects one at the same distance, and names of
another form do not matter. -/
theorem selected_preset_nearest (filenames : List Bytes) (hlines : ∀ f ∈ filenames, 0x0a ∉ codePoints f) (W H : Int) :
    (selectedPreset filenames W H = none ↔ ∀ f ∈ filenames, ∀ w h, ¬ IsPreset f w h) ∧
    (∀ filename, selectedPreset filenames W H = some filename ↔ IsNearest filenames W H filename) ∧
    (∀ filenames', filenames.Perm filenames' →
      (selectedPreset filenames' W H = none ↔ selectedPreset filenames W H = none) ∧
      ∀ f f' w h w' h', selectedPreset filenames W H = some f → IsPreset f w h →
        selectedPreset filenames' W H = some f' → IsPreset f' w' h' → distance W H w h = distance W H w' h') ∧
    ∀ pre f post, filenames = pre ++ f :: post → (∀ w h, ¬ IsPreset f w h) →
      selectedPreset filenames W H = selectedPreset (pre ++ post) W H := by
  refine ⟨selectedPreset_eq_none_iff hlines, fun _ => selectedPreset_eq_some_iff_isNearest hlines, ?_, ?_⟩
  · intro filenames' hperm
    have hlines' : ∀ f ∈ filenames', 0x0a ∉ codePoints f := fun f hf => hlines f (hperm.mem_iff.2 hf)
    refine ⟨?_, fun _ _ _ _ _ _ hsel hpreset hsel' hpreset' => distance_perm hperm hlines hsel hpreset hsel' hpreset'⟩
    rw [selectedPreset_eq_none_iff hlines', selectedPreset_eq_none_iff hlines]
    exact forall_congr' fun f => by rw [hperm.mem_iff]
  · rintro pre f post rfl hother
    exact selectedPreset_skip (hlines f (List.mem_append_right _ List.mem_cons_self)) hother

/-- A section of 409 by 198 among the presets of the test, and a foreign name. -/
theorem selected_preset_409_198 :
    let filenames := ["100_100.preset", "400_200.preset", "H100w_100h.preset", "400_250.preset"].map ascii
    selectedPreset filenames 4090 1980 = some (ascii "400_200.preset") ∧
      IsNearest filenames 4090 1980 (ascii "400_200.preset") := by
  intro filenames
  have hlines : ∀ f ∈ filenames, 0x0a ∉ codePoints f := by decide
  have hsel : selectedPreset filenames 4090 1980 = some (ascii "400_200.preset") := by decide
  exact ⟨hsel, ((selected_preset_nearest filenames hlines 4090 1980).2.1 _).1 hsel⟩

end FlameSdd.PresetSelection
