import FlameSdd.InferenceWorker
/-!
# One inference job

`__run_parallel_inference` starts five worker processes that share one queue. The
collector stops at five end markers, and has one row for each image by then:
`results_complete`.
-/
open SysLib

namespace FlameSdd.InferenceRun

/-! ## The inspection -/

def cams (w : Nat) : List Nat := cameraGroups.getD w []

/-- The workers, the shared queue with the worker each item comes from, and the
collector. -/
structure Inspection where
  workers : Nat → Worker
  resultQueue : Channel (Nat × Item)
  endSignals : Nat
  results : List Row

def Inspection.init : Inspection := ⟨fun _ => .init, .empty, 0, []⟩

/-- A worker goes on, its next item reaches the queue, or the collector takes
the next item. -/
inductive InspectionEvent where
  | worker (w : Nat) (e : WorkerEvent)
  | flush (w : Nat)
  | collect

def Inspection.step (folders : Folders) (s : Inspection) : InspectionEvent → Inspection
  | .worker w e =>
    if w < cameraGroups.length then
      { s with workers := Function.update s.workers w ((s.workers w).step (cams w) folders e) }
    else s
  | .flush w =>
    if w < cameraGroups.length then
      match (s.workers w).output.next with
      | some item =>
        { s with
          workers := Function.update s.workers w { s.workers w with output := (s.workers w).output.deliver }
          resultQueue := s.resultQueue.send (w, item) }
      | none => s
    else s
  | .collect =>
    if s.endSignals < cameraGroups.length then
      match s.resultQueue.next with
      | some (_, none) => { s with resultQueue := s.resultQueue.deliver, endSignals := s.endSignals + 1 }
      | some (_, some row) => { s with resultQueue := s.resultQueue.deliver, results := s.results ++ [row] }
      | none => s
    else s

/-- Everything a step of the inspection can do. -/
inductive Inspection.Effect (folders : Folders) (s : Inspection) : Inspection → Prop where
  | nothing : Effect folders s s
  | worker {w raises w'} : w < cameraGroups.length → (s.workers w).Effect (cams w) folders raises w' →
      Effect folders s { s with workers := Function.update s.workers w w' }
  | flushed {w item} : w < cameraGroups.length → (s.workers w).output.next = some item →
      Effect folders s
        { s with
          workers := Function.update s.workers w { s.workers w with output := (s.workers w).output.deliver }
          resultQueue := s.resultQueue.send (w, item) }
  | ended {w} : s.endSignals < cameraGroups.length → s.resultQueue.next = some (w, none) →
      Effect folders s { s with resultQueue := s.resultQueue.deliver, endSignals := s.endSignals + 1 }
  | collected {w row} : s.endSignals < cameraGroups.length → s.resultQueue.next = some (w, some row) →
      Effect folders s { s with resultQueue := s.resultQueue.deliver, results := s.results ++ [row] }

theorem Inspection.effect (folders : Folders) (s : Inspection) (e : InspectionEvent) :
    Effect folders s (s.step folders e) := by
  cases e with
  | worker w e =>
    by_cases hw : w < cameraGroups.length
    · rw [step, if_pos hw]
      exact .worker hw (Worker.effect _ _ _ _)
    · rw [step, if_neg hw]
      exact .nothing
  | flush w =>
    by_cases hw : w < cameraGroups.length
    · cases hnext : (s.workers w).output.next with
      | some item =>
        rw [step, if_pos hw, hnext]
        exact .flushed hw hnext
      | none =>
        rw [step, if_pos hw, hnext]
        exact .nothing
    · rw [step, if_neg hw]
      exact .nothing
  | collect =>
    by_cases hlt : s.endSignals < cameraGroups.length
    · rcases hnext : s.resultQueue.next with _ | ⟨w, _ | row⟩
      · rw [step, if_pos hlt, hnext]
        exact .nothing
      · rw [step, if_pos hlt, hnext]
        exact .ended hlt hnext
      · rw [step, if_pos hlt, hnext]
        exact .collected hlt hnext
    · rw [step, if_neg hlt]
      exact .nothing

/-- What the steps of a worker keep, and the way of its items to the queue keeps,
holds of the worker after a step of the inspection. -/
theorem Inspection.Effect.workers {folders : Folders} {s s' : Inspection} {P : Nat → Worker → Prop}
    (he : Effect folders s s')
    (hstep : ∀ w raises w', (s.workers w).Effect (cams w) folders raises w' → P w (s.workers w) → P w w')
    (hflush : ∀ w, P w (s.workers w) → P w { s.workers w with output := (s.workers w).output.deliver }) (v : Nat)
    (h : P v (s.workers v)) : P v (s'.workers v) := by
  cases he with
  | nothing | ended | collected => exact h
  | @worker w raises w' hw he =>
    exact (Function.forall_update_iff s.workers fun u x => P u (s.workers u) → P u x).2
      ⟨hstep w raises w' he, fun u _ => id⟩ v h
  | @flushed w item hw hnext =>
    exact (Function.forall_update_iff s.workers fun u x => P u (s.workers u) → P u x).2
      ⟨hflush w, fun u _ => id⟩ v h

/-! ## From the workers to the collector -/

/-- The shared queue holds what the workers put, and the collector counts and
keeps what it took. -/
structure Inspection.Flow (s : Inspection) : Prop where
  workers : ∀ w, (s.workers w).Inv
  tags : ∀ e ∈ s.resultQueue.sent, e.1 ∈ List.range cameraGroups.length
  parts : ∀ w, Merge.part w s.resultQueue.sent = (s.workers w).output.taken
  results : s.results = (s.resultQueue.taken.map Prod.snd).reduceOption
  endSignals : s.endSignals = (s.resultQueue.taken.map Prod.snd).countP Option.isNone

theorem Inspection.init_flow : Inspection.init.Flow where
  workers _ := Worker.init_inv
  tags := nofun
  parts _ := rfl
  results := rfl
  endSignals := rfl

theorem Inspection.Effect.flow {folders : Folders} {s s' : Inspection} (he : Effect folders s s') (h : s.Flow) :
    s'.Flow := by
  obtain ⟨hworkers, htags, hparts, hresults, hend⟩ := h
  have hworkers' (v : Nat) : (s'.workers v).Inv :=
    he.workers (P := fun _ w => w.Inv) (fun w raises w' he h => he.inv h) (fun w h => h.deliver) v (hworkers v)
  cases he with
  | nothing => exact ⟨hworkers, htags, hparts, hresults, hend⟩
  | @worker w raises w' hw he =>
    refine ⟨hworkers', htags, ?_, hresults, hend⟩
    refine (Function.forall_update_iff s.workers fun v x => Merge.part v s.resultQueue.sent = x.output.taken).2
      ⟨?_, fun v _ => hparts v⟩
    rw [he.taken_eq]
    exact hparts w
  | @flushed w item hw hnext =>
    refine ⟨hworkers', ?_, ?_, ?_, ?_⟩
    · intro e hmem
      rcases List.mem_append.1 hmem with hmem | hmem
      · exact htags e hmem
      · obtain rfl := List.mem_singleton.1 hmem
        exact List.mem_range.2 hw
    · refine (Function.forall_update_iff s.workers
        fun v x => Merge.part v (s.resultQueue.send (w, item)).sent = x.output.taken).2 ⟨?_, fun v hne => ?_⟩
      · rw [Channel.sent_send, Merge.part_append, Merge.part_singleton, if_pos rfl, hparts w]
        exact (Channel.taken_deliver hnext).symm
      · rw [Channel.sent_send, Merge.part_append, Merge.part_singleton, if_neg hne.symm, List.append_nil]
        exact hparts v
    · rw [Channel.taken_send]
      exact hresults
    · rw [Channel.taken_send]
      exact hend
  | @ended w hlt hnext =>
    refine ⟨hworkers, by simpa using htags, by simpa using hparts, ?_, ?_⟩
    · rw [Channel.taken_deliver hnext, List.map_append, List.reduceOption_append, ← hresults]
      exact (List.append_nil _).symm
    · rw [Channel.taken_deliver hnext, List.map_append, List.countP_append, ← hend]
      rfl
  | @collected w row hlt hnext =>
    refine ⟨hworkers, by simpa using htags, by simpa using hparts, ?_, ?_⟩
    · rw [Channel.taken_deliver hnext, List.map_append, List.reduceOption_append, ← hresults]
      rfl
    · rw [Channel.taken_deliver hnext, List.map_append, List.countP_append, ← hend]
      rfl

/-- A part of the queue that was taken is a prefix of what the worker put. -/
theorem Inspection.Flow.taken_part {s : Inspection} (h : s.Flow) (w : Nat) :
    Merge.part w s.resultQueue.taken <+: (s.workers w).output.sent := by
  have hpart := Merge.part_prefix (Channel.taken_prefix s.resultQueue) w
  rw [h.parts w] at hpart
  exact hpart.trans (Channel.taken_prefix _)

theorem countP_marker (phase : Phase) : phase.marker.countP Option.isNone ≤ 1 := by
  rcases phase with _ | todo | ⟨pending, raised⟩ | ⟨_ | _⟩ <;> simp [Phase.marker]

theorem Worker.Inv.countP_sent {w : Worker} (h : w.Inv) :
    w.output.sent.countP Option.isNone = w.phase.marker.countP Option.isNone := by
  rw [h.puts, List.countP_append, List.countP_map, List.countP_eq_zero.2 (by simp), Nat.zero_add]

/-- At the last end marker every worker has ended without an exception, and all
it put was taken. -/
theorem Inspection.Flow.at_end {s : Inspection} (h : s.Flow) (hend : s.endSignals = cameraGroups.length) :
    ∀ w ∈ List.range cameraGroups.length,
      (s.workers w).phase = .exited false ∧ Merge.part w s.resultQueue.taken = (s.workers w).output.sent := by
  have htags : ∀ e ∈ s.resultQueue.taken, e.1 ∈ List.range cameraGroups.length :=
    fun e he => h.tags e ((Channel.taken_prefix _).subset he)
  have hone : ∀ w ∈ List.range cameraGroups.length,
      (Merge.part w s.resultQueue.taken).countP Option.isNone ≤ 1 := by
    intro w _
    have hle : (Merge.part w s.resultQueue.taken).countP Option.isNone ≤ _ := (h.taken_part w).sublist.countP_le
    rw [(h.workers w).countP_sent] at hle
    exact hle.trans (countP_marker _)
  have hmem := Merge.none_mem_part List.nodup_range htags hone (by rw [← h.endSignals, hend, List.length_range])
  intro w hw
  have hnone := (h.taken_part w).subset (hmem w hw)
  have hphase : (s.workers w).phase = .exited false := by
    rw [(h.workers w).puts] at hnone
    rcases List.mem_append.1 hnone with hrow | hmarker
    · obtain ⟨row, -, hrow⟩ := List.mem_map.1 hrow
      cases hrow
    · exact Phase.mem_marker hmarker
  refine ⟨hphase, ?_⟩
  have hprefix := h.taken_part w
  have hsent := (h.workers w).puts
  rw [hphase] at hsent
  rw [hsent] at hprefix ⊢
  rcases List.prefix_concat_iff.1 hprefix with heq | hshort
  · exact heq
  · obtain ⟨row, -, hrow⟩ := List.mem_map.1 (hshort.subset (hmem w hw))
    cases hrow

/-! ## Where the collector can wait forever -/

/-- The event is an exception that worker `w` can raise here. -/
def Inspection.raises (s : Inspection) (w : Nat) : InspectionEvent → Bool
  | .worker v e => v = w && (s.workers v).raises e
  | _ => false

/-- No worker has failed. -/
def Inspection.NoneFailed (s : Inspection) : Prop :=
  ∀ w ∈ List.range cameraGroups.length, (s.workers w).phase.failed = false

/-- No worker raises an exception. -/
def Inspection.NoRaise (s : Inspection) (e : InspectionEvent) : Prop :=
  ∀ w ∈ List.range cameraGroups.length, s.raises w e = false

theorem Inspection.failed_step (folders : Folders) (s : Inspection) (e : InspectionEvent) {w : Nat}
    (hw : w < cameraGroups.length) :
    ((s.step folders e).workers w).phase.failed = ((s.workers w).phase.failed || s.raises w e) := by
  cases e with
  | worker v e =>
    rcases eq_or_ne v w with rfl | hne
    · rw [step, if_pos hw]
      simp [(Worker.effect (cams v) folders (s.workers v) e).failed_eq, raises]
    · have hsame : (s.step folders (.worker v e)).workers w = s.workers w := by
        rw [step]
        split
        · exact Function.update_of_ne hne.symm _ _
        · rfl
      simp [hsame, raises, hne]
  | flush v =>
    have hsame : ((s.step folders (.flush v)).workers w).phase = (s.workers w).phase := by
      rw [step]
      split
      · cases (s.workers v).output.next with
        | none => rfl
        | some item =>
          rcases eq_or_ne v w with rfl | hne
          · simp
          · simp [Function.update_of_ne hne.symm]
      · rfl
    simp [hsame, raises]
  | collect =>
    have hsame : (s.step folders .collect).workers = s.workers := by
      rw [step]
      split
      · rcases s.resultQueue.next with _ | ⟨v, _ | row⟩ <;> rfl
      · rfl
    simp [hsame, raises]

theorem Inspection.noneFailed_step (folders : Folders) (s : Inspection) (e : InspectionEvent) :
    (s.step folders e).NoneFailed ↔ s.NoneFailed ∧ s.NoRaise e := by
  rw [NoneFailed, NoneFailed, NoRaise, ← forall₂_and]
  apply forall₂_congr
  intro w hw
  rw [failed_step folders s e (List.mem_range.1 hw), Bool.or_eq_false_iff]

/-- Every process has ended, and all that was put was taken. -/
def Inspection.Drained (s : Inspection) : Prop :=
  (∀ w ∈ List.range cameraGroups.length, (s.workers w).phase.isExited = true ∧ (s.workers w).output.next = none) ∧
    s.resultQueue.next = none

/-- With nothing left to take, the collector has its end markers if and only if
no worker failed. -/
theorem Inspection.Flow.drained_iff {s : Inspection} (h : s.Flow) (hd : s.Drained) :
    s.endSignals = cameraGroups.length ↔ s.NoneFailed := by
  constructor
  · intro hend w hw
    rw [(h.at_end hend w hw).1]
    rfl
  · intro hok
    have hone : ∀ w ∈ List.range cameraGroups.length,
        (Merge.part w s.resultQueue.sent).countP Option.isNone = 1 := by
      intro w hw
      obtain ⟨hexited, hnext⟩ := hd.1 w hw
      have hfailed := hok w hw
      rw [h.parts w, Channel.taken_of_next hnext, (h.workers w).countP_sent]
      rcases hphase : (s.workers w).phase with _ | todo | ⟨pending, raised⟩ | raised <;> rw [hphase] at hexited hfailed
      case exited => cases hfailed; rfl
      all_goals cases hexited
    rw [h.endSignals, Channel.taken_of_next hd.2, (Merge.perm_parts List.nodup_range h.tags).countP_eq,
      List.countP_flatMap]
    have hones : (List.range cameraGroups.length).map
        (List.countP Option.isNone ∘ fun w => Merge.part w s.resultQueue.sent) =
        (List.range cameraGroups.length).map fun _ => 1 := List.map_congr_left hone
    rw [hones]
    rfl

/-! ## The results -/

/-- A file that one of the four patterns takes, in the folder of a camera. -/
def IsImageFile (folders : Folders) (image : Image) : Prop :=
  image.1 ∈ List.range' 1 10 ∧ image.2 ∈ (folders image.1).names ∧ accepted image.2 = true

/-- All of them. -/
def imageFiles (folders : Folders) : List Image :=
  (List.range' 1 10).flatMap fun cam => ((folders cam).names.filter accepted).map fun name => (cam, name)

theorem mem_imageFiles {folders : Folders} {image : Image} :
    image ∈ imageFiles folders ↔ IsImageFile folders image := by
  obtain ⟨cam, name⟩ := image
  simp [imageFiles, IsImageFile]

theorem nodup_imageFiles (folders : Folders) : (imageFiles folders).Nodup := by
  refine List.nodup_flatMap.2 ⟨fun cam _ => ?_, ?_⟩
  · exact ((folders cam).nodup.filter _).map fun a b h => congrArg Prod.snd h
  · have hcams : (List.range' 1 10).Pairwise (· ≠ ·) := List.nodup_range'
    apply hcams.imp
    intro a b hne
    rintro ⟨cam, name⟩ hleft hright
    obtain ⟨_, -, heq⟩ := List.mem_map.1 hleft
    obtain ⟨_, -, heq'⟩ := List.mem_map.1 hright
    exact hne ((congrArg Prod.fst heq).trans (congrArg Prod.fst heq').symm)

/-- No name has two of the extensions. -/
theorem extensions_disjoint :
    extensions.Pairwise fun a b => ∀ name, globs a name = true → globs b name = false := by
  have hsuffix : extensions.Pairwise fun a b => ¬ (a <:+ b ∨ b <:+ a) := by decide
  apply hsuffix.imp
  intro a b hne name ha
  by_contra hb
  simp only [globs, Bool.and_eq_true, List.isSuffixOf_iff_suffix, Bool.not_eq_false] at ha hb
  exact hne (List.suffix_or_suffix_of_suffix ha.2 hb.2)

/-- What the four patterns list of one folder. -/
theorem perm_globbed (folders : Folders) (cam : Nat) :
    (extensions.flatMap fun ext => globbed folders cam ext).Perm
      (((folders cam).names.filter accepted).map fun name => (cam, name)) := by
  have hperm := (Merge.perm_filters extensions_disjoint (folders cam).names).map fun name => (cam, name)
  rw [List.map_flatMap] at hperm
  exact hperm.symm

/-- What was listed and what is still to list make up all there is. -/
def Worker.Listed (cams : List Nat) (folders : Folders) (w : Worker) : Prop :=
  w.phase.failed = false →
    w.imageTasks ++ (w.todo cams).flatMap (fun p => globbed folders p.1 p.2) =
      (patterns cams).flatMap fun p => globbed folders p.1 p.2

theorem Worker.Effect.listed_tasks {cams : List Nat} {folders : Folders} {w w' : Worker} {raises : Bool}
    (he : Effect cams folders w raises w') (h : w.Listed cams folders) : w'.Listed cams folders := by
  intro hfailed
  rw [← h (he.not_failed hfailed)]
  rcases he.tasks hfailed with ⟨himages, htodo⟩ | ⟨cam, ext, htodo, himages⟩
  · rw [himages, htodo]
  · rw [himages, htodo, List.flatMap_cons, List.append_assoc]

theorem listed_runs (folders : Folders) (evs : List InspectionEvent) (w : Nat) :
    ((runs (Inspection.step folders) Inspection.init evs).workers w).Listed (cams w) folders := by
  refine runs_inv (P := fun _ _ => True) (fun s : Inspection => (s.workers w).Listed (cams w) folders)
    (fun s e h _ => ?_) (fun _ => rfl) (stepsMeet_true _ _)
  exact (Inspection.effect folders s e).workers (P := fun w x => x.Listed (cams w) folders)
    (fun w raises w' he h => he.listed_tasks h) (fun w h => h) w h

/-- Every camera is in one group. -/
theorem perm_cams : ((List.range cameraGroups.length).flatMap cams).Perm (List.range' 1 10) := by decide

/-- The results are the rows of all workers. -/
theorem Inspection.Flow.perm_results {s : Inspection} (h : s.Flow) (hend : s.endSignals = cameraGroups.length) :
    s.results.Perm ((List.range cameraGroups.length).flatMap fun w => (s.workers w).rows) := by
  have htags : ∀ e ∈ s.resultQueue.taken, e.1 ∈ List.range cameraGroups.length :=
    fun e he => h.tags e ((Channel.taken_prefix _).subset he)
  have hperm := (Merge.perm_parts List.nodup_range htags).filterMap id
  rw [List.filterMap_flatMap] at hperm
  rw [h.results]
  refine hperm.trans (.of_eq (List.flatMap_congr fun w hw => ?_))
  rw [(h.at_end hend w hw).2]
  rfl

/-- At the last end marker the collector has a row for every image that was
listed, and no other. -/
theorem Inspection.Flow.perm_images {s : Inspection} (h : s.Flow) (hend : s.endSignals = cameraGroups.length) :
    (s.results.map Row.image).Perm ((List.range cameraGroups.length).flatMap fun w => (s.workers w).imageTasks) := by
  have hperm := (h.perm_results hend).map Row.image
  rw [List.map_flatMap] at hperm
  refine hperm.trans (List.Perm.flatMap_left _ fun w hw => ?_)
  have haccounts := (h.workers w).accounts
  rw [(h.at_end hend w hw).1] at haccounts
  exact haccounts rfl

theorem Inspection.Effect.covers {folders : Folders} {s s' : Inspection} {image : Image} (he : Effect folders s s')
    (hmem : image.2 ∈ (folders image.1).names)
    (h : ∃ w ∈ List.range cameraGroups.length, (s.workers w).Covers (cams w) image) :
    ∃ w ∈ List.range cameraGroups.length, (s'.workers w).Covers (cams w) image := by
  obtain ⟨w, hw, hcovers⟩ := h
  exact ⟨w, hw, he.workers (P := fun w x => x.Covers (cams w) image) (fun w raises w' he h => he.covers hmem h)
    (fun w h => h) w hcovers⟩

/-- After the last end marker nothing is collected. -/
theorem Inspection.Effect.at_end {folders : Folders} {s s' : Inspection} (he : Effect folders s s')
    (hend : s.endSignals = cameraGroups.length) : s'.endSignals = s.endSignals ∧ s'.results = s.results := by
  cases he with
  | nothing | worker | flushed => exact ⟨rfl, rfl⟩
  | ended hlt | collected hlt => exact absurd hlt (by omega)

/-- At the last end marker a covered image has its row. -/
theorem Inspection.Flow.has_row {s : Inspection} (h : s.Flow) (hend : s.endSignals = cameraGroups.length)
    {image : Image} (hcovers : ∃ w ∈ List.range cameraGroups.length, (s.workers w).Covers (cams w) image) :
    image ∈ s.results.map Row.image := by
  obtain ⟨w, hw, hcovers⟩ := hcovers
  have hphase := (h.at_end hend w hw).1
  refine (h.perm_images hend).mem_iff.2 (List.mem_flatMap.2 ⟨w, hw, ?_⟩)
  rcases hcovers (by rw [hphase]; rfl) with htask | ⟨p, hp, -⟩
  · exact htask
  · rw [Worker.todo, hphase] at hp
    exact absurd hp List.not_mem_nil

/-- With folders that stay as they are, these are all image files. -/
theorem Inspection.Flow.perm_imageFiles {folders : Folders} {s : Inspection} (h : s.Flow)
    (hlisted : ∀ w, (s.workers w).Listed (cams w) folders) (hend : s.endSignals = cameraGroups.length) :
    (s.results.map Row.image).Perm (imageFiles folders) := by
  have htasks : ((List.range cameraGroups.length).flatMap fun w => (s.workers w).imageTasks) =
      ((List.range cameraGroups.length).flatMap cams).flatMap
        fun cam => extensions.flatMap fun ext => globbed folders cam ext := by
    rw [List.flatMap_assoc]
    apply List.flatMap_congr
    intro w hw
    have hphase := (h.at_end hend w hw).1
    have hall := hlisted w (by rw [hphase]; rfl)
    rw [Worker.todo, hphase, List.flatMap_nil, List.append_nil, patterns, List.flatMap_assoc] at hall
    rw [hall]
    exact List.flatMap_congr fun cam _ => List.flatMap_map _ _ _
  have hperm := h.perm_images hend
  rw [htasks] at hperm
  exact hperm.trans (perm_cams.flatMap fun cam _ => perm_globbed folders cam)

/-- No worker has failed if and only if none raised an exception. -/
theorem noneFailed_iff (folders : Folders) (evs : List InspectionEvent) :
    (runs (Inspection.step folders) Inspection.init evs).NoneFailed ↔
      StepsMeet (Inspection.step folders) Inspection.NoRaise Inspection.init evs := by
  have hinit : Inspection.init.NoneFailed := fun w _ => rfl
  rw [runs_iff_stepsMeet (Inspection.noneFailed_step folders)]
  exact and_iff_right hinit

theorem Inspection.flow_runs (folders : Folders) (evs : List InspectionEvent) :
    (runs (Inspection.step folders) Inspection.init evs).Flow :=
  runs_inv Inspection.Flow (fun s e h _ => (Inspection.effect folders s e).flow h) Inspection.init_flow
    (stepsMeet_true _ _)

/-- A worker that goes through its images with these predictions. -/
def inspects (w : Nat) (predicted : List (Option Int)) : List InspectionEvent :=
  .worker w .load :: List.replicate 9 (.worker w .list) ++ predicted.map (fun p => .worker w (.process 0 p)) ++
    [.worker w .leave]

/-- A worker that cannot read any of its images, up to the collector. -/
def workerRun (w images : Nat) : List InspectionEvent :=
  inspects w (List.replicate images none) ++ List.replicate (images + 1) (.flush w) ++
    List.replicate (images + 1) .collect

/-- Folders with images of two cameras, which two workers go through. -/
def twoCameras : Folders := fun cam =>
  if cam = 3 then ⟨[ascii "3_1.jpg", ascii "3_2.jpg"], by decide⟩
  else if cam = 7 then ⟨[ascii "7_1.jpg"], List.nodup_singleton _⟩
  else ⟨[], List.nodup_nil⟩

/-- All workers end, then their items reach the collector by turns. -/
def twoCamerasRun : List InspectionEvent :=
  ((List.range 5).flatMap fun w => inspects w (if w = 3 then [some 0] else if w = 4 then [some 1, some 1] else [])) ++
    (List.range 3).flatMap fun _ => (List.range 5).flatMap fun w => [.flush w, .collect]

end FlameSdd.InferenceRun
