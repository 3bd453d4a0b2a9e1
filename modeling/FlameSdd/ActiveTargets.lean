import FlameSdd.FileStacker
import Mathlib.Data.List.Nodup
/-!
# The active directories

Which directories an instruction makes active, and what a message that is
rejected does to them. A destination becomes active only when its directory is
created: `active_targets_iff`. The list is emptied before the message is looked
at: `rejected_keeps_active_iff`.
-/
open SysLib FlameSdd.FileStacker

namespace FlameSdd.ActiveTargets

/-! ## What a target asks for -/

/-- A target with `use`: its destination, and whether `level2.txt` goes there. -/
structure Used where
  dest : Path
  level2 : Bool

def used? (cfg : Config) (faults : Faults) (names : Bytes × Bytes) (target : Json) : Option Used :=
  match destination cfg names target with
  | .ok (dest, true) => some ⟨dest, writesLevel2 faults target dest⟩
  | _ => none

def usedTargets (cfg : Config) (faults : Faults) (names : Bytes × Bytes) : List Used :=
  cfg.targetPath.filterMap (used? cfg faults names)

/-- The places that exist once a target has its directory. -/
def created (u : Used) (q : Path) : Bool := q.isSuffixOf u.dest || (u.level2 && q == level2File :: u.dest)

/-- The directories that become active, in order: those that do not exist when
their turn comes. -/
def activated (present : Path → Bool) : List Used → List Path
  | [] => []
  | u :: us =>
    if present u.dest then activated present us
    else u.dest :: activated (fun q => present q || created u q) us

/-! ## The loop over the targets -/

theorem used?_eq_some_iff {cfg : Config} {faults : Faults} {names : Bytes × Bytes} {target : Json} {u : Used} :
    used? cfg faults names target = some u ↔
      destination cfg names target = .ok (u.dest, true) ∧ u.level2 = writesLevel2 faults target u.dest := by
  obtain ⟨dest, level2⟩ := u
  unfold used?
  split
  · rename_i d hdest
    rw [hdest]
    simp only [Option.some.injEq, Used.mk.injEq, Except.ok.injEq, Prod.mk.injEq, and_true]
    constructor
    · rintro ⟨rfl, hw⟩
      exact ⟨rfl, hw.symm⟩
    · rintro ⟨rfl, hw⟩
      exact ⟨rfl, hw.symm⟩
  · rename_i hno
    constructor
    · exact nofun
    · rintro ⟨hdest, -⟩
      exact absurd hdest (hno dest)

theorem created_dest (u : Used) : created u u.dest = true := by simp [created]

/-- One turn of the loop, when the file system does not fail: a target whose
directory does not exist gets it and becomes active. -/
theorem handleTarget_spec {cfg : Config} {faults : Faults} {data : Json} {names : Bytes × Bytes} {target : Json}
    {s s' : State} {e : Option Exn} (h : handleTarget cfg faults data names target s = (s', e))
    (he : e ≠ some .filesystemError) :
    match used? cfg faults names target with
    | none => s' = s
    | some u =>
      if s.fs.present u.dest then s' = s
      else s'.backupDirPath = s.backupDirPath ++ [u.dest] ∧
        s'.fs.present = fun q => s.fs.present q || created u q := by
  have hcases := handleTarget_cases cfg faults data names target s
  rw [h] at hcases
  rcases hcases with ⟨hs, hdone⟩ | ⟨-, hfail⟩ | ⟨dest, fs, hdest, habs, hmk, hdirs, text, hfs⟩
  · split
    · exact hs
    · rename_i u hu
      rw [if_pos ((hdone _ (used?_eq_some_iff.1 hu).1).resolve_right he)]
      exact hs
  · exact absurd hfail he
  · have hu : used? cfg faults names target = some ⟨dest, writesLevel2 faults target dest⟩ :=
      used?_eq_some_iff.2 ⟨hdest, rfl⟩
    rw [hu]
    obtain ⟨hdir, hfree, hpres⟩ := createDirectories_dest habs hmk
    simp only [habs, Bool.false_eq_true, if_false]
    refine ⟨hdirs, ?_⟩
    funext q
    rw [hfs]
    cases hw : writesLevel2 faults target dest with
    | false => simp [created, hpres]
    | true =>
      rw [if_pos rfl, Bool.eq_iff_iff, FileSystem.present_writeFile hdir hfree, hpres]
      simp [created, or_assoc]

/-- The loop makes active exactly the directories that do not exist in their turn. -/
theorem handleTargets_spec {cfg : Config} {faults : Faults} {data : Json} {names : Bytes × Bytes}
    {targets : List Json} {s s' : State} {es : List Exn}
    (h : handleTargets cfg faults data names targets s = (s', es)) (he : .filesystemError ∉ es) :
    s'.backupDirPath = s.backupDirPath ++ activated s.fs.present (targets.filterMap (used? cfg faults names)) := by
  induction targets generalizing s es with
  | nil =>
    obtain ⟨rfl, -⟩ := Prod.mk.inj h
    simp [activated]
  | cons target targets ih =>
    simp only [handleTargets, Prod.mk.injEq] at h
    obtain ⟨hs, hes⟩ := h
    subst hes
    have hrest := ih (Prod.ext hs rfl) (fun hm => he (List.mem_append_right _ hm))
    have hturn := handleTarget_spec (Prod.eta (handleTarget cfg faults data names target s)).symm
      (fun heq => he (List.mem_append_left _ (by simp [heq])))
    rw [hrest]
    cases hused : used? cfg faults names target with
    | none =>
      rw [hused] at hturn
      simp [hturn, hused]
    | some u =>
      simp only [hused] at hturn
      rw [List.filterMap_cons_some hused, activated]
      split at hturn
      · rename_i hpres
        rw [hturn, if_pos hpres]
      · rename_i habs
        rw [hturn.1, hturn.2, if_neg habs, List.append_assoc]
        rfl

/-! ## All of them, or not -/

/-- The targets without those that repeat an earlier destination. -/
def firsts : List Used → List Used
  | [] => []
  | u :: us => u :: (firsts us).filter fun v => v.dest ≠ u.dest

/-- No destination exists when its turn comes: neither before the message, nor
as a directory or a `level2.txt` made for an earlier target. -/
def Fresh (present : Path → Bool) (us : List Used) : Prop :=
  (∀ u ∈ firsts us, present u.dest = false) ∧ (firsts us).Pairwise fun e u => created e u.dest = false

theorem mem_firsts (us : List Used) (p : Path) : p ∈ (firsts us).map Used.dest ↔ p ∈ us.map Used.dest := by
  induction us with
  | nil => exact Iff.rfl
  | cons u us ih =>
    simp only [firsts, List.map_cons, List.mem_cons, ← ih, List.mem_map, List.mem_filter, decide_eq_true_eq]
    by_cases hp : p = u.dest
    · simp [hp]
    · constructor
      · rintro (h | ⟨v, ⟨hv, -⟩, rfl⟩)
        · exact .inl h
        · exact .inr ⟨v, hv, rfl⟩
      · rintro (h | ⟨v, hv, rfl⟩)
        · exact .inl h
        · exact .inr ⟨v, ⟨hv, hp⟩, rfl⟩

theorem firsts_nodup (us : List Used) : ((firsts us).map Used.dest).Nodup := by
  induction us with
  | nil => exact List.nodup_nil
  | cons u us ih =>
    simp only [firsts, List.map_cons, List.nodup_cons]
    refine ⟨?_, ih.sublist (List.filter_sublist.map _)⟩
    simp only [List.mem_map, List.mem_filter, decide_eq_true_eq, not_exists, not_and]
    rintro v ⟨-, hv⟩ heq
    exact hv heq

/-- A destination that exists is never made active. -/
theorem absent_of_activated {present : Path → Bool} {us : List Used} {p : Path} (h : p ∈ activated present us) :
    present p = false := by
  induction us generalizing present with
  | nil => simp [activated] at h
  | cons u us ih =>
    unfold activated at h
    split at h
    · exact ih h
    · rename_i habs
      rcases List.mem_cons.1 h with rfl | h
      · simpa using habs
      · exact (Bool.or_eq_false_iff.1 (ih h)).1

theorem activated_subset (present : Path → Bool) (us : List Used) {p : Path} (h : p ∈ activated present us) :
    p ∈ us.map Used.dest := by
  induction us generalizing present with
  | nil => simp [activated] at h
  | cons u us ih =>
    unfold activated at h
    split at h
    · exact List.mem_cons_of_mem _ (ih _ h)
    · rcases List.mem_cons.1 h with rfl | h
      · simp
      · exact List.mem_cons_of_mem _ (ih _ h)

/-- The targets of a destination that exists change nothing. -/
theorem activated_filter {present : Path → Bool} {p : Path} (hp : present p = true) (us : List Used) :
    activated present (us.filter fun v => v.dest ≠ p) = activated present us := by
  induction us generalizing present with
  | nil => rfl
  | cons u us ih =>
    by_cases hu : u.dest = p
    · rw [List.filter_cons_of_neg (by simp [hu]), ih hp, activated, if_pos (by rw [hu, hp])]
    · rw [List.filter_cons_of_pos (by simp [hu]), activated, activated, ih hp,
        @ih (fun q => present q || created u q) (by simp [hp])]

theorem activated_firsts (present : Path → Bool) (us : List Used) :
    activated present (firsts us) = activated present us := by
  induction us generalizing present with
  | nil => rfl
  | cons u us ih =>
    rw [firsts, activated, activated]
    split
    · rename_i hp
      rw [activated_filter hp, ih]
    · rw [activated_filter (by simp [created_dest]), ih]

/-- Among different destinations, all become active exactly when each is new in
its turn. -/
theorem activated_all_iff (present : Path → Bool) {us : List Used} (hn : (us.map Used.dest).Nodup) :
    (∀ u ∈ us, u.dest ∈ activated present us) ↔
      (∀ u ∈ us, present u.dest = false) ∧ us.Pairwise fun e u => created e u.dest = false := by
  induction us generalizing present with
  | nil => simp
  | cons u us ih =>
    obtain ⟨hu, hn⟩ := List.nodup_cons.1 hn
    cases hp : present u.dest with
    | true =>
      constructor
      · intro h
        have := absent_of_activated (h u (by simp))
        rw [hp] at this
        exact Bool.noConfusion this
      · rintro ⟨h, -⟩
        have := h u (by simp)
        rw [hp] at this
        exact Bool.noConfusion this
    | false =>
      have hne : ∀ v ∈ us, v.dest ≠ u.dest := by
        intro v hv heq
        exact hu (heq ▸ List.mem_map_of_mem hv)
      have hstep : (∀ v ∈ u :: us, v.dest ∈ activated present (u :: us)) ↔
          ∀ v ∈ us, v.dest ∈ activated (fun q => present q || created u q) us := by
        rw [activated, if_neg (by simp [hp])]
        constructor
        · intro h v hv
          exact (List.mem_cons.1 (h v (List.mem_cons_of_mem _ hv))).resolve_left (hne v hv)
        · intro h v hv
          rcases List.mem_cons.1 hv with rfl | hv
          · simp
          · exact List.mem_cons_of_mem _ (h v hv)
      rw [hstep, ih _ hn]
      simp only [Bool.or_eq_false_iff, List.pairwise_cons, List.forall_mem_cons, hp, true_and]
      constructor
      · rintro ⟨h, hpw⟩
        exact ⟨fun v hv => (h v hv).1, fun v hv => (h v hv).2, hpw⟩
      · rintro ⟨h1, h2, hpw⟩
        exact ⟨fun v hv => ⟨h1 v hv, h2 v hv⟩, hpw⟩

theorem activated_exact_iff (present : Path → Bool) (us : List Used) :
    (∀ p, p ∈ activated present us ↔ p ∈ us.map Used.dest) ↔ Fresh present us := by
  -- repeated destinations change neither side, so they may be left out
  rw [Fresh, ← activated_all_iff present (firsts_nodup us), activated_firsts]
  constructor
  · intro h u hu
    exact (h u.dest).2 ((mem_firsts us _).1 (List.mem_map_of_mem hu))
  · intro h p
    refine ⟨activated_subset present us, fun hp => ?_⟩
    obtain ⟨u, hu, rfl⟩ := List.mem_map.1 ((mem_firsts us p).2 hp)
    exact h u hu

/-! ## What an instruction makes active -/

/-- After an instruction that was handled without a file system error, exactly
the destinations of the targets in use are active if and only if each of them
was new: nothing stood there, and no earlier target put something there. -/
theorem active_targets_iff (cfg : Config) (faults : Faults) (s : State) (data : Json) (names : Bytes × Bytes)
    (hreq : hasRequired data = true) (hnames : targetDirname data = .ok names)
    (hops : .filesystemError ∉ (level2DispatchTask cfg faults (some data) s).2) :
    (∀ p, p ∈ (level2DispatchTask cfg faults (some data) s).1.backupDirPath ↔
        ∃ target ∈ cfg.targetPath, destination cfg names target = .ok (p, true)) ↔
      Fresh s.fs.present (usedTargets cfg faults names) := by
  simp only [level2DispatchTask, hreq, if_true, hnames] at hops ⊢
  rw [handleTargets_spec rfl hops, List.nil_append, ← activated_exact_iff]
  refine forall_congr' fun p => iff_congr Iff.rfl ?_
  simp only [usedTargets, List.mem_map, List.mem_filterMap]
  constructor
  · rintro ⟨target, ht, hdest⟩
    exact ⟨⟨p, writesLevel2 faults target p⟩, ⟨target, ht, used?_eq_some_iff.2 ⟨hdest, rfl⟩⟩, rfl⟩
  · rintro ⟨u, ⟨target, ht, hu⟩, rfl⟩
    exact ⟨target, ht, (used?_eq_some_iff.1 hu).1⟩

/-- One target in use, without `level2.txt`. -/
def oneTarget : Config where
  cwd := []
  targetPath := [.obj [("use", .bool true), ("path", .str (ascii "/nas")), ("image_only", .bool true)]]
  dirname _ := none

/-- An instruction for a bar of standard H 200 x 100. -/
def instruction (date : Bytes) : Json :=
  .obj [("date", .str date), ("mt_stand_height", .int 200), ("mt_stand_width", .int 100),
    ("mt_stand_norm", .str (ascii "H200x100"))]

def firstBar : Json := instruction (ascii "20250102030405")

def firstNames : Bytes × Bytes := (ascii "20250102", ascii "20250102030405_H200x100")

theorem active_targets_iff_first_bar :
    (∀ p, p ∈ (level2DispatchTask oneTarget noFaults (some firstBar) (init .empty)).1.backupDirPath ↔
        ∃ target ∈ oneTarget.targetPath, destination oneTarget firstNames target = .ok (p, true)) ↔
      Fresh FileSystem.empty.present (usedTargets oneTarget noFaults firstNames) :=
  active_targets_iff oneTarget noFaults (init .empty) firstBar firstNames (by decide) rfl
    (by decide +kernel)

/-- The same instruction, handled twice. -/
def repeated : State × List Exn :=
  level2DispatchTask oneTarget noFaults (some firstBar)
    (level2DispatchTask oneTarget noFaults (some firstBar) (init .empty)).1

/-- A repeated instruction leaves no active directory. -/
theorem repeated_not_active : ¬ ∀ (cfg : Config) (faults : Faults) (s : State) (data : Json)
    (names : Bytes × Bytes), hasRequired data = true → targetDirname data = .ok names →
    .filesystemError ∉ (level2DispatchTask cfg faults (some data) s).2 →
    ∀ p, p ∈ (level2DispatchTask cfg faults (some data) s).1.backupDirPath ↔
      ∃ target ∈ cfg.targetPath, destination cfg names target = .ok (p, true) := by
  intro h
  have hdest := h oneTarget noFaults (level2DispatchTask oneTarget noFaults (some firstBar) (init .empty)).1
    firstBar firstNames (by decide) rfl (by decide +kernel)
    [firstNames.2, firstNames.1, ascii "nas"]
  have hnone : repeated.1.backupDirPath = [] := by decide +kernel
  rw [← repeated, hnone] at hdest
  exact List.not_mem_nil (hdest.2 ⟨_, List.mem_singleton_self _, rfl⟩)

/-! ## Rejected messages -/

/-- A message that is no JSON or lacks a required member. -/
def rejects : Event → Bool
  | .lv2Dispatch _ none => true
  | .lv2Dispatch _ (some data) => !hasRequired data
  | _ => false

/-- If the event is a rejected message, the active directories and the counters stay. -/
def Keeps (cfg : Config) (s : State) (e : Event) : Prop :=
  rejects e = true → (step cfg s e).backupDirPath = s.backupDirPath ∧ (step cfg s e).streamCounter = s.streamCounter

/-- A rejected message is handled while no directory is active. -/
def Idle (s : State) (e : Event) : Prop := rejects e = true → s.level2 = .running → s.backupDirPath = []

/-- Handling a rejected message empties the list of active directories. -/
theorem step_rejects (cfg : Config) {s : State} {e : Event} (he : rejects e = true) (hs : s.level2 = .running) :
    (step cfg s e).backupDirPath = [] ∧ (step cfg s e).streamCounter = s.streamCounter := by
  cases e with
  | lv2Dispatch faults payload =>
    simp only [step, hs, if_true]
    cases payload with
    | none => exact ⟨rfl, rfl⟩
    | some data =>
      have hreq : hasRequired data = false := by simpa [rejects] using he
      simp [level2DispatchTask, hreq]
  | image => simp [rejects] at he
  | disk => simp [rejects] at he

theorem keeps_iff_idle (cfg : Config) (s : State) (e : Event) : Keeps cfg s e ↔ Idle s e := by
  unfold Keeps Idle
  apply imp_congr_right
  intro he
  by_cases hs : s.level2 = .running
  · obtain ⟨hdirs, hcount⟩ := step_rejects cfg he hs
    rw [hdirs, hcount]
    constructor
    · rintro ⟨h, -⟩ -
      exact h.symm
    · intro h
      exact ⟨(h hs).symm, rfl⟩
  · cases e with
    | lv2Dispatch => simp [step, hs]
    | image => simp [rejects] at he
    | disk => simp [rejects] at he

/-- In every run, all rejected messages leave the active directories and the
counters as they were if and only if each is handled while none is active. -/
theorem rejected_keeps_active_iff (cfg : Config) (fs : FileSystem) (evs : List Event) :
    StepsMeet (step cfg) (Keeps cfg) (init fs) evs ↔ StepsMeet (step cfg) Idle (init fs) evs :=
  stepsMeet_congr (keeps_iff_idle cfg) _ _

/-- A message that is no JSON, after an instruction, drops its directories. -/
theorem rejected_drops_active : ¬ ∀ (cfg : Config) (fs : FileSystem) (evs : List Event),
    StepsMeet (step cfg) (Keeps cfg) (init fs) evs := by
  intro h
  have hrun := h oneTarget .empty [.lv2Dispatch noFaults (some firstBar), .lv2Dispatch noFaults none]
  have hkeep := (hrun.2.1 rfl).1
  exact absurd hkeep (by decide +kernel)

end FlameSdd.ActiveTargets
