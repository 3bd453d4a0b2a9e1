import FlameSdd.ActiveTargets
/-!
# New directories

The directories that an instruction makes active did not exist before, also where
the instruction comes again, and nothing that exists is changed.
-/
open SysLib FlameSdd.FileStacker FlameSdd.ActiveTargets

namespace FlameSdd.FreshTargets

/-! ## One instruction -/

/-- The active directories were made since the disk was `fs`. -/
structure FreshActive (fs : FileSystem) (s : State) : Prop where
  nodup : s.backupDirPath.Nodup
  absent : ∀ d ∈ s.backupDirPath, fs.present d = false
  present : ∀ d ∈ s.backupDirPath, s.fs.present d = true
  grows : ∀ q n, fs.node q = some n → s.fs.node q = some n

/-- A target of an instruction changes nothing that exists. -/
theorem handleTarget_keeps (cfg : Config) (faults : Faults) (data : Json) (names : Bytes × Bytes) (target : Json)
    {s : State} {q : Path} {n : Node} (h : s.fs.node q = some n) :
    (handleTarget cfg faults data names target s).1.fs.node q = some n := by
  unfold handleTarget
  dsimp only
  split
  · exact h
  · rename_i dest use hdest
    have hmk : (s.fs.createDirectories faults.mkdir dest).1.node q = some n := FileSystem.createDirectories_keeps h dest
    split
    · exact h
    · split
      · exact h
      · split
        · exact h
        · rename_i habs
          -- nothing is in a directory that did not exist
          have hne : q ≠ level2File :: dest := by
            rintro rfl
            rw [FileSystem.node_below _ (by simpa using habs)] at h
            cases h
          split
          · rename_i heq
            rwa [heq] at hmk
          · rename_i heq
            rw [heq] at hmk
            split
            · exact hmk
            · exact hmk
            · split
              · exact (FileSystem.node_writeFile_of_ne hne _ _).trans hmk
              · exact hmk

theorem present_of_keeps {fs fs' : FileSystem} {q : Path} (h : ∀ n, fs.node q = some n → fs'.node q = some n)
    (hq : fs.present q = true) : fs'.present q = true := by
  obtain ⟨n, hn⟩ := Option.isSome_iff_exists.1 hq
  rw [FileSystem.present, h n hn]
  rfl

theorem handleTarget_fresh (cfg : Config) (faults : Faults) (data : Json) (names : Bytes × Bytes) (target : Json)
    {fs : FileSystem} {s : State} (h : FreshActive fs s) :
    FreshActive fs (handleTarget cfg faults data names target s).1 := by
  have hkeeps : ∀ q n, s.fs.node q = some n → (handleTarget cfg faults data names target s).1.fs.node q = some n :=
    fun q n hq => handleTarget_keeps cfg faults data names target hq
  have hgrows : ∀ q, s.fs.present q = true → (handleTarget cfg faults data names target s).1.fs.present q = true :=
    fun q => present_of_keeps (hkeeps q)
  rcases handleTarget_cases cfg faults data names target s with
    ⟨heq, -⟩ | ⟨hdirs, -⟩ | ⟨dest, fs', -, habs, hmk, hdirs, text, hfs⟩
  · rw [heq]
    exact h
  · refine ⟨by rw [hdirs]; exact h.nodup, by rw [hdirs]; exact h.absent, ?_, fun q n hq => hkeeps q n (h.grows q n hq)⟩
    rw [hdirs]
    exact fun d hd => hgrows d (h.present d hd)
  · have hdest : (handleTarget cfg faults data names target s).1.fs.present dest = true := by
      have hnew : fs'.present dest = true := by
        rw [FileSystem.present, (createDirectories_dest habs hmk).1]
        rfl
      rw [hfs]
      split
      · exact FileSystem.present_put_of_present _ _ _ _ hnew
      · exact hnew
    refine ⟨?_, ?_, ?_, fun q n hq => hkeeps q n (h.grows q n hq)⟩
    · rw [hdirs, List.nodup_append_comm]
      refine List.nodup_cons.2 ⟨fun hmem => ?_, h.nodup⟩
      -- an active directory exists, and the new one did not
      rw [h.present dest hmem] at habs
      exact Bool.noConfusion habs
    · intro d hd
      rw [hdirs] at hd
      rcases List.mem_append.1 hd with hd | hd
      · exact h.absent d hd
      · obtain rfl := List.mem_singleton.1 hd
        rw [← Bool.not_eq_true]
        intro hold
        rw [present_of_keeps (h.grows d) hold] at habs
        exact Bool.noConfusion habs
    · intro d hd
      rw [hdirs] at hd
      rcases List.mem_append.1 hd with hd | hd
      · exact hgrows d (h.present d hd)
      · obtain rfl := List.mem_singleton.1 hd
        exact hdest

theorem handleTargets_fresh (cfg : Config) (faults : Faults) (data : Json) (names : Bytes × Bytes)
    (targets : List Json) {fs : FileSystem} {s : State} (h : FreshActive fs s) :
    FreshActive fs (handleTargets cfg faults data names targets s).1 := by
  induction targets generalizing s with
  | nil => exact h
  | cons target targets ih => exact ih (handleTarget_fresh cfg faults data names target h)

/-- After an instruction the active directories are new, and unless there are
none, the counters are zero. -/
theorem level2DispatchTask_fresh (cfg : Config) (faults : Faults) (payload : Payload) (s : State) :
    FreshActive s.fs (level2DispatchTask cfg faults payload s).1 ∧
      ((level2DispatchTask cfg faults payload s).1.backupDirPath = [] ∨
        (level2DispatchTask cfg faults payload s).1.streamCounter = fun _ => 0) := by
  have hempty : ∀ s' : State, s'.backupDirPath = [] → s'.fs = s.fs → FreshActive s.fs s' := by
    rintro s' hdirs hfs
    refine ⟨by rw [hdirs]; exact List.nodup_nil, ?_, ?_, fun q n hq => by rwa [hfs]⟩
    · rw [hdirs]
      exact nofun
    · rw [hdirs]
      exact nofun
  unfold level2DispatchTask
  cases payload with
  | none => exact ⟨hempty _ rfl rfl, .inl rfl⟩
  | some data =>
    dsimp only
    split
    · split
      · exact ⟨hempty _ rfl rfl, .inl rfl⟩
      · rename_i names _
        have hfresh := handleTargets_fresh cfg faults data names cfg.targetPath
          (hempty { s with backupDirPath := [] } rfl rfl)
        exact ⟨⟨hfresh.nodup, hfresh.absent, hfresh.present, hfresh.grows⟩, .inr rfl⟩
    · exact ⟨hempty _ rfl rfl, .inl rfl⟩

end FlameSdd.FreshTargets
