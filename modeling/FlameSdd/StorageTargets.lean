import FlameSdd.FileStacker
/-!
# One image into several targets

The stacker saves an image under every active directory in one loop, with one
exception handler around it. A directory that cannot be checked or created ends
the loop, so the targets behind it get nothing: `storage_targets_independent_iff`.
-/
open SysLib FlameSdd.FileStacker

namespace FlameSdd.StorageTargets

/-! ## Target by target -/

/-- What becomes of the image in one target. -/
inductive Outcome where
  | threw
  | notOpened
  | saved
  deriving DecidableEq

/-- Where a target holds the image. -/
def imagePath (dirname filename : Bytes) (path : Path) : Path := (path.join dirname).descend filename

/-- The body of the loop, on one target. -/
def saveOne (faults : Faults) (dirname filename image : Bytes) (path : Path) (fs : FileSystem) :
    FileSystem × Outcome :=
  let cameraWorkingDir := path.join dirname
  if faults.stat cameraWorkingDir then (fs, .threw)
  else
    match (if fs.present cameraWorkingDir then (fs, true)
      else fs.createDirectories faults.mkdir cameraWorkingDir) with
    | (fs, false) => (fs, .threw)
    | (fs, true) =>
      let out := imagePath dirname filename path
      if !faults.opening out && fs.canOpen out then (fs.writeFile out image, .saved) else (fs, .notOpened)

/-- Every target by itself, whatever became of the ones before it: what a handler
inside the loop, as around the targets of an instruction, would give. -/
def saveEach (faults : Faults) (dirname filename image : Bytes) : List Path → FileSystem → List (Path × Outcome)
  | [], _ => []
  | path :: paths, fs =>
    let (fs, outcome) := saveOne faults dirname filename image path fs
    (path, outcome) :: saveEach faults dirname filename image paths fs

/-- The loop goes on exactly after a target that did not throw. -/
theorem saveInto_cons (faults : Faults) (dirname filename image : Bytes) (path : Path) (paths : List Path)
    (fs : FileSystem) :
    saveInto faults dirname filename image (path :: paths) fs =
      match saveOne faults dirname filename image path fs with
      | (fs, .threw) => (fs, [])
      | (fs, .notOpened) => saveInto faults dirname filename image paths fs
      | (fs, .saved) =>
        let (fs, saved) := saveInto faults dirname filename image paths fs
        (fs, path :: saved) := by
  have himg : (path.join dirname).descend filename = imagePath dirname filename path := rfl
  unfold saveOne
  simp only [saveInto, himg]
  by_cases hstat : faults.stat (path.join dirname) = true
  · rw [if_pos hstat, if_pos hstat]
  · rw [if_neg hstat, if_neg hstat]
    rcases (if fs.present (path.join dirname) then (fs, true)
      else fs.createDirectories faults.mkdir (path.join dirname)) with ⟨fs', made⟩
    cases made with
    | false => rfl
    | true =>
      dsimp only
      by_cases hopen : (!faults.opening (imagePath dirname filename path) &&
          fs'.canOpen (imagePath dirname filename path)) = true
      · rw [if_pos hopen, if_pos hopen]
      · rw [if_neg hopen, if_neg hopen]

/-! ## What the loop saves -/

theorem saveOne_saved {faults : Faults} {dirname filename image : Bytes} {path : Path} {fs fs' : FileSystem}
    (h : saveOne faults dirname filename image path fs = (fs', .saved)) :
    fs'.node (imagePath dirname filename path) = some (.file image) := by
  unfold saveOne at h
  dsimp only at h
  split at h
  · simp at h
  · split at h
    · simp at h
    · split at h
      · rename_i hopen
        obtain ⟨rfl, -⟩ := Prod.mk.inj h
        rw [FileSystem.node_writeFile (Bool.and_eq_true_iff.1 hopen).2, if_pos rfl]
      · simp at h

/-- What making directories and writing the image keep is kept by a target. -/
theorem saveOne_inv {faults : Faults} (dirname filename : Bytes) {image : Bytes} (P : FileSystem → Prop)
    (hmk : ∀ fs p, P fs → P (fs.createDirectories faults.mkdir p).1)
    (hwrite : ∀ fs path, FileSystem.canOpen fs path = true → P fs → P (fs.writeFile path image))
    (path : Path) {fs : FileSystem} (h : P fs) : P (saveOne faults dirname filename image path fs).1 := by
  unfold saveOne
  dsimp only
  split
  · exact h
  · have hdir : P (if fs.present (path.join dirname) then (fs, true)
        else fs.createDirectories faults.mkdir (path.join dirname)).1 := by
      split
      · exact h
      · exact hmk fs _ h
    split
    · rename_i heq
      rwa [heq] at hdir
    · rename_i heq
      rw [heq] at hdir
      split
      · rename_i hopen
        exact hwrite _ _ (Bool.and_eq_true_iff.1 hopen).2 hdir
      · exact hdir

/-- And by the loop. -/
theorem saveInto_inv {faults : Faults} {dirname filename image : Bytes} (P : FileSystem → Prop)
    (hmk : ∀ fs p, P fs → P (fs.createDirectories faults.mkdir p).1)
    (hwrite : ∀ fs path, FileSystem.canOpen fs path = true → P fs → P (fs.writeFile path image))
    (paths : List Path) {fs : FileSystem} (h : P fs) : P (saveInto faults dirname filename image paths fs).1 := by
  induction paths generalizing fs with
  | nil => exact h
  | cons path paths ih =>
    have hone := saveOne_inv dirname filename P hmk hwrite path h
    rw [saveInto_cons]
    split
    · rename_i heq
      rwa [heq] at hone
    · rename_i heq
      rw [heq] at hone
      exact ih hone
    · rename_i heq
      rw [heq] at hone
      exact ih hone

/-- An image that is stored stays while further targets get it. -/
theorem saveInto_keeps (faults : Faults) (dirname filename image : Bytes) (paths : List Path) {fs : FileSystem}
    {q : Path} (h : fs.node q = some (.file image)) :
    (saveInto faults dirname filename image paths fs).1.node q = some (.file image) := by
  refine saveInto_inv (fun fs => fs.node q = some (.file image)) ?_ ?_ paths h
  · exact fun fs p h => FileSystem.createDirectories_keeps h p
  · intro fs path hopen h
    rw [FileSystem.node_writeFile hopen]
    split
    · rfl
    · exact h

/-- A target that counts as saved holds the image when the loop is done. -/
theorem saveInto_stored {faults : Faults} {dirname filename image : Bytes} {paths : List Path} {fs : FileSystem}
    {p : Path} (h : p ∈ (saveInto faults dirname filename image paths fs).2) :
    (saveInto faults dirname filename image paths fs).1.node (imagePath dirname filename p) =
      some (.file image) := by
  induction paths generalizing fs with
  | nil => simp [saveInto] at h
  | cons path paths ih =>
    rw [saveInto_cons] at h ⊢
    split at h
    · simp at h
    · exact ih h
    · rename_i heq
      rcases List.mem_cons.1 h with rfl | h
      · exact saveInto_keeps _ _ _ _ _ (saveOne_saved heq)
      · exact ih h

/-- The loop saves what the targets would have saved by themselves, up to the
first one that throws. -/
theorem mem_saveInto_iff {faults : Faults} {dirname filename image : Bytes} {paths : List Path} {fs : FileSystem}
    {p : Path} :
    p ∈ (saveInto faults dirname filename image paths fs).2 ↔
      (p, .saved) ∈ (saveEach faults dirname filename image paths fs).takeWhile fun t => t.2 ≠ .threw := by
  induction paths generalizing fs with
  | nil => simp [saveInto, saveEach]
  | cons path paths ih =>
    rw [saveInto_cons, saveEach]
    obtain ⟨fs', outcome⟩ := saveOne faults dirname filename image path fs
    cases outcome with
    | threw => simp
    | notOpened => simp [ih]
    | saved => simp [ih]

/-! ## What the loop leaves alone -/

section
variable {faults : Faults} {dirname filename : Bytes} {q : Path}

theorem saveOne_other (image : Bytes) {path : Path} (fs : FileSystem) (hdir : ¬ q <:+ path.join dirname)
    (hout : q ≠ imagePath dirname filename path) :
    (saveOne faults dirname filename image path fs).1.node q = fs.node q := by
  have hmk := FileSystem.createDirectories_other faults.mkdir fs hdir
  unfold saveOne
  dsimp only
  split
  · rfl
  · have hnode : (if fs.present (path.join dirname) then (fs, true)
        else fs.createDirectories faults.mkdir (path.join dirname)).1.node q = fs.node q := by
      split
      · rfl
      · exact hmk
    split
    · rename_i heq
      rwa [heq] at hnode
    · rename_i heq
      rw [heq] at hnode
      split
      · rw [FileSystem.node_writeFile_of_ne hout, hnode]
      · exact hnode

theorem saveInto_other (image : Bytes) {paths : List Path} (fs : FileSystem)
    (h : ∀ path ∈ paths, ¬ q <:+ path.join dirname ∧ q ≠ imagePath dirname filename path) :
    (saveInto faults dirname filename image paths fs).1.node q = fs.node q := by
  induction paths generalizing fs with
  | nil => rfl
  | cons path paths ih =>
    obtain ⟨⟨hdir, hout⟩, hrest⟩ := List.forall_mem_cons.1 h
    have hone : (saveOne faults dirname filename image path fs).1.node q = fs.node q :=
      saveOne_other image fs hdir hout
    rw [saveInto_cons]
    split
    · rename_i heq
      rwa [heq] at hone
    · rename_i heq
      rw [heq] at hone
      rw [ih _ hrest, hone]
    · rename_i heq
      rw [heq] at hone
      exact (ih _ hrest).trans hone

/-- What a target does to another place is to make a directory there. -/
theorem saveOne_node (faults : Faults) (image : Bytes) {path : Path} (fs : FileSystem)
    (hout : q ≠ imagePath dirname filename path) :
    (saveOne faults dirname filename image path fs).1.node q = fs.node q ∨
      fs.node q = none ∧ (saveOne faults dirname filename image path fs).1.node q = some .dir := by
  have hmk := FileSystem.createDirectories_node faults.mkdir fs (path.join dirname) q
  unfold saveOne
  dsimp only
  split
  · exact .inl rfl
  · have hnode : (if fs.present (path.join dirname) then (fs, true)
        else fs.createDirectories faults.mkdir (path.join dirname)).1.node q = fs.node q ∨ fs.node q = none ∧
          (if fs.present (path.join dirname) then (fs, true)
            else fs.createDirectories faults.mkdir (path.join dirname)).1.node q = some .dir := by
      split
      · exact .inl rfl
      · exact hmk
    split
    · rename_i heq
      rwa [heq] at hnode
    · rename_i heq
      rw [heq] at hnode
      split
      · rw [FileSystem.node_writeFile_of_ne hout]
        exact hnode
      · exact hnode

theorem saveInto_node (faults : Faults) (image : Bytes) {paths : List Path} (fs : FileSystem)
    (h : ∀ path ∈ paths, q ≠ imagePath dirname filename path) :
    (saveInto faults dirname filename image paths fs).1.node q = fs.node q ∨
      fs.node q = none ∧ (saveInto faults dirname filename image paths fs).1.node q = some .dir := by
  induction paths generalizing fs with
  | nil => exact .inl rfl
  | cons path paths ih =>
    obtain ⟨hout, hrest⟩ := List.forall_mem_cons.1 h
    have hone := saveOne_node faults image fs hout
    have hgo : ∀ fs', (fs'.node q = fs.node q ∨ fs.node q = none ∧ fs'.node q = some .dir) →
        (saveInto faults dirname filename image paths fs').1.node q = fs.node q ∨
          fs.node q = none ∧ (saveInto faults dirname filename image paths fs').1.node q = some .dir := by
      rintro fs' (hsame | ⟨hnone, hdir⟩)
      · rw [← hsame]
        exact ih fs' hrest
      · rcases ih fs' hrest with hkeep | ⟨hnone', -⟩
        · exact .inr ⟨hnone, hkeep.trans hdir⟩
        · rw [hnone'] at hdir
          cases hdir
    rw [saveInto_cons]
    split
    · rename_i heq
      rwa [heq] at hone
    · rename_i heq
      rw [heq] at hone
      exact hgo _ hone
    · rename_i heq
      rw [heq] at hone
      exact hgo _ hone

/-- What becomes of an image in a target does not depend on the image, nor on what
the files hold. -/
theorem saveOne_shape (faults : Faults) (dirname filename image image' : Bytes) (path : Path) {fs fs' : FileSystem}
    (h : fs.shape = fs'.shape) :
    (saveOne faults dirname filename image path fs).1.shape = (saveOne faults dirname filename image' path fs').1.shape ∧
      (saveOne faults dirname filename image path fs).2 = (saveOne faults dirname filename image' path fs').2 := by
  have hpresent : fs.present (path.join dirname) = fs'.present (path.join dirname) := by
    rw [FileSystem.present_eq_shape, FileSystem.present_eq_shape, h]
  obtain ⟨hmkShape, hmkMade⟩ := FileSystem.shape_createDirectories h faults.mkdir (path.join dirname)
  unfold saveOne
  dsimp only
  rw [hpresent]
  by_cases hstat : faults.stat (path.join dirname) = true
  · rw [if_pos hstat, if_pos hstat]
    exact ⟨h, rfl⟩
  · rw [if_neg hstat, if_neg hstat]
    have hdir : (if fs'.present (path.join dirname) then (fs, true)
          else fs.createDirectories faults.mkdir (path.join dirname)).1.shape =
        (if fs'.present (path.join dirname) then (fs', true)
          else fs'.createDirectories faults.mkdir (path.join dirname)).1.shape ∧
        (if fs'.present (path.join dirname) then (fs, true)
          else fs.createDirectories faults.mkdir (path.join dirname)).2 =
        (if fs'.present (path.join dirname) then (fs', true)
          else fs'.createDirectories faults.mkdir (path.join dirname)).2 := by
      split
      · exact ⟨h, rfl⟩
      · exact ⟨hmkShape, hmkMade⟩
    generalize (if fs'.present (path.join dirname) then (fs, true)
      else fs.createDirectories faults.mkdir (path.join dirname)) = r at hdir ⊢
    generalize (if fs'.present (path.join dirname) then (fs', true)
      else fs'.createDirectories faults.mkdir (path.join dirname)) = r' at hdir ⊢
    obtain ⟨mid, made⟩ := r
    obtain ⟨mid', made'⟩ := r'
    obtain ⟨hmid, hmade⟩ := hdir
    obtain rfl : made = made' := hmade
    cases made with
    | false => exact ⟨hmid, rfl⟩
    | true =>
      dsimp only
      rw [FileSystem.canOpen_shape hmid]
      split
      · exact ⟨FileSystem.shape_writeFile hmid _ _ _, rfl⟩
      · exact ⟨hmid, rfl⟩

theorem saveInto_shape (image image' : Bytes) (paths : List Path) {fs fs' : FileSystem} (h : fs.shape = fs'.shape) :
    (saveInto faults dirname filename image paths fs).2 = (saveInto faults dirname filename image' paths fs').2 := by
  induction paths generalizing fs fs' with
  | nil => rfl
  | cons path paths ih =>
    obtain ⟨hshape, houtcome⟩ := saveOne_shape faults dirname filename image image' path h
    rw [saveInto_cons, saveInto_cons]
    rcases hone : saveOne faults dirname filename image path fs with ⟨mid, outcome⟩
    rcases hone' : saveOne faults dirname filename image' path fs' with ⟨mid', outcome'⟩
    rw [hone, hone'] at hshape houtcome
    obtain rfl : outcome = outcome' := houtcome
    cases outcome with
    | threw => rfl
    | notOpened => exact ih hshape
    | saved => exact congrArg (List.cons path) (ih hshape)

end

/-! ## All targets but the failing ones -/

/-- Behind a target that throws, there is no target that would hold the image,
but for one that stands before it too. -/
def ThrowsLast (turns : List (Path × Outcome)) : Prop :=
  ∀ pre q post, turns = pre ++ (q, .threw) :: post → ∀ p, (p, .saved) ∈ post → (p, .saved) ∈ pre

theorem throwsLast_iff (turns : List (Path × Outcome)) :
    (∀ p, (p, .saved) ∈ turns → (p, .saved) ∈ turns.takeWhile fun t => t.2 ≠ .threw) ↔ ThrowsLast turns := by
  have hsplit := List.takeWhile_append_dropWhile (p := fun t : Path × Outcome => t.2 ≠ .threw) (l := turns)
  constructor
  · rintro h pre q post rfl p hp
    have hfirst := h p (by simp [hp])
    rw [List.takeWhile_append] at hfirst
    split at hfirst
    · rename_i hall
      simpa using hfirst
    · exact List.takeWhile_prefix _ |>.subset hfirst
  · rintro h p hp
    rw [← hsplit] at hp
    rcases List.mem_append.1 hp with hp | hp
    · exact hp
    · cases hdrop : turns.dropWhile (fun t => t.2 ≠ .threw) with
      | nil =>
        rw [hdrop] at hp
        simp at hp
      | cons t post =>
        have hthrew : t.2 = .threw := by
          have := List.head?_dropWhile_not (fun t : Path × Outcome => t.2 ≠ .threw) turns
          rw [hdrop] at this
          simpa using this
        obtain ⟨q, outcome⟩ := t
        obtain rfl : outcome = .threw := hthrew
        rw [hdrop] at hsplit hp
        rcases List.mem_cons.1 hp with heq | hp
        · simp at heq
        · exact h _ q post hsplit.symm p hp

/-! ## One image message -/

/-- The name an image gets in every target. -/
def imageFilename (cameraId : Bytes) (count : Nat) : Bytes := cameraId ++ ascii "_" ++ decimal count ++ ascii ".jpg"

section
variable (cfg : Config) (faults : Faults) (streamId : Int) (cameraId image : Bytes) (s : State)

/-- What becomes of the image in each active directory by itself. -/
def targetTurns : List (Path × Outcome) :=
  saveEach faults (workingDirname cfg streamId) (imageFilename cameraId (s.streamCounter streamId + 1)) image
    s.backupDirPath s.fs

/-- Every target outside the failing ones gets the image, under the same file
name, if and only if no target whose directory cannot be checked or created
stands before one of them. -/
theorem storage_targets_independent_iff :
    ((∀ p, (p, .saved) ∈ targetTurns cfg faults streamId cameraId image s →
        p ∈ (imageStackerTask cfg faults streamId cameraId image s).2) ↔
      ThrowsLast (targetTurns cfg faults streamId cameraId image s)) ∧
    ∀ p ∈ (imageStackerTask cfg faults streamId cameraId image s).2,
      (imageStackerTask cfg faults streamId cameraId image s).1.fs.node
        (imagePath (workingDirname cfg streamId) (imageFilename cameraId (s.streamCounter streamId + 1)) p) =
          some (.file image) := by
  constructor
  · rw [← throwsLast_iff]
    exact forall_congr' fun p => imp_congr_right fun _ => mem_saveInto_iff
  · intro p hp
    exact saveInto_stored hp

end

/-- The network storage and the local storage. -/
def storages : List Path := [[ascii "nas_storage"], [ascii "local_storage"]]

/-- The camera folder of the network storage cannot be checked. -/
def nasDown : Faults := { noFaults with stat := fun p => p == [ascii "camera_1", ascii "nas_storage"] }

def profile : Config where
  cwd := []
  targetPath := []
  dirname streamId := some (ascii "camera_" ++ decimalInt streamId)

/-- Then the local storage, which is behind it, gets no image either. -/
theorem local_storage_lost : ¬ ∀ (cfg : Config) (faults : Faults) (streamId : Int) (cameraId image : Bytes)
    (s : State) (p : Path), (p, .saved) ∈ targetTurns cfg faults streamId cameraId image s →
    p ∈ (imageStackerTask cfg faults streamId cameraId image s).2 := by
  intro h
  have hlost := h profile nasDown 1 (ascii "1") [] { init .empty with backupDirPath := storages }
    [ascii "local_storage"] (by decide +kernel)
  exact absurd hlost (by decide +kernel)

end FlameSdd.StorageTargets
