import FlameSdd.FreshTargets
import FlameSdd.StorageTargets
/-!
# Image numbers

An instruction sets the counters of the streams back to zero, also when its
directories exist already. No image is overwritten by that, since a directory is
active only if the step that reset the counters created it: `image_numbering`.
-/
open SysLib FlameSdd.FileStacker FlameSdd.StorageTargets FlameSdd.ActiveTargets FlameSdd.FreshTargets

namespace FlameSdd.ImageNumbering

/-! ## Runs with their history -/

/-- The streams in use: each has a folder name of its own and carries one camera. -/
structure Streams (cfg : Config) where
  ids : List Int
  camera : Int → Bytes
  isName : ∀ i ∈ ids, Path.IsName (workingDirname cfg i)
  distinct : ∀ i ∈ ids, ∀ j ∈ ids, workingDirname cfg i = workingDirname cfg j → i = j
  camera_plain : ∀ i ∈ ids, 0x2f ∉ camera i

/-- An image, how often it was saved, and the places it was written to. -/
structure Write where
  image : Bytes
  saves : Nat
  places : Path → Prop

/-- The stacker with the directories it has made active and the images it has
written. -/
structure History where
  stacker : State
  made : List Path
  written : List Write

def init (fs : FileSystem) : History := ⟨FileStacker.init fs, [], []⟩

/-- An image is written to a place if the place holds it then, whatever the image
is: a file that happens to hold the same bytes is none. -/
def writes (cfg : Config) (s : State) : Event → List Write
  | .image faults streamId cameraId image =>
    [{ image := image
       saves := if s.level2 ≠ .terminated then (imageStackerTask cfg faults streamId cameraId image s).2.length else 0
       places := fun p => ∀ image',
        (FileStacker.step cfg s (.image faults streamId cameraId image')).fs.node p = some (.file image') }]
  | _ => []

def step (cfg : Config) (h : History) (e : Event) : History where
  stacker := FileStacker.step cfg h.stacker e
  made := h.made ++ (FileStacker.step cfg h.stacker e).backupDirPath
  written := h.written ++ writes cfg h.stacker e

/-- Some image of the run was written to the place. -/
def History.Wrote (h : History) (p : Path) : Prop := ∃ w ∈ h.written, w.places p

/-- Every image arrives on its camera's stream and is saved in all active
directories, and other programs leave the directories of the stacker alone. -/
def Regular (cfg : Config) (streams : Streams cfg) (h : History) : Event → Prop
  | .lv2Dispatch _ _ => True
  | .image faults streamId cameraId image =>
    streamId ∈ streams.ids ∧ cameraId = streams.camera streamId ∧
      (imageStackerTask cfg faults streamId cameraId image h.stacker).2 = h.stacker.backupDirPath
  | .disk fs => ∀ d ∈ h.made, ∀ q, d <:+ q → fs.node q = h.stacker.fs.node q

/-! ## The place of an image -/

/-- Image `k` of a stream in the directory `d`. -/
def place (cfg : Config) (streams : Streams cfg) (streamId : Int) (k : Nat) (d : Path) : Path :=
  imageFilename (streams.camera streamId) k :: workingDirname cfg streamId :: d

theorem isName_imageFilename {cameraId : Bytes} (h : 0x2f ∉ cameraId) (k : Nat) :
    Path.IsName (imageFilename cameraId k) := by
  have hlen : 5 ≤ (imageFilename cameraId k).length := by
    have hext : (ascii ".jpg").length = 4 := rfl
    have hsep : (ascii "_").length = 1 := rfl
    simp only [imageFilename, List.length_append]
    omega
  have hslash : (0x2f : UInt8) ∉ decimal k := fun hc => absurd (decimal_isdigit k _ hc) (by decide)
  refine ⟨?_, ?_, ?_, ?_⟩
  · rintro heq
    simp [heq] at hlen
  · rintro heq
    simp [heq, ascii] at hlen
  · rintro heq
    simp [heq, ascii] at hlen
  · simp only [imageFilename, List.mem_append]
    rintro (((hc | hc) | hc) | hc)
    · exact h hc
    · exact absurd hc (by decide)
    · exact hslash hc
    · exact absurd hc (by decide)

theorem imageFilename_injective (cameraId : Bytes) : Function.Injective (imageFilename cameraId) := by
  intro k l h
  simp only [imageFilename, List.append_assoc, List.append_cancel_left_eq, List.append_cancel_right_eq] at h
  exact decimal_injective h

theorem imagePath_eq_place {cfg : Config} (streams : Streams cfg) {i : Int} (hi : i ∈ streams.ids) (k : Nat)
    (d : Path) :
    imagePath (workingDirname cfg i) (imageFilename (streams.camera i) k) d = place cfg streams i k d := by
  rw [imagePath, Path.join_name d (streams.isName i hi),
    Path.descend_name _ (isName_imageFilename (streams.camera_plain i hi) k), place]

theorem place_inj {cfg : Config} {streams : Streams cfg} {i j : Int} (hi : i ∈ streams.ids) (hj : j ∈ streams.ids)
    {k l : Nat} {d d' : Path} (h : place cfg streams i k d = place cfg streams j l d') : i = j ∧ k = l ∧ d = d' := by
  obtain ⟨hname, hrest⟩ := List.cons.inj h
  obtain ⟨hdir, hd⟩ := List.cons.inj hrest
  obtain rfl := streams.distinct i hi j hj hdir
  exact ⟨rfl, imageFilename_injective _ hname, hd⟩

/-! ## One image -/

/-- Where an image of a stream goes. -/
theorem writes_image (cfg : Config) (faults : Faults) (streamId : Int) (cameraId image : Bytes) {s : State}
    (hup : s.level2 ≠ .terminated)
    (hall : (imageStackerTask cfg faults streamId cameraId image s).2 = s.backupDirPath) (p : Path) :
    (∀ image', (FileStacker.step cfg s (.image faults streamId cameraId image')).fs.node p = some (.file image')) ↔
      ∃ d ∈ s.backupDirPath,
        p = imagePath (workingDirname cfg streamId) (imageFilename cameraId (s.streamCounter streamId + 1)) d := by
  simp only [FileStacker.step, if_pos hup]
  constructor
  · intro h
    by_contra hno
    have hother : ∀ path ∈ s.backupDirPath,
        p ≠ imagePath (workingDirname cfg streamId) (imageFilename cameraId (s.streamCounter streamId + 1)) path :=
      fun path hpath heq => hno ⟨path, hpath, heq⟩
    have hold : ∀ image', s.fs.node p = some (.file image') := by
      intro image'
      rcases saveInto_node faults image' s.fs hother with hsame | ⟨-, hdir⟩
      · exact hsame.symm.trans (h image')
      · have hfile := hdir.symm.trans (h image')
        cases hfile
    have hone := hold [0]
    rw [hold []] at hone
    cases hone
  · rintro ⟨d, hd, rfl⟩ image'
    have hsame : (imageStackerTask cfg faults streamId cameraId image' s).2 = s.backupDirPath := by
      rw [← hall]
      exact saveInto_shape image' image s.backupDirPath rfl
    rw [← hsame] at hd
    exact saveInto_stored hd

/-! ## The invariant -/

/-- Every image lies in a directory that the stacker made, where it was written
once, and in each of them the images of a stream are numbered without a gap, up to
the counter where the directory is active. -/
structure Numbered (cfg : Config) (streams : Streams cfg) (h : History) : Prop where
  active_nodup : h.stacker.backupDirPath.Nodup
  active_made : ∀ d ∈ h.stacker.backupDirPath, d ∈ h.made
  made_present : ∀ d ∈ h.made, h.stacker.fs.present d = true
  once : ∀ w ∈ h.written, ∃ l : List Path, l.Nodup ∧ l.length = w.saves ∧ ∀ p, w.places p ↔ p ∈ l
  apart : h.written.Pairwise fun w w' => ∀ p, w.places p → ¬ w'.places p
  stays : ∀ w ∈ h.written, ∀ p, w.places p → h.stacker.fs.node p = some (.file w.image)
  wrote_made : ∀ p, h.Wrote p → ∃ i ∈ streams.ids, ∃ k, ∃ d ∈ h.made, p = place cfg streams i k d
  numbers : ∀ i ∈ streams.ids, ∀ d, ∃ n, (d ∈ h.stacker.backupDirPath → n = h.stacker.streamCounter i) ∧
    ∀ k, h.Wrote (place cfg streams i k d) ↔ 1 ≤ k ∧ k ≤ n

theorem not_wrote_nil {h : History} (hnil : h.written = []) (p : Path) : ¬ h.Wrote p := by
  rintro ⟨w, hw, -⟩
  rw [hnil] at hw
  cases hw

theorem init_numbered (cfg : Config) (streams : Streams cfg) (fs : FileSystem) :
    Numbered cfg streams (init fs) where
  active_nodup := List.nodup_nil
  active_made := nofun
  made_present := nofun
  once := nofun
  apart := List.Pairwise.nil
  stays := nofun
  wrote_made p hp := absurd hp (not_wrote_nil rfl p)
  numbers i hi d := by
    refine ⟨0, nofun, fun k => iff_of_false (not_wrote_nil rfl _) ?_⟩
    rintro ⟨h1, h0⟩
    omega

theorem numbered_of_fresh {cfg : Config} {streams : Streams cfg} {h : History} (hi : Numbered cfg streams h)
    {s : State} (hfresh : FreshActive h.stacker.fs s) (hzero : s.backupDirPath = [] ∨ s.streamCounter = fun _ => 0) :
    Numbered cfg streams ⟨s, h.made ++ s.backupDirPath, h.written⟩ where
  active_nodup := hfresh.nodup
  active_made d hd := List.mem_append_right _ hd
  made_present d hd := by
    rcases List.mem_append.1 hd with hd | hd
    · exact present_of_keeps (hfresh.grows d) (hi.made_present d hd)
    · exact hfresh.present d hd
  once := hi.once
  apart := hi.apart
  stays w hw p hp := hfresh.grows p _ (hi.stays w hw p hp)
  wrote_made p hp := by
    obtain ⟨i, hid, k, d, hd, rfl⟩ := hi.wrote_made p hp
    exact ⟨i, hid, k, d, List.mem_append_left _ hd, rfl⟩
  numbers i hid d := by
    by_cases hd : d ∈ s.backupDirPath
    · -- nothing was ever written to a directory that did not exist
      have hnone : ∀ k, ¬ h.Wrote (place cfg streams i k d) := by
        intro k hk
        obtain ⟨j, hj, l, d', hd', heq⟩ := hi.wrote_made _ hk
        obtain ⟨-, -, rfl⟩ := place_inj hid hj heq
        have habs := hfresh.absent d hd
        rw [hi.made_present d hd'] at habs
        exact Bool.noConfusion habs
      have hcount : s.streamCounter = fun _ => 0 := by
        rcases hzero with hnil | hzero
        · rw [hnil] at hd
          cases hd
        · exact hzero
      refine ⟨0, fun _ => by simp only [hcount], fun k => ?_⟩
      constructor
      · exact fun hk => absurd hk (hnone k)
      · rintro ⟨h1, h0⟩
        omega
    · obtain ⟨n, -, hn⟩ := hi.numbers i hid d
      exact ⟨n, fun hmem => absurd hmem hd, hn⟩

/-- No directory is made, and the images stay. -/
theorem numbered_of_idle {cfg : Config} {streams : Streams cfg} {h : History} (hi : Numbered cfg streams h)
    {s : State} (hdirs : s.backupDirPath = h.stacker.backupDirPath)
    (hcount : s.streamCounter = h.stacker.streamCounter) (hpres : ∀ d ∈ h.made, s.fs.present d = true)
    (hstays : ∀ p, h.Wrote p → s.fs.node p = h.stacker.fs.node p) :
    Numbered cfg streams ⟨s, h.made ++ s.backupDirPath, h.written⟩ where
  active_nodup := by
    rw [hdirs]
    exact hi.active_nodup
  active_made d hd := List.mem_append_right _ hd
  made_present d hd := by
    rcases List.mem_append.1 hd with hd | hd
    · exact hpres d hd
    · rw [hdirs] at hd
      exact hpres d (hi.active_made d hd)
  once := hi.once
  apart := hi.apart
  stays w hw p hp := (hstays p ⟨w, hw, hp⟩).trans (hi.stays w hw p hp)
  wrote_made p hp := by
    obtain ⟨i, hid, k, d, hd, rfl⟩ := hi.wrote_made p hp
    exact ⟨i, hid, k, d, List.mem_append_left _ hd, rfl⟩
  numbers i hid d := by
    rw [hdirs, hcount]
    exact hi.numbers i hid d

theorem wrote_append {s : State} {made : List Path} {written : List Write} {w : Write} {p : Path} :
    History.Wrote ⟨s, made, written ++ [w]⟩ p ↔ (∃ v ∈ written, v.places p) ∨ w.places p := by
  simp only [History.Wrote, List.mem_append, List.mem_singleton, or_and_right, exists_or, exists_eq_left]

/-- An image that went nowhere. -/
theorem Numbered.nowhere {cfg : Config} {streams : Streams cfg} {s : State} {made : List Path} {written : List Write}
    (hi : Numbered cfg streams ⟨s, made, written⟩) {w : Write} (hsaves : w.saves = 0) (hno : ∀ p, ¬ w.places p) :
    Numbered cfg streams ⟨s, made, written ++ [w]⟩ where
  active_nodup := hi.active_nodup
  active_made := hi.active_made
  made_present := hi.made_present
  once v hv := by
    rcases List.mem_append.1 hv with hv | hv
    · exact hi.once v hv
    · obtain rfl := List.mem_singleton.1 hv
      exact ⟨[], List.nodup_nil, hsaves.symm, fun p => iff_of_false (hno p) List.not_mem_nil⟩
  apart := List.pairwise_append.2 ⟨hi.apart, List.pairwise_singleton _ _, fun v _ x hx p _ => by
    rw [List.mem_singleton.1 hx]
    exact hno p⟩
  stays v hv p hp := by
    rcases List.mem_append.1 hv with hv | hv
    · exact hi.stays v hv p hp
    · rw [List.mem_singleton.1 hv] at hp
      exact absurd hp (hno p)
  wrote_made p hp := hi.wrote_made p ((wrote_append.1 hp).resolve_right (hno p))
  numbers i hid d := by
    obtain ⟨n, hact, hn⟩ := hi.numbers i hid d
    refine ⟨n, hact, fun k => ?_⟩
    rw [wrote_append, or_iff_left (hno _)]
    exact hn k

/-! ## The next image of a stream -/

section
variable {cfg : Config} {streams : Streams cfg} {h : History} (hi : Numbered cfg streams h) {j : Int}
  (hj : j ∈ streams.ids) {w : Write}
  (hplaces : ∀ p, w.places p ↔
    ∃ d ∈ h.stacker.backupDirPath, p = place cfg streams j (h.stacker.streamCounter j + 1) d)
include hj hplaces

theorem places_place_iff {i : Int} (hid : i ∈ streams.ids) (k : Nat) (d : Path) :
    w.places (place cfg streams i k d) ↔
      i = j ∧ k = h.stacker.streamCounter j + 1 ∧ d ∈ h.stacker.backupDirPath := by
  rw [hplaces]
  constructor
  · rintro ⟨d', hd', heq⟩
    obtain ⟨rfl, rfl, rfl⟩ := place_inj hid hj heq
    exact ⟨rfl, rfl, hd'⟩
  · rintro ⟨rfl, rfl, hd⟩
    exact ⟨d, hd, rfl⟩

include hi

/-- The counter is beyond every image of an active directory. -/
theorem not_wrote_of_places {p : Path} (hp : w.places p) : ¬ h.Wrote p := by
  intro hold
  obtain ⟨d, hd, rfl⟩ := (hplaces p).1 hp
  obtain ⟨n, hact, hn⟩ := hi.numbers j hj d
  have hle := ((hn _).1 hold).2
  rw [hact hd] at hle
  omega

/-- The numbers in a directory go on by one if the image is in it. -/
theorem numbers_append {i : Int} (hid : i ∈ streams.ids) (d : Path) : ∃ n,
    (d ∈ h.stacker.backupDirPath →
      n = if i = j then h.stacker.streamCounter j + 1 else h.stacker.streamCounter i) ∧
    ∀ k, (h.Wrote (place cfg streams i k d) ∨ w.places (place cfg streams i k d)) ↔ 1 ≤ k ∧ k ≤ n := by
  obtain ⟨n, hact, hn⟩ := hi.numbers i hid d
  by_cases hd : i = j ∧ d ∈ h.stacker.backupDirPath
  · obtain ⟨rfl, hd⟩ := hd
    refine ⟨n + 1, fun _ => by rw [if_pos rfl, hact hd], fun k => ?_⟩
    rw [places_place_iff hj hplaces hid, hn k, ← hact hd]
    constructor
    · rintro (⟨h1, hk⟩ | ⟨-, rfl, -⟩)
      · omega
      · omega
    · rintro ⟨h1, hk⟩
      by_cases hlast : k = n + 1
      · exact .inr ⟨rfl, hlast, hd⟩
      · exact .inl ⟨h1, by omega⟩
  · refine ⟨n, fun hmem => ?_, fun k => ?_⟩
    · rw [if_neg fun heq => hd ⟨heq, hmem⟩]
      exact hact hmem
    · rw [places_place_iff hj hplaces hid, hn k]
      constructor
      · rintro (hk | ⟨rfl, -, hmem⟩)
        · exact hk
        · exact absurd ⟨rfl, hmem⟩ hd
      · exact .inl

/-- The next image of a stream goes into every active directory. -/
theorem numbered_of_image {s : State} (hdirs : s.backupDirPath = h.stacker.backupDirPath)
    (hcount : s.streamCounter = fun i => if i = j then h.stacker.streamCounter j + 1 else h.stacker.streamCounter i)
    (hpres : ∀ d ∈ h.made, s.fs.present d = true) (hsaves : w.saves = h.stacker.backupDirPath.length)
    (hnew : ∀ p, w.places p → s.fs.node p = some (.file w.image))
    (hstays : ∀ p, h.Wrote p → ¬ w.places p → s.fs.node p = h.stacker.fs.node p) :
    Numbered cfg streams ⟨s, h.made ++ s.backupDirPath, h.written ++ [w]⟩ where
  active_nodup := by
    rw [hdirs]
    exact hi.active_nodup
  active_made d hd := List.mem_append_right _ hd
  made_present d hd := by
    rcases List.mem_append.1 hd with hd | hd
    · exact hpres d hd
    · rw [hdirs] at hd
      exact hpres d (hi.active_made d hd)
  once v hv := by
    rcases List.mem_append.1 hv with hv | hv
    · exact hi.once v hv
    · obtain rfl := List.mem_singleton.1 hv
      refine ⟨h.stacker.backupDirPath.map (place cfg streams j (h.stacker.streamCounter j + 1)), ?_, ?_, fun p => ?_⟩
      · exact hi.active_nodup.map fun d d' heq => (place_inj hj hj heq).2.2
      · rw [List.length_map, hsaves]
      · rw [hplaces, List.mem_map]
        simp only [eq_comm]
  apart := by
    refine List.pairwise_append.2 ⟨hi.apart, List.pairwise_singleton _ _, fun v hv x hx p hp hx' => ?_⟩
    rw [List.mem_singleton.1 hx] at hx'
    exact not_wrote_of_places hi hj hplaces hx' ⟨v, hv, hp⟩
  stays v hv p hp := by
    rcases List.mem_append.1 hv with hv | hv
    · have hold : h.Wrote p := ⟨v, hv, hp⟩
      exact (hstays p hold fun hw => not_wrote_of_places hi hj hplaces hw hold).trans (hi.stays v hv p hp)
    · rw [List.mem_singleton.1 hv] at hp ⊢
      exact hnew p hp
  wrote_made p hp := by
    rcases wrote_append.1 hp with hold | hw
    · obtain ⟨i, hid, k, d, hd, rfl⟩ := hi.wrote_made p hold
      exact ⟨i, hid, k, d, List.mem_append_left _ hd, rfl⟩
    · obtain ⟨d, hd, rfl⟩ := (hplaces p).1 hw
      exact ⟨j, hj, _, d, List.mem_append_left _ (hi.active_made d hd), rfl⟩
  numbers i hid d := by
    obtain ⟨n, hact, hn⟩ := numbers_append hi hj hplaces hid d
    refine ⟨n, fun hmem => ?_, fun k => wrote_append.trans (hn k)⟩
    rw [hdirs] at hmem
    rw [hcount]
    exact hact hmem

end

/-- An image on a stream changes nothing beside its places. -/
theorem step_image_keeps {cfg : Config} {s : State} {faults : Faults} {streamId : Int} {cameraId : Bytes}
    (hup : s.level2 ≠ .terminated) (image : Bytes) {p : Path} {n : Node}
    (hother : ∀ path ∈ s.backupDirPath,
      p ≠ imagePath (workingDirname cfg streamId) (imageFilename cameraId (s.streamCounter streamId + 1)) path)
    (hn : s.fs.node p = some n) :
    (FileStacker.step cfg s (.image faults streamId cameraId image)).fs.node p = some n := by
  rw [FileStacker.step, if_pos hup]
  rcases saveInto_node faults image s.fs hother with hsame | ⟨hnone, -⟩
  · exact hsame.trans hn
  · rw [hn] at hnone
    cases hnone

theorem step_numbered (cfg : Config) (streams : Streams cfg) (h : History) (e : Event) (hi : Numbered cfg streams h)
    (he : Regular cfg streams h e) : Numbered cfg streams (step cfg h e) := by
  cases e with
  | lv2Dispatch faults payload =>
    simp only [step, writes, List.append_nil, FileStacker.step]
    split
    · obtain ⟨hfresh, hzero⟩ := level2DispatchTask_fresh cfg faults payload h.stacker
      exact numbered_of_fresh hi hfresh hzero
    · exact numbered_of_idle hi rfl rfl hi.made_present fun _ _ => rfl
  | image faults streamId cameraId image =>
    obtain ⟨hid, rfl, hall⟩ := he
    by_cases hup : h.stacker.level2 ≠ .terminated
    · have hplaces := writes_image cfg faults streamId (streams.camera streamId) image hup hall
      have hstep : FileStacker.step cfg h.stacker (.image faults streamId (streams.camera streamId) image) =
          (imageStackerTask cfg faults streamId (streams.camera streamId) image h.stacker).1 := if_pos hup
      simp only [step, writes, if_pos hup, hall]
      have hplace : ∀ p, (∀ image',
          (FileStacker.step cfg h.stacker (.image faults streamId (streams.camera streamId) image')).fs.node p =
            some (.file image')) ↔
          ∃ d ∈ h.stacker.backupDirPath, p = place cfg streams streamId (h.stacker.streamCounter streamId + 1) d :=
        fun p => (hplaces p).trans
          (exists_congr fun d => and_congr_right fun _ => by rw [imagePath_eq_place streams hid])
      refine numbered_of_image hi hid hplace (by rw [hstep]; rfl) (by rw [hstep]; rfl) ?_ rfl ?_ ?_
      · intro d hd
        rw [hstep]
        exact saveInto_inv (fun fs => fs.present d = true)
          (fun _ p hp => present_of_keeps (fun _ hn => FileSystem.createDirectories_keeps hn p) hp)
          (fun _ path hopen hp => by
            rw [FileSystem.present, FileSystem.node_writeFile hopen]
            split
            · rfl
            · exact hp) _ (hi.made_present d hd)
      · exact fun p hp => hp image
      · rintro p ⟨w, hw, hp⟩ hno
        have hn := hi.stays w hw p hp
        rw [hn]
        exact step_image_keeps hup image (fun path hpath heq => hno ((hplaces p).2 ⟨path, hpath, heq⟩)) hn
    · have hstep : ∀ image', FileStacker.step cfg h.stacker (.image faults streamId (streams.camera streamId) image') =
          h.stacker := fun _ => if_neg hup
      simp only [step, writes, if_neg hup, hstep]
      refine (numbered_of_idle hi rfl rfl hi.made_present fun _ _ => rfl).nowhere rfl fun p hp => ?_
      have hone := hp [0]
      rw [hp []] at hone
      cases hone
  | disk fs =>
    simp only [step, writes, List.append_nil, FileStacker.step]
    refine numbered_of_idle hi rfl rfl (fun d hd => ?_) fun p hp => ?_
    · rw [FileSystem.present, he d hd d (List.suffix_refl d)]
      exact hi.made_present d hd
    · obtain ⟨i, -, k, d, hd, rfl⟩ := hi.wrote_made p hp
      exact he d hd _ ((List.suffix_cons _ _).trans (List.suffix_cons _ _))

/-! ## The numbering -/

/-- An image is written to as many places as it is saved, and none of them is
written again: the files of the run stay as they were written. In every folder
these are the images 1 to n of a camera, that of the stream which has the folder. -/
structure Numbering (cfg : Config) (streams : Streams cfg) (h : History) : Prop where
  once : ∀ w ∈ h.written, ∃ l : List Path, l.Nodup ∧ l.length = w.saves ∧ ∀ p, w.places p ↔ p ∈ l
  apart : h.written.Pairwise fun w w' => ∀ p, w.places p → ¬ w'.places p
  stays : ∀ w ∈ h.written, ∀ p, w.places p → h.stacker.fs.node p = some (.file w.image)
  folders : ∀ folder : Path, ∃ cameraId n,
    (∀ i ∈ streams.ids, ∀ d, folder = workingDirname cfg i :: d → cameraId = streams.camera i) ∧
      ∀ name, h.Wrote (name :: folder) ↔ ∃ k, 1 ≤ k ∧ k ≤ n ∧ name = imageFilename cameraId k

/-- In every run, no image is written over one of the run, and the files written
into a folder are the images 1 to n of one camera. -/
theorem image_numbering (cfg : Config) (streams : Streams cfg) (fs : FileSystem) (evs : List Event)
    (h : StepsMeet (step cfg) (Regular cfg streams) (init fs) evs) :
    Numbering cfg streams (runs (step cfg) (init fs) evs) := by
  have hnum := runs_inv (Numbered cfg streams) (step_numbered cfg streams) (init_numbered cfg streams fs) h
  refine ⟨hnum.once, hnum.apart, hnum.stays, fun folder => ?_⟩
  by_cases hcam : ∃ i ∈ streams.ids, ∃ d, folder = workingDirname cfg i :: d
  · obtain ⟨i, hi, d, rfl⟩ := hcam
    obtain ⟨n, -, hn⟩ := hnum.numbers i hi d
    refine ⟨streams.camera i, n, fun j hj d' heq => ?_, fun name => ?_⟩
    · rw [streams.distinct i hi j hj (List.cons.inj heq).1]
    constructor
    · intro hwrote
      obtain ⟨j, hj, k, d', -, heq⟩ := hnum.wrote_made _ hwrote
      obtain ⟨hname, hrest⟩ := List.cons.inj heq
      obtain ⟨hdir, -⟩ := List.cons.inj hrest
      obtain rfl := streams.distinct i hi j hj hdir
      subst hname
      obtain ⟨h1, hk⟩ := (hn k).1 hwrote
      exact ⟨k, h1, hk, rfl⟩
    · rintro ⟨k, h1, hk, rfl⟩
      exact (hn k).2 ⟨h1, hk⟩
  · refine ⟨[], 0, fun i hi d heq => absurd ⟨i, hi, d, heq⟩ hcam, fun name => ?_⟩
    constructor
    · intro hwrote
      obtain ⟨j, hj, k, d', -, heq⟩ := hnum.wrote_made _ hwrote
      exact absurd ⟨j, hj, d', (List.cons.inj heq).2⟩ hcam
    · rintro ⟨k, h1, h0, -⟩
      omega

/-- One stream, with the camera of its number. -/
def oneStream : Streams oneTarget where
  ids := [1]
  camera _ := ascii "1"
  isName := by
    intro i hi
    obtain rfl := List.mem_singleton.1 hi
    exact ⟨by decide +kernel, by decide +kernel, by decide +kernel, by decide +kernel⟩
  distinct := by
    intro i hi j hj _
    rw [List.mem_singleton.1 hi, List.mem_singleton.1 hj]
  camera_plain := by
    rintro i -
    decide

/-- The instruction comes again between two images. -/
def repeatedInstruction : List Event :=
  [.lv2Dispatch noFaults (some firstBar), .image noFaults 1 (ascii "1") [0xff], .lv2Dispatch noFaults (some firstBar),
    .image noFaults 1 (ascii "1") [0xfe]]

theorem image_numbering_repeated :
    Numbering oneTarget oneStream (runs (step oneTarget) (init .empty) repeatedInstruction) ∧
      (runs (step oneTarget) (init .empty) repeatedInstruction).stacker.fs.node
        [ascii "1_1.jpg", ascii "tmp_1", firstNames.2, firstNames.1, ascii "nas"] = some (.file [0xff]) := by
  refine ⟨image_numbering oneTarget oneStream .empty repeatedInstruction ?_, by decide +kernel⟩
  exact ⟨trivial, ⟨by decide, rfl, by decide +kernel⟩, trivial, ⟨by decide, rfl, by decide +kernel⟩, trivial⟩

end FlameSdd.ImageNumbering
