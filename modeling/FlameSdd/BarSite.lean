import FlameSdd.BarDirectory
import FlameSdd.BarImages
import FlameSdd.Standards
/-!
# Where a bar is kept

The stacker has a target for each of the two directories that the monitor is told.
For a bar that Level2 announces, both programs then have the same two directories:
`Bar.announced` and `Bar.job_dirs`.
-/
open SysLib SysLib.PackedStruct FlameSdd.Protocol FlameSdd.MtStand FlameSdd.Level2Interface FlameSdd.ModelInference
  FlameSdd.BarImages

namespace FlameSdd.BarSite

/-! ## The two programs -/

/-- A target that is in use. -/
def Targets (cfg : FileStacker.Config) (path : Bytes) : Prop :=
  ∃ target ∈ cfg.targetPath, target.valueString "path" (ascii "/tmp") = .ok path ∧
    target.valueBool "use" false = .ok true

/-- The stacker has a target for each of the directories that the monitor is told,
and none of its targets lies in another one. -/
structure Site where
  stacker : FileStacker.Config
  monitor : ModelInference.Config
  folders : HasFolders stacker
  inPath : Bytes
  outPath : Bytes
  inTarget : Targets stacker inPath
  outTarget : Targets stacker outPath
  inRoot : monitor.imagesRootPath = stacker.cwd.join inPath
  outRoot : monitor.outRootPath = stacker.cwd.join outPath
  apart : ∀ path path', Targets stacker path → Targets stacker path' →
    stacker.cwd.join path <:+ stacker.cwd.join path' → stacker.cwd.join path' = stacker.cwd.join path

/-- An instruction that is accepted, with digits for its date and a standard that
is not blank. -/
structure Bar where
  packet : Bytes
  accepted : (instructionPack packet).isOk = true
  date : text lv2MfInstruction packet "cDate" ≠ [] ∧ ∀ c ∈ text lv2MfInstruction packet "cDate", isdigit c = true
  stand : squeeze (field lv2MfInstruction "cMtStand" packet) ≠ []

namespace Bar

variable (b : Bar)

def lv2Date : Bytes := text lv2MfInstruction b.packet "cDate"

def mtStandNorm : Bytes := mtstandNormalize (field lv2MfInstruction "cMtStand" b.packet)

/-- What is published. -/
def pack : Json :=
  match instructionPack b.packet with
  | .ok pack => pack
  | .error _ => .null

theorem pack_eq : instructionPack b.packet = .ok b.pack := by
  have hok := b.accepted
  unfold pack
  cases hpack : instructionPack b.packet with
  | ok pack => rfl
  | error e =>
    rw [hpack] at hok
    cases hok

/-- The names of the two levels of directories for the bar. -/
def names : Bytes × Bytes := (b.lv2Date.take 8, b.lv2Date ++ ascii "_" ++ b.mtStandNorm)

theorem mtStandNorm_eq : b.mtStandNorm = normalForm (squeeze (field lv2MfInstruction "cMtStand" b.packet)) :=
  mtstandNormalize_eq b.stand

theorem mtStandNorm_ne_nil : b.mtStandNorm ≠ [] := by
  have hraw : field lv2MfInstruction "cMtStand" b.packet ≠ [] := by
    intro hnil
    exact b.stand (by rw [hnil]; rfl)
  rw [mtStandNorm, Ne, mtstandNormalize_eq_nil_iff hraw, ← squeeze_eq_nil_iff]
  exact b.stand

theorem targetDirname_pack : FileStacker.targetDirname b.pack = .ok b.names := by
  obtain ⟨width, height, heq⟩ := BarDirectory.targetDirname_instruction b.pack_eq
  have hne : b.mtStandNorm.isEmpty = false := by simpa using b.mtStandNorm_ne_nil
  rw [heq, BarDirectory.stackerStand, if_neg (by rw [← mtStandNorm, hne]; exact Bool.false_ne_true)]
  rfl

theorem hasRequired_pack : FileStacker.hasRequired b.pack = true := by
  obtain ⟨_, _, _, _, _, _, -, -, hpack⟩ := instructionPack_eq b.pack_eq
  rw [hpack]
  rfl

theorem isName_day : Path.IsName b.names.1 := by
  obtain ⟨hne, hdigits⟩ := b.date
  obtain ⟨c, rest, hdate⟩ := List.exists_cons_of_ne_nil hne
  have hc : isdigit c = true := hdigits c (by rw [hdate]; exact List.mem_cons_self)
  refine Path.isName_of_mem (c := c) ?_ (by rintro rfl; exact absurd hc (by decide)) fun h => ?_
  · rw [names, lv2Date, hdate]
    exact List.mem_cons_self
  · exact absurd (hdigits _ (List.mem_of_mem_take h)) (by decide)

theorem isName_target : Path.IsName b.names.2 := by
  refine Path.isName_of_mem (c := 0x5f) ?_ (by decide) ?_
  · exact List.mem_append_left _ (List.mem_append_right _ (by decide))
  · rw [names, List.mem_append, List.mem_append, b.mtStandNorm_eq]
    rintro ((h | h) | h)
    · exact absurd (b.date.2 _ h) (by decide)
    · exact absurd h (by decide)
    · exact slash_not_mem_normalForm _ h

/-- The directory for the bar in one that the stacker or the monitor knows. -/
def dir (root : Path) : Path := b.names.2 :: b.names.1 :: root

theorem join_names (root : Path) : (root.join b.names.1).join b.names.2 = b.dir root := by
  rw [Path.join_name root b.isName_day, Path.join_name _ b.isName_target, dir]

/-- The monitor has the same names. -/
theorem targetDir_eq {info : JobInfo} (hinfo : Window.jobLv2Info b.pack = .ok info) (root : Path) :
    targetDir root info = b.dir root := by
  obtain ⟨info', hinfo', hdate, hnorm⟩ := BarDirectory.jobLv2Info_instruction b.pack_eq
  rw [hinfo'] at hinfo
  cases hinfo
  have hascii : ∀ c ∈ b.lv2Date, c < 0x80 := fun c hc => by
    have hdigit := b.date.2 c hc
    unfold isdigit at hdigit
    grind
  rw [targetDir, targetName, hdate, hnorm, ← lv2Date, Utf8.takeChars_ascii 8 hascii]
  exact b.join_names root

theorem destination_iff {cfg : FileStacker.Config} {target : Json} {dest : Path} :
    FileStacker.destination cfg b.names target = .ok (dest, true) ↔
      ∃ path, target.valueString "path" (ascii "/tmp") = .ok path ∧ target.valueBool "use" false = .ok true ∧
        dest = b.dir (cfg.cwd.join path) := by
  unfold FileStacker.destination
  cases hpath : target.valueString "path" (ascii "/tmp") with
  | error e => simp [bind, Except.bind]
  | ok path =>
    cases huse : target.valueBool "use" false with
    | error e => simp [bind, Except.bind]
    | ok use =>
      have hdir := b.join_names (cfg.cwd.join path)
      simp only [bind, Except.bind, pure, Except.pure, hdir, Except.ok.injEq, Prod.mk.injEq, exists_eq_left']
      constructor
      · rintro ⟨rfl, rfl⟩
        exact ⟨rfl, rfl⟩
      · rintro ⟨rfl, rfl⟩
        exact ⟨rfl, rfl⟩

/-- The directories of a bar lie in one another only as the targets do. -/
theorem dir_suffix {root root' : Path} (h : root <:+ root' → root' = root) (hsuf : b.dir root <:+ b.dir root') :
    b.dir root' = b.dir root := by
  have hlen := hsuf.length_le
  simp only [dir, List.length_cons] at hlen
  have hroot : root <:+ b.dir root' :=
    ((List.suffix_cons _ _).trans (List.suffix_cons _ _)).trans hsuf
  have hroot' : root' <:+ b.dir root' := (List.suffix_cons _ _).trans (List.suffix_cons _ _)
  rw [h (List.suffix_of_suffix_length_le hroot hroot' (by omega))]

theorem announced (site : Site) {path : Bytes} (hpath : Targets site.stacker path) {s : FileStacker.State}
    (hrunning : s.level2 = .running) (habsent : s.fs.present (b.dir (site.stacker.cwd.join path)) = false) :
    Announced site.stacker b.names s (b.dir (site.stacker.cwd.join path)) where
  running := hrunning
  target := by
    obtain ⟨target, htarget, hvalue, huse⟩ := hpath
    exact ⟨target, htarget, b.destination_iff.2 ⟨path, hvalue, huse, rfl⟩⟩
  absent := habsent
  below target htarget dest hdest hsuf := by
    obtain ⟨path', hvalue, huse, rfl⟩ := b.destination_iff.1 hdest
    exact b.dir_suffix (site.apart path path' hpath ⟨target, htarget, hvalue, huse⟩) hsuf
  file dest heq := by
    -- the name of the directory has an underscore
    have hmem : (0x5f : UInt8) ∈ FileStacker.level2File := by
      rw [← (List.cons.inj heq).1]
      exact List.mem_append_left _ (List.mem_append_right _ (by decide))
    exact absurd hmem (by decide)

/-- A job for the bar reads one of its directories and reports in the other. -/
theorem job_dirs {site : Site} {info : JobInfo} {value : LineSignal.Signals} {job : Job}
    (hinfo : Window.jobLv2Info b.pack = .ok info) (hjob : run site.monitor value (some info) = some job) :
    job.sddInPath = b.dir (site.stacker.cwd.join site.inPath) ∧
      job.sddOutPath = b.dir (site.stacker.cwd.join site.outPath) := by
  unfold run at hjob
  split at hjob
  · obtain rfl := Option.some.inj hjob
    exact ⟨(b.targetDir_eq hinfo _).trans (by rw [site.inRoot]), (b.targetDir_eq hinfo _).trans (by rw [site.outRoot])⟩
  · cases hjob

end Bar

/-! ## The site as it is configured -/

def nasStorage : Bytes := ascii "/home/dk-sdd/nas_storage"

def localStorage : Bytes := ascii "/home/dk-sdd/local_storage"

/-- The profile of the stacker. -/
def profile : FileStacker.Config where
  cwd := []
  targetPath :=
    [.obj [("use", .bool true), ("path", .str nasStorage), ("image_only", .bool false)],
      .obj [("use", .bool true), ("path", .str localStorage), ("image_only", .bool true)]]
  dirname streamId := if 1 ≤ streamId ∧ streamId ≤ 10 then some (ascii "camera_" ++ decimalInt streamId) else none

theorem targets_profile {path : Bytes} (h : Targets profile path) : path = nasStorage ∨ path = localStorage := by
  obtain ⟨target, htarget, hvalue, -⟩ := h
  simp only [profile, List.mem_cons, List.not_mem_nil, or_false] at htarget
  rcases htarget with rfl | rfl
  · exact .inl (Except.ok.inj hvalue).symm
  · exact .inr (Except.ok.inj hvalue).symm

/-- With `sdd_in_root` and `sdd_out_root` of the monitor. -/
def home : Site where
  stacker := profile
  monitor := ⟨Path.join [] localStorage, Path.join [] nasStorage, false⟩
  folders := by
    have hall : ∀ cam ∈ cameras, profile.dirname cam = some (cameraDir cam) := by decide
    exact hall
  inPath := localStorage
  outPath := nasStorage
  inTarget := ⟨_, List.mem_cons_of_mem _ List.mem_cons_self, rfl, rfl⟩
  outTarget := ⟨_, List.mem_cons_self, rfl, rfl⟩
  inRoot := rfl
  outRoot := rfl
  apart path path' hpath hpath' := by
    rcases targets_profile hpath with rfl | rfl <;> rcases targets_profile hpath' with rfl | rfl <;> decide

/-- An instruction for a bar of standard H 200 x 100. -/
def h200 : Bar where
  packet := BarDirectory.standInstruction (ascii "H 200 x 100                   ")
  accepted := by decide +kernel
  date := by decide +kernel
  stand := by decide +kernel

end FlameSdd.BarSite
