import FlameSdd.SysLib.Disk
import FlameSdd.SysLib.JsonText
import FlameSdd.Window
/-!
# Label updates

A label message names up to fifteen images, each with its label. The window
looks for every image with a pattern, since its present label is not known, and
renames it. An image that is named more than once ends up with its last label,
and the names of other images do not matter to it: `on_update_label_relabels`.
-/
open SysLib SysLib.FileSystem SysLib.JsonText FlameSdd.Window

namespace FlameSdd.LabelUpdate

/-! ## The code -/

/-- `labeled_name` of a key and its parts, unless the loop goes on to the next
key: it is empty or missing, or cannot be split. -/
def labeledName? : Option Value → Option LabeledName
  | some (.str s) => if s = [] then none else (parseLabeledFilename s).toOption
  | _ => none

/-- The names of a message, by their keys. -/
def labeledNames (data : List (Bytes × Value)) : List LabeledName :=
  (List.range' 1 15).filterMap fun id => labeledName? (data.lookup (ascii "mea_image" ++ decimal id))

/-- The directory part of `src_pattern` and `dst`. -/
def imageDirname (n : LabeledName) : Bytes :=
  ascii "/home/dk-sdd/nas_storage/" ++ Utf8.takeChars 8 n.timestamp ++ ascii "/" ++ n.timestamp ++ ascii "_" ++
    n.mtStandNorm ++ ascii "/camera_" ++ n.cameraId

/-- The name of the image up to its label. -/
def imageFront (n : LabeledName) : Bytes := n.cameraId ++ ascii "_" ++ n.imageIdx ++ ascii "_"

def imageName (n : LabeledName) (label : Bytes) : Bytes := imageFront n ++ label ++ ascii ".jpg"

def imageDir (n : LabeledName) : Path := Path.join [] (imageDirname n)

/-- `sorted(glob.glob(src_pattern))`, for parts without a pattern of their own. -/
def sources (d : Disk) (n : LabeledName) : List Bytes :=
  (d.globStar (imageDir n) (imageFront n) (ascii ".jpg")).insertionSort (· ≤ ·)

/-- One name in the loop. `glob` raises an exception at a NUL in the directory,
which leaves the loop; the one of a move that fails does not. -/
def updateLabel (d : Disk) (n : LabeledName) : Option Disk :=
  if 0 ∈ imageDirname n then none
  else
    match sources d n with
    | [] => some d
    | src :: _ =>
      if 0 ∈ imageName n n.defectLabel then some d
      else
        let dst := Path.join [] (imageDirname n ++ ascii "/" ++ imageName n n.defectLabel)
        some ((d.move (src :: imageDir n) dst).getD d)

def updateLabels (d : Disk) : List LabeledName → Disk
  | [] => d
  | n :: names =>
    match updateLabel d n with
    | some d' => updateLabels d' names
    | none => d

def onUpdateLabel (d : Disk) (data : List (Bytes × Value)) : Disk := updateLabels d (labeledNames data)

/-! ## Images and their labels -/

/-- The place of the image of a name, when it has a label. -/
def image (n : LabeledName) (label : Bytes) : Path := imageName n label :: imageDir n

/-- Two names of one image: date, standard, camera and frame are the same. -/
def SameImage (m n : LabeledName) : Prop :=
  m.timestamp = n.timestamp ∧ m.mtStandNorm = n.mtStandNorm ∧ m.cameraId = n.cameraId ∧ m.imageIdx = n.imageIdx

/-- The parts of a name that the paths have. -/
def components (n : LabeledName) : List Bytes := [n.timestamp, n.mtStandNorm, n.cameraId, n.imageIdx, n.defectLabel]

/-- No part has one of the bytes. -/
def Without (bytes : Bytes) (n : LabeledName) : Prop := ∀ s ∈ components n, ∀ c ∈ bytes, c ∉ s

instance (bytes : Bytes) (n : LabeledName) : Decidable (Without bytes n) :=
  @List.decidableBAll _ _ (fun _ => List.decidableBAll _ _) _

/-- What the parts of a name must not have: what `glob` reads as a pattern, a
slash, and a NUL. -/
def special : Bytes := ascii "*?[/" ++ [0]

/-- The image has one file at most, with one label. -/
structure OneFile (fs : FileSystem) (n : LabeledName) : Prop where
  unique : ∀ s t, fs.present (image n s) = true → fs.present (image n t) = true → s = t
  file : ∀ s, fs.present (image n s) = true → fs.isFile (image n s) = true

theorem Without.not_mem {bytes : Bytes} {n : LabeledName} {c : UInt8} (h : Without bytes n) (hc : c ∈ bytes) :
    c ∉ n.timestamp ∧ c ∉ n.mtStandNorm ∧ c ∉ n.cameraId ∧ c ∉ n.imageIdx ∧ c ∉ n.defectLabel := by
  have hpart : ∀ s ∈ components n, c ∉ s := fun s hs => h s hs c hc
  simpa [components] using hpart

theorem labeledName?_separator {v : Option Value} {n : LabeledName} (h : labeledName? v = some n) :
    Without (ascii "_") n := by
  unfold labeledName? at h
  split at h
  · split at h
    · cases h
    · rename_i s _
      have hsep : ∀ c ∈ ascii "_", c = 0x5f := by decide +kernel
      cases hparse : parseLabeledFilename s with
      | error e => simp [hparse, Except.toOption] at h
      | ok n' =>
        simp only [hparse, Except.toOption, Option.some.injEq] at h
        subst h
        unfold parseLabeledFilename at hparse
        split at hparse
        · rename_i hparts
          obtain rfl := Except.ok.inj hparse
          intro t ht c hc
          obtain rfl := hsep c hc
          refine not_mem_of_mem_splitOn (s := removeExtension s) ?_
          rw [hparts]
          simp only [components, List.mem_cons, List.not_mem_nil, or_false] at ht
          rcases ht with rfl | rfl | rfl | rfl | rfl <;> simp
        · cases hparse
  · cases h

/-- The parts have neither a separator nor anything special. -/
structure Plain (n : LabeledName) : Prop where
  separator : Without (ascii "_") n
  special : Without special n

namespace Plain

variable {m n : LabeledName}

theorem no_separator (h : Plain n) : 0x5f ∉ n.timestamp ∧ 0x5f ∉ n.mtStandNorm ∧ 0x5f ∉ n.cameraId ∧ 0x5f ∉ n.imageIdx ∧
    0x5f ∉ n.defectLabel :=
  h.separator.not_mem (by decide +kernel)

theorem no_slash (h : Plain n) : 0x2f ∉ n.timestamp ∧ 0x2f ∉ n.mtStandNorm ∧ 0x2f ∉ n.cameraId ∧ 0x2f ∉ n.imageIdx ∧
    0x2f ∉ n.defectLabel :=
  h.special.not_mem (by decide +kernel)

theorem no_nul (h : Plain n) :
    0 ∉ n.timestamp ∧ 0 ∉ n.mtStandNorm ∧ 0 ∉ n.cameraId ∧ 0 ∉ n.imageIdx ∧ 0 ∉ n.defectLabel :=
  h.special.not_mem (by decide +kernel)

/-- The last two directories above an image. -/
theorem imageDir_eq (h : Plain n) :
    imageDir n = (ascii "camera_" ++ n.cameraId) :: (n.timestamp ++ 0x5f :: n.mtStandNorm) ::
    (Path.join [] (ascii "/home/dk-sdd/nas_storage")).descend (Utf8.takeChars 8 n.timestamp) := by
  have htext : imageDirname n = ascii "/home/dk-sdd/nas_storage" ++ 0x2f :: (Utf8.takeChars 8 n.timestamp ++ 0x2f ::
      ((n.timestamp ++ 0x5f :: n.mtStandNorm) ++ 0x2f :: (ascii "camera_" ++ n.cameraId))) := by
    have hroot : ascii "/home/dk-sdd/nas_storage/" = ascii "/home/dk-sdd/nas_storage" ++ [0x2f] := rfl
    have hslash : ascii "/" = [0x2f] := rfl
    have hsep : ascii "_" = [0x5f] := rfl
    have hfolder : ascii "/camera_" = 0x2f :: ascii "camera_" := rfl
    simp [imageDirname, hroot, hslash, hsep, hfolder]
  have hbar : Path.IsName (n.timestamp ++ 0x5f :: n.mtStandNorm) :=
    Path.isName_of_mem (c := 0x5f) (by simp) (by decide) (by simp [h.no_slash])
  have hfolder : Path.IsName (ascii "camera_" ++ n.cameraId) := by
    have hcamera : (0x2f : UInt8) ∉ ascii "camera_" := by decide +kernel
    exact Path.isName_of_mem (c := 0x5f) (List.mem_append_left _ (by decide +kernel)) (by decide)
      (by simp [hcamera, h.no_slash])
  rw [imageDir, Path.join_nil, htext, Path.descend_append, Path.descend_append, Path.descend_append,
    Path.descend_name _ hfolder, Path.descend_name _ hbar, Path.join_nil]

theorem imageName_eq (n : LabeledName) (label : Bytes) :
    imageName n label = n.cameraId ++ 0x5f :: (n.imageIdx ++ 0x5f :: (label ++ ascii ".jpg")) := by
  have hsep : ascii "_" = [0x5f] := rfl
  simp [imageName, imageFront, hsep]

/-- Images of one place have the same parts. -/
theorem image_inj (hm : Plain m) (hn : Plain n) {s t : Bytes} (h : image m s = image n t) : SameImage m n ∧ s = t := by
  obtain ⟨hmtimestamp, -, hmcamera, hmidx, -⟩ := hm.no_separator
  obtain ⟨hntimestamp, -, hncamera, hnidx, -⟩ := hn.no_separator
  rw [image, image, hm.imageDir_eq, hn.imageDir_eq, imageName_eq, imageName_eq] at h
  obtain ⟨hname, hdir⟩ := List.cons.inj h
  obtain ⟨hbar, -⟩ := List.cons.inj (List.cons.inj hdir).2
  obtain ⟨hcamera, hname⟩ := append_cons_inj hmcamera hncamera hname
  obtain ⟨hidx, hname⟩ := append_cons_inj hmidx hnidx hname
  obtain ⟨htimestamp, hnorm⟩ := append_cons_inj hmtimestamp hntimestamp hbar
  exact ⟨⟨htimestamp, hnorm, hcamera, hidx⟩, List.append_cancel_right hname⟩

/-- No NUL, so neither `glob` nor the move raises an exception. -/
theorem nul_not_mem (h : Plain n) : (0 : UInt8) ∉ imageDirname n ∧ (0 : UInt8) ∉ imageName n n.defectLabel := by
  have hroot : (0 : UInt8) ∉ ascii "/home/dk-sdd/nas_storage/" := by decide +kernel
  have hslash : (0 : UInt8) ∉ ascii "/" := by decide +kernel
  have hsep : (0 : UInt8) ∉ ascii "_" := by decide +kernel
  have hfolder : (0 : UInt8) ∉ ascii "/camera_" := by decide +kernel
  have hext : (0 : UInt8) ∉ ascii ".jpg" := by decide +kernel
  have hdate : (0 : UInt8) ∉ Utf8.takeChars 8 n.timestamp := fun hmem => h.no_nul.1 (Utf8.mem_of_mem_takeChars hmem)
  constructor
  · simp [imageDirname, hroot, hslash, hsep, hfolder, hdate, h.no_nul]
  · simp [imageName, imageFront, hsep, hext, h.no_nul]

/-- The move goes to the place of the image with its new label. -/
theorem dst_eq (h : Plain n) :
    Path.join [] (imageDirname n ++ ascii "/" ++ imageName n n.defectLabel) = image n n.defectLabel := by
  have hslash : ascii "/" = [0x2f] := rfl
  have hext : (0x2f : UInt8) ∉ ascii ".jpg" := by decide +kernel
  have hname : Path.IsName (imageName n n.defectLabel) := by
    rw [imageName_eq]
    exact Path.isName_of_mem (c := 0x5f) (by simp) (by decide) (by simp [h.no_slash, hext])
  rw [hslash, List.append_assoc, List.singleton_append, Path.join_nil, Path.descend_append, Path.descend_name _ hname,
    image, imageDir, Path.join_nil]

end Plain

theorem image_congr {m n : LabeledName} (h : SameImage m n) (label : Bytes) : image m label = image n label := by
  obtain ⟨htimestamp, hnorm, hcamera, hidx⟩ := h
  simp [image, imageName, imageFront, imageDir, imageDirname, htimestamp, hnorm, hcamera, hidx]

/-! ## Where the images go -/

/-- The place is one of the image, with whatever label. -/
def isImage (n : LabeledName) : Path → Bool
  | [] => false
  | name :: dir => dir == imageDir n && Disk.matchesStar (imageFront n) (ascii ".jpg") name

theorem isImage_iff {n : LabeledName} {p : Path} : isImage n p = true ↔ ∃ s, p = image n s := by
  cases p with
  | nil => simp [isImage, image]
  | cons name dir =>
    rw [isImage, Bool.and_eq_true, beq_iff_eq, Disk.matchesStar_iff]
    constructor
    · rintro ⟨rfl, s, rfl⟩
      exact ⟨s, by rw [image, imageName, List.append_assoc]⟩
    · rintro ⟨s, heq⟩
      obtain ⟨hname, hdir⟩ := List.cons.inj heq
      exact ⟨hdir, s, by rw [hname, imageName, List.append_assoc]⟩

/-- Where a place goes when one image gets its label. -/
def relabeled (n : LabeledName) (p : Path) : Path := if isImage n p then image n n.defectLabel else p

/-- Where a place goes when all names are gone through. -/
def relocate (names : List LabeledName) (p : Path) : Path := names.foldl (fun p n => relabeled n p) p

variable {m n : LabeledName} {names : List LabeledName} {p : Path} {s : Bytes}

theorem relabeled_image (n : LabeledName) (s : Bytes) : relabeled n (image n s) = image n n.defectLabel :=
  if_pos (isImage_iff.2 ⟨s, rfl⟩)

theorem relabeled_of_not (h : ∀ s, p ≠ image n s) : relabeled n p = p :=
  if_neg fun him => (isImage_iff.1 him).elim h

theorem relabeled_other (hm : Plain m) (hn : Plain n) (h : ¬ SameImage m n) (s : Bytes) :
    relabeled n (image m s) = image m s :=
  relabeled_of_not fun _ heq => h (hm.image_inj hn heq).1

/-- An image stays one of itself. -/
theorem relocate_image (hn : Plain n) (hnames : ∀ m ∈ names, Plain m) (s : Bytes) :
    ∃ t, relocate names (image n s) = image n t := by
  induction names generalizing s with
  | nil => exact ⟨s, rfl⟩
  | cons m names ih =>
    obtain ⟨hm, hnames⟩ := List.forall_mem_cons.1 hnames
    by_cases hsame : SameImage n m
    · have hstep : relabeled m (image n s) = image n m.defectLabel := by
        rw [image_congr hsame, relabeled_image, image_congr hsame]
      rw [relocate, List.foldl_cons, hstep]
      exact ih hnames m.defectLabel
    · rw [relocate, List.foldl_cons, relabeled_other hn hm hsame]
      exact ih hnames s

theorem relocate_other (hn : Plain n) (hnames : ∀ m ∈ names, Plain m) (h : ∀ m ∈ names, ¬ SameImage m n) (s : Bytes) :
    relocate names (image n s) = image n s := by
  induction names with
  | nil => rfl
  | cons m names ih =>
    obtain ⟨hm, hnames⟩ := List.forall_mem_cons.1 hnames
    obtain ⟨hne, h⟩ := List.forall_mem_cons.1 h
    have hne' : ¬ SameImage n m := fun hs => hne ⟨hs.1.symm, hs.2.1.symm, hs.2.2.1.symm, hs.2.2.2.symm⟩
    rw [relocate, List.foldl_cons, relabeled_other hn hm hne']
    exact ih hnames h

/-- The last name of an image decides. -/
theorem relocate_last {pre post : List LabeledName} (hnames : ∀ m ∈ pre ++ n :: post, Plain m)
    (hlast : ∀ m ∈ post, ¬ SameImage m n) (s : Bytes) :
    relocate (pre ++ n :: post) (image n s) = image n n.defectLabel := by
  have hn : Plain n := hnames n (by simp)
  have hpre : ∀ m ∈ pre, Plain m := fun m hm => hnames m (by simp [hm])
  obtain ⟨t, ht⟩ := relocate_image hn hpre s
  have hskip := relocate_other hn (fun m hm => hnames m (by simp [hm])) hlast n.defectLabel
  rw [relocate] at ht hskip
  rw [relocate, List.foldl_append, List.foldl_cons, ht, relabeled_image, hskip]

theorem relocate_unnamed (h : ∀ n ∈ names, ∀ s, p ≠ image n s) : relocate names p = p := by
  induction names with
  | nil => rfl
  | cons n names ih =>
    obtain ⟨hn, h⟩ := List.forall_mem_cons.1 h
    rw [relocate, List.foldl_cons, relabeled_of_not hn]
    exact ih h

/-- A place is that of no image in the message, or of one that is named last somewhere. -/
theorem unnamed_or_last (names : List LabeledName) (p : Path) :
    (∀ n ∈ names, ∀ s, p ≠ image n s) ∨
      ∃ pre n post s, names = pre ++ n :: post ∧ p = image n s ∧ ∀ m ∈ post, ¬ SameImage m n := by
  induction names with
  | nil => exact .inl (List.forall_mem_nil _)
  | cons n names ih =>
    rcases ih with hnone | ⟨pre, n', post, s, rfl, hp, hlast⟩
    · by_cases him : isImage n p = true
      · obtain ⟨s, rfl⟩ := isImage_iff.1 him
        exact .inr ⟨[], n, names, s, rfl, rfl, fun m hm hsame => hnone m hm s (image_congr hsame s).symm⟩
      · exact .inl (List.forall_mem_cons.2 ⟨fun s heq => him (isImage_iff.2 ⟨s, heq⟩), hnone⟩)
    · exact .inr ⟨n :: pre, n', post, s, rfl, hp, hlast⟩

/-- Going through the names again moves nothing. -/
theorem relocate_relocate (hnames : ∀ m ∈ names, Plain m) (p : Path) :
    relocate names (relocate names p) = relocate names p := by
  rcases unnamed_or_last names p with hnone | ⟨pre, n, post, s, rfl, rfl, hlast⟩
  · rw [relocate_unnamed hnone, relocate_unnamed hnone]
  · rw [relocate_last hnames hlast, relocate_last hnames hlast]

/-! ## One name -/

variable {d d' : Disk} {fs fs' : FileSystem}

theorem mem_sources {name : Bytes} : name ∈ sources d n ↔ ∃ s, name = imageName n s ∧ d.present (image n s) = true := by
  have hfront : imageFront n ≠ [] := by
    have hsep : ascii "_" = [0x5f] := rfl
    simp [imageFront, hsep]
  rw [sources, List.mem_insertionSort, Disk.mem_globStar hfront]
  constructor
  · rintro ⟨hp, s, rfl⟩
    have hname : imageFront n ++ (s ++ ascii ".jpg") = imageName n s := by rw [imageName, List.append_assoc]
    exact ⟨s, hname, by rwa [image, ← hname]⟩
  · rintro ⟨s, rfl, hp⟩
    exact ⟨hp, s, by rw [imageName, List.append_assoc]⟩

/-- One name moves its image, if it has one, to its label. -/
theorem updateLabel_moves (hn : Plain n) (hone : OneFile d.toFileSystem n) :
    ∃ d', updateLabel d n = some d' ∧ Moves (relabeled n) d.toFileSystem d'.toFileSystem := by
  rw [updateLabel, if_neg hn.nul_not_mem.1]
  split
  · rename_i hsources
    refine ⟨d, rfl, (Moves.refl _).congr fun p hp => (relabeled_of_not ?_).symm⟩
    rintro s rfl
    have hmem : imageName n s ∈ sources d n := mem_sources.2 ⟨s, rfl, hp⟩
    rw [hsources] at hmem
    cases hmem
  · rename_i src rest hsources
    obtain ⟨s, rfl, hp⟩ := mem_sources.1 (hsources ▸ List.mem_cons_self : src ∈ sources d n)
    have hfile := hone.file s hp
    rw [if_neg hn.nul_not_mem.2, hn.dst_eq]
    have hdst : image n s = image n n.defectLabel ∨ d.present (image n n.defectLabel) = false := by
      by_cases hpres : d.present (image n n.defectLabel) = true
      · exact .inl (by rw [hone.unique s _ hp hpres])
      · exact .inr (by simpa using hpres)
    obtain ⟨fs', hrename⟩ : ∃ fs', d.toFileSystem.rename (image n s) (image n n.defectLabel) = some fs' := by
      rcases hdst with heq | hfree
      · exact ⟨d.toFileSystem, by rw [heq, FileSystem.rename, if_pos rfl, if_pos (heq ▸ hp)]⟩
      · exact rename_sibling hfile hfree
    obtain ⟨d', hd', rfl⟩ := Disk.rename_of_some hrename
    have hdir : d.isDir (image n n.defectLabel) = false := by
      rcases hdst with heq | hfree
      · obtain ⟨content, hnode⟩ := isFile_iff.1 (heq ▸ hfile)
        simp [isDir, hnode]
      · simp [isDir, node_eq_none_iff.2 hfree]
    have hmove : d.move (imageName n s :: imageDir n) (image n n.defectLabel) = some d' :=
      (Disk.move_of_not_dir hdir (image n s)).trans hd'
    refine ⟨d', by simp only [hmove, Option.getD_some], ?_⟩
    refine (moves_rename_file hrename hfile hdst).congr fun p hp' => ?_
    split
    · rename_i heq
      rw [heq, relabeled_image]
    · rename_i hne
      refine (relabeled_of_not ?_).symm
      rintro t rfl
      exact hne (by rw [hone.unique t s hp' hp])

/-- What is at the place of an image after one name: the image of that name with
its label, or what was there. -/
theorem present_image_after (hm : Plain m) (hn : Plain n) (h : Moves (relabeled n) fs fs') {s : Bytes}
    (hs : fs'.present (image m s) = true) :
    (SameImage m n ∧ s = n.defectLabel ∧ ∃ t, fs.present (image n t) = true ∧
      fs'.node (image m s) = fs.node (image n t)) ∨
      (¬ SameImage m n ∧ fs.present (image m s) = true ∧ fs'.node (image m s) = fs.node (image m s)) := by
  obtain ⟨p, hp, heq⟩ := h.origin _ hs
  have hnode := h.node p hp
  rw [heq] at hnode
  by_cases him : isImage n p = true
  · obtain ⟨t, rfl⟩ := isImage_iff.1 him
    rw [relabeled_image] at heq
    obtain ⟨hsame, rfl⟩ := hm.image_inj hn heq.symm
    exact .inl ⟨hsame, rfl, t, hp, hnode⟩
  · rw [relabeled, if_neg him] at heq
    subst heq
    exact .inr ⟨fun hsame => him (isImage_iff.2 ⟨s, image_congr hsame s⟩), hp, hnode⟩

/-- One name leaves every image with one file at most. -/
theorem OneFile.after (hm : Plain m) (hn : Plain n) (h : Moves (relabeled n) fs fs') (hone : OneFile fs m)
    (hone' : OneFile fs n) : OneFile fs' m where
  unique s t hs ht := by
    rcases present_image_after hm hn h hs with ⟨hsame, rfl, -⟩ | ⟨hne, hs, -⟩ <;>
      rcases present_image_after hm hn h ht with ⟨hsame', rfl, -⟩ | ⟨hne', ht, -⟩
    · rfl
    · exact absurd hsame hne'
    · exact absurd hsame' hne
    · exact hone.unique s t hs ht
  file s hs := by
    rcases present_image_after hm hn h hs with ⟨-, -, t, ht, hnode⟩ | ⟨-, hs', hnode⟩
    · rw [isFile, hnode, ← isFile]
      exact hone'.file t ht
    · rw [isFile, hnode, ← isFile]
      exact hone.file s hs'

/-! ## A message -/

/-- All names move the images to their labels, and leave each with one file. -/
theorem updateLabels_moves {all : List LabeledName} (hplain : ∀ m ∈ all, Plain m)
    (hone : ∀ m ∈ all, OneFile d.toFileSystem m) (hsub : names ⊆ all) :
    Moves (relocate names) d.toFileSystem (updateLabels d names).toFileSystem ∧
      ∀ m ∈ all, OneFile (updateLabels d names).toFileSystem m := by
  induction names generalizing d with
  | nil => exact ⟨Moves.refl _, hone⟩
  | cons n names ih =>
    obtain ⟨hn, hsub⟩ := List.cons_subset.1 hsub
    obtain ⟨d', hd', hmoves⟩ := updateLabel_moves (hplain n hn) (hone n hn)
    have hone' : ∀ m ∈ all, OneFile d'.toFileSystem m := fun m hm =>
      (hone m hm).after (hplain m hm) (hplain n hn) hmoves (hone n hn)
    obtain ⟨hrest, honeRest⟩ := ih hone' hsub
    rw [updateLabels, hd']
    exact ⟨hmoves.trans hrest, honeRest⟩

/-- The image of the name has a file. -/
def hasFile (d : Disk) (n : LabeledName) : Bool := !(sources d n).isEmpty

theorem hasFile_of_present (h : d.present (image n s) = true) : hasFile d n = true := by
  have hmem : imageName n s ∈ sources d n := mem_sources.2 ⟨s, rfl, h⟩
  cases hsources : sources d n with
  | nil => simp [hsources] at hmem
  | cons src rest => simp [hasFile, hsources]

/-- Where what exists goes does not depend on the names without a file. -/
theorem relocate_filter (hnames : ∀ m ∈ names, Plain m) (hp : d.present p = true) :
    relocate (names.filter (hasFile d)) p = relocate names p := by
  rcases unnamed_or_last names p with hnone | ⟨pre, n, post, s, rfl, rfl, hlast⟩
  · rw [relocate_unnamed hnone, relocate_unnamed fun n hn => hnone n (List.mem_of_mem_filter hn)]
  · have hsplit : (pre ++ n :: post).filter (hasFile d) = pre.filter (hasFile d) ++ n :: post.filter (hasFile d) := by
      rw [List.filter_append, List.filter_cons_of_pos (hasFile_of_present hp)]
    have hnames' : ∀ m ∈ (pre ++ n :: post).filter (hasFile d), Plain m :=
      fun m hm => hnames m (List.mem_of_mem_filter hm)
    rw [hsplit] at hnames' ⊢
    rw [relocate_last hnames hlast, relocate_last hnames' fun m hm => hlast m (List.mem_of_mem_filter hm)]

/-- Along `f`, what no name is about stays in place, and the image of every name
that no later one names again gets its label. -/
structure Relabels (names : List LabeledName) (f : Path → Path) : Prop where
  unnamed : ∀ p, (∀ n ∈ names, ∀ s, p ≠ image n s) → f p = p
  last : ∀ pre n post, names = pre ++ n :: post → (∀ m ∈ post, ¬ SameImage m n) →
    ∀ s, f (image n s) = image n n.defectLabel

theorem plain_of_labeledNames {data : List (Bytes × Value)} (h : ∀ n ∈ labeledNames data, Without special n) :
    ∀ n ∈ labeledNames data, Plain n := by
  intro n hn
  obtain ⟨id, -, hid⟩ := List.mem_filterMap.1 hn
  exact ⟨labeledName?_separator hid, h n hn⟩

/-- A message moves every image it names to the last label it gives it, keeps
all else as it is and loses nothing; the names without a file do not matter; and
the same message again changes nothing. -/
structure UpdatesLabels (d : Disk) (data : List (Bytes × Value)) : Prop where
  relabels : ∃ f, Moves f d.toFileSystem (onUpdateLabel d data).toFileSystem ∧ Relabels (labeledNames data) f
  skips : (updateLabels d ((labeledNames data).filter (hasFile d))).toFileSystem = (onUpdateLabel d data).toFileSystem
  again : (onUpdateLabel (onUpdateLabel d data) data).toFileSystem = (onUpdateLabel d data).toFileSystem

theorem eq_of_mem_sources {names : List Bytes} (h : names.length ≤ 1) {t : Bytes} (hs : imageName n s ∈ names)
    (ht : imageName n t ∈ names) : s = t := by
  obtain ⟨src, hsrc⟩ := List.length_eq_one_iff.1 (Nat.le_antisymm h (List.length_pos_of_mem hs))
  rw [hsrc, List.mem_singleton] at hs ht
  have heq := hs.trans ht.symm
  rw [imageName, imageName, List.append_assoc, List.append_assoc] at heq
  exact List.append_cancel_right (List.append_cancel_left heq)

theorem oneFile_of_sources (h : (sources d n).length ≤ 1)
    (hfile : ∀ name ∈ sources d n, d.isFile (name :: imageDir n) = true) :
    OneFile d.toFileSystem n where
  unique s t hs ht := eq_of_mem_sources h (mem_sources.2 ⟨s, rfl, hs⟩) (mem_sources.2 ⟨t, rfl, ht⟩)
  file s hs := hfile _ (mem_sources.2 ⟨s, rfl, hs⟩)

/-- A name of the bar `20260106131810`. -/
def barName (cameraId imageIdx defectLabel : Bytes) : LabeledName :=
  ⟨ascii "20260106131810", ascii "H298x201", ascii "S78752002", cameraId, imageIdx, defectLabel⟩

/-- The storage with one image that has no label yet. -/
def storage : Disk :=
  (Disk.empty.makedirs (imageDir (barName (ascii "1") (ascii "25") []))).put (ascii "1_25_x.jpg")
    (imageDir (barName (ascii "1") (ascii "25") [])) (.file (ascii "image"))

/-- A message that labels the image twice, and one that is not there. -/
def message : List (Bytes × Value) :=
  [(ascii "mea_image1", .str (ascii "20260106131810_H298x201_S78752002_1_25_WBR.jpg")),
    (ascii "mea_image2", .str (ascii "20260106131810_H298x201_S78752002_1_2_WBR.jpg")),
    (ascii "mea_image3", .str (ascii "20260106131810_H298x201_S78752002_1_25_scab.jpg"))]

/-- A name with a NUL before one of the image. -/
def nulMessage : List (Bytes × Value) :=
  [(ascii "mea_image1", .str (ascii "2026" ++ 0 :: ascii "_H298x201_S78752002_1_2_WBR.jpg")),
    (ascii "mea_image2", .str (ascii "20260106131810_H298x201_S78752002_1_25_WBR.jpg"))]

/-- The image keeps its label, since `glob` raises an exception at the NUL. -/
theorem nul_ends_update : ¬ UpdatesLabels storage nulMessage := by
  rintro ⟨⟨f, hmoves, hlabels⟩, -, -⟩
  have hnames : labeledNames nulMessage =
      [⟨ascii "2026" ++ [0], ascii "H298x201", ascii "S78752002", ascii "1", ascii "2", ascii "WBR"⟩] ++
        barName (ascii "1") (ascii "25") (ascii "WBR") :: [] := by decide +kernel
  have hlast := hlabels.last _ _ _ hnames (List.forall_mem_nil _) (ascii "x")
  have hthere : storage.present (image (barName (ascii "1") (ascii "25") (ascii "WBR")) (ascii "x")) = true := by
    decide +kernel
  have hmoved := hmoves.present hthere
  rw [hlast] at hmoved
  exact absurd hmoved (by decide +kernel)

/-- The storage with a directory that is named like the image. -/
def storageWithDir : Disk := storage.put (ascii "1_25_a.jpg") (imageDir (barName (ascii "1") (ascii "25") [])) .dir

/-- The directory is found first, and the image keeps its label. -/
theorem directory_taken : ¬ UpdatesLabels storageWithDir (message.take 1) := by
  rintro ⟨⟨f, hmoves, hlabels⟩, -, -⟩
  have hnames : labeledNames (message.take 1) = [] ++ barName (ascii "1") (ascii "25") (ascii "WBR") :: [] := by
    decide +kernel
  have hlast := hlabels.last _ _ _ hnames (List.forall_mem_nil _)
  have hthere : ∀ s ∈ [ascii "a", ascii "x"],
      storageWithDir.present (image (barName (ascii "1") (ascii "25") (ascii "WBR")) s) = true := by decide +kernel
  have heq := hmoves.apart _ _ (hthere (ascii "a") (by simp)) (hthere (ascii "x") (by simp))
    ((hlast (ascii "a")).trans (hlast (ascii "x")).symm)
  exact absurd heq (by decide +kernel)

end FlameSdd.LabelUpdate
