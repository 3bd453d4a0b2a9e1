import FlameSdd.SysLib.Morphology
import FlameSdd.SysLib.Region
import Mathlib.Algebra.BigOperators.Group.Finset.Piecewise
import Mathlib.Algebra.Ring.Int.Defs
import Mathlib.Algebra.Group.Prod
import Mathlib.Data.Finset.Prod
/-!
# The difference mask

An image and its reconstruction are compared pixel by pixel. The pixels that
differ are opened, and their small regions dropped; the pixel sum counts what is
left: `pixelSum_regions`.
-/
open SysLib

namespace FlameSdd.DiffMask

/-- A row and a column, or an offset. -/
abbrev Position := Int × Int

/-- A `uint8` array, by the positions in its shape. -/
abbrev Image8 := Position → Fin 256

def DIFF_THRESHOLD : Fin 256 := 70
def MIN_AREA : Nat := 100

/-- The positions of an array of a shape. -/
def positions (shape : Nat × Nat) : Finset Position :=
  (Finset.range shape.1 ×ˢ Finset.range shape.2).image fun p => ((p.1 : Int), (p.2 : Int))

/-- Neighbours, with connectivity 8. -/
def adjacent (p q : Position) : Prop := p ≠ q ∧ (p.1 - q.1).natAbs ≤ 1 ∧ (p.2 - q.2).natAbs ≤ 1

theorem adjacent_symm (p q : Position) (h : adjacent p q) : adjacent q p := by
  obtain ⟨hne, hrow, hcol⟩ := h
  exact ⟨hne.symm, by omega, by omega⟩

def foreground (shape : Nat × Nat) (mask : Image8) : Finset Position := (positions shape).filter fun p => 0 < mask p

/-- The labels of the regions of a mask, and their areas: `stats[i, CC_STAT_AREA]`. -/
structure Components (shape : Nat × Nat) (mask : Image8) extends Region.Labelling adjacent (foreground shape mask) where
  area : Nat → Nat
  area_eq : ∀ i < numLabels, area i = ((positions shape).filter fun p => label p = i).card

/-- What OpenCV brings, and what is documented of it. The offsets of the structuring
element count from its anchor. -/
structure OpenCv where
  kernel : Finset Position
  threshold : Image8 → Fin 256 → Fin 256 → Image8
  morphologyEx : Nat × Nat → Image8 → Finset Position → Image8
  connectedComponentsWithStats : ∀ shape mask, Components shape mask
  -- `THRESH_BINARY`
  threshold_binary : ∀ src thr maxval p, threshold src thr maxval p = if thr < src p then maxval else 0
  -- `MORPH_OPEN`
  morphologyEx_open : ∀ shape src, ∀ p ∈ positions shape,
    morphologyEx shape src kernel p = Morphology.opening (positions shape) kernel src p

/-! ## The code -/

/-- `np.abs` of a difference of `float32` values that are whole. -/
def diff (orig recon : Image8) : Image8 := fun p => ⟨((orig p : Int) - (recon p : Int)).natAbs, by omega⟩

/-- `clean[labels == i] = 255`. -/
def paint (labels : Position → Nat) (i : Nat) (clean : Image8) : Image8 := fun p => if labels p = i then 255 else clean p

/-- The loop over the labels from one. -/
def clean (numLabels : Nat) (labels : Position → Nat) (area : Nat → Nat) (minArea : Nat) : Image8 :=
  (List.range' 1 (numLabels - 1)).foldl
    (fun clean i => if minArea ≤ area i then paint labels i clean else clean) fun _ => 0

/-- The mask after the opening. -/
def openedMask (cv : OpenCv) (shape : Nat × Nat) (orig recon : Image8) : Image8 :=
  cv.morphologyEx shape (cv.threshold (diff orig recon) DIFF_THRESHOLD 255) cv.kernel

def diffToMask (cv : OpenCv) (shape : Nat × Nat) (orig recon : Image8) (minArea : Option Nat) (out255 : Bool) :
    Image8 :=
  let opened := openedMask cv shape orig recon
  let mask :=
    match minArea with
    | none => opened
    | some minArea =>
      let components := cv.connectedComponentsWithStats shape opened
      clean components.numLabels components.label components.area minArea
  if out255 then mask else fun p => if 0 < mask p then 1 else 0

def computePixelSum (cv : OpenCv) (shape : Nat × Nat) (orig recon : Image8) : Nat :=
  ∑ p ∈ positions shape, (diffToMask cv shape orig recon (some MIN_AREA) false p : Nat)

/-! ## What is left of the mask -/

@[simp] theorem mem_foreground {shape : Nat × Nat} {mask : Image8} {p : Position} :
    p ∈ foreground shape mask ↔ p ∈ positions shape ∧ 0 < mask p := Finset.mem_filter

theorem paint_pos_iff {labels : Position → Nat} {i : Nat} {mask : Image8} {p : Position} :
    0 < paint labels i mask p ↔ labels p = i ∨ 0 < mask p := by
  rw [paint]
  split
  · simp_all
  · simp_all

theorem clean_pos_iff {numLabels : Nat} {labels : Position → Nat} {area : Nat → Nat} {minArea : Nat} {p : Position} :
    0 < clean numLabels labels area minArea p ↔
      (1 ≤ labels p ∧ labels p < numLabels) ∧ minArea ≤ area (labels p) := by
  have hloop : ∀ (l : List Nat) (mask : Image8),
      0 < l.foldl (fun clean i => if minArea ≤ area i then paint labels i clean else clean) mask p ↔
        0 < mask p ∨ labels p ∈ l ∧ minArea ≤ area (labels p) := by
    intro l
    induction l with
    | nil => simp
    | cons i l ih =>
      intro mask
      rw [List.foldl_cons, ih, List.mem_cons]
      split
      · rw [paint_pos_iff]
        rename_i hlarge
        constructor
        · rintro ((rfl | hmask) | ⟨hmem, hbig⟩)
          · exact .inr ⟨.inl rfl, hlarge⟩
          · exact .inl hmask
          · exact .inr ⟨.inr hmem, hbig⟩
        · rintro (hmask | ⟨rfl | hmem, hbig⟩)
          · exact .inl (.inr hmask)
          · exact .inl (.inl rfl)
          · exact .inr ⟨hmem, hbig⟩
      · rename_i hsmall
        constructor
        · rintro (hmask | ⟨hmem, hbig⟩)
          · exact .inl hmask
          · exact .inr ⟨.inr hmem, hbig⟩
        · rintro (hmask | ⟨rfl | hmem, hbig⟩)
          · exact .inl hmask
          · exact absurd hbig hsmall
          · exact .inr ⟨hmem, hbig⟩
  rw [clean, hloop, List.mem_range'_1]
  simp only [lt_self_iff_false, false_or]
  refine and_congr_left' ⟨fun h => ⟨h.1, by omega⟩, fun h => ⟨h.1, by omega⟩⟩

variable (cv : OpenCv) (shape : Nat × Nat)

/-- The pixels of the mask after the opening. -/
def opened (orig recon : Image8) : Finset Position := foreground shape (openedMask cv shape orig recon)

/-- The area of a label is the size of its region. -/
theorem Components.area_label {shape : Nat × Nat} {mask : Image8} (components : Components shape mask) {p : Position}
    (hp : p ∈ foreground shape mask) :
    components.area (components.label p) = (Region.region adjacent (foreground shape mask) p).card := by
  rw [components.area_eq _ (components.label_lt p)]
  congr 1
  ext q
  rw [Finset.mem_filter, components.label_eq_iff hp]
  exact ⟨And.right, fun hq => ⟨(mem_foreground.1 (Region.region_subset hq)).1, hq⟩⟩

/-- A pixel that the mask keeps is one of a large region. -/
theorem diffToMask_pos_iff {orig recon : Image8} {minArea : Nat} {p : Position} :
    0 < diffToMask cv shape orig recon (some minArea) true p ↔
      p ∈ Region.large adjacent (opened cv shape orig recon) minArea := by
  let components := cv.connectedComponentsWithStats shape (openedMask cv shape orig recon)
  have hmask : diffToMask cv shape orig recon (some minArea) true =
      clean components.numLabels components.label components.area minArea := rfl
  rw [hmask, clean_pos_iff, Region.mem_large]
  have hlabel : 1 ≤ components.label p ↔ p ∈ opened cv shape orig recon := by
    rw [Nat.one_le_iff_ne_zero, Ne, components.label_zero, not_not]
    rfl
  by_cases hp : p ∈ opened cv shape orig recon
  · rw [components.area_label hp]
    simp [hlabel, components.label_lt, opened]
  · simp [hlabel, hp]

theorem computePixelSum_eq (orig recon : Image8) :
    computePixelSum cv shape orig recon = (Region.large adjacent (opened cv shape orig recon) MIN_AREA).card := by
  have hpixel : ∀ p, (diffToMask cv shape orig recon (some MIN_AREA) false p : Nat) =
      if p ∈ Region.large adjacent (opened cv shape orig recon) MIN_AREA then 1 else 0 := by
    intro p
    rw [← if_congr (diffToMask_pos_iff cv shape) rfl rfl]
    show ((if 0 < diffToMask cv shape orig recon (some MIN_AREA) true p then (1 : Fin 256) else 0 : Fin 256) : Nat) = _
    split <;> rfl
  have hsub : Region.large adjacent (opened cv shape orig recon) MIN_AREA ⊆ positions shape := by
    intro p hp
    exact (Finset.mem_filter.1 (Region.mem_large.1 hp).1).1
  rw [computePixelSum, Finset.sum_congr rfl fun p _ => hpixel p, ← Finset.card_filter]
  rw [Finset.filter_mem_eq_inter, Finset.inter_eq_right.2 hsub]

theorem threshold_pos_iff {orig recon : Image8} {p : Position} :
    0 < cv.threshold (diff orig recon) DIFF_THRESHOLD 255 p ↔ DIFF_THRESHOLD < diff orig recon p := by
  rw [cv.threshold_binary]
  split <;> simp_all

theorem mem_opened {orig recon : Image8} {p : Position} :
    p ∈ opened cv shape orig recon ↔ p ∈ positions shape ∧ ∃ k ∈ cv.kernel, p + k ∈ positions shape ∧
      ∀ l ∈ cv.kernel, p + k + l ∈ positions shape → DIFF_THRESHOLD < diff orig recon (p + k + l) := by
  have hpos : (0 : Fin 256) < ⊤ := by decide
  rw [opened, mem_foreground]
  refine and_congr_right fun hp => ?_
  rw [openedMask, cv.morphologyEx_open shape _ p hp, Morphology.lt_opening_iff hpos]
  simp only [threshold_pos_iff]

theorem opened_mono {orig recon orig' recon' : Image8}
    (h : ∀ p ∈ positions shape, DIFF_THRESHOLD < diff orig recon p → DIFF_THRESHOLD < diff orig' recon' p) :
    opened cv shape orig recon ⊆ opened cv shape orig' recon' := by
  intro p hp
  rw [mem_opened] at hp ⊢
  obtain ⟨hshape, k, hk, hpk, hall⟩ := hp
  exact ⟨hshape, k, hk, hpk, fun l hl hmem => h _ hmem (hall l hl hmem)⟩

/-! ## Results -/

/-- A connected region of the opened mask that has the least area. -/
def LargeRegion (orig recon : Image8) (S : Finset Position) : Prop :=
  S ⊆ opened cv shape orig recon ∧ Region.Connected adjacent S ∧ MIN_AREA ≤ S.card

theorem mem_large_iff {orig recon : Image8} {p : Position} :
    p ∈ Region.large adjacent (opened cv shape orig recon) MIN_AREA ↔ ∃ S, LargeRegion cv shape orig recon S ∧ p ∈ S := by
  rw [Region.mem_large_iff adjacent_symm]
  constructor
  · rintro ⟨S, hsub, hp, hconnected, hcard⟩
    exact ⟨S, ⟨hsub, hconnected, hcard⟩, hp⟩
  · rintro ⟨S, ⟨hsub, hconnected, hcard⟩, hp⟩
    exact ⟨S, hsub, hp, hconnected, hcard⟩

theorem computePixelSum_zero_or (orig recon : Image8) :
    computePixelSum cv shape orig recon = 0 ∨ MIN_AREA ≤ computePixelSum cv shape orig recon := by
  rw [computePixelSum_eq, Finset.card_eq_zero]
  rcases (Region.large adjacent (opened cv shape orig recon) MIN_AREA).eq_empty_or_nonempty with hnone | hsome
  · exact .inl hnone
  · exact .inr (Region.le_card_large adjacent_symm hsome)

theorem computePixelSum_ne_zero_iff (orig recon : Image8) :
    computePixelSum cv shape orig recon ≠ 0 ↔ ∃ S, LargeRegion cv shape orig recon S := by
  rw [computePixelSum_eq, Finset.card_ne_zero]
  constructor
  · rintro ⟨p, hp⟩
    obtain ⟨S, hlarge, -⟩ := (mem_large_iff cv shape).1 hp
    exact ⟨S, hlarge⟩
  · rintro ⟨S, hlarge⟩
    obtain ⟨p, hp⟩ := Finset.card_pos.1 (lt_of_lt_of_le (show 0 < MIN_AREA by decide) hlarge.2.2)
    exact ⟨p, (mem_large_iff cv shape).2 ⟨S, hlarge, hp⟩⟩

/-- However the regions are numbered, the pixel sum counts the pixels that lie
in some large region of the opened mask; it is zero, or the least area or more. -/
theorem pixelSum_regions (orig recon : Image8) :
    (∃ kept : Finset Position, (∀ p, p ∈ kept ↔ ∃ S, LargeRegion cv shape orig recon S ∧ p ∈ S) ∧
      computePixelSum cv shape orig recon = kept.card) ∧
    (computePixelSum cv shape orig recon = 0 ∨ MIN_AREA ≤ computePixelSum cv shape orig recon) :=
  ⟨⟨_, fun _ => mem_large_iff cv shape, computePixelSum_eq cv shape orig recon⟩,
    computePixelSum_zero_or cv shape orig recon⟩

/-- Pixels that come over the threshold never make the pixel sum less, though
they join regions. -/
theorem pixelSum_mono {orig recon orig' recon' : Image8}
    (h : ∀ p ∈ positions shape, DIFF_THRESHOLD < diff orig recon p → DIFF_THRESHOLD < diff orig' recon' p) :
    computePixelSum cv shape orig recon ≤ computePixelSum cv shape orig' recon' := by
  rw [computePixelSum_eq, computePixelSum_eq]
  exact Finset.card_le_card (Region.large_mono (opened_mono cv shape h) MIN_AREA)

/-! ## Blocks -/

/-- Three rows, so that a region of one row or two is lost. -/
noncomputable def threeRows : OpenCv where
  kernel := {(-1, 0), (0, 0), (1, 0)}
  threshold src thr maxval p := if thr < src p then maxval else 0
  morphologyEx shape src kernel := Morphology.opening (positions shape) kernel src
  connectedComponentsWithStats shape mask :=
    { toLabelling := (Region.Labelling.nonempty adjacent_symm (foreground shape mask)).some
      area i := ((positions shape).filter fun p => (Region.Labelling.nonempty adjacent_symm
        (foreground shape mask)).some.label p = i).card
      area_eq _ _ := rfl }
  threshold_binary _ _ _ _ := rfl
  morphologyEx_open _ _ _ _ := rfl

theorem mem_threeRows {k : Position} : k ∈ threeRows.kernel ↔ k = (-1, 0) ∨ k = (0, 0) ∨ k = (1, 0) := by
  show k ∈ ({(-1, 0), (0, 0), (1, 0)} : Finset Position) ↔ _
  simp only [Finset.mem_insert, Finset.mem_singleton]

/-- An image that is bright on some positions. -/
def patch (s : Finset Position) : Image8 := fun p => if p ∈ s then 200 else 0

theorem diff_patch {s : Finset Position} {p : Position} : DIFF_THRESHOLD < diff (patch s) (patch ∅) p ↔ p ∈ s := by
  by_cases hp : p ∈ s
  · refine iff_of_true ?_ hp
    simp only [diff, patch, if_pos hp, if_neg (Finset.notMem_empty p)]
    exact show (70 : Fin 256) < 200 by decide
  · refine iff_of_false ?_ hp
    simp only [diff, patch, if_neg hp, if_neg (Finset.notMem_empty p)]
    exact show ¬ (70 : Fin 256) < 0 by decide

theorem mem_positions {shape : Nat × Nat} {p : Position} :
    p ∈ positions shape ↔ (0 ≤ p.1 ∧ p.1 < shape.1) ∧ 0 ≤ p.2 ∧ p.2 < shape.2 := by
  obtain ⟨row, col⟩ := p
  simp only [positions, Finset.mem_image, Finset.mem_product, Finset.mem_range, Prod.mk.injEq, Prod.exists]
  constructor
  · rintro ⟨i, j, ⟨hi, hj⟩, rfl, rfl⟩
    omega
  · rintro ⟨hrow, hcol⟩
    exact ⟨row.toNat, col.toNat, by omega, by omega, by omega⟩

/-- The opening adds nothing, as the rows lie about their anchor. -/
theorem opened_patch_subset (s : Finset Position) : opened threeRows shape (patch s) (patch ∅) ⊆ s := by
  intro p hp
  obtain ⟨hshape, k, hk, -, hall⟩ := (mem_opened threeRows shape).1 hp
  have hback : -k ∈ threeRows.kernel := by
    rw [mem_threeRows] at hk ⊢
    rcases hk with rfl | rfl | rfl <;> decide
  have hself := hall (-k) hback
  rw [add_neg_cancel_right] at hself
  exact diff_patch.1 (hself hshape)

/-- Ten rows of some columns. -/
def block (left right : Int) : Finset Position :=
  (Finset.range 10 ×ˢ Finset.range (right + 1 - left).toNat).image fun p => ((p.1 : Int), left + (p.2 : Int))

theorem mem_block {left right : Int} {p : Position} :
    p ∈ block left right ↔ (0 ≤ p.1 ∧ p.1 ≤ 9) ∧ left ≤ p.2 ∧ p.2 ≤ right := by
  obtain ⟨row, col⟩ := p
  simp only [block, Finset.mem_image, Finset.mem_product, Finset.mem_range, Prod.mk.injEq, Prod.exists]
  constructor
  · rintro ⟨i, j, ⟨hi, hj⟩, rfl, rfl⟩
    omega
  · rintro ⟨hrow, hcol⟩
    exact ⟨row.toNat, (col - left).toNat, by omega, by omega, by omega⟩

theorem card_block (left right : Int) : (block left right).card = 10 * (right + 1 - left).toNat := by
  rw [block, Finset.card_image_of_injective, Finset.card_product, Finset.card_range, Finset.card_range]
  rintro ⟨i, j⟩ ⟨i', j'⟩ heq
  obtain ⟨hrow, hcol⟩ := Prod.mk.inj heq
  exact Prod.ext (by simp only; omega) (by simp only; omega)

/-- A corner is reached by steps that go up and to the left. -/
theorem linked_corner {left right : Int} (n : Nat) {p : Position} (hp : p ∈ block left right)
    (hn : p.1 + (p.2 - left) ≤ n) : Region.Linked adjacent (block left right) (0, left) p := by
  induction n generalizing p with
  | zero =>
    rw [mem_block] at hp
    have hcorner : p = (0, left) := Prod.ext (by simp only; omega) (by simp only; omega)
    rw [hcorner] at hp ⊢
    exact .refl (mem_block.2 hp)
  | succ n ih =>
    by_cases hcorner : p = (0, left)
    · rw [hcorner] at hp ⊢
      exact .refl hp
    · have hbounds := mem_block.1 hp
      have hstep : (max 0 (p.1 - 1), max left (p.2 - 1)) ∈ block left right := mem_block.2 (by simp only; omega)
      have hless : ¬ (p.1 = 0 ∧ p.2 = left) := fun h => hcorner (Prod.ext h.1 h.2)
      have hlinked := ih hstep (by simp only; omega)
      refine hlinked.trans ⟨hstep, .single ⟨⟨fun heq => ?_, ?_, ?_⟩, hp⟩⟩
      · have hrow := congrArg Prod.fst heq
        have hcol := congrArg Prod.snd heq
        simp only at hrow hcol
        omega
      · simp only
        omega
      · simp only
        omega

theorem connected_block (left right : Int) : Region.Connected adjacent (block left right) :=
  Region.connected_of_linked adjacent_symm fun p hp => linked_corner (p.1 + (p.2 - left)).toNat hp (by omega)

/-- The three rows fit into a block around each of its positions. -/
theorem block_subset_opened {s : Finset Position} {left right : Int} (hs : block left right ⊆ s)
    (hshape : block left right ⊆ positions shape) :
    block left right ⊆ opened threeRows shape (patch s) (patch ∅) := by
  intro p hp
  obtain ⟨hrows, hcols⟩ := mem_block.1 hp
  refine (mem_opened threeRows shape).2 ⟨hshape hp, ?_⟩
  -- from the last row the element lies one row higher
  obtain ⟨k, hk, hrow, hcol⟩ : ∃ k ∈ threeRows.kernel, (0 ≤ p.1 + k.1 ∧ p.1 + k.1 ≤ 8) ∧ k.2 = 0 := by
    by_cases hlast : p.1 = 9
    · exact ⟨(-1, 0), mem_threeRows.2 (.inl rfl), by simp only; omega, rfl⟩
    · exact ⟨(0, 0), mem_threeRows.2 (.inr (.inl rfl)), by simp only; omega, rfl⟩
  refine ⟨k, hk, hshape (mem_block.2 ?_), fun l hl hmem => diff_patch.2 (hs (mem_block.2 ?_))⟩
  · simp only [Prod.fst_add, Prod.snd_add]
    omega
  · have hpos := mem_positions.1 hmem
    rw [mem_threeRows] at hl
    simp only [Prod.fst_add, Prod.snd_add] at hpos ⊢
    rcases hl with rfl | rfl | rfl <;> simp only <;> omega

theorem largeRegion_block {s : Finset Position} {left right : Int} (hs : block left right ⊆ s)
    (hshape : block left right ⊆ positions shape) (hwide : 9 ≤ right - left) :
    LargeRegion threeRows shape (patch s) (patch ∅) (block left right) := by
  refine ⟨block_subset_opened shape hs hshape, connected_block left right, ?_⟩
  rw [card_block]
  show 100 ≤ _
  omega

/-- Two blocks with a column between them. -/
def apart : Finset Position := block 0 4 ∪ block 6 10

theorem computePixelSum_apart : computePixelSum threeRows shape (patch apart) (patch ∅) = 0 := by
  have hsub := opened_patch_subset shape apart
  have hclosed : ∀ left right, (left, right) = (0, 4) ∨ (left, right) = (6, 10) → ∀ p ∈ block left right,
      ∀ q ∈ opened threeRows shape (patch apart) (patch ∅), adjacent p q → q ∈ block left right := by
    rintro left right hside p hp q hq ⟨-, -, hcol⟩
    have hq' := Finset.mem_union.1 (hsub hq)
    simp only [mem_block] at hp hq' ⊢
    rcases hside with heq | heq <;> cases heq <;> omega
  rw [computePixelSum_eq, Finset.card_eq_zero, Finset.eq_empty_iff_forall_notMem]
  intro p hp
  obtain ⟨hopened, hlarge⟩ := Region.mem_large.1 hp
  rcases Finset.mem_union.1 (hsub hopened) with hleft | hright
  · have hcard := Region.card_region_le (hclosed 0 4 (.inl rfl)) hleft
    rw [card_block] at hcard
    exact absurd (hlarge.trans hcard) (by decide)
  · have hcard := Region.card_region_le (hclosed 6 10 (.inr rfl)) hright
    rw [card_block] at hcard
    exact absurd (hlarge.trans hcard) (by decide)

/-- Two regions that do not count become one that does. -/
theorem pixelSum_mono_joined :
    computePixelSum threeRows (300, 480) (patch apart) (patch ∅) = 0 ∧
      computePixelSum threeRows (300, 480) (patch apart) (patch ∅) ≤
        computePixelSum threeRows (300, 480) (patch (block 0 10)) (patch ∅) ∧
      MIN_AREA ≤ computePixelSum threeRows (300, 480) (patch (block 0 10)) (patch ∅) := by
  refine ⟨computePixelSum_apart _, pixelSum_mono threeRows (300, 480) fun p _ h => ?_, ?_⟩
  · rw [diff_patch] at h ⊢
    have hp := Finset.mem_union.1 h
    simp only [mem_block] at hp ⊢
    omega
  · have hshape : block 0 10 ⊆ positions (300, 480) := by
      intro p hp
      rw [mem_block] at hp
      rw [mem_positions]
      simp only
      omega
    refine (computePixelSum_zero_or _ _ _ _).resolve_left ?_
    exact (computePixelSum_ne_zero_iff _ _ _ _).2 ⟨_, largeRegion_block _ (Finset.Subset.refl _) hshape (by decide)⟩

end FlameSdd.DiffMask
