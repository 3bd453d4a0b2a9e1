import Mathlib.Data.Fintype.EquivFin
import Mathlib.Data.Setoid.Basic
import Mathlib.Logic.Relation
/-!
# Connected regions

The regions of a finite set under a relation of neighbours, the labelling that
numbers them, and the part of the set that lies in large regions.
-/

namespace SysLib.Region

variable {α : Type} {adj : α → α → Prop} {A B : Finset α}

/-- Joined by a path of neighbours inside the set. -/
def Linked (adj : α → α → Prop) (A : Finset α) (p q : α) : Prop :=
  p ∈ A ∧ Relation.ReflTransGen (fun a b => adj a b ∧ b ∈ A) p q

theorem Linked.refl {p : α} (h : p ∈ A) : Linked adj A p p := ⟨h, .refl⟩

theorem Linked.mem {p q : α} (h : Linked adj A p q) : q ∈ A := by
  obtain ⟨hp, hpath⟩ := h
  cases hpath with
  | refl => exact hp
  | tail _ hstep => exact hstep.2

theorem Linked.trans {p q r : α} (hpq : Linked adj A p q) (hqr : Linked adj A q r) : Linked adj A p r :=
  ⟨hpq.1, hpq.2.trans hqr.2⟩

theorem Linked.symm (hadj : ∀ p q, adj p q → adj q p) {p q : α} (h : Linked adj A p q) : Linked adj A q p := by
  obtain ⟨hp, hpath⟩ := h
  induction hpath with
  | refl => exact .refl hp
  | @tail b c hpath hstep ih =>
    refine Linked.trans ⟨hstep.2, ?_⟩ ih
    exact .single ⟨hadj _ _ hstep.1, (show Linked adj A p b from ⟨hp, hpath⟩).mem⟩

theorem Linked.mono (h : A ⊆ B) {p q : α} (hpq : Linked adj A p q) : Linked adj B p q :=
  ⟨h hpq.1, Relation.ReflTransGen.mono (fun _ _ hstep => ⟨hstep.1, h hstep.2⟩) _ _ hpq.2⟩

/-- A path does not leave a part that has no neighbours outside. -/
theorem Linked.closed (hclosed : ∀ a ∈ B, ∀ b ∈ A, adj a b → b ∈ B) {p q : α} (h : Linked adj A p q) (hp : p ∈ B) :
    q ∈ B := by
  obtain ⟨-, hpath⟩ := h
  induction hpath with
  | refl => exact hp
  | tail _ hstep ih => exact hclosed _ ih _ hstep.2 hstep.1

/-- All members are joined by paths inside the set. -/
def Connected (adj : α → α → Prop) (A : Finset α) : Prop := ∀ p ∈ A, ∀ q ∈ A, Linked adj A p q

/-- So they are if all are joined to one. -/
theorem connected_of_linked (hadj : ∀ p q, adj p q → adj q p) {o : α} (h : ∀ p ∈ A, Linked adj A o p) :
    Connected adj A := fun p hp q hq => ((h p hp).symm hadj).trans (h q hq)

/-! ## The region of a member -/

open scoped Classical in
/-- The members that are joined to one. -/
noncomputable def region (adj : α → α → Prop) (A : Finset α) (p : α) : Finset α := A.filter (Linked adj A p)

theorem mem_region {p q : α} : q ∈ region adj A p ↔ Linked adj A p q := by
  simp only [region, Finset.mem_filter]
  exact ⟨And.right, fun h => ⟨h.mem, h⟩⟩

theorem region_subset {p : α} : region adj A p ⊆ A := fun _ hq => (mem_region.1 hq).mem

theorem region_mono (h : A ⊆ B) {p : α} : region adj A p ⊆ region adj B p := by
  intro q hq
  exact mem_region.2 ((mem_region.1 hq).mono h)

theorem region_eq (hadj : ∀ p q, adj p q → adj q p) {p q : α} (h : Linked adj A p q) :
    region adj A q = region adj A p := by
  ext r
  rw [mem_region, mem_region]
  exact ⟨h.trans, (h.symm hadj).trans⟩

theorem card_region_le (hclosed : ∀ a ∈ B, ∀ b ∈ A, adj a b → b ∈ B) {p : α} (hp : p ∈ B) :
    (region adj A p).card ≤ B.card :=
  Finset.card_le_card fun _ hq => (mem_region.1 hq).closed hclosed hp

/-- A path inside the set stays inside the region. -/
theorem Linked.inside {p q : α} (h : Linked adj A p q) : Linked adj (region adj A p) p q := by
  obtain ⟨hp, hpath⟩ := h
  induction hpath with
  | refl => exact .refl (mem_region.2 (.refl hp))
  | @tail b c hpath hstep ih =>
    have hc : c ∈ region adj A p := mem_region.2 ⟨hp, hpath.tail hstep⟩
    exact ih.trans ⟨ih.mem, .single ⟨hstep.1, hc⟩⟩

theorem connected_region (hadj : ∀ p q, adj p q → adj q p) {p : α} : Connected adj (region adj A p) :=
  connected_of_linked hadj fun _ hq => (mem_region.1 hq).inside

/-! ## Large regions -/

/-- The members whose region has at least so many members. -/
noncomputable def large (adj : α → α → Prop) (A : Finset α) (n : Nat) : Finset α :=
  A.filter fun p => n ≤ (region adj A p).card

theorem mem_large {p : α} {n : Nat} : p ∈ large adj A n ↔ p ∈ A ∧ n ≤ (region adj A p).card := Finset.mem_filter

theorem large_mono (h : A ⊆ B) (n : Nat) : large adj A n ⊆ large adj B n := by
  intro p hp
  rw [mem_large] at hp ⊢
  exact ⟨h hp.1, hp.2.trans (Finset.card_le_card (region_mono h))⟩

/-- A member of a large region, said without a labelling. -/
theorem mem_large_iff (hadj : ∀ p q, adj p q → adj q p) {p : α} {n : Nat} :
    p ∈ large adj A n ↔ ∃ S ⊆ A, p ∈ S ∧ Connected adj S ∧ n ≤ S.card := by
  rw [mem_large]
  constructor
  · rintro ⟨hp, hcard⟩
    exact ⟨region adj A p, region_subset, mem_region.2 (.refl hp), connected_region hadj, hcard⟩
  · rintro ⟨S, hS, hp, hconnected, hcard⟩
    have hsub : S ⊆ region adj A p := fun q hq => mem_region.2 ((hconnected p hp q hq).mono hS)
    exact ⟨hS hp, hcard.trans (Finset.card_le_card hsub)⟩

/-- Where there is a large region, all of it counts. -/
theorem le_card_large (hadj : ∀ p q, adj p q → adj q p) {n : Nat} (h : (large adj A n).Nonempty) :
    n ≤ (large adj A n).card := by
  obtain ⟨p, hp⟩ := h
  have hcard := (mem_large.1 hp).2
  have hsub : region adj A p ⊆ large adj A n := by
    intro q hq
    rw [mem_large, region_eq hadj (mem_region.1 hq)]
    exact ⟨region_subset hq, hcard⟩
  exact hcard.trans (Finset.card_le_card hsub)

/-! ## Labels -/

/-- The labels of the regions, from one. What is outside the set has the label
zero. -/
structure Labelling (adj : α → α → Prop) (A : Finset α) where
  numLabels : Nat
  label : α → Nat
  label_lt : ∀ p, label p < numLabels
  label_zero : ∀ p, label p = 0 ↔ p ∉ A
  label_eq : ∀ p ∈ A, ∀ q ∈ A, label p = label q ↔ Linked adj A p q

/-- Members with the label of a member are its region. -/
theorem Labelling.label_eq_iff (l : Labelling adj A) {p q : α} (hp : p ∈ A) :
    l.label q = l.label p ↔ q ∈ region adj A p := by
  rw [mem_region]
  constructor
  · intro heq
    have hq : q ∈ A := by
      by_contra hq
      exact (l.label_zero p).1 (heq ▸ (l.label_zero q).2 hq) hp
    exact (l.label_eq p hp q hq).1 heq.symm
  · intro hlinked
    exact ((l.label_eq p hp q hlinked.mem).2 hlinked).symm

/-- There is a labelling: the classes of linked members can be numbered. -/
theorem Labelling.nonempty (hadj : ∀ p q, adj p q → adj q p) (A : Finset α) : Nonempty (Labelling adj A) := by
  classical
  let s : Setoid A :=
    { r := fun p q => Linked adj A p q
      iseqv :=
        { refl := fun p => .refl p.2
          symm := fun h => h.symm hadj
          trans := fun h h' => h.trans h' } }
  let e := Fintype.equivFin (Quotient s)
  refine ⟨⟨Fintype.card (Quotient s) + 1, fun p => if h : p ∈ A then e ⟦⟨p, h⟩⟧ + 1 else 0, ?_, ?_, ?_⟩⟩
  · intro p
    split
    · exact Nat.succ_lt_succ (e _).isLt
    · exact Nat.succ_pos _
  · intro p
    split <;> simp_all
  · intro p hp q hq
    rw [dif_pos hp, dif_pos hq, Nat.add_right_cancel_iff, Fin.val_inj, e.apply_eq_iff_eq, Quotient.eq]
    rfl

end SysLib.Region
