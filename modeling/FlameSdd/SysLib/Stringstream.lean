import FlameSdd.SysLib.Bytes
/-!
# Formatted output

A `std::stringstream` with the state that its manipulators leave behind. The
width holds for one output only; the fill character and the alignment hold until
they are set again, also when the text is taken out with `str("")`.
-/

namespace SysLib

inductive Adjust where
  | left
  | right
  deriving DecidableEq

structure Stringstream where
  str : Bytes
  width : Nat
  fill : UInt8
  adjust : Adjust
  deriving DecidableEq

namespace Stringstream

def new : Stringstream := ⟨[], 0, 0x20, .right⟩

def left (ss : Stringstream) : Stringstream := { ss with adjust := .left }
def setw (ss : Stringstream) (w : Nat) : Stringstream := { ss with width := w }
def setfill (ss : Stringstream) (c : UInt8) : Stringstream := { ss with fill := c }

/-- What `<<` writes for a text. -/
def pad (ss : Stringstream) (s : Bytes) : Bytes :=
  match ss.adjust with
  | .left => s.rightpad ss.width ss.fill
  | .right => s.leftpad ss.width ss.fill

def put (ss : Stringstream) (s : Bytes) : Stringstream := { ss with str := ss.str ++ ss.pad s, width := 0 }

/-- `ss.str(""); ss.clear();`, which sets back no flag. -/
def clear (ss : Stringstream) : Stringstream := { ss with str := [] }

/-- One member of a struct: `ss << setw(w) << setfill(c) << s`, then `memcpy` of
`w` bytes, then the stream is cleared. -/
def member (ss : Stringstream) (w : Nat) (c : UInt8) (s : Bytes) : Bytes × Stringstream :=
  let ss := ((ss.setw w).setfill c).put s
  (ss.str.take w, ss.clear)

/-! ## What is left behind -/

@[simp] theorem str_left (ss : Stringstream) : ss.left.str = ss.str := rfl
@[simp] theorem adjust_left (ss : Stringstream) : ss.left.adjust = .left := rfl
@[simp] theorem str_member (ss : Stringstream) (w : Nat) (c : UInt8) (s : Bytes) : (ss.member w c s).2.str = [] := rfl

@[simp] theorem adjust_member (ss : Stringstream) (w : Nat) (c : UInt8) (s : Bytes) :
    (ss.member w c s).2.adjust = ss.adjust := rfl

@[simp] theorem length_member (ss : Stringstream) (w : Nat) (c : UInt8) (s : Bytes) :
    (ss.member w c s).1.length = w := by
  have hpad : w ≤ (((ss.setw w).setfill c).pad s).length := by
    simp only [pad, setw, setfill]
    split <;> simp [List.leftpad, List.rightpad] <;> omega
  simp only [member, put, List.length_take, List.length_append]
  omega

theorem member_right {ss : Stringstream} (hstr : ss.str = []) (hadjust : ss.adjust = .right) (w : Nat) (c : UInt8)
    (s : Bytes) : (ss.member w c s).1 = (s.leftpad w c).take w := by
  simp [member, put, pad, setw, setfill, hstr, hadjust]

theorem member_left {ss : Stringstream} (hstr : ss.str = []) (hadjust : ss.adjust = .left) (w : Nat) (c : UInt8)
    (s : Bytes) : (ss.member w c s).1 = (s.rightpad w c).take w := by
  simp [member, put, pad, setw, setfill, hstr, hadjust]

end Stringstream

/-! ## Padded numbers -/

theorem digitsVal_append_zeros (s : Bytes) (k : Nat) : digitsVal (s ++ List.replicate k 48) = digitsVal s * 10 ^ k := by
  induction k with
  | zero => simp
  | succ k ih =>
    rw [List.replicate_succ', ← List.append_assoc, digitsVal_append, ih]
    have h48 : (48 : UInt8).toNat - 48 = 0 := rfl
    rw [List.foldl_cons, List.foldl_nil, h48, Nat.add_zero, pow_succ, Nat.mul_comm, Nat.mul_assoc]

/-- The text spells the number in exactly `w` digits. -/
structure Spells (w n : Nat) (s : Bytes) : Prop where
  length : s.length = w
  digits : ∀ c ∈ s, isdigit c = true
  value : digitsVal s = n

theorem isdigit_zeros {k : Nat} {c : UInt8} (h : c ∈ List.replicate k 48) : isdigit c = true := by
  rw [(List.mem_replicate.1 h).2]
  rfl

/-- Zeros in front do not change a number. -/
theorem spells_leftpad {w n : Nat} (hw : 0 < w) (hn : n < 10 ^ w) : Spells w n (((decimal n).leftpad w 48).take w) := by
  have hlen := length_decimal_le hw hn
  have heq : ((decimal n).leftpad w 48).take w = List.replicate (w - (decimal n).length) 48 ++ decimal n := by
    rw [List.leftpad]
    apply List.take_of_length_le
    simp
    omega
  rw [heq]
  refine ⟨by simp; omega, ?_, by rw [digitsVal_zeros, digitsVal_decimal]⟩
  intro c hc
  exact (List.mem_append.1 hc).elim isdigit_zeros (decimal_isdigit n c)

/-- Zeros behind do, unless there is no room for one or nothing to change. -/
theorem spells_rightpad_iff {w n : Nat} (hw : 0 < w) (hn : n < 10 ^ w) :
    Spells w n (((decimal n).rightpad w 48).take w) ↔ n = 0 ∨ 10 ^ (w - 1) ≤ n := by
  have hlen := length_decimal_le hw hn
  have heq : ((decimal n).rightpad w 48).take w = decimal n ++ List.replicate (w - (decimal n).length) 48 := by
    rw [List.rightpad]
    apply List.take_of_length_le
    simp
    omega
  have hvalue := digitsVal_append_zeros (decimal n) (w - (decimal n).length)
  rw [digitsVal_decimal] at hvalue
  rw [heq]
  constructor
  · intro h
    have hn' := hvalue.symm.trans h.value
    by_contra hcon
    rw [not_or, not_le] at hcon
    obtain ⟨h0, hlt⟩ := hcon
    -- a number that short leaves room for at least one zero
    have hw1 : w - 1 ≠ 0 := by
      intro hw1
      rw [hw1, pow_zero] at hlt
      omega
    have hshort := length_decimal_le (Nat.pos_of_ne_zero hw1) hlt
    have hpow : 10 ^ (w - (decimal n).length) = 1 := (Nat.mul_eq_left h0).1 hn'
    rcases Nat.pow_eq_one.1 hpow with h10 | hk
    · omega
    · omega
  · intro h
    refine ⟨by simp; omega, ?_, ?_⟩
    · intro c hc
      exact (List.mem_append.1 hc).elim (decimal_isdigit n c) isdigit_zeros
    · rw [hvalue]
      rcases h with rfl | hge
      · exact Nat.zero_mul _
      · have hval := digitsVal_lt (decimal_isdigit n)
        rw [digitsVal_decimal] at hval
        have hroom := (Nat.pow_lt_pow_iff_right (by decide : 1 < 10)).1 (hge.trans_lt hval)
        rw [show w - (decimal n).length = 0 by omega, pow_zero, Nat.mul_one]

end SysLib
