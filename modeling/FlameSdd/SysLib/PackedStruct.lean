import FlameSdd.SysLib.Bytes
/-!
# Packed structs

A struct of `char` arrays under `#pragma pack(1)` is its members, in order,
with their sizes. `field` is `memcpy` into the struct followed by reading one
member.
-/

namespace SysLib.PackedStruct

/-- Member names and sizes. -/
abbrev Layout := List (String × Nat)

def sizeof (l : Layout) : Nat := (l.map Prod.snd).sum

/-- The size of one member. -/
def memberSize : Layout → String → Nat
  | [], _ => 0
  | (n, k) :: l, f => if n = f then k else memberSize l f

/-- The bytes of one member of a packet. -/
def field : Layout → String → Bytes → Bytes
  | [], _, _ => []
  | (n, k) :: l, f, packet => if n = f then packet.take k else field l f (packet.drop k)

theorem field_length_le (l : Layout) (f : String) (packet : Bytes) :
    (field l f packet).length ≤ memberSize l f := by
  induction l generalizing packet with
  | nil => simp [field]
  | cons e l ih =>
    obtain ⟨n, k⟩ := e
    simp only [field, memberSize]
    split
    · exact List.length_take_le _ _
    · exact ih _

/-- A whole packet has all the bytes of every member. -/
theorem field_length {l : Layout} {f : String} {packet : Bytes} (h : sizeof l ≤ packet.length)
    (hf : f ∈ l.map Prod.fst) : (field l f packet).length = memberSize l f := by
  induction l generalizing packet with
  | nil => simp at hf
  | cons e l ih =>
    obtain ⟨n, k⟩ := e
    have hsize : sizeof ((n, k) :: l) = k + sizeof l := by simp [sizeof]
    simp only [field, memberSize]
    split
    · rw [List.length_take]
      omega
    · rename_i hn
      refine ih ?_ (by simpa [Ne.symm hn] using hf)
      rw [List.length_drop]
      omega

/-! ## Filling a struct -/

/-- A struct all of whose members were written. -/
structure Filled (l : Layout) where
  members : List (String × Bytes)
  fits : members.map (fun m => (m.1, m.2.length)) = l

namespace Filled
variable {l : Layout}

/-- The bytes of the struct. -/
def bytes (p : Filled l) : Bytes := (p.members.map Prod.snd).flatten

theorem length_bytes (p : Filled l) : p.bytes.length = sizeof l := by
  obtain ⟨members, rfl⟩ := p
  simp [bytes, sizeof, Function.comp_def]

/-- A member is read back as it was written. -/
theorem field_bytes (p : Filled l) {f : String} {v : Bytes} (h : p.members.lookup f = some v) :
    field l f p.bytes = v := by
  obtain ⟨members, rfl⟩ := p
  unfold bytes
  simp only at h ⊢
  induction members with
  | nil => cases h
  | cons m members ih =>
    obtain ⟨n, w⟩ := m
    rw [List.map_cons, List.map_cons, List.flatten_cons, field]
    by_cases hn : n = f
    · subst hn
      rw [List.lookup_cons_self] at h
      obtain rfl := Option.some.inj h
      rw [if_pos rfl]
      exact List.take_left
    · have hbeq : (f == n) = false := by simpa using Ne.symm hn
      rw [List.lookup_cons, hbeq] at h
      rw [if_neg hn, List.drop_left]
      exact ih h

end Filled

end SysLib.PackedStruct
