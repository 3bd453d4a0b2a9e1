import FlameSdd.LensBridge
/-!
# The wait for a status bit

`StatusWait` reads a status register until the bits of a mask are set, and then
until they are clear. What it sees of the device is a stream of readings; each
of its two loops stops at a reading of the stream, and `statusWait_outcome` says
which one decides the result.
-/
open SysLib

namespace FlameSdd.LensControl

/-- What one read of a register gives: an error code, or the value. -/
inductive Reading where
  | failed (code : Int) (h : code ≠ success)
  | value (v : UInt16)

def Reading.IsFailed (a : Reading) : Prop := ∃ code h, a = .failed code h

/-- It gives a value, of which `p` is true. -/
def Reading.Shows (p : UInt16 → Prop) (a : Reading) : Prop := ∃ v, a = .value v ∧ p v

theorem Reading.Shows.not_failed {p : UInt16 → Prop} {a : Reading} (h : a.Shows p) : ¬a.IsFailed := by
  obtain ⟨v, rfl, _⟩ := h
  rintro ⟨code, hc, heq⟩
  cases heq

theorem Reading.Shows.not_of_imp {p q : UInt16 → Prop} (hpq : ∀ v, p v → ¬q v) {a : Reading} (h : a.Shows p) :
    ¬a.Shows q := by
  obtain ⟨v, rfl, hp⟩ := h
  rintro ⟨v', heq, hq⟩
  cases heq
  exact hpq v hp hq

/-- One read of the register takes the device from `d` to `d'`. -/
inductive Reads (rounds : Nat) (segmentOffset : UInt16) (d d' : Device) : Reading → Prop
  | failed (code : Int) (h : code ≠ success)
      (hrun : (usbRead rounds segmentOffset dataLength).run bridge d = (d', .ok code)) :
      Reads rounds segmentOffset d d' (.failed code h)
  | value (hrun : (usbRead rounds segmentOffset dataLength).run bridge d = (d', .ok success)) :
      Reads rounds segmentOffset d d' (.value d'.lens.read2Bytes)

/-- The first `n` reads of the register give the stream, and take the device
through `ds`. -/
def Delivers (rounds : Nat) (segmentOffset : UInt16) (n : Nat) (stream : Nat → Reading) (ds : Nat → Device) : Prop :=
  ∀ i < n, Reads rounds segmentOffset (ds i) (ds (i + 1)) (stream i)

/-! ## Every stream is delivered by some device -/

/-- The answers of the bridge in one read. -/
def Reading.script : Reading → List Answer
  | .failed code _ => [⟨code, []⟩]
  | .value v => [⟨success, []⟩, ⟨success, []⟩, ⟨success, []⟩, ⟨success, sendOffset v⟩]

theorem reads_script (rounds : Nat) (segmentOffset : UInt16) (a : Reading) {d : Device} {rest : List Answer}
    (hs : d.script = a.script ++ rest) :
    ∃ d', Reads (rounds + 1) segmentOffset d d' a ∧ d'.script = rest := by
  cases a with
  | failed code h =>
    refine ⟨d.after (.writeRequest (sendOffset segmentOffset)), .failed code h ?_, congrArg List.tail hs⟩
    have hr : d.answer.retval = code := by rw [Device.answer, hs]; rfl
    rw [usbRead, run_ifSuccess (run_call _ _), hr, if_neg h]
  | value v =>
    obtain ⟨lens, script, traffic⟩ := d
    subst hs
    have hv : (lens.copy (sendOffset v)).read2Bytes = v := twoBytes_sendOffset v
    have hrun : ∃ traffic', (usbRead (rounds + 1) segmentOffset dataLength).run bridge
        ⟨lens, (Reading.value v).script ++ rest, traffic⟩ = (⟨lens.copy (sendOffset v), rest, traffic'⟩, .ok success) :=
      ⟨_, rfl⟩
    obtain ⟨traffic', hrun⟩ := hrun
    have hread := Reads.value hrun
    rw [hv] at hread
    exact ⟨_, hread, rfl⟩

/-- Some device delivers the stream as far as one likes, from any lens. -/
theorem exists_delivers (rounds : Nat) (segmentOffset : UInt16) (n : Nat) (stream : Nat → Reading) (lens : Lens) :
    ∃ ds, (ds 0).lens = lens ∧ Delivers (rounds + 1) segmentOffset n stream ds := by
  have go : ∀ (n : Nat) (stream : Nat → Reading) (d : Device),
      d.script = (List.range n).flatMap (fun i => (stream i).script) →
      ∃ ds, ds 0 = d ∧ Delivers (rounds + 1) segmentOffset n stream ds := by
    intro n
    induction n with
    | zero => exact fun stream d _ => ⟨fun _ => d, rfl, fun i hi => absurd hi (Nat.not_lt_zero i)⟩
    | succ n ih =>
      intro stream d hs
      rw [List.range_succ_eq_map, List.flatMap_cons, List.flatMap_map] at hs
      obtain ⟨d', hd, hrest⟩ := reads_script rounds segmentOffset (stream 0) hs
      obtain ⟨ds, h0, hds⟩ := ih (fun i => stream (i + 1)) d' hrest
      refine ⟨fun i => Nat.casesOn i d ds, rfl, ?_⟩
      rintro (_ | i) hi
      · show Reads _ _ d (ds 0) (stream 0)
        rwa [h0]
      · exact hds i (Nat.lt_of_succ_lt_succ hi)
  obtain ⟨ds, h0, hds⟩ := go n stream ⟨lens, _, []⟩ rfl
  exact ⟨ds, congrArg Device.lens h0, hds⟩

/-! ## One loop -/

/-- The result of a loop that reads at most `left` times, and its number of
reads. The last of the reads is in vain, unless it fails. -/
inductive LoopOutcome (again : UInt16 → Bool) (error : Int) (left : Nat) (stream : Nat → Reading) : Int → Nat → Prop
  | failed (i : Nat) (hi : i < left) (before : ∀ j < i, (stream j).Shows (again ·)) (code : Int) (h : code ≠ success)
      (now : stream i = .failed code h) : LoopOutcome again error left stream code (i + 1)
  | passed (i : Nat) (hi : i + 1 < left) (before : ∀ j < i, (stream j).Shows (again ·))
      (now : (stream i).Shows (¬again ·)) : LoopOutcome again error left stream success (i + 1)
  | spent (i : Nat) (hi : i + 1 = left) (before : ∀ j < i, (stream j).Shows (again ·))
      (now : (stream i).Shows fun _ => True) : LoopOutcome again error left stream error left

variable {again : UInt16 → Bool} {error : Int}

/-- A reading at which the loop goes on, in front. -/
theorem LoopOutcome.cons {left : Nat} {stream : Nat → Reading} {r : Int} {n : Nat}
    (h : LoopOutcome again error left (fun i => stream (i + 1)) r n) (h0 : (stream 0).Shows (again ·)) :
    LoopOutcome again error (left + 1) stream r (n + 1) := by
  have first : ∀ i, (∀ j < i, (stream (j + 1)).Shows (again ·)) → ∀ j < i + 1, (stream j).Shows (again ·) := by
    rintro i before (_ | j) hj
    · exact h0
    · exact before j (Nat.lt_of_succ_lt_succ hj)
  cases h with
  | failed i hi before _ hc now => exact .failed (i + 1) (Nat.succ_lt_succ hi) (first i before) _ hc now
  | passed i hi before now => exact .passed (i + 1) (Nat.succ_lt_succ hi) (first i before) now
  | spent i hi before now => exact .spent (i + 1) (congrArg _ hi) (first i before) now

theorem run_usbRead2Bytes (d : Device) : usbRead2Bytes.run bridge d = (d, .ok d.lens.read2Bytes) := rfl

theorem statusLoop_outcome {rounds : Nat} {segmentOffset : UInt16} {left : Nat} (hleft : 0 < left)
    {stream : Nat → Reading} {ds : Nat → Device} (h : Delivers rounds segmentOffset left stream ds) :
    ∃ r n, n ≤ left ∧ (statusLoop rounds segmentOffset again error left).run bridge (ds 0) = (ds n, .ok r) ∧
      LoopOutcome again error left stream r n := by
  induction left generalizing stream ds with
  | zero => exact absurd hleft (Nat.not_lt_zero 0)
  | succ left ih =>
    have hread := h 0 (Nat.succ_pos left)
    rw [statusLoop]
    generalize h0 : stream 0 = a at hread
    cases hread with
    | failed code hc hrun =>
      refine ⟨code, 1, Nat.succ_pos left, ?_, .failed 0 (Nat.succ_pos left) (by simp) code hc h0⟩
      rw [run_ifSuccess hrun, if_neg hc]
    | value hrun =>
      rw [run_ifSuccess hrun, if_pos rfl, Program.run_bind_ok (run_usbRead2Bytes _)]
      by_cases hl : left = 0
      · -- the limit is tested before the value
        subst hl
        exact ⟨error, 1, le_refl 1, rfl, .spent 0 rfl (by simp) ⟨_, h0, trivial⟩⟩
      rw [if_neg hl]
      by_cases ha : again (ds 1).lens.read2Bytes = true
      · rw [if_pos ha]
        have hrest : Delivers rounds segmentOffset left (fun i => stream (i + 1)) (fun i => ds (i + 1)) :=
          fun i hi => h (i + 1) (Nat.succ_lt_succ hi)
        obtain ⟨r, n, hn, hrun', ho⟩ := ih (Nat.pos_of_ne_zero hl) hrest
        exact ⟨r, n + 1, Nat.succ_le_succ hn, hrun', ho.cons ⟨_, h0, ha⟩⟩
      · rw [if_neg ha]
        exact ⟨success, 1, Nat.succ_pos left, rfl, .passed 0 (by omega) (by simp) ⟨_, h0, ha⟩⟩

/-! ## The two loops -/

section Wait

variable (statusMask : UInt16) (waitTime : Nat) (stream : Nat → Reading)

/-- The reading `i` is the first that has all bits set, and comes early enough. -/
structure Rises (i : Nat) : Prop where
  early : i + 1 < lowHighWait
  before : ∀ j < i, (stream j).Shows (· &&& statusMask ≠ statusMask)
  now : (stream i).Shows (· &&& statusMask = statusMask)

/-- The result of the wait, and its number of reads. -/
inductive WaitOutcome : Int → Nat → Prop
  | failedLow (i : Nat) (hi : i < lowHighWait) (before : ∀ j < i, (stream j).Shows (· &&& statusMask ≠ statusMask))
      (code : Int) (h : code ≠ success) (now : stream i = .failed code h) : WaitOutcome code (i + 1)
  | lowHi (before : ∀ j < lowHighWait - 1, (stream j).Shows (· &&& statusMask ≠ statusMask))
      (now : (stream (lowHighWait - 1)).Shows fun _ => True) : WaitOutcome lowHiError lowHighWait
  | failedHigh (i : Nat) (hi : Rises statusMask stream i) (k : Nat) (hk : k < waitTime)
      (before : ∀ j < k, (stream (i + 1 + j)).Shows (· &&& statusMask ≠ 0)) (code : Int) (h : code ≠ success)
      (now : stream (i + 1 + k) = .failed code h) : WaitOutcome code (i + 1 + (k + 1))
  | hiLow (i : Nat) (hi : Rises statusMask stream i)
      (before : ∀ j < waitTime - 1, (stream (i + 1 + j)).Shows (· &&& statusMask ≠ 0))
      (now : (stream (i + 1 + (waitTime - 1))).Shows fun _ => True) : WaitOutcome hiLowError (i + 1 + waitTime)
  | falls (i : Nat) (hi : Rises statusMask stream i) (k : Nat) (hk : k + 1 < waitTime)
      (before : ∀ j < k, (stream (i + 1 + j)).Shows (· &&& statusMask ≠ 0))
      (now : (stream (i + 1 + k)).Shows (· &&& statusMask = 0)) : WaitOutcome success (i + 1 + (k + 1))

/-- Some reading among the first 19 has all bits set, and after the first such
one a reading among the next `waitTime - 1` has all bits clear, before any
error. -/
def RisesAndFalls : Prop :=
  ∃ i < 19, (stream i).Shows (· &&& statusMask = statusMask) ∧
    (∀ j < i, ¬(stream j).Shows (· &&& statusMask = statusMask)) ∧
    ∃ k < waitTime - 1, (stream (i + 1 + k)).Shows (· &&& statusMask = 0) ∧
      ∀ j < i + 1 + k, ¬(stream j).IsFailed

variable {statusMask waitTime stream}

theorem not_set {a : Reading} (h : a.Shows (· &&& statusMask ≠ statusMask)) :
    ¬a.Shows (· &&& statusMask = statusMask) := h.not_of_imp fun _ hv => hv

theorem not_clear {a : Reading} (h : a.Shows (· &&& statusMask ≠ 0)) : ¬a.Shows (· &&& statusMask = 0) :=
  h.not_of_imp fun _ hv => hv

/-- The first reading with all bits set is the only first one. -/
theorem Rises.eq {i i' : Nat} (h : Rises statusMask stream i) (hset : (stream i').Shows (· &&& statusMask = statusMask))
    (hfirst : ∀ j < i', ¬(stream j).Shows (· &&& statusMask = statusMask)) : i' = i := by
  rcases Nat.lt_trichotomy i' i with hlt | heq | hgt
  · exact absurd hset (not_set (h.before i' hlt))
  · exact heq
  · exact absurd h.now (hfirst i hgt)

theorem Rises.not_failed {i : Nat} (h : Rises statusMask stream i) {k : Nat}
    (before : ∀ j < k, (stream (i + 1 + j)).Shows (· &&& statusMask ≠ 0)) : ∀ j < i + 1 + k, ¬(stream j).IsFailed := by
  intro j hj
  rcases Nat.lt_trichotomy j i with hlt | rfl | hgt
  · exact (h.before j hlt).not_failed
  · exact h.now.not_failed
  · have hb := before (j - (i + 1)) (by omega)
    rw [Nat.add_sub_cancel' hgt] at hb
    exact hb.not_failed

/-- The wait succeeds on the streams that rise and fall, and on no others. -/
theorem WaitOutcome.success_iff {r : Int} {n : Nat} (h : WaitOutcome statusMask waitTime stream r n) :
    r = success ↔ RisesAndFalls statusMask waitTime stream := by
  cases h with
  | failedLow i _ before _ hc now =>
    refine iff_of_false hc ?_
    rintro ⟨i', _, hset, _, k, _, _, hok⟩
    by_cases hi' : i' < i
    · exact not_set (before i' hi') hset
    · exact hok i (by omega) ⟨_, hc, now⟩
  | lowHi before _ =>
    refine iff_of_false (by decide) ?_
    rintro ⟨i', hi', hset, _⟩
    exact not_set (before i' hi') hset
  | failedHigh i hi k _ before _ hc now =>
    refine iff_of_false hc ?_
    rintro ⟨i', _, hset, hfirst, k', _, hclear, hok⟩
    obtain rfl := hi.eq hset hfirst
    rcases Nat.lt_trichotomy k' k with hlt | rfl | hgt
    · exact not_clear (before k' hlt) hclear
    · exact hclear.not_failed ⟨_, hc, now⟩
    · exact hok (i' + 1 + k) (by omega) ⟨_, hc, now⟩
  | hiLow i hi before _ =>
    refine iff_of_false (by decide) ?_
    rintro ⟨i', _, hset, hfirst, k', hk', hclear, _⟩
    obtain rfl := hi.eq hset hfirst
    exact not_clear (before k' hk') hclear
  | falls i hi k hk before now =>
    exact iff_of_true rfl ⟨i, Nat.lt_of_succ_lt_succ hi.early, hi.now, fun j hj => not_set (hi.before j hj), k, by omega, now,
      hi.not_failed before⟩

/-- The outcomes of the loops, one after the other. -/
theorem waitOutcome_of_low {r : Int} {n : Nat} (hr : r ≠ success)
    (h : LoopOutcome (fun v => v &&& statusMask ≠ statusMask) lowHiError lowHighWait stream r n) :
    WaitOutcome statusMask waitTime stream r n := by
  cases h with
  | failed i hi before _ hc now => exact .failedLow i hi (by simpa using before) _ hc now
  | passed => exact absurd rfl hr
  | spent i hi before now =>
    obtain rfl : i = lowHighWait - 1 := Nat.eq_sub_of_add_eq hi
    exact .lowHi (by simpa using before) now

theorem rises_of_low {n : Nat}
    (h : LoopOutcome (fun v => v &&& statusMask ≠ statusMask) lowHiError lowHighWait stream success n) :
    ∃ i, n = i + 1 ∧ Rises statusMask stream i := by
  generalize hr : success = r at h
  cases h with
  | failed _ _ _ _ hc => exact absurd hr.symm hc
  | passed i hi before now => exact ⟨i, rfl, hi, by simpa using before, by simpa using now⟩
  | spent => exact absurd hr (by decide)

theorem waitOutcome_of_high {i : Nat} (hi : Rises statusMask stream i) {r : Int} {n : Nat}
    (h : LoopOutcome (fun v => v &&& statusMask ≠ 0) hiLowError waitTime (fun j => stream (i + 1 + j)) r n) :
    WaitOutcome statusMask waitTime stream r (i + 1 + n) := by
  cases h with
  | failed k hk before _ hc now => exact .failedHigh i hi k hk (by simpa using before) _ hc now
  | passed k hk before now => exact .falls i hi k hk (by simpa using before) (by simpa using now)
  | spent k hk before now =>
    obtain rfl : k = waitTime - 1 := Nat.eq_sub_of_add_eq hk
    exact .hiLow i hi (by simpa using before) now

/-- `StatusWait`, run on any device: it returns after at most `20 + waitTime`
reads, with the result that the stream of its readings determines. -/
theorem run_statusWait {rounds : Nat} {segmentOffset : UInt16} (hw : 0 < waitTime) {ds : Nat → Device}
    (h : Delivers rounds segmentOffset (20 + waitTime) stream ds) :
    ∃ r n, n ≤ 20 + waitTime ∧
      (statusWait rounds segmentOffset statusMask waitTime).run bridge (ds 0) = (ds n, .ok r) ∧
      WaitOutcome statusMask waitTime stream r n := by
  have hlow : Delivers rounds segmentOffset lowHighWait stream ds := fun i hi =>
    h i (Nat.lt_of_lt_of_le hi (Nat.le_add_right 20 waitTime))
  obtain ⟨r, n, hn, hrun, ho⟩ := statusLoop_outcome (by decide : 0 < lowHighWait) hlow
  rw [statusWait, run_ifSuccess hrun]
  by_cases hr : r = success
  · subst hr
    obtain ⟨i, rfl, hi⟩ := rises_of_low ho
    have hi20 : i + 1 < 20 := hi.early
    have hhigh : Delivers rounds segmentOffset waitTime (fun j => stream (i + 1 + j)) (fun j => ds (i + 1 + j)) :=
      fun j hj => h (i + 1 + j) (by omega)
    obtain ⟨r', n', hn', hrun', ho'⟩ := statusLoop_outcome hw hhigh
    rw [if_pos rfl]
    exact ⟨r', i + 1 + n', Nat.add_le_add hn hn', hrun', waitOutcome_of_high hi ho'⟩
  · rw [if_neg hr]
    exact ⟨r, n, hn.trans (Nat.le_add_right 20 waitTime), rfl, waitOutcome_of_low hr ho⟩

end Wait

/-- Every stream of readings comes from some device; and on every device that
gives it, the wait ends in time, and with success exactly when the stream rises
and then falls. -/
theorem statusWait_outcome (rounds : Nat) (segmentOffset statusMask : UInt16) (waitTime : Nat) (hw : 0 < waitTime)
    (stream : Nat → Reading) :
    (∀ lens, ∃ ds, (ds 0).lens = lens ∧ Delivers (rounds + 1) segmentOffset (20 + waitTime) stream ds) ∧
      ∀ ds, Delivers (rounds + 1) segmentOffset (20 + waitTime) stream ds →
        ∃ r n, n ≤ 20 + waitTime ∧
          (statusWait (rounds + 1) segmentOffset statusMask waitTime).run bridge (ds 0) = (ds n, .ok r) ∧
          WaitOutcome statusMask waitTime stream r n ∧ (r = success ↔ RisesAndFalls statusMask waitTime stream) := by
  refine ⟨exists_delivers rounds segmentOffset _ stream, fun ds h => ?_⟩
  obtain ⟨r, n, hn, hrun, ho⟩ := run_statusWait hw h
  exact ⟨r, n, hn, hrun, ho, ho.success_iff⟩

/-- The focus bit, set in the first reading and clear in the second. -/
def pulse : Nat → Reading
  | 0 => .value 4
  | _ => .value 0

theorem statusWait_outcome_pulse :
    ∃ (ds : Nat → Device) (n : Nat), n ≤ 22 ∧
      (statusWait 1 status1 4 2).run bridge (ds 0) = (ds n, .ok success) := by
  obtain ⟨hd, hr⟩ := statusWait_outcome 0 status1 4 2 Nat.two_pos pulse
  obtain ⟨ds, -, h⟩ := hd ⟨fun _ => 0, fun _ => ⟨0, 0, 0, 0⟩, 0⟩
  obtain ⟨r, n, hn, hrun, -, hsuccess⟩ := hr ds h
  have hpulse : RisesAndFalls 4 2 pulse :=
    ⟨0, by decide, ⟨4, rfl, by decide⟩, by simp, 0, by decide, ⟨0, rfl, by decide⟩, by
      intro j hj
      obtain rfl : j = 0 := by omega
      rintro ⟨code, hc, heq⟩
      cases heq⟩
  obtain rfl := hsuccess.2 hpulse
  exact ⟨ds, n, hn, hrun⟩

end FlameSdd.LensControl
