import FlameSdd.ClientWork
import FlameSdd.SysLib.Stringstream
/-!
# The counts of the outgoing packets

Alive packets and job results carry a count of four characters. Their texts are
made by one stream each, which keeps its flags from one member to the next. The
job result left-aligns its identifiers, and with them its count: what should be
leading zeros are zeros behind.
-/
open SysLib SysLib.PackedStruct FlameSdd.Protocol FlameSdd.JobComplete FlameSdd.ClientWork

namespace FlameSdd.MessageCounts

/-! ## The packets, with their streams -/

/-- `generate_packet_alive`. -/
def generatePacketAlive (currentTime : Timestamp) (aliveMsgCounter : Nat) (working : Bool) : Filled sddAlive :=
  let cTcLength := Stringstream.new.member 6 0x30 (decimal (sizeof sddAlarm))
  let cCount := cTcLength.2.member 4 0x30 (decimal aliveMsgCounter)
  { members := [
      ("cTcCode", ascii "1199"),
      ("cDate", currentTime.1),
      ("cTcLength", cTcLength.1),
      ("cCount", cCount.1),
      ("cWork", if working then ascii "01" else ascii "99"),
      ("cSpare", List.replicate 20 0x30)]
    fits := by
      have hcode : (ascii "1199").length = 4 := rfl
      have hwork : (if working then ascii "01" else ascii "99").length = 2 := by cases working <;> rfl
      simp [sddAlive, currentTime.2, hcode, hwork, cTcLength, cCount] }

/-- `dk_sdd_defect`, a code and a position. -/
abbrev Defect := { b : Bytes // b.length = 12 }

def maxRstSize : Nat := 60

abbrev Rst := { b : Bytes // b.length = 720 }

/-- The loop over the defects, from `index` on. -/
def copyDefects (cRst : Bytes) : Nat → List Defect → Bytes
  | _, [] => cRst
  | index, rst :: rest =>
    if index ≥ maxRstSize then cRst
    else copyDefects (cRst.take (12 * index) ++ rst.1 ++ cRst.drop (12 * index + 12)) (index + 1) rest

theorem length_copyDefects {cRst : Bytes} (h : cRst.length = 720) (index : Nat) (defectList : List Defect) :
    (copyDefects cRst index defectList).length = 720 := by
  induction defectList generalizing cRst index with
  | nil => exact h
  | cons rst rest ih =>
    rw [copyDefects]
    split
    · exact h
    · rename_i hlt
      apply ih
      simp only [maxRstSize] at hlt
      simp only [List.length_append, List.length_take, List.length_drop, rst.2, h]
      omega

/-- The arguments of `generate_packet_job_result`, the time, and what the packet
holds in `cRst` before it is written. -/
structure JobResult where
  currentTime : Timestamp
  lotNo : Bytes
  mtNo : Bytes
  mtTypeCd : Bytes
  mtStand : Bytes
  defectList : List Defect
  cRst : Rst

/-- `generate_packet_job_result`. Nothing sets the alignment back. -/
def generatePacketJobResult (r : JobResult) (transmitCounter : Nat) : Filled sddJobResult :=
  let cTcLength := Stringstream.new.member 6 0x30 (decimal (sizeof sddJobResult))
  let cLotNo := cTcLength.2.left.member 15 0x20 r.lotNo
  let cMtNo := cLotNo.2.left.member 15 0x20 r.mtNo
  let cMtTypeCd := cMtNo.2.left.member 2 0x20 r.mtTypeCd
  let cMtStand := cMtTypeCd.2.left.member 30 0x20 r.mtStand
  let cCount := cMtStand.2.member 4 0x30 (decimal transmitCounter)
  { members := [
      ("cTcCode", ascii "1101"),
      ("cDate", r.currentTime.1),
      ("cTcLength", cTcLength.1),
      ("cLotNo", cLotNo.1),
      ("cMtNo", cMtNo.1),
      ("cMtTypeCd", cMtTypeCd.1),
      ("cMtStand", cMtStand.1),
      ("cCount", cCount.1),
      ("cRst", copyDefects r.cRst.1 0 r.defectList)]
    fits := by
      have hcode : (ascii "1101").length = 4 := rfl
      simp [sddJobResult, r.currentTime.2, hcode, length_copyDefects r.cRst.2, cTcLength, cLotNo, cMtNo, cMtTypeCd,
        cMtStand, cCount] }

/-- The stream writes the alive packet that the client sends. -/
theorem generatePacketAlive_eq (currentTime : Timestamp) (aliveMsgCounter : Nat) (working : Bool) :
    generatePacketAlive currentTime aliveMsgCounter working =
      ClientWork.generatePacketAlive currentTime aliveMsgCounter working := rfl

/-! ## The counts -/

/-- The counter before packet `n`. -/
def counter (n : Nat) : Nat := nextCounter^[n] 0

theorem counter_eq (n : Nat) : counter n = n % 10000 := by
  induction n with
  | zero => rfl
  | succ n ih =>
    rw [counter, Function.iterate_succ_apply', ← counter, ih, nextCounter]
    split
    · omega
    · omega

structure Alive where
  currentTime : Timestamp
  working : Bool

/-- `cCount` of packet `n`, whatever the packets are. -/
def aliveCount (packets : Nat → Alive) (n : Nat) : Bytes :=
  field sddAlive "cCount" (generatePacketAlive (packets n).currentTime (counter n) (packets n).working).bytes

def jobResultCount (packets : Nat → JobResult) (n : Nat) : Bytes :=
  field sddJobResult "cCount" (generatePacketJobResult (packets n) (counter n)).bytes

theorem aliveCount_eq (packets : Nat → Alive) (n : Nat) :
    aliveCount packets n = ((decimal (n % 10000)).leftpad 4 48).take 4 := by
  rw [aliveCount, Filled.field_bytes _ rfl, counter_eq]
  exact Stringstream.member_right rfl rfl _ _ _

/-- The count comes after members that are aligned to the left. -/
theorem jobResultCount_eq (packets : Nat → JobResult) (n : Nat) :
    jobResultCount packets n = ((decimal (n % 10000)).rightpad 4 48).take 4 := by
  rw [jobResultCount, Filled.field_bytes _ rfl, counter_eq]
  exact Stringstream.member_left rfl rfl _ _ _

theorem spells_aliveCount (packets : Nat → Alive) (n : Nat) : Spells 4 (n % 10000) (aliveCount packets n) := by
  rw [aliveCount_eq]
  exact spells_leftpad (by decide) (Nat.mod_lt n (by decide))

/-- Every alive packet carries its number, modulo 10000, in four digits, so that
10000 in a row have as many counts. A job result does so only where the number
needs no leading zero or is zero, and among any 10000 in a row two have the same
count. -/
theorem message_counts (alives : Nat → Alive) (results : Nat → JobResult) (n : Nat) :
    (Spells 4 (n % 10000) (aliveCount alives n) ∧
      ∀ i j, i < j → j < 10000 → aliveCount alives (n + i) ≠ aliveCount alives (n + j)) ∧
    (Spells 4 (n % 10000) (jobResultCount results n) ↔ n % 10000 = 0 ∨ 1000 ≤ n % 10000) ∧
    ¬∀ i j, i < j → j < 10000 → jobResultCount results (n + i) ≠ jobResultCount results (n + j) := by
  refine ⟨⟨spells_aliveCount alives n, ?_⟩, ?_, ?_⟩
  · intro i j hij hj heq
    have hi := (spells_aliveCount alives (n + i)).value
    rw [heq, (spells_aliveCount alives (n + j)).value] at hi
    omega
  · rw [jobResultCount_eq]
    exact spells_rightpad_iff (by decide) (Nat.mod_lt n (by decide))
  · -- the packets whose numbers are 1 and 10
    intro hall
    have hsame : ∀ i j, (n + i) % 10000 = 1 → (n + j) % 10000 = 10 →
        jobResultCount results (n + i) = jobResultCount results (n + j) := by
      intro i j hi hj
      rw [jobResultCount_eq, jobResultCount_eq, hi, hj]
      decide
    obtain ⟨i, hi, hi1⟩ : ∃ i < 10000, (n + i) % 10000 = 1 := ⟨(10001 - n % 10000) % 10000, by omega, by omega⟩
    obtain ⟨j, hj, hj1⟩ : ∃ j < 10000, (n + j) % 10000 = 10 := ⟨(10010 - n % 10000) % 10000, by omega, by omega⟩
    rcases Nat.lt_trichotomy i j with hlt | rfl | hgt
    · exact hall i j hlt hj (hsame i j hi1 hj1)
    · omega
    · exact hall j i hgt hi (hsame i j hi1 hj1).symm

def result : JobResult where
  currentTime := stamp
  lotNo := ascii "LOT-17"
  mtNo := ascii "MT-42"
  mtTypeCd := ascii "HB"
  mtStand := ascii "H 200 x 200 x 8/12"
  defectList := []
  cRst := ⟨List.replicate 720 0, List.length_replicate⟩

/-- The second packet counts as the eleventh. -/
theorem job_result_count_second : ¬Spells 4 1 (jobResultCount (fun _ => result) 1) ∧
    jobResultCount (fun _ => result) 1 = ascii "1000" ∧ jobResultCount (fun _ => result) 10 = ascii "1000" := by
  have h1 : jobResultCount (fun _ => result) 1 = ascii "1000" := by
    rw [jobResultCount_eq]
    decide
  have h10 : jobResultCount (fun _ => result) 10 = ascii "1000" := by
    rw [jobResultCount_eq]
    decide
  refine ⟨fun h => ?_, h1, h10⟩
  have hvalue := h.value
  rw [h1] at hvalue
  exact absurd hvalue (by decide)

end FlameSdd.MessageCounts
