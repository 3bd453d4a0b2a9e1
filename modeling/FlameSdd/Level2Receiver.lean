import FlameSdd.Level2Interface
import FlameSdd.SysLib.Cut
/-!
# Packets on a byte stream

The receive loop and the listener together. Nothing between them puts packets
together again, so what the server accepts depends on where the stream was cut:
`accepted_iff_alone`.
-/
open SysLib SysLib.PackedStruct FlameSdd.Protocol FlameSdd.Level2Interface FlameSdd.TcpSocket

namespace FlameSdd.Level2Receiver

/-! ## The stream -/

/-- The code and the size of each kind of packet. -/
def kinds : List (Bytes × Nat) :=
  [(ascii "1001", sizeof lv2MfInstruction), (ascii "1002", sizeof lv2DefectLabeled),
   (ascii "1098", sizeof lv2MfClear), (ascii "1099", sizeof lv2MfAlive)]

/-- A packet that Level2 may write. -/
structure Packet where
  bytes : Bytes
  kind_mem : (bytes.take 4, bytes.length) ∈ kinds

/-- Every packet in its own chunk. -/
def alone (packets : List Packet) : List Bytes := packets.map Packet.bytes

/-- What the peer writes for a list of packets. -/
def stream (packets : List Packet) : Bytes := (alone packets).flatten

/-- The chunks for which the server published something, in order. -/
def accepted (ignore : Bool) (tempBuffer : Bytes) (chunks : List Bytes) : List Bytes :=
  ((receive (onRawReceived ignore) tempBuffer chunks).1.filter fun r => !r.2.isEmpty).map Prod.fst

theorem isOk_iff {α : Type} (x : Except Exn α) : x.isOk = true ↔ ∃ a, x = .ok a := by
  cases x <;> simp [Except.isOk, Except.toBool]

theorem isOk_onRawReceived (ignore : Bool) :
    (fun c : Bytes => (onRawReceived ignore c c.length).isOk) = harmless ignore := by
  funext c
  rw [Bool.eq_iff_iff, isOk_iff]
  exact (onRawReceived_spec ignore c).1

/-- The receive thread survives a connection exactly when all its chunks are harmless. -/
theorem receive_onRawReceived_survives_iff (ignore : Bool) (tempBuffer : Bytes) (chunks : List Bytes) :
    (receive (onRawReceived ignore) tempBuffer chunks).2 = none ↔ ∀ c ∈ chunks, harmless ignore c = true := by
  rw [receive_survives_iff (onRawReceived_fill ignore), ← isOk_onRawReceived]

/-- The server accepts the chunks that are a whole packet by themselves, up to
the first one that makes the listener throw. -/
theorem accepted_eq (ignore : Bool) (tempBuffer : Bytes) (chunks : List Bytes) :
    accepted ignore tempBuffer chunks = (chunks.takeWhile (harmless ignore)).filter (actedOn ignore) := by
  obtain ⟨hfst, hout⟩ := receive_eq (onRawReceived_fill ignore) tempBuffer chunks
  rw [isOk_onRawReceived] at hfst
  rw [accepted, ← hfst, List.filter_map]
  congr 1
  apply List.filter_congr
  intro r hr
  have hr' := (onRawReceived_spec ignore r.1).2 r.2 (hout r hr)
  rw [Bool.eq_iff_iff]
  simpa using hr'

theorem accepted_sublist (ignore : Bool) (tempBuffer : Bytes) (chunks : List Bytes) :
    (accepted ignore tempBuffer chunks).Sublist chunks := by
  rw [accepted_eq]
  exact List.filter_sublist.trans (List.takeWhile_sublist _)

/-- A packet by itself is a possible chunk. -/
theorem Packet.fits (p : Packet) : p.bytes ≠ [] ∧ p.bytes.length ≤ bufferSize := by
  have h : ∀ k ∈ kinds, 0 < k.2 ∧ k.2 ≤ bufferSize := by decide
  obtain ⟨hpos, hle⟩ := h _ p.kind_mem
  exact ⟨List.length_pos_iff.1 hpos, hle⟩

/-- The cut that gives every packet its own chunk. -/
def cutAlone (packets : List Packet) : Cut bufferSize (stream packets) where
  chunks := alone packets
  flatten_eq := rfl
  ne_nil := by
    intro c hc
    obtain ⟨p, -, rfl⟩ := List.mem_map.1 hc
    exact p.fits.1
  length_le := by
    intro c hc
    obtain ⟨p, -, rfl⟩ := List.mem_map.1 hc
    exact p.fits.2

/-- What the server accepts, for every cut of every stream: the chunks that are
a whole packet by themselves. Where it accepts every packet that comes alone, it
accepts the same packets from a cut exactly when that cut leaves them alone. -/
theorem accepted_iff_alone (ignore : Bool) (tempBuffer : Bytes) (packets : List Packet)
    (cut : Cut bufferSize (stream packets)) :
    accepted ignore tempBuffer cut.chunks =
        (cut.chunks.takeWhile (harmless ignore)).filter (actedOn ignore) ∧
      (accepted ignore tempBuffer cut.chunks = accepted ignore tempBuffer (alone packets) ↔
        (cut.chunks.takeWhile (harmless ignore)).filter (actedOn ignore) =
          ((alone packets).takeWhile (harmless ignore)).filter (actedOn ignore)) ∧
      (accepted ignore tempBuffer (alone packets) = alone packets →
        (accepted ignore tempBuffer cut.chunks = accepted ignore tempBuffer (alone packets) ↔
          cut.chunks = alone packets)) := by
  refine ⟨accepted_eq _ _ _, ?_, ?_⟩
  · rw [accepted_eq, accepted_eq]
  · intro hall
    constructor
    · intro h
      -- the packets are chunks of the cut, and leave nothing for another chunk
      have hsub := accepted_sublist ignore tempBuffer cut.chunks
      rw [h, hall] at hsub
      exact Cut.chunks_eq cut hsub
    · intro h
      rw [h]

/-- An alive packet whose members are blank. -/
def alive : Packet := ⟨ascii "1099" ++ List.replicate 46 0x20, by decide⟩

/-- Two alive packets in their own chunks are both accepted. -/
theorem accepted_iff_alone_alive :
    (accepted false [] (cutAlone [alive, alive]).chunks = accepted false [] (alone [alive, alive]) ↔
      (cutAlone [alive, alive]).chunks = alone [alive, alive]) :=
  (accepted_iff_alone false [] [alive, alive] (cutAlone [alive, alive])).2.2 (by rw [accepted_eq]; decide +kernel)

/-- Two alive packets in one chunk. -/
def coalesced : Cut bufferSize (stream [alive, alive]) where
  chunks := [alive.bytes ++ alive.bytes]
  flatten_eq := by simp [stream, alone]
  ne_nil := by decide
  length_le := by decide +kernel

/-- Neither of the two is accepted. -/
theorem accepted_depends_on_cut : ¬ ∀ (ignore : Bool) (tempBuffer : Bytes) (packets : List Packet)
    (cut : Cut bufferSize (stream packets)),
    accepted ignore tempBuffer cut.chunks = accepted ignore tempBuffer (alone packets) := by
  intro h
  have heq := h false [] [alive, alive] coalesced
  rw [accepted_eq, accepted_eq] at heq
  exact absurd heq (by decide +kernel)

end FlameSdd.Level2Receiver
