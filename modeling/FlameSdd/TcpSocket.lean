import FlameSdd.Json
/-!
# The receive loop of a TCP socket

`tcp_socket::receive` hands every chunk that `recv` returns to the event
listener, from one buffer that is reused without being cleared.
-/
open SysLib

namespace FlameSdd.TcpSocket

/-- `_buffer_size_`, the most one `recv` returns. -/
def bufferSize : Nat := 4096

/-- `tempBuffer` after a `recv`: the chunk, a NUL, and what earlier chunks left. -/
def fill (tempBuffer chunk : Bytes) : Bytes := chunk ++ 0 :: tempBuffer.drop (chunk.length + 1)

/-- The loop over the chunks of a connection: what the listener did with each
chunk, and the exception that left the receive thread, if one did. -/
def receive {α : Type} (onRawReceived : Bytes → Nat → Except Exn α) :
    Bytes → List Bytes → List (Bytes × α) × Option Exn
  | _, [] => ([], none)
  | tempBuffer, chunk :: chunks =>
    let data := fill tempBuffer chunk
    match onRawReceived data chunk.length with
    | .error e => ([], some e)
    | .ok out =>
      let (outs, e) := receive onRawReceived data chunks
      ((chunk, out) :: outs, e)

@[simp] theorem take_fill (tempBuffer chunk : Bytes) : (fill tempBuffer chunk).take chunk.length = chunk := by
  simp [fill]

/-- `memcmp` with a code that holds no NUL never reads past the chunk: a
shorter chunk ends in the NUL. -/
theorem take_fill_eq_iff (tempBuffer chunk : Bytes) {code : Bytes} (h0 : (0 : UInt8) ∉ code) :
    (fill tempBuffer chunk).take code.length = code ↔ chunk.take code.length = code := by
  by_cases hlen : code.length ≤ chunk.length
  · rw [fill, List.take_append_of_le_length hlen]
  · have hlt : chunk.length < code.length := by omega
    constructor
    · intro h
      refine absurd ?_ h0
      rw [← h, fill, List.take_append]
      have : code.length - chunk.length = (code.length - chunk.length - 1) + 1 := by omega
      rw [this, List.take_succ_cons]
      simp
    · intro h
      have := congrArg List.length h
      simp only [List.length_take] at this
      omega

/-- A listener that looks at the chunk only handles every chunk as if it were
alone, up to the first exception. -/
theorem receive_eq {α : Type} {f : Bytes → Nat → Except Exn α} {g : Bytes → Except Exn α}
    (hf : ∀ buf chunk, f (fill buf chunk) chunk.length = g chunk) (buf : Bytes) (chunks : List Bytes) :
    (receive f buf chunks).1.map Prod.fst = chunks.takeWhile (fun c => (g c).isOk) ∧
      ∀ r ∈ (receive f buf chunks).1, g r.1 = .ok r.2 := by
  induction chunks generalizing buf with
  | nil => simp [receive]
  | cons c cs ih =>
    simp only [receive, hf]
    cases hc : g c with
    | error e => simp [hc, Except.isOk, Except.toBool]
    | ok out =>
      obtain ⟨h1, h2⟩ := ih (fill buf c)
      refine ⟨?_, ?_⟩
      · simp only [List.map_cons, h1]
        rw [List.takeWhile_cons_of_pos (by simp [hc, Except.isOk, Except.toBool])]
      · intro r hr
        rcases List.mem_cons.1 hr with rfl | hr
        · exact hc
        · exact h2 r hr

/-- The receive thread survives a connection exactly when no chunk of it throws. -/
theorem receive_survives_iff {α : Type} {f : Bytes → Nat → Except Exn α} {g : Bytes → Except Exn α}
    (hf : ∀ buf chunk, f (fill buf chunk) chunk.length = g chunk) (buf : Bytes) (chunks : List Bytes) :
    (receive f buf chunks).2 = none ↔ ∀ c ∈ chunks, (g c).isOk = true := by
  induction chunks generalizing buf with
  | nil => simp [receive]
  | cons c cs ih =>
    simp only [receive, hf, List.forall_mem_cons]
    cases hc : g c with
    | error e => simp [Except.isOk, Except.toBool]
    | ok out =>
      rw [← ih (fill buf c)]
      simp [Except.isOk, Except.toBool]

end FlameSdd.TcpSocket
