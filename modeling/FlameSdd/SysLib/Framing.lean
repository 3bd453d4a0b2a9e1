import Mathlib.Data.List.Basic
/-!
# Frames that carry their length

A stream of frames, each with its length in its header, read by chunks of any
size. A stream falls into frames and a rest in one way only (`Falls.unique`), so a
reader gets the same frames however the stream is cut.
-/

namespace SysLib.Framing

variable {α : Type}

/-- A header of so many elements says the length of its frame. -/
structure Header (α : Type) where
  width : Nat
  value : List α → Nat
  pos : 0 < width

/-- What the front of a stream says, once enough of it is there. No frame is
shorter than its header. -/
def Header.size (h : Header α) (s : List α) : Option Nat :=
  if h.width ≤ s.length ∧ h.width ≤ h.value (s.take h.width) then some (h.value (s.take h.width)) else none

variable (h : Header α)

def Header.IsFrame (f : List α) : Prop := h.size f = some f.length

theorem Header.size_eq {h : Header α} {s : List α} {n : Nat} (hs : h.size s = some n) :
    h.width ≤ s.length ∧ h.width ≤ n ∧ h.value (s.take h.width) = n := by
  unfold Header.size at hs
  split at hs
  · rename_i hle
    obtain rfl := Option.some.inj hs
    exact ⟨hle.1, hle.2, rfl⟩
  · cases hs

/-- The length is said by the header alone. -/
theorem Header.size_of_front {h : Header α} {s t : List α} {n : Nat} (hs : h.size s = some n)
    (ht : h.width ≤ t.length) (heq : t.take h.width = s.take h.width) : h.size t = some n := by
  obtain ⟨-, hn, hvalue⟩ := h.size_eq hs
  unfold Header.size
  rw [heq, hvalue, if_pos ⟨ht, hn⟩]

theorem Header.size_append {h : Header α} {s : List α} {n : Nat} (t : List α) (hs : h.size s = some n) :
    h.size (s ++ t) = some n := by
  have hlen := (h.size_eq hs).1
  refine h.size_of_front hs ?_ (List.take_append_of_le_length hlen)
  rw [List.length_append]
  omega

theorem Header.size_take {h : Header α} {s : List α} {n : Nat} (hs : h.size s = some n) (hle : n ≤ s.length) :
    h.IsFrame (s.take n) := by
  have hwidth := (h.size_eq hs).2.1
  have hlen : (s.take n).length = n := List.length_take_of_le hle
  unfold Header.IsFrame
  rw [hlen]
  refine h.size_of_front hs (by omega) ?_
  rw [List.take_take, Nat.min_eq_left hwidth]

/-- The frames at the front of a stream, and the rest. -/
def split (s : List α) : List (List α) × List α :=
  match _hs : h.size s with
  | none => ([], s)
  | some n =>
    if n ≤ s.length then
      let (frames, rest) := split (s.drop n)
      (s.take n :: frames, rest)
    else ([], s)
termination_by s.length
decreasing_by
  have hpos := h.pos
  have hle := h.size_eq _hs
  rw [List.length_drop]
  omega

/-- A reader keeps the frames it has read and what is not a frame yet. -/
def feed (st : List (List α) × List α) (chunk : List α) : List (List α) × List α :=
  let (frames, rest) := split h (st.2 ++ chunk)
  (st.1 ++ frames, rest)

/-- The stream consists of the frames and a rest that does not begin with one. -/
structure Falls (s : List α) (frames : List (List α)) (rest : List α) : Prop where
  cut : s = frames.flatten ++ rest
  frames : ∀ f ∈ frames, h.IsFrame f
  short : ∀ n, h.size rest = some n → rest.length < n

variable {h} {s rest : List α} {frames : List (List α)}

/-- What begins with a frame has its length, and does not end before it. -/
theorem Falls.not_nil {f : List α} (hf : h.IsFrame f) (hs : Falls h (f ++ s) [] rest) : False := by
  have hrest : rest = f ++ s := by simpa using hs.cut.symm
  have hshort := hs.short f.length (by rw [hrest]; exact h.size_append s hf)
  rw [hrest, List.length_append] at hshort
  omega

theorem Falls.tail {f : List α} (hs : Falls h (f ++ s) (f :: frames) rest) : Falls h s frames rest where
  cut := by simpa using hs.cut
  frames g hg := hs.frames g (List.mem_cons_of_mem _ hg)
  short := hs.short

theorem Falls.unique {frames' : List (List α)} {rest' : List α} (hs : Falls h s frames rest)
    (hs' : Falls h s frames' rest') : frames = frames' ∧ rest = rest' := by
  induction frames generalizing s frames' with
  | nil =>
    cases frames' with
    | nil => exact ⟨rfl, by simpa using hs.cut.symm.trans hs'.cut⟩
    | cons f frames' =>
      obtain rfl : s = f ++ (frames'.flatten ++ rest') := by simpa using hs'.cut
      exact (hs.not_nil (hs'.frames f List.mem_cons_self)).elim
  | cons f frames ih =>
    obtain rfl : s = f ++ (frames.flatten ++ rest) := by simpa using hs.cut
    have hf : h.IsFrame f := hs.frames f List.mem_cons_self
    cases frames' with
    | nil => exact (hs'.not_nil hf).elim
    | cons g frames' =>
      have hcut : f ++ (frames.flatten ++ rest) = g ++ (frames'.flatten ++ rest') := by simpa using hs'.cut
      have hg : h.IsFrame g := hs'.frames g List.mem_cons_self
      -- both have the length that the stream says
      have hlen : f.length = g.length := by
        have hsize := h.size_append (frames.flatten ++ rest) hf
        rw [hcut, h.size_append _ hg] at hsize
        exact (Option.some.inj hsize).symm
      obtain rfl := (List.append_inj hcut hlen).1
      obtain ⟨rfl, rfl⟩ := ih hs.tail hs'.tail
      exact ⟨rfl, rfl⟩

theorem falls_split (s : List α) : Falls h s (split h s).1 (split h s).2 := by
  fun_induction split h s with
  | case1 s hsize => exact ⟨rfl, List.forall_mem_nil _, fun n hn => by rw [hsize] at hn; cases hn⟩
  | case2 s n hsize hle frames rest hsplit ih =>
    rw [hsplit] at ih
    obtain ⟨hcut, hframes, hshort⟩ := ih
    refine ⟨?_, List.forall_mem_cons.2 ⟨h.size_take hsize hle, hframes⟩, hshort⟩
    rw [List.flatten_cons, List.append_assoc, ← hcut, List.take_append_drop]
  | case3 s n hsize hlt =>
    refine ⟨rfl, List.forall_mem_nil _, fun m hm => ?_⟩
    rw [hsize] at hm
    obtain rfl := Option.some.inj hm
    exact Nat.lt_of_not_le hlt

/-! ## A stream that arrives in chunks -/

theorem falls_feed {st : List (List α) × List α} (hst : Falls h s st.1 st.2) (chunk : List α) :
    Falls h (s ++ chunk) (feed h st chunk).1 (feed h st chunk).2 := by
  have hsplit := falls_split (h := h) (st.2 ++ chunk)
  unfold feed
  refine ⟨?_, ?_, hsplit.short⟩
  · rw [List.flatten_append, List.append_assoc, ← hsplit.cut, ← List.append_assoc, ← hst.cut]
  · intro f hf
    rcases List.mem_append.1 hf with hf | hf
    · exact hst.frames f hf
    · exact hsplit.frames f hf

theorem falls_feeds (st : List (List α) × List α) (hst : Falls h s st.1 st.2) (chunks : List (List α)) :
    Falls h (s ++ chunks.flatten) (chunks.foldl (feed h) st).1 (chunks.foldl (feed h) st).2 := by
  induction chunks generalizing s st with
  | nil => simpa using hst
  | cons chunk chunks ih =>
    rw [List.flatten_cons, ← List.append_assoc, List.foldl_cons]
    exact ih _ (falls_feed hst chunk)

theorem falls_nil : Falls h [] [] [] := by
  refine ⟨rfl, List.forall_mem_nil _, fun n hn => ?_⟩
  obtain ⟨hlen, hle, -⟩ := h.size_eq hn
  have hpos := h.pos
  simp only [List.length_nil] at hlen
  omega

/-- However a stream of whole frames is cut, its frames are read, and nothing is
left over. -/
theorem read_frames {fs chunks : List (List α)} (hfs : ∀ f ∈ fs, h.IsFrame f)
    (hchunks : chunks.flatten = fs.flatten) : chunks.foldl (feed h) ([], []) = (fs, []) := by
  have hread : Falls h chunks.flatten (chunks.foldl (feed h) ([], [])).1 (chunks.foldl (feed h) ([], [])).2 :=
    falls_feeds ([], []) falls_nil chunks
  rw [hchunks] at hread
  have hwhole : Falls h fs.flatten fs [] := ⟨(List.append_nil _).symm, hfs, falls_nil.short⟩
  obtain ⟨hframes, hrest⟩ := hread.unique hwhole
  exact Prod.ext hframes hrest

/-- Parts of a stream are read back under every cutting exactly when they are
frames. -/
theorem read_iff (fs : List (List α)) :
    (∀ chunks : List (List α), chunks.flatten = fs.flatten → chunks.foldl (feed h) ([], []) = (fs, [])) ↔
      ∀ f ∈ fs, h.IsFrame f := by
  constructor
  · intro hread
    have hfalls := falls_feeds ([], []) (falls_nil (h := h)) fs
    rw [hread fs rfl] at hfalls
    exact hfalls.frames
  · intro hfs chunks hchunks
    exact read_frames hfs hchunks

end SysLib.Framing
