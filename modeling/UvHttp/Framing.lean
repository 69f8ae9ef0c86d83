/-
# Length-prefixed frames

A stream of messages, each sent as a size prefix, the message itself and a
closing mark.  A frame of size zero ends the stream: the decoder hands what
follows its size prefix to a reader for the tail.  The alphabet, the size prefix
and the closing mark are parameters.
-/
import Mathlib

/-- A frame format: a self-delimiting size prefix and a closing mark. -/
structure FrameFormat (α : Type*) where
  size : ℕ → List α
  readSize : List α → Option (ℕ × List α)
  closing : List α
  size_ne_nil : ∀ n, size n ≠ []
  readSize_size : ∀ n rest, readSize (size n ++ rest) = some (n, rest)

namespace FrameFormat

variable {α : Type*} (F : FrameFormat α)

/-! ## Encoding -/

/-- One message as a frame. -/
def frame (m : List α) : List α := F.size m.length ++ m ++ F.closing

/-- The frames of a list of messages, one after the other. -/
def stream (ms : List (List α)) : List α := ms.flatMap F.frame

@[simp] theorem stream_nil : F.stream [] = [] := rfl

@[simp] theorem stream_cons (m : List α) (ms : List (List α)) :
    F.stream (m :: ms) = F.frame m ++ F.stream ms := rfl

@[simp] theorem stream_append (ms ns : List (List α)) :
    F.stream (ms ++ ns) = F.stream ms ++ F.stream ns := by
  simp [stream]

/-- A frame is not empty. -/
theorem frame_ne_nil (m : List α) : F.frame m ≠ [] := by
  simp [frame, F.size_ne_nil]

@[simp] theorem stream_eq_nil_iff (ms : List (List α)) : F.stream ms = [] ↔ ms = [] := by
  cases ms with
  | nil => simp
  | cons m ms => simp [F.frame_ne_nil m]

/-- Every frame takes at least one symbol. -/
theorem length_le_length_stream (ms : List (List α)) : ms.length ≤ (F.stream ms).length := by
  induction ms with
  | nil => simp
  | cons m ms ih =>
    have hpos : 0 < (F.frame m).length := List.length_pos_of_ne_nil (F.frame_ne_nil m)
    rw [stream_cons, List.length_append, List.length_cons]
    omega

/-! ## Decoding -/

variable [DecidableEq α]

/-- The frame at the start of the input: its message and what follows it. -/
def readFrame (s : List α) : Option (List α × List α) :=
  match F.readSize s with
  | none => none
  | some (n, s') =>
    if n ≤ s'.length ∧ F.closing <+: s'.drop n then
      some (s'.take n, (s'.drop n).drop F.closing.length)
    else none

/-- Decode frames up to the first one of size zero; `tail` reads what stands
between its size prefix and the end of the stream.  The result is the
concatenation of the messages and the unread rest of the input. -/
def decode (tail : List α → Option (List α)) : ℕ → List α → Option (List α × List α)
  | 0, _ => none
  | fuel + 1, s =>
    match F.readSize s with
    | none => none
    | some (0, s') => (tail s').map fun rest => ([], rest)
    | some (_ + 1, _) =>
      match F.readFrame s with
      | none => none
      | some (m, s') => (decode tail fuel s').map fun br => (m ++ br.1, br.2)

/-- Decoding a whole input: its length bounds the number of frames. -/
def decodeAll (tail : List α → Option (List α)) (s : List α) : Option (List α × List α) :=
  F.decode tail (s.length + 1) s

/-- A frame is read back, whatever follows it. -/
theorem readFrame_frame_append (m rest : List α) :
    F.readFrame (F.frame m ++ rest) = some (m, rest) := by
  have hsize : F.readSize (F.frame m ++ rest) = some (m.length, m ++ (F.closing ++ rest)) := by
    rw [frame, List.append_assoc, List.append_assoc, F.readSize_size]
  simp [readFrame, hsize]

/-- A frame of positive size is consumed and its message is put in front. -/
theorem decode_frame_append (tail : List α → Option (List α)) (fuel : ℕ) (m rest : List α)
    (hm : m ≠ []) :
    F.decode tail (fuel + 1) (F.frame m ++ rest)
      = (F.decode tail fuel rest).map fun br => (m ++ br.1, br.2) := by
  have hsize : F.readSize (F.frame m ++ rest) = some (m.length, m ++ (F.closing ++ rest)) := by
    rw [frame, List.append_assoc, List.append_assoc, F.readSize_size]
  obtain ⟨k, hk⟩ : ∃ k, m.length = k + 1 :=
    Nat.exists_eq_succ_of_ne_zero fun h => hm (List.length_eq_zero_iff.mp h)
  rw [hk] at hsize
  rw [decode, hsize]
  simp only [F.readFrame_frame_append m rest]

/-- A decoder collects the frames of a stream and goes on behind them. -/
theorem decode_stream_append (tail : List α → Option (List α)) (ms : List (List α))
    (hms : ∀ m ∈ ms, m ≠ []) (rest : List α) (fuel : ℕ) :
    F.decode tail (ms.length + fuel) (F.stream ms ++ rest)
      = (F.decode tail fuel rest).map fun br => (ms.flatten ++ br.1, br.2) := by
  induction ms with
  | nil => simp
  | cons m ms ih =>
    have hfuel : (m :: ms).length + fuel = (ms.length + fuel) + 1 := by
      rw [List.length_cons]; omega
    rw [hfuel, stream_cons, List.append_assoc,
      F.decode_frame_append tail _ m _ (hms m List.mem_cons_self),
      ih fun m' hm' => hms m' (List.mem_cons_of_mem m hm'), Option.map_map]
    congr 1
    funext br
    simp

/-- **The first empty message ends the stream.**  Whatever was framed after it is
left over. -/
theorem decodeAll_stream_of_first_empty (tail : List α → Option (List α))
    (htail : ∀ rest, tail (F.closing ++ rest) = some rest)
    (pre post : List (List α)) (hpre : ∀ m ∈ pre, m ≠ []) :
    F.decodeAll tail (F.stream (pre ++ [] :: post)) = some (pre.flatten, F.stream post) := by
  have hfuel : (F.stream (pre ++ [] :: post)).length + 1
      = pre.length + (((F.stream (pre ++ [] :: post)).length - pre.length) + 1) := by
    have := F.length_le_length_stream pre
    rw [stream_append, List.length_append]
    omega
  have hzero : F.readSize (F.stream ([] :: post)) = some (0, F.closing ++ F.stream post) := by
    rw [stream_cons, frame, List.append_nil, List.append_assoc, List.length_nil,
      F.readSize_size]
  rw [decodeAll, hfuel, stream_append, F.decode_stream_append tail pre hpre, decode, hzero]
  simp [htail]

/-! ## Reading a stream to its end -/

/-- Read frames one after the other until the input is used up.  An empty message
is a frame like any other. -/
def readFrames : ℕ → List α → Option (List (List α))
  | _, [] => some []
  | 0, _ :: _ => none
  | fuel + 1, c :: s =>
    match F.readFrame (c :: s) with
    | none => none
    | some (m, s') => (readFrames fuel s').map (m :: ·)

/-- Read a whole input: its length bounds the number of frames. -/
def readAll (s : List α) : Option (List (List α)) := F.readFrames s.length s

/-- The frames of a stream are read back one by one. -/
theorem readFrames_stream (ms : List (List α)) (fuel : ℕ) (hfuel : ms.length ≤ fuel) :
    F.readFrames fuel (F.stream ms) = some ms := by
  induction ms generalizing fuel with
  | nil => rw [stream_nil, readFrames]
  | cons m ms ih =>
    rw [List.length_cons] at hfuel
    obtain ⟨k, rfl⟩ : ∃ k, fuel = k + 1 := ⟨fuel - 1, by omega⟩
    obtain ⟨c, s, hs⟩ := List.exists_cons_of_ne_nil (F.frame_ne_nil m)
    have hread := F.readFrame_frame_append m (F.stream ms)
    rw [hs, List.cons_append] at hread
    rw [stream_cons, hs, List.cons_append, readFrames, hread]
    simp only [ih k (by omega), Option.map_some]

/-- **Reading to the end gives back every message**, the empty ones included. -/
theorem readAll_stream (ms : List (List α)) : F.readAll (F.stream ms) = some ms :=
  F.readFrames_stream ms _ (F.length_le_length_stream ms)

/-- A stream determines its messages. -/
theorem stream_injective : Function.Injective F.stream := by
  intro ms ns h
  have hread := F.readAll_stream ms
  rw [h, F.readAll_stream ns] at hread
  exact (Option.some.inj hread).symm

end FrameFormat
