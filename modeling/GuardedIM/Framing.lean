import GuardedIM.Chunked
import GuardedIM.Encryption

/-!
# Frames on a connection

A frame is a body behind its length as four bytes, big-endian. `readFrame` is the
server's `read_frame` on the file made of a connection; the receiving half of the client
reads the same way. `readFrames` collects the bodies of the frames until there is none,
or one that is not accepted.

* `unpack_pack`: the length survives.
* `readFrames_frames`: on the bytes of whole frames, however they arrive, the loop reads
  their bodies, up to the first over the limit.
-/

namespace GuardedIM

open Chunked

/-- `struct.pack(">I", n)` -/
def pack (n : ℕ) : Bytes :=
  [UInt8.ofNat (n / 16777216), UInt8.ofNat (n / 65536), UInt8.ofNat (n / 256), UInt8.ofNat n]

/-- `struct.unpack(">I", header)`; `none` when it raises `struct.error`. -/
def unpack : Bytes → Option ℕ
  | [a, b, c, d] => some (((a.toNat * 256 + b.toNat) * 256 + c.toNat) * 256 + d.toNat)
  | _ => none

/-- What `send_payload` and `send_encrypted` hand to `sendall`. -/
def frame (body : Bytes) : Bytes := pack body.length ++ body

/-- What `read_frame` gives. -/
inductive FrameRead where
  /-- the body of a frame -/
  | body (data : Bytes)
  /-- the end of the stream -/
  | eof
  /-- an exception -/
  | error

/-- `read_frame` -/
def readFrame (s : List Bytes) : FrameRead × List Bytes :=
  let (header, s) := read 4 s
  if header.isEmpty then (.eof, s)
  else
    match unpack header with
    | none => (.error, s)
    | some n =>
      if maxFrameSize < n then (.error, s)
      else
        let (data, s) := read n s
        if data.length < n then (.error, s) else (.body data, s)

/-- The bodies a frame loop reads, with a bound on its turns. -/
def readLoop : ℕ → List Bytes → List Bytes
  | 0, _ => []
  | fuel + 1, s =>
    match readFrame s with
    | (.body data, s) => data :: readLoop fuel s
    | _ => []

/-- The bodies a frame loop reads; every frame has at least one byte. -/
def readFrames (s : List Bytes) : List Bytes := readLoop (s.flatten.length + 1) s

/-- A length below `2 ^ 32`, the range of the header. -/
def Fits (body : Bytes) : Prop := body.length < 4294967296

theorem length_pack (n : ℕ) : (pack n).length = 4 := rfl

theorem length_frame (body : Bytes) : (frame body).length = body.length + 4 := by
  rw [frame, List.length_append, length_pack, Nat.add_comm]

/-- **A length is read back.** -/
theorem unpack_pack {n : ℕ} (h : n < 4294967296) : unpack (pack n) = some n := by
  simp only [pack, unpack, UInt8.toNat_ofNat', Option.some.injEq]
  omega

/-- A frame in front of the stream is read, or refused for its length. -/
theorem readFrame_frame {s : List Bytes} {body rest : Bytes} (hfit : Fits body)
    (hs : s.flatten = frame body ++ rest) :
    if body.length ≤ maxFrameSize then
      ∃ s', readFrame s = (.body body, s') ∧ s'.flatten = rest
    else (readFrame s).1 = .error := by
  have hheader : (read 4 s).1 = pack body.length := by
    rw [read_fst, hs, frame, List.append_assoc, List.take_left' (length_pack _)]
  have hrest : (read 4 s).2.flatten = body ++ rest := by
    rw [read_snd, hs, frame, List.append_assoc, List.drop_left' (length_pack _)]
  have hread : readFrame s =
      if maxFrameSize < body.length then (.error, (read 4 s).2)
      else if (read body.length (read 4 s).2).1.length < body.length then
        (.error, (read body.length (read 4 s).2).2)
      else (.body (read body.length (read 4 s).2).1, (read body.length (read 4 s).2).2) := by
    simp only [readFrame, hheader, unpack_pack hfit]
    rfl
  have hdata : (read body.length (read 4 s).2).1 = body := by
    rw [read_fst, hrest, List.take_left]
  have hleft : (read body.length (read 4 s).2).2.flatten = rest := by
    rw [read_snd, hrest, List.drop_left]
  split_ifs with hlen
  · rw [if_neg (by omega), hdata, if_neg (lt_irrefl _)] at hread
    exact ⟨_, hread, hleft⟩
  · rw [hread, if_pos (by omega)]

/-- At the end of a stream there is no frame. -/
theorem readFrame_nil {s : List Bytes} (hs : s.flatten = []) : (readFrame s).1 = .eof := by
  have hheader : (read 4 s).1 = [] := by
    rw [read_fst, hs, List.take_nil]
  simp only [readFrame, hheader]
  rfl

/-- Whole frames are read one by one, by induction on them. -/
theorem readLoop_frames {frames : List Bytes} {s : List Bytes} {fuel : ℕ}
    (hfit : ∀ f ∈ frames, Fits f) (hs : s.flatten = frames.flatMap frame)
    (hfuel : frames.length < fuel) :
    readLoop fuel s = frames.takeWhile (·.length ≤ maxFrameSize) := by
  induction frames generalizing s fuel with
  | nil =>
    obtain ⟨fuel, rfl⟩ : ∃ k, fuel = k + 1 := ⟨fuel - 1, by omega⟩
    have heof := readFrame_nil hs
    rw [readLoop]
    split
    · rename_i data s' hread
      rw [hread] at heof
      cases heof
    · rfl
  | cons f frames ih =>
    obtain ⟨fuel, rfl⟩ : ∃ k, fuel = k + 1 := ⟨fuel - 1, by omega⟩
    obtain ⟨hf, hrest⟩ := List.forall_mem_cons.mp hfit
    have hframe := readFrame_frame hf (hs.trans List.flatMap_cons)
    rw [readLoop]
    split_ifs at hframe with hlen
    · obtain ⟨s', hread, hs'⟩ := hframe
      rw [hread, List.takeWhile_cons, if_pos (decide_eq_true hlen)]
      simp only
      rw [ih hrest hs' (by rw [List.length_cons] at hfuel; omega)]
    · rw [List.takeWhile_cons, if_neg (by simpa using hlen)]
      split
      · rename_i data s' hread
        rw [hread] at hframe
        cases hframe
      · rfl

/-- A frame has at least one byte. -/
theorem length_le_flatMap (frames : List Bytes) :
    frames.length ≤ (frames.flatMap frame).length := by
  induction frames with
  | nil => exact le_refl _
  | cons f frames ih =>
    rw [List.flatMap_cons, List.length_append, length_frame, List.length_cons]
    omega

/-- **Whole frames are read back**, however the stream is cut into pieces. -/
theorem readFrames_frames {frames : List Bytes} {s : List Bytes} (hfit : ∀ f ∈ frames, Fits f)
    (hs : s.flatten = frames.flatMap frame) :
    readFrames s = frames.takeWhile (·.length ≤ maxFrameSize) := by
  refine readLoop_frames hfit hs ?_
  rw [hs]
  exact Nat.lt_succ_of_le (length_le_flatMap frames)

end GuardedIM
