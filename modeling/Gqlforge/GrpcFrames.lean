import Gqlforge.BigEndian
import Gqlforge.ChunkedReads

namespace Gqlforge.GrpcFrames

open BigEndian ChunkedReads

structure GrpcFrameDecoder where
  buffer : Bytes
  deriving DecidableEq

def GrpcFrameDecoder.new : GrpcFrameDecoder :=
  { buffer := [] }

def msgLen (buffer : Bytes) : Nat :=
  fromBe ((buffer.drop 1).take 4)

def frameLen (buffer : Bytes) : Nat :=
  5 + msgLen buffer

def decodeLoop (buffer : Bytes) : List Bytes × Bytes :=
  if buffer.length < 5 then ([], buffer)
  else if buffer.length < frameLen buffer then ([], buffer)
  else
    let advanced := buffer.drop 5
    let payload := advanced.take (msgLen buffer)
    let (frames, left) := decodeLoop (advanced.drop (msgLen buffer))
    (payload :: frames, left)
termination_by buffer.length
decreasing_by
  rw [List.length_drop, List.length_drop]
  omega

def GrpcFrameDecoder.decode (decoder : GrpcFrameDecoder) (chunk : Bytes) : List Bytes × GrpcFrameDecoder :=
  let (frames, buffer) := decodeLoop (decoder.buffer ++ chunk)
  (frames, { buffer })

def GrpcFrameDecoder.decodeAll : GrpcFrameDecoder → List Bytes → List Bytes × GrpcFrameDecoder
  | decoder, [] => ([], decoder)
  | decoder, chunk :: chunks =>
    let (frames, decoder) := decoder.decode chunk
    let (frames', decoder) := decoder.decodeAll chunks
    (frames ++ frames', decoder)

section Messages

variable {Message : Type} (encode : Message → Bytes)

def lenU32 (len : Nat) : Nat :=
  if len < 2 ^ 32 then len else 2 ^ 32 - 1

def messageToBytes (message : Message) : Bytes :=
  0 :: toBe 4 (lenU32 (encode message).length) ++ encode message

end Messages

/-! ## Frames of a stream -/

def IsFrame (payload frame : Bytes) : Prop :=
  ∃ flag header, header.length = 4 ∧ fromBe header = payload.length ∧ frame = flag :: header ++ payload

def readFrame (buffer : Bytes) : Option (Bytes × Bytes) :=
  if buffer.length < 5 then none
  else if buffer.length < frameLen buffer then none
  else some ((buffer.drop 5).take (msgLen buffer), (buffer.drop 5).drop (msgLen buffer))

theorem readFrame_iff {buffer payload rest : Bytes} :
    readFrame buffer = some (payload, rest) ↔ ∃ frame, IsFrame payload frame ∧ buffer = frame ++ rest := by
  constructor
  · intro h
    rw [readFrame] at h
    split at h
    · cases h
    next hheader =>
    split at h
    · cases h
    next hframe =>
    obtain ⟨rfl, rfl⟩ := Prod.mk.inj (Option.some.inj h)
    match buffer, hheader, hframe with
    | flag :: a :: b :: c :: d :: bytes, _, hframe =>
      have hlength : msgLen (flag :: a :: b :: c :: d :: bytes) ≤ bytes.length := by
        simp only [frameLen, List.length_cons] at hframe
        omega
      refine ⟨_, ⟨flag, [a, b, c, d], rfl, ?_, rfl⟩, ?_⟩
      · exact (List.length_take_of_le hlength).symm
      · simp
    | [], hheader, _ | [_], hheader, _ | [_, _], hheader, _ | [_, _, _], hheader, _ | [_, _, _, _], hheader, _ =>
      exact absurd (by simp) hheader
  · rintro ⟨_, ⟨flag, header, hheader, hpayload, rfl⟩, rfl⟩
    match header, hheader with
    | [a, b, c, d], _ =>
      have hlen : msgLen (flag :: [a, b, c, d] ++ payload ++ rest) = payload.length := hpayload
      rw [readFrame, frameLen, hlen, if_neg, if_neg]
      · simp
      · simp only [List.length_cons, List.length_append]
        omega
      · simp only [List.length_cons, List.length_append]
        omega

def frameReader : Reader UInt8 Bytes where
  read := readFrame
  shorter h := by
    obtain ⟨_, ⟨flag, header, hheader, _, rfl⟩, rfl⟩ := readFrame_iff.mp h
    simp only [List.length_cons, List.length_append]
    omega
  stable h more := by
    obtain ⟨frame, hframe, rfl⟩ := readFrame_iff.mp h
    exact readFrame_iff.mpr ⟨frame, hframe, List.append_assoc ..⟩

theorem frameReader_reads : frameReader.Reads IsFrame :=
  fun _ _ _ => readFrame_iff

theorem decodeLoop_eq (buffer : Bytes) : decodeLoop buffer = frameReader.drain buffer := by
  induction buffer using decodeLoop.induct with
  | case1 buffer hheader =>
    rw [decodeLoop, if_pos hheader, frameReader.drain_none]
    exact if_pos hheader
  | case2 buffer hheader hframe =>
    rw [decodeLoop, if_neg hheader, if_pos hframe, frameReader.drain_none]
    exact (if_neg hheader).trans (if_pos hframe)
  | case3 buffer hheader hframe advanced frames left _ ih =>
    have hread : frameReader.read buffer =
        some (advanced.take (msgLen buffer), advanced.drop (msgLen buffer)) :=
      (if_neg hheader).trans (if_neg hframe)
    rw [decodeLoop, if_neg hheader, if_neg hframe, frameReader.drain_some hread]
    exact congrArg (fun drained => (advanced.take (msgLen buffer) :: drained.1, drained.2)) ih

theorem decodeAll_eq (decoder : GrpcFrameDecoder) (chunks : List Bytes) :
    decoder.decodeAll chunks = ((frameReader.feedAll decoder.buffer chunks).1,
      { buffer := (frameReader.feedAll decoder.buffer chunks).2 }) := by
  induction chunks generalizing decoder with
  | nil => rfl
  | cons chunk chunks ih =>
    have hdecode : decoder.decode chunk = ((frameReader.feed decoder.buffer chunk).1,
        { buffer := (frameReader.feed decoder.buffer chunk).2 }) := by
      rw [GrpcFrameDecoder.decode, decodeLoop_eq]
      rfl
    rw [GrpcFrameDecoder.decodeAll, hdecode]
    dsimp only
    rw [ih]
    rfl

theorem decodeAll_new (chunks : List Bytes) : GrpcFrameDecoder.new.decodeAll chunks =
    ((frameReader.drain chunks.flatten).1, { buffer := (frameReader.drain chunks.flatten).2 }) := by
  rw [decodeAll_eq, GrpcFrameDecoder.new, frameReader.feedAll_eq rfl, List.nil_append]

/-! ## Streams of messages -/

section Messages

variable {Message : Type} (encode : Message → Bytes)

theorem isFrame_messageToBytes {message : Message} (h : (encode message).length < 2 ^ 32) :
    IsFrame (encode message) (messageToBytes encode message) := by
  refine ⟨0, toBe 4 (lenU32 (encode message).length), length_toBe .., ?_, rfl⟩
  rw [lenU32, if_pos h]
  exact fromBe_toBe h

theorem isFrame_truncated {message : Message} (h : ¬ (encode message).length < 2 ^ 32) :
    IsFrame ((encode message).take (2 ^ 32 - 1)) (0 :: toBe 4 (2 ^ 32 - 1) ++ (encode message).take (2 ^ 32 - 1)) := by
  refine ⟨0, toBe 4 (2 ^ 32 - 1), length_toBe .., ?_, rfl⟩
  rw [List.length_take_of_le (by omega)]
  exact fromBe_toBe (by decide)

theorem drain_messages_iff (messages : List Message) :
    frameReader.drain (messages.flatMap (messageToBytes encode)) = (messages.map encode, []) ↔
      ∀ message ∈ messages, (encode message).length < 2 ^ 32 := by
  induction messages with
  | nil => exact iff_of_true (frameReader.drain_none rfl) (List.forall_mem_nil _)
  | cons message messages ih =>
    rw [List.flatMap_cons, List.map_cons, List.forall_mem_cons]
    by_cases hshort : (encode message).length < 2 ^ 32
    · have hread := (frameReader_reads (messageToBytes encode message ++
        messages.flatMap (messageToBytes encode)) _ _).mpr ⟨_, isFrame_messageToBytes encode hshort, rfl⟩
      rw [frameReader.drain_some hread, ← ih, Prod.ext_iff, Prod.ext_iff]
      simp only [List.cons.injEq, true_and, hshort]
    · have hsplit : messageToBytes encode message ++ messages.flatMap (messageToBytes encode) =
          (0 :: toBe 4 (2 ^ 32 - 1) ++ (encode message).take (2 ^ 32 - 1)) ++
            ((encode message).drop (2 ^ 32 - 1) ++ messages.flatMap (messageToBytes encode)) := by
        rw [messageToBytes, lenU32, if_neg hshort]
        simp only [List.append_assoc, List.take_append_drop, ← List.append_assoc (List.take _ _)]
      have hread := (frameReader_reads _ _ _).mpr ⟨_, isFrame_truncated encode hshort, hsplit⟩
      rw [frameReader.drain_some hread]
      refine iff_of_false (fun heq => ?_) fun h => hshort h.1
      have hfirst := (List.cons.inj (Prod.mk.inj heq).1).1
      have hlength := congrArg List.length hfirst
      rw [List.length_take_of_le (by omega)] at hlength
      omega

end Messages

/-- However a stream is cut, the frames at its front come out in order and the rest stays in the buffer; the messages
of a stream of encodings come out again exactly when each is shorter than 2^32 bytes. -/
theorem decoded_frames {Message : Type} (encode : Message → Bytes) (chunks : List Bytes) :
    Reader.Front IsFrame chunks.flatten (GrpcFrameDecoder.new.decodeAll chunks).1
        (GrpcFrameDecoder.new.decodeAll chunks).2.buffer ∧
      ∀ messages : List Message, chunks.flatten = messages.flatMap (messageToBytes encode) →
        (GrpcFrameDecoder.new.decodeAll chunks = (messages.map encode, GrpcFrameDecoder.new) ↔
          ∀ message ∈ messages, (encode message).length < 2 ^ 32) := by
  rw [decodeAll_new]
  refine ⟨Reader.Reads.front_drain frameReader frameReader_reads _, fun messages hstream => ?_⟩
  rw [hstream, ← drain_messages_iff encode messages]
  constructor
  · intro h
    exact Prod.ext (Prod.mk.inj h).1 (congrArg GrpcFrameDecoder.buffer (Prod.mk.inj h).2)
  · intro h
    rw [h, GrpcFrameDecoder.new]

theorem decoded_frames_cut : GrpcFrameDecoder.new.decodeAll [[0, 0, 0], [], [0, 2, 7], [8]] =
    ([[7, 8]], GrpcFrameDecoder.new) :=
  ((decoded_frames (id : Bytes → Bytes) [[0, 0, 0], [], [0, 2, 7], [8]]).2 [[7, 8]] (by decide)).mpr (by decide)

theorem decodeAll_long {message : Bytes} (h : ¬ message.length < 2 ^ 32) :
    ¬ GrpcFrameDecoder.new.decodeAll [messageToBytes id message] = ([message], GrpcFrameDecoder.new) := by
  intro heq
  have hstream : [messageToBytes id message].flatten = [message].flatMap (messageToBytes id) := by
    rw [List.flatten_singleton, List.flatMap_singleton]
  rw [decodeAll_new, hstream] at heq
  have hdrained : frameReader.drain ([message].flatMap (messageToBytes id)) = ([message].map id, []) :=
    Prod.ext (Prod.mk.inj heq).1 (congrArg GrpcFrameDecoder.buffer (Prod.mk.inj heq).2)
  exact h ((drain_messages_iff id [message]).mp hdrained message (List.mem_singleton_self message))

theorem long_message_cut : ¬ GrpcFrameDecoder.new.decodeAll [messageToBytes id (List.replicate (2 ^ 32) 0)] =
    ([List.replicate (2 ^ 32) 0], GrpcFrameDecoder.new) := by
  have hlength (n : Nat) (hn : 2 ^ 32 ≤ n) : ¬ (List.replicate n (0 : UInt8)).length < 2 ^ 32 := by
    rw [List.length_replicate]
    omega
  exact decodeAll_long (hlength _ (Nat.le_refl _))

end Gqlforge.GrpcFrames
