import WireMesh.Cbor.Read
import WireMesh.Chunked

/-!
# Frames on a byte stream

A frame travels on a byte stream as the length of its body, in four bytes, and its body in CBOR
(`byte-stream-connection.ts`). An empty body is a marker that a stream has been opened.
-/

namespace WireMesh.TypeScript

open Cbor Chunked

def lengthPrefixBytes : ℕ := 4

def maxFrameBytes : ℕ := 100 * (1024 * 1024)

def streamOpenMarker : Bytes := List.replicate lengthPrefixBytes 0

/-- The encodings of the CBOR library and the schema of frames. What is encoded is decoded again,
    and is at least one byte. -/
structure StreamCodec (Frame Value : Type) where
  encode : Frame → Bytes
  decode : Bytes → Except String Value
  frameSchema : Value → Option Frame
  encode_ne_nil : ∀ frame, encode frame ≠ []
  decode_encode : ∀ frame, ∃ value, decode (encode frame) = .ok value ∧
    frameSchema value = some frame

variable {Frame Value : Type} (codec : StreamCodec Frame Value)

def encodeLengthPrefixedFrame (frame : Frame) : Bytes :=
  bigEndian lengthPrefixBytes (codec.encode frame).length ++ codec.encode frame

def frameTooLong (bodyLength : ℕ) : String :=
  "frame of " ++ toString bodyLength ++ " bytes exceeds the " ++ toString maxFrameBytes ++
    "-byte limit"

/-- What an iteration of the inner loop finds in the buffer. -/
def nextFrame (buffered : Bytes) : Step UInt8 Frame String :=
  if buffered.length < lengthPrefixBytes then .more
  else
    let bodyLength := ofBigEndian (buffered.take lengthPrefixBytes)
    if maxFrameBytes < bodyLength then
      .fail (frameTooLong bodyLength)
    else if buffered.length < lengthPrefixBytes + bodyLength then .more
    else if bodyLength = 0 then .item none (buffered.drop lengthPrefixBytes)
    else
      match codec.decode ((buffered.drop lengthPrefixBytes).take bodyLength) with
      | .error e => .fail e
      -- What is not a known frame is dropped.
      | .ok value => .item (codec.frameSchema value)
          (buffered.drop (lengthPrefixBytes + bodyLength))

/-- A buffer that is not too short begins with a body, unless the body is too long. -/
theorem nextFrame_cases (buffered : Bytes) :
    nextFrame codec buffered = .more ∨
    (∃ e, ∀ c, nextFrame codec (buffered ++ c) = .fail e) ∨
    ∃ body rest, body.length ≤ maxFrameBytes ∧
      buffered = bigEndian lengthPrefixBytes body.length ++ body ++ rest := by
  by_cases hshort : buffered.length < lengthPrefixBytes
  · exact .inl (if_pos hshort)
  have htake : (buffered.take lengthPrefixBytes).length = lengthPrefixBytes := by
    rw [List.length_take, min_eq_left (not_lt.1 hshort)]
  by_cases hlong : maxFrameBytes < ofBigEndian (buffered.take lengthPrefixBytes)
  · refine .inr (.inl ⟨frameTooLong (ofBigEndian (buffered.take lengthPrefixBytes)), fun c => ?_⟩)
    grind [nextFrame]
  by_cases hpart : buffered.length <
      lengthPrefixBytes + ofBigEndian (buffered.take lengthPrefixBytes)
  · grind [nextFrame]
  · have hbody : ((buffered.drop lengthPrefixBytes).take
        (ofBigEndian (buffered.take lengthPrefixBytes))).length =
        ofBigEndian (buffered.take lengthPrefixBytes) := by
      rw [List.length_take, List.length_drop]
      omega
    grind [bigEndian_ofBigEndian, List.take_append_drop]

variable {codec} {buffered rest c : Bytes} {x : Option Frame}

/-- What a buffer holds at least: the length of a body, and the body. -/
theorem nextFrame_of_body {body : Bytes} (hbody : body.length ≤ maxFrameBytes) (c : Bytes) :
    nextFrame codec (bigEndian lengthPrefixBytes body.length ++ body ++ c) =
      if body = [] then .item none c
      else
        match codec.decode body with
        | .error e => .fail e
        | .ok value => .item (codec.frameSchema value) c := by
  have hlength : (bigEndian lengthPrefixBytes body.length).length = lengthPrefixBytes :=
    length_bigEndian _ _
  have hvalue : ofBigEndian ((bigEndian lengthPrefixBytes body.length ++ (body ++ c)).take
      lengthPrefixBytes) = body.length := by
    rw [List.take_left' hlength, ofBigEndian_bigEndian]
    exact hbody.trans_lt (by decide)
  rw [List.append_assoc, nextFrame, if_neg (by simp [hlength])]
  dsimp only
  rw [hvalue, if_neg (not_lt.2 hbody), if_neg (by simp [hlength]), List.drop_left' hlength,
    List.take_left, ← List.drop_drop, List.drop_left' hlength, List.drop_left]
  by_cases hnil : body = [] <;> simp [hnil]

theorem nextFrame_fail_append {e : String} (h : nextFrame codec buffered = .fail e) (c : Bytes) :
    nextFrame codec (buffered ++ c) = .fail e := by
  rcases nextFrame_cases codec buffered with hmore | ⟨e', hfail⟩ | ⟨body, rest, hbody, rfl⟩
  · rw [hmore] at h
    cases h
  · have hsame := hfail []
    grind
  · grind [nextFrame_of_body]

theorem nextFrame_item_append (h : nextFrame codec buffered = .item x rest) (c : Bytes) :
    rest.length < buffered.length ∧ nextFrame codec (buffered ++ c) = .item x (rest ++ c) := by
  rcases nextFrame_cases codec buffered with hmore | ⟨e', hfail⟩ | ⟨body, rest', hbody, rfl⟩
  · rw [hmore] at h
    cases h
  · have hsame := hfail []
    rw [List.append_nil, h] at hsame
    cases hsame
  · grind [nextFrame_of_body, lengthPrefixBytes, length_bigEndian]

variable (codec)

/-- The loop that reads frames. -/
def frameReader : Chunked.Reader UInt8 Frame String where
  step := nextFrame codec
  step_nil := rfl
  item_shorter _ _ _ h := (nextFrame_item_append h []).1
  item_append _ _ _ c h := (nextFrame_item_append h c).2
  fail_append _ _ c h := nextFrame_fail_append h c

/-- The frames, and either what is left of the stream at its end or the error. -/
def readFrames (chunks : List Bytes) : List Frame × Except String Bytes :=
  (frameReader codec).read chunks

/-! ## Chunking -/

/-- What is written for a frame, or to open the stream. -/
def written : Option Frame → Bytes
  | some frame => encodeLengthPrefixedFrame codec frame
  | none => streamOpenMarker

theorem nextFrame_written {message : Option Frame}
    (h : ∀ frame ∈ message, (codec.encode frame).length ≤ maxFrameBytes) (c : Bytes) :
    nextFrame codec (written codec message ++ c) = .item message c := by
  rcases message with _ | frame
  · have hempty : ([] : Bytes).length ≤ maxFrameBytes := Nat.zero_le _
    exact nextFrame_of_body hempty c
  · obtain ⟨value, hdecode, hschema⟩ := codec.decode_encode frame
    grind [written, encodeLengthPrefixedFrame, nextFrame_of_body, StreamCodec.encode_ne_nil]

/-- Frames are read as they have been written, however the stream is split. Whatever the stream is,
    the frames and the error, if there is one, depend on its bytes only, and longer streams have the
    same frames first. -/
theorem readFrames_chunk_independent :
    (∀ (messages : List (Option Frame)) (chunks : List Bytes),
      (∀ frame, some frame ∈ messages → (codec.encode frame).length ≤ maxFrameBytes) →
      chunks.flatten = messages.flatMap (written codec) →
      readFrames codec chunks = (messages.reduceOption, .ok [])) ∧
    (∀ chunks chunks' : List Bytes, chunks.flatten = chunks'.flatten →
      readFrames codec chunks = readFrames codec chunks') ∧
    ∀ chunks chunks' : List Bytes, chunks.flatten <+: chunks'.flatten →
      (readFrames codec chunks).1 <+: (readFrames codec chunks').1 ∧
        ∀ e, (readFrames codec chunks).2 = .error e →
          readFrames codec chunks' = readFrames codec chunks := by
  refine ⟨?_, ?_, ?_⟩
  · intro messages chunks hmax hchunks
    rw [readFrames, Chunked.Reader.read_eq_drain, hchunks]
    refine Chunked.Reader.drain_flatMap fun message hmessage c => nextFrame_written codec ?_ c
    rintro frame rfl
    exact hmax frame hmessage
  · intro chunks chunks' hsame
    rw [readFrames, readFrames, Chunked.Reader.read_eq_drain, Chunked.Reader.read_eq_drain, hsame]
  · intro chunks chunks' hpre
    rw [readFrames, readFrames, Chunked.Reader.read_eq_drain, Chunked.Reader.read_eq_drain]
    exact Chunked.Reader.drain_of_isPrefix hpre

/-- Frames of one byte. -/
def StreamCodec.sample : StreamCodec UInt8 UInt8 where
  encode frame := [frame]
  decode
    | [value] => .ok value
    | _ => .error "unexpected end of input"
  frameSchema := some
  encode_ne_nil _ := List.cons_ne_nil _ _
  decode_encode frame := ⟨frame, rfl, rfl⟩

theorem readFrames_chunk_independent_sample :
    readFrames StreamCodec.sample
        [[0, 0], [0, 0, 0, 0, 0], [], [1], [7, 0, 0, 0, 0, 0, 0], [0, 1, 9]] = ([7, 9], .ok []) ∧
      readFrames StreamCodec.sample [[0, 0, 0, 1, 7, 0, 0, 0, 1]] =
        readFrames StreamCodec.sample [[0, 0, 0], [1, 7], [0, 0, 0, 1]] := by
  obtain ⟨hframes, hsame, -⟩ := readFrames_chunk_independent StreamCodec.sample
  constructor
  · exact hframes [none, some 7, none, some 9] _ (by simp [StreamCodec.sample, maxFrameBytes]) rfl
  · exact hsame _ _ rfl

end WireMesh.TypeScript
