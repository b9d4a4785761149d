import Reassembly.Codec.Snappy.Plan

/-!
# The framed Snappy container

A container starts with an eight-byte magic and two version numbers that nobody checks. Behind
them stand frames: a big-endian length of four bytes, then that many bytes holding one raw block.
An empty frame holds no block and contributes nothing. Reading stops where no complete frame
follows, so padding behind the last frame is never looked at.

A payload without the magic is a single raw block.
-/

namespace Reassembly.Snappy

/-- The bytes that announce a container. -/
def magic : Bytes := [0x82, 0x53, 0x4e, 0x41, 0x50, 0x50, 0x59, 0x00]

/-- The number of bytes before the first frame. -/
def headerLength : Nat := 16

/-- The container's header as it is written: the magic, then version 1 twice. -/
def header : Bytes := magic ++ Bytes.ofNatBigEndian 4 1 ++ Bytes.ofNatBigEndian 4 1

/-- The size of the pieces that are framed unless a writer asks for another. -/
def defaultFrameSize : Nat := 32768

/-- Why a Snappy payload is refused. -/
inductive PayloadFault
  | block (fault : Fault)
  | truncatedHeader (length : Nat)
  | frame (number : Nat) (fault : Fault)
  deriving Repr, DecidableEq

/-- The wording of a fault. -/
def PayloadFault.message : PayloadFault → String
  | .block fault => s!"snappy: {fault.message}"
  | .truncatedHeader length => s!"framed snappy header truncated at {length} bytes"
  | .frame number fault => s!"snappy frame {number}: {fault.message}"

/-- The complete frames at the start of a byte string. -/
def framesOf (bytes : Bytes) : List Bytes :=
  match bytes with
  | a :: b :: c :: d :: rest =>
    let length := Bytes.bigEndian [a, b, c, d]
    let frame := rest.take length
    if frame.length < length then [] else frame :: framesOf (rest.drop length)
  | _ => []
termination_by bytes.length
decreasing_by
  simp only [List.length_drop, List.length_cons]
  omega

/-- The data of one frame. -/
def decodeFrame (frame : Bytes) : Except Fault Bytes :=
  if frame = [] then .ok [] else decode frame

/-- The data of consecutive frames, the first of which has the given number. -/
def decodeFrames : (number : Nat) → List Bytes → Except PayloadFault Bytes
  | _, [] => .ok []
  | number, frame :: rest =>
    match decodeFrame frame with
    | .error fault => .error (.frame number fault)
    | .ok data => do return data ++ (← decodeFrames (number + 1) rest)

/-- The data of a container. -/
def decodeContainer (payload : Bytes) : Except PayloadFault Bytes :=
  if payload.length < headerLength then .error (.truncatedHeader payload.length)
  else decodeFrames 0 (framesOf (payload.drop headerLength))

/-- The data of a payload, container or raw block. -/
def decodePayload (payload : Bytes) : Except PayloadFault Bytes :=
  if magic <+: payload then decodeContainer payload
  else (decode payload).mapError .block

/-- Write one frame. -/
def encodeFrame (piece : Bytes) : Bytes :=
  let frame := encode piece
  Bytes.ofNatBigEndian 4 frame.length ++ frame

/-- Write a container of frames that hold `frameSize` bytes each, and one byte when that is
zero. -/
def encodeContainer (data : Bytes) (frameSize : Nat) : Bytes :=
  header ++ (split (max frameSize 1) data).flatMap encodeFrame

end Reassembly.Snappy
