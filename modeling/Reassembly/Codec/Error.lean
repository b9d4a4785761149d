import Reassembly.Codec.Compression
import Reassembly.Codec.ContentKey
import Reassembly.Codec.SealedBlock

/-!
# Codec errors

The three things that can go wrong between a stored payload and its data. Each carries the cause
that its codec found, or a reason in words when the cause was found elsewhere.
-/

namespace Reassembly

/-- A cause that a codec found, or a reason in words. -/
inductive Reason (α : Type)
  | found (fault : α)
  | words (text : String)
  deriving Repr, DecidableEq

/-- The wording of a reason, given the wording of causes. -/
def Reason.message {α : Type} (wording : α → String) : Reason α → String
  | .found fault => wording fault
  | .words text => text

/-- A failure of a codec. -/
inductive CodecError
  | keyUnwrap (reason : Reason ContentKey.Fault)
  | blockDecrypt (reason : Reason SealedBlock.Fault)
  | decompress (reason : Reason Compression.Fault)
  deriving Repr, DecidableEq

/-- The wording of a codec error. -/
def CodecError.message : CodecError → String
  | .keyUnwrap reason => s!"Key unwrap error: {reason.message ContentKey.Fault.message}"
  | .blockDecrypt reason => s!"Block decrypt error: {reason.message SealedBlock.Fault.message}"
  | .decompress reason => s!"Decompress error: {reason.message Compression.Fault.message}"

end Reassembly
