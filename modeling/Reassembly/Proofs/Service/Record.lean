import Reassembly.Layout
import Reassembly.Service.Interface

/-!
# What a service is asked

A retrieval asks a service two kinds of questions: for the manifest of a file, and for the payload at a location. A
service that is recorded answers as it does without, and writes every question down. That a download has arrived or
is abandoned is no question.
-/

namespace Reassembly

variable {σ : Type}

/-- A question to a service. -/
inductive Question
  | manifest (fileId : String)
  | payload (location : String)
  deriving Repr, DecidableEq

/-- The question for the payload of a chunk. -/
def Question.ofChunk (chunk : Chunk) : Question := .payload chunk.location

namespace Service

/-- A service that records the questions it is asked. -/
def recorded (service : Service σ) : Service (σ × List Question) where
  lookup fileId := fun (backend, record) =>
    let (answer, backend) := service.lookup fileId backend
    (answer, backend, record ++ [.manifest fileId])
  request now location := fun (backend, record) =>
    let (download, backend) := service.request now location backend
    (download, backend, record ++ [.payload location])
  arrived download := fun (backend, record) => ((), (service.arrived download backend).2, record)
  abandoned download := fun (backend, record) => ((), (service.abandoned download backend).2, record)

end Service

end Reassembly
