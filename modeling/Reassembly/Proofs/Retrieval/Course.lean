import Reassembly.Proofs.Retrieval.Work
import Reassembly.Retrieval.Stream

/-!
# The course of a stream

A stream with what has come of its look-up and what its polls have brought. The look-up is asked for by the first poll
of a stream that is not open, whether the answer is there when the poll looks for it or not, and never again. What a
poll makes of the tasks that a stream lets go of is not said here.
-/

namespace Reassembly

variable {σ : Type}

namespace FragmentStream

/-- What is done to the fetch of a stream that is fetching. -/
theorem onFetch_of_fetching {stream : FragmentStream} {fetch : Fetch} (h : stream.holding = .fetching fetch)
    (change : Fetch → StateM σ Fetch) (backend : σ) :
    stream.onFetch change backend =
      ({ stream with holding := .fetching (change fetch backend).1 }, (change fetch backend).2) := by
  rw [onFetch, h]
  rfl

/-- A stream that is not fetching has no fetch to which anything could be done. -/
theorem onFetch_of_holding {stream : FragmentStream} (h : ∀ fetch, stream.holding ≠ .fetching fetch)
    (change : Fetch → StateM σ Fetch) (backend : σ) : stream.onFetch change backend = (stream, backend) := by
  rw [onFetch]
  cases hholding : stream.holding with
  | fetching fetch => exact absurd hholding (h fetch)
  | unopened | released => rfl

end FragmentStream

/-- The course of a stream: what has come of its look-up, and what its polls have brought. -/
structure Course where
  stream : FragmentStream
  answer : Option (Except ServiceError Manifest) := none
  found : List (Poll Block) := []

namespace Course

/-- Look the file of a stream up, if the stream is not open and this has not been done. -/
def ask (service : Service σ) (course : Course) : StateM σ Course := do
  if course.stream.isUnopened && course.answer.isNone then
    return { course with answer := some (← service.lookup course.stream.fileId) }
  else return course

/-- The answer that a poll finds, if the look-up is answered by now. -/
def known (course : Course) (answered : Bool) : Option (Except ServiceError Manifest) :=
  if answered then course.answer else none

/-- Poll a stream whose look-up is answered by now or not. -/
def advance (course : Course) (answered : Bool) : Course :=
  let (poll, stream) := course.stream.poll (course.known answered)
  { course with stream, found := course.found ++ [poll] }

/-- A stream that has asked for its manifest, or does not need it, asks for nothing when it is polled. -/
theorem ask_of_known (service : Service σ) (course : Course)
    (h : course.stream.isUnopened = false ∨ course.answer.isSome = true) (backend : σ) :
    course.ask service backend = (course, backend) := by
  have hskip : (course.stream.isUnopened && course.answer.isNone) = false := by
    rcases h with h | h
    · rw [h, Bool.false_and]
    · rw [Option.isNone_eq_false_iff.mpr h, Bool.and_false]
  rw [ask, hskip]
  rfl

/-- A stream that is not open and has not asked for its manifest asks for it. -/
theorem ask_of_unopened (service : Service σ) (course : Course) (hunopened : course.stream.isUnopened = true)
    (hanswer : course.answer = none) (backend : σ) :
    course.ask service backend =
      ({ course with answer := some (service.lookup course.stream.fileId backend).1 },
        (service.lookup course.stream.fileId backend).2) := by
  rw [ask, hunopened, hanswer]
  rfl

/-- To ask leaves the stream as it is, and what its polls have brought. -/
theorem ask_keeps (service : Service σ) (course : Course) (backend : σ) :
    (course.ask service backend).1.stream = course.stream ∧ (course.ask service backend).1.found = course.found := by
  rw [ask]
  cases course.stream.isUnopened && course.answer.isNone <;> exact ⟨rfl, rfl⟩

end Course

end Reassembly
