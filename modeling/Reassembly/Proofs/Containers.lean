import Reassembly.Proofs.Codec.Snappy.Prefix

/-!
# What a Snappy container is

A payload that starts with the magic and has a whole header is taken apart in one way only: a version, frames
behind their lengths, and a tail that holds no complete frame. It gives the data of its frames one behind the
other, and otherwise it is refused for the first frame that cannot be read. What stands in the tail does not
matter. No block starts with the magic, so that a payload is never both.
-/

namespace Reassembly.Snappy

/-- No complete frame starts here: the bytes are too few for a length, or the length announces more than
there is. -/
def EndsFrames (tail : Bytes) : Prop := tail.length < 4 ∨ tail.length - 4 < Bytes.bigEndian (tail.take 4)

/-- A container taken apart. -/
structure Framing where
  version : Bytes
  frames : List Bytes
  tail : Bytes
  version_length : version.length = 8
  frames_short : ∀ frame ∈ frames, frame.length < Nat.pow 256 4
  tail_ends : EndsFrames tail

/-- The payload that is taken apart. -/
def Framing.payload (framing : Framing) : Bytes := container framing.version framing.frames ++ framing.tail

/-- The data of a frame: an empty one has none, and any other is a block. -/
inductive Yields : (frame piece : Bytes) → Prop
  | empty : Yields [] []
  | block {frame piece : Bytes} (h : decode frame = .ok piece) : Yields frame piece

/-- The frame of a number, counted from zero, is not empty and cannot be read, and all before it can. -/
def FirstRejected (frames : List Bytes) (number : Nat) (fault : Fault) : Prop :=
  ∃ before frame after, frames = before ++ frame :: after ∧ before.length = number ∧
    (∀ earlier ∈ before, ∃ piece, Yields earlier piece) ∧ frame ≠ [] ∧ decode frame = .error fault

/-- The container of blocks that any writer of blocks makes of the parts of data. -/
def containerBy (write : Bytes → Bytes) (data : Bytes) (frameSize : Nat) : Bytes :=
  container (Bytes.ofNatBigEndian 4 1 ++ Bytes.ofNatBigEndian 4 1) ((split (max frameSize 1) data).map write)

section Parsing

variable {bytes tail : Bytes}

/-- Where no complete frame starts there are no frames. -/
theorem framesOf_eq_nil_iff : framesOf bytes = [] ↔ EndsFrames bytes := by
  rw [EndsFrames]
  match bytes with
  | [] | [_] | [_, _] | [_, _, _] => simp [framesOf]
  | a :: b :: c :: d :: rest =>
    have hlead : (a :: b :: c :: d :: rest).take 4 = [a, b, c, d] := rfl
    rw [framesOf, hlead]
    simp only [List.length_take, List.length_cons]
    split
    · next hshort => exact iff_of_true rfl (.inr (by omega))
    · next henough =>
      refine iff_of_false (List.cons_ne_nil _ _) ?_
      omega

/-- Bytes are their frames and a tail behind them. -/
theorem exists_tail (bytes : Bytes) :
    ∃ tail, (framesOf bytes).flatMap frame ++ tail = bytes ∧ EndsFrames tail ∧
      ∀ frame ∈ framesOf bytes, frame.length < Nat.pow 256 4 := by
  fun_induction framesOf bytes with
  | case1 a b c d rest length found hshort =>
    refine ⟨a :: b :: c :: d :: rest, rfl, framesOf_eq_nil_iff.mp ?_, by simp⟩
    rw [framesOf, if_pos hshort]
  | case2 a b c d rest length found henough ih =>
    obtain ⟨tail, hrest, htail, hshort⟩ := ih
    have hlength : found.length = length := by
      have hle : found.length ≤ length := List.length_take_le _ _
      omega
    have hannounced : Bytes.ofNatBigEndian 4 found.length = [a, b, c, d] := by
      rw [hlength]
      exact Bytes.ofNat_bigEndian [a, b, c, d]
    refine ⟨tail, ?_, htail, ?_⟩
    · rw [List.flatMap_cons, frame, hannounced, List.append_assoc, hrest, List.append_assoc, List.take_append_drop]
      rfl
    · intro other hother
      rcases List.mem_cons.mp hother with rfl | hother
      · rw [hlength]
        exact Bytes.bigEndian_lt [a, b, c, d]
      · exact hshort other hother
  | case3 bytes hfew =>
    refine ⟨bytes, rfl, .inl ?_, by simp⟩
    rcases bytes with _ | ⟨a, _ | ⟨b, _ | ⟨c, _ | ⟨d, rest⟩⟩⟩⟩
    · simp
    · simp
    · simp
    · simp
    · exact absurd rfl (hfew a b c d rest)

end Parsing

namespace Framing

variable (framing : Framing)

/-- A container starts with the magic. -/
theorem magic_isPrefix : magic <+: framing.payload :=
  ⟨framing.version ++ (framing.frames.flatMap frame ++ framing.tail), by
    simp only [payload, container, List.append_assoc]⟩

/-- The header of a container is its magic and its version. -/
theorem take_payload : framing.payload.take headerLength = magic ++ framing.version := by
  have hheader : (magic ++ framing.version).length = headerLength := by
    rw [List.length_append, framing.version_length]
    rfl
  rw [payload, container, List.append_assoc, List.take_left' hheader]

/-- Behind the header of a container stand its frames and its tail. -/
theorem drop_payload : framing.payload.drop headerLength = framing.frames.flatMap frame ++ framing.tail := by
  have hheader : (magic ++ framing.version).length = headerLength := by
    rw [List.length_append, framing.version_length]
    rfl
  rw [payload, container, List.append_assoc, List.drop_left' hheader]

/-- A container has a whole header. -/
theorem headerLength_le : headerLength ≤ framing.payload.length := by
  have htake := congrArg List.length framing.take_payload
  rw [List.length_take, List.length_append, framing.version_length] at htake
  have hmagic : magic.length + 8 = headerLength := rfl
  omega

/-- The frames of a container are those that are found behind its header. -/
theorem framesOf_payload : framesOf (framing.payload.drop headerLength) = framing.frames := by
  rw [drop_payload, framesOf_flatMap framing.frames_short, framesOf_eq_nil_iff.mpr framing.tail_ends, List.append_nil]

/-- Containers that are the same payload are taken apart alike. -/
theorem eq_of_payload_eq {first second : Framing} (h : first.payload = second.payload) : first = second := by
  have hversion : first.version = second.version := by
    have htake := first.take_payload
    rw [h, second.take_payload] at htake
    exact (List.append_cancel_left htake).symm
  have hframes : first.frames = second.frames := by rw [← first.framesOf_payload, h, second.framesOf_payload]
  have htail : first.tail = second.tail := by
    have hdrop := first.drop_payload
    rw [h, second.drop_payload, hframes] at hdrop
    exact (List.append_cancel_left hdrop).symm
  cases first
  cases second
  simp only at hversion hframes htail
  subst hversion hframes htail
  rfl

/-- A payload with the magic and a whole header can be taken apart. -/
theorem exists_of_magic {bytes : Bytes} (hmagic : magic <+: bytes) (hlength : headerLength ≤ bytes.length) :
    ∃ framing : Framing, framing.payload = bytes := by
  obtain ⟨rest, rfl⟩ := hmagic
  obtain ⟨tail, hframes, htail, hshort⟩ := exists_tail (rest.drop 8)
  have hversion : (rest.take 8).length = 8 := by
    rw [List.length_append] at hlength
    have hmagic : magic.length + 8 = headerLength := rfl
    rw [List.length_take]
    omega
  refine ⟨⟨rest.take 8, framesOf (rest.drop 8), tail, hversion, hshort, htail⟩, ?_⟩
  rw [payload, container, List.append_assoc, hframes, List.append_assoc, List.take_append_drop]

/-- A container is read frame by frame. -/
theorem decodePayload_eq : decodePayload framing.payload = decodeFrames 0 framing.frames := by
  rw [decodePayload, if_pos framing.magic_isPrefix, decodeContainer, if_neg (Nat.not_lt.mpr framing.headerLength_le),
    framing.framesOf_payload]

end Framing

section Frames

variable {frames : List Bytes} {number : Nat}

/-- A frame is read as what it yields. -/
theorem decodeFrame_eq_ok_iff {frame piece : Bytes} : decodeFrame frame = .ok piece ↔ Yields frame piece := by
  rw [decodeFrame]
  constructor
  · intro h
    split at h
    · next hempty =>
      obtain rfl := Except.ok.inj h
      rw [hempty]
      exact .empty
    · exact .block h
  · rintro (_ | h)
    · rfl
    · rw [if_neg (ne_nil_of_decode h), h]

/-- A frame is refused when it is not empty and no block. -/
theorem decodeFrame_eq_error_iff {frame : Bytes} {fault : Fault} :
    decodeFrame frame = .error fault ↔ frame ≠ [] ∧ decode frame = .error fault := by
  rw [decodeFrame]
  by_cases hempty : frame = [] <;> simp [hempty]

/-- Frames are read when each of them is. -/
theorem decodeFrames_eq_ok_iff {data : Bytes} :
    decodeFrames number frames = .ok data ↔ ∃ pieces, List.Forall₂ Yields frames pieces ∧ pieces.flatten = data := by
  induction frames generalizing number data with
  | nil => simp [decodeFrames]
  | cons frame rest ih =>
    rw [decodeFrames]
    constructor
    · intro h
      cases hframe : decodeFrame frame with
      | error fault => simp [hframe] at h
      | ok piece =>
        simp only [hframe] at h
        obtain ⟨later, hlater, hjoined⟩ := Result.bind_eq_ok_iff.mp h
        obtain ⟨pieces, hpieces, rfl⟩ := ih.mp hlater
        exact ⟨piece :: pieces, .cons (decodeFrame_eq_ok_iff.mp hframe) hpieces, Except.ok.inj hjoined⟩
    · rintro ⟨pieces, hpieces, rfl⟩
      cases hpieces with
      | cons hfirst hrest =>
        rw [decodeFrame_eq_ok_iff.mpr hfirst]
        exact Result.bind_eq_ok_iff.mpr ⟨_, ih.mpr ⟨_, hrest, rfl⟩, rfl⟩

/-- The first of some frames is rejected, or it is read and a later one is the first. -/
theorem firstRejected_cons_iff {frame : Bytes} {rest : List Bytes} {fault : Fault} :
    FirstRejected (frame :: rest) number fault ↔
      number = 0 ∧ decodeFrame frame = .error fault ∨
        (∃ piece, Yields frame piece) ∧ ∃ later, number = later + 1 ∧ FirstRejected rest later fault := by
  rw [decodeFrame_eq_error_iff]
  constructor
  · rintro ⟨before, found, after, hframes, rfl, hbefore, hrejected⟩
    cases before with
    | nil =>
      obtain ⟨rfl, -⟩ := List.cons.inj hframes
      exact .inl ⟨rfl, hrejected⟩
    | cons first before =>
      obtain ⟨rfl, rfl⟩ := List.cons.inj hframes
      exact .inr ⟨hbefore frame List.mem_cons_self, before.length, rfl, before, found, after, rfl, rfl,
        fun earlier hearlier => hbefore earlier (List.mem_cons_of_mem _ hearlier), hrejected⟩
  · rintro (⟨rfl, hrejected⟩ | ⟨hyields, later, rfl, before, found, after, rfl, rfl, hbefore, hrejected⟩)
    · exact ⟨[], frame, rest, rfl, rfl, by simp, hrejected⟩
    · refine ⟨frame :: before, found, after, rfl, rfl, fun earlier hearlier => ?_, hrejected⟩
      rcases List.mem_cons.mp hearlier with rfl | hearlier
      · exact hyields
      · exact hbefore earlier hearlier

/-- Frames are refused for the first of them that is rejected, under its number. -/
theorem decodeFrames_eq_error_iff {fault : PayloadFault} :
    decodeFrames number frames = .error fault ↔
      ∃ later cause, FirstRejected frames later cause ∧ fault = .frame (number + later) cause := by
  induction frames generalizing number with
  | nil => simp [decodeFrames, FirstRejected]
  | cons frame rest ih =>
    rw [decodeFrames]
    simp only [firstRejected_cons_iff]
    cases hframe : decodeFrame frame with
    | error cause =>
      constructor
      · intro h
        exact ⟨0, cause, .inl ⟨rfl, rfl⟩, (Except.error.inj h).symm⟩
      · rintro ⟨later, other, ⟨rfl, hother⟩ | ⟨⟨piece, hyields⟩, -⟩, rfl⟩
        · obtain rfl := Except.error.inj hother
          rfl
        · simp [decodeFrame_eq_ok_iff.mpr hyields] at hframe
    | ok piece =>
      simp only
      rw [Result.bind_eq_error_iff]
      simp only [Result.pure_eq_ok, reduceCtorEq, and_false, exists_false, or_false, ih]
      constructor
      · rintro ⟨later, cause, hrejected, rfl⟩
        exact ⟨later + 1, cause, .inr ⟨⟨piece, decodeFrame_eq_ok_iff.mp hframe⟩, later, rfl, hrejected⟩,
          by rw [Nat.add_right_comm, Nat.add_assoc]⟩
      · rintro ⟨later, cause, ⟨-, ⟨⟩⟩ | ⟨-, earlier, rfl, hrejected⟩, rfl⟩
        exact ⟨earlier, cause, hrejected, by rw [Nat.add_right_comm, Nat.add_assoc]⟩

end Frames

section Payloads

variable {payload data : Bytes}

/-- A payload with the magic is read when it can be taken apart into frames that are. -/
theorem decodePayload_eq_ok_iff (hmagic : magic <+: payload) :
    decodePayload payload = .ok data ↔ ∃ framing : Framing, framing.payload = payload ∧
      ∃ pieces, List.Forall₂ Yields framing.frames pieces ∧ pieces.flatten = data := by
  constructor
  · intro h
    have hlength : headerLength ≤ payload.length := by
      by_contra hshort
      rw [decodePayload, if_pos hmagic, decodeContainer, if_pos (Nat.lt_of_not_le hshort)] at h
      simp at h
    obtain ⟨framing, rfl⟩ := Framing.exists_of_magic hmagic hlength
    rw [framing.decodePayload_eq, decodeFrames_eq_ok_iff] at h
    exact ⟨framing, rfl, h⟩
  · rintro ⟨framing, rfl, h⟩
    rw [framing.decodePayload_eq, decodeFrames_eq_ok_iff]
    exact h

/-- A payload with the magic is refused when its header is not whole, and for the first of its frames that is
rejected. -/
theorem decodePayload_eq_error_iff {fault : PayloadFault} (hmagic : magic <+: payload) :
    decodePayload payload = .error fault ↔
      payload.length < headerLength ∧ fault = .truncatedHeader payload.length ∨
        ∃ framing : Framing, framing.payload = payload ∧
          ∃ number cause, FirstRejected framing.frames number cause ∧ fault = .frame number cause := by
  have hframed : ∀ framing : Framing, decodePayload framing.payload = .error fault ↔
      ∃ number cause, FirstRejected framing.frames number cause ∧ fault = .frame number cause := by
    intro framing
    rw [framing.decodePayload_eq, decodeFrames_eq_error_iff]
    simp only [Nat.zero_add]
  constructor
  · intro h
    by_cases hlength : headerLength ≤ payload.length
    · obtain ⟨framing, rfl⟩ := Framing.exists_of_magic hmagic hlength
      exact .inr ⟨framing, rfl, (hframed framing).mp h⟩
    · have hshort := Nat.lt_of_not_le hlength
      rw [decodePayload, if_pos hmagic, decodeContainer, if_pos hshort] at h
      exact .inl ⟨hshort, (Except.error.inj h).symm⟩
  · rintro (⟨hshort, rfl⟩ | ⟨framing, rfl, h⟩)
    · rw [decodePayload, if_pos hmagic, decodeContainer, if_pos hshort]
    · exact (hframed framing).mpr h

/-- The container of what a writer makes of data gives the data back, with the padding of a cipher behind it,
when the blocks of the writer can be read and framed. -/
theorem decodePayload_containerBy {write : Bytes → Bytes} {frameSize n : Nat} (hn : n ≤ Aes.blockSize)
    (hwrite : ∀ piece ∈ split (max frameSize 1) data,
      decode (write piece) = .ok piece ∧ (write piece).length < Nat.pow 256 4) :
    decodePayload (containerBy write data frameSize ++ List.replicate n (UInt8.ofNat n)) = .ok data := by
  have hshort : ∀ block ∈ (split (max frameSize 1) data).map write, block.length < Nat.pow 256 4 := by
    intro block hblock
    obtain ⟨piece, hpiece, rfl⟩ := List.mem_map.mp hblock
    exact (hwrite piece hpiece).2
  have hreads : List.Forall₂ (fun block piece => decode block = .ok piece) ((split (max frameSize 1) data).map write)
      (split (max frameSize 1) data) := by
    rw [List.forall₂_map_left_iff]
    exact List.forall₂_same.mpr fun piece hpiece => (hwrite piece hpiece).1
  rw [containerBy, decodePayload_container rfl hshort hreads (framesOf_replicate hn),
    flatten_split (Nat.le_max_right _ _)]

/-- What can be read as a block is read as one. -/
theorem decodePayload_of_decode (h : decode payload = .ok data) : decodePayload payload = .ok data := by
  have hmagic : ¬ magic <+: payload := by
    intro hmagic
    obtain ⟨fault, hfault⟩ := decode_of_magic hmagic
    simp [hfault] at h
  rw [decodePayload, if_neg hmagic, h]
  rfl

end Payloads

/-- Containers are read exactly.

A payload with the magic and a whole header is taken apart in one way. It is read when every frame in it that is
not empty is a block, and then gives their data one behind the other; otherwise it is refused for its header, or for
the first frame that is rejected, under the number of that frame. So data comes back from its container with any
padding of a cipher behind it, whoever writes the blocks as long as they can be read and framed. No payload
with the magic is a block, and whatever is a block is read as that block. -/
theorem containers_read_exactly :
    (∀ payload, magic <+: payload → headerLength ≤ payload.length →
      ∃! framing : Framing, framing.payload = payload) ∧
    (∀ payload data, magic <+: payload → (decodePayload payload = .ok data ↔
      headerLength ≤ payload.length ∧ ∃ framing : Framing, framing.payload = payload ∧
        ∃ pieces, List.Forall₂ Yields framing.frames pieces ∧ pieces.flatten = data)) ∧
    (∀ payload fault, magic <+: payload → (decodePayload payload = .error fault ↔
      payload.length < headerLength ∧ fault = .truncatedHeader payload.length ∨
        ∃ framing : Framing, framing.payload = payload ∧
          ∃ number cause, FirstRejected framing.frames number cause ∧ fault = .frame number cause)) ∧
    (∀ write data frameSize n, n ≤ 16 → (∀ piece ∈ split (max frameSize 1) data,
        decode (write piece) = .ok piece ∧ (write piece).length < Nat.pow 256 4) →
      decodePayload (containerBy write data frameSize ++ List.replicate n (UInt8.ofNat n)) = .ok data) ∧
    (∀ data frameSize, encodeContainer data frameSize = containerBy encode data frameSize) ∧
    (∀ payload, magic <+: payload → ∃ fault, decode payload = .error fault) ∧
    ∀ payload data, decode payload = .ok data → decodePayload payload = .ok data := by
  refine ⟨fun payload hmagic hlength => ?_, fun payload data hmagic => ?_,
    fun _ _ => decodePayload_eq_error_iff, fun _ _ _ _ hn => decodePayload_containerBy hn,
    encodeContainer_eq, fun _ => decode_of_magic, fun _ _ => decodePayload_of_decode⟩
  · obtain ⟨framing, hframing⟩ := Framing.exists_of_magic hmagic hlength
    exact ⟨framing, hframing, fun other hother => Framing.eq_of_payload_eq (hother.trans hframing.symm)⟩
  · rw [decodePayload_eq_ok_iff hmagic]
    refine ⟨fun h => ⟨?_, h⟩, And.right⟩
    obtain ⟨framing, rfl, -⟩ := h
    exact framing.headerLength_le

/-- A frame of three bytes, an empty one, and a tail that announces more than there is. -/
def Framing.sample : Framing where
  version := List.replicate 8 0
  frames := [[3, 8, 1, 2, 3], []]
  tail := [0, 0, 0, 9, 1]
  version_length := rfl
  frames_short := by decide
  tail_ends := .inr (by decide)

/-- An empty frame and one that is no block. -/
def Framing.rejectedSample : Framing where
  version := List.replicate 8 0
  frames := [[], [0xff]]
  tail := []
  version_length := rfl
  frames_short := by decide
  tail_ends := .inl (by decide)

/-- The first sample is taken apart in one way and gives three bytes, the second is refused for its second frame, and
a container of two frames is read with padding behind it. -/
theorem containers_read_exactly_sample :
    (∃! framing : Framing, framing.payload = Framing.sample.payload) ∧
      decodePayload Framing.sample.payload = .ok [1, 2, 3] ∧
      decodePayload Framing.rejectedSample.payload = .error (.frame 1 .header) ∧
      decodePayload (encodeContainer [1, 2, 3] 2 ++ List.replicate 5 5) = .ok [1, 2, 3] ∧
      (∃ fault, decode Framing.sample.payload = .error fault) ∧
      decodePayload [3, 8, 1, 2, 3] = .ok [1, 2, 3] := by
  obtain ⟨hunique, hread, hrefused, hpadded, hwritten, hmagic, hblock⟩ := containers_read_exactly
  refine ⟨hunique _ Framing.sample.magic_isPrefix Framing.sample.headerLength_le,
    (hread _ _ Framing.sample.magic_isPrefix).mpr
      ⟨Framing.sample.headerLength_le, .sample, rfl, [[1, 2, 3], []], ?_, rfl⟩,
    (hrefused _ _ Framing.rejectedSample.magic_isPrefix).mpr (.inr ⟨.rejectedSample, rfl, 1, .header, ?_, rfl⟩), ?_,
    hmagic _ Framing.sample.magic_isPrefix, hblock _ _ (by decide +kernel)⟩
  · exact .cons (.block (by decide +kernel)) (.cons .empty .nil)
  · exact ⟨[[]], [0xff], [], rfl, rfl, fun earlier hearlier => ⟨[], by
      obtain rfl := List.mem_singleton.mp hearlier
      exact .empty⟩, by decide, rfl⟩
  · rw [hwritten]
    exact hpadded _ _ _ 5 (by decide) (by decide +kernel)

end Reassembly.Snappy
