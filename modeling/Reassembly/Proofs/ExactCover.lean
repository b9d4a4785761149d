import Reassembly.Proofs.Retrieval.Read
import Reassembly.Proofs.Session.Retrieval

/-!
# The exact cover of a range

The chunks that a range selects are a run of the file's chunks. It holds every byte that the range asks for, and
begins and ends with chunks that hold the first byte and the last, so none of its chunks is there in vain. Empty chunks
hold no byte; those that lie in a run are selected with it, and those at its ends are not, unless the range runs to the
end of the file.
-/

namespace Reassembly

/-- A chunk holds a byte of its file. -/
def Chunk.Holds (chunk : Chunk) (byte : Nat) : Prop := chunk.offset ≤ byte ∧ byte < chunk.stop

namespace ByteRange

variable {range normalized : ByteRange} {fileId : String} {size : Nat}

/-- The bytes that a range asks for in a file of a size: from its first byte on, to the end of the file, unless the
range has a last byte and does not run to the end whatever this is. -/
def Asks (range : ByteRange) (size byte : Nat) : Prop :=
  range.start ≤ byte ∧ byte < size ∧ ∀ last, range.bound? = some last → byte ≤ last

/-- What normalizing a range makes of it: it runs to the end of the file if it did or has no byte before the end for
its last, and is otherwise the same. -/
theorem toEnd_of_normalize (h : range.normalize fileId size = .ok normalized) :
    normalized.toEnd = true ↔ range.toEnd = true ∨ ∃ last, range.last = some last ∧ size ≤ last := by
  rw [normalize] at h
  split at h
  · simp at h
  · split at h
    · next last hlast =>
      obtain rfl := Except.ok.inj h
      by_cases hsize : size ≤ last <;> simp [hsize, hlast, throughEnd]
    · next hlast =>
      obtain rfl := Except.ok.inj h
      simp [hlast]

/-- The last byte of a range counts after it is normalized when it did before and the file has it. -/
theorem bound?_of_normalize (h : range.normalize fileId size = .ok normalized) {last : Nat} :
    normalized.bound? = some last ↔ range.bound? = some last ∧ last < size := by
  have hkept := normalized_of_normalize h
  have htoEnd := toEnd_of_normalize h
  rw [bound?, bound?, hkept.last_eq]
  cases hnormal : normalized.toEnd with
  | true =>
    rw [hnormal] at htoEnd
    simp only [if_true, reduceCtorEq, false_iff, not_and, not_lt]
    intro hbound
    rcases htoEnd.mp rfl with hrange | ⟨other, hother, hsize⟩
    · simp [hrange] at hbound
    · split at hbound
      · simp at hbound
      · obtain rfl : other = last := Option.some.inj (hother.symm.trans hbound)
        exact hsize
  | false =>
    rw [hnormal] at htoEnd
    obtain ⟨hrange, hinside⟩ := not_or.mp (mt htoEnd.mpr Bool.false_ne_true)
    have hfalse : range.toEnd = false := by simpa using hrange
    simp only [hfalse, Bool.false_eq_true, if_false]
    exact ⟨fun hlast => ⟨hlast, Nat.lt_of_not_le fun hsize => hinside ⟨last, hlast, hsize⟩⟩, fun hlast => hlast.1⟩

/-- A last byte that counts is the one that the range was asked for with. -/
theorem last_of_bound? {last : Nat} (h : range.bound? = some last) : range.last = some last := by
  rw [bound?] at h
  split at h
  · simp at h
  · exact h

/-- Normalizing a range does not change what it asks for. -/
theorem asks_of_normalize (h : range.normalize fileId size = .ok normalized) (byte : Nat) :
    normalized.Asks size byte ↔ range.Asks size byte := by
  rw [Asks, Asks, (normalized_of_normalize h).start_eq]
  refine and_congr_right fun _ => and_congr_right fun hsize => forall_congr' fun last => ?_
  rw [bound?_of_normalize h]
  constructor
  · intro hle hbound
    by_cases hlast : last < size
    · exact hle ⟨hbound, hlast⟩
    · omega
  · exact fun hle hbound => hle hbound.1

/-- A range that has been normalized stays as it is. -/
theorem normalize_of_normalize (h : range.normalize fileId size = .ok normalized) (other : String) :
    normalized.normalize other size = .ok normalized := by
  have hkept := normalized_of_normalize h
  have htoEnd := toEnd_of_normalize h
  rw [normalize, if_neg (Nat.not_lt.mpr (hkept.start_eq ▸ hkept.start_le))]
  split
  · next last hlast =>
    split
    · next hsize =>
      have hend : normalized.toEnd = true := htoEnd.mpr (.inr ⟨last, hkept.last_eq ▸ hlast, hsize⟩)
      rw [throughEnd, ← hend]
    · rfl
  · rfl

end ByteRange

namespace Layout

variable {layout : Layout} {range : ByteRange} {selected : List Chunk} {chunk : Chunk}

/-- Some chunks of a file are the exact cover of the bytes that a range asks for: they are a run of its chunks, and
hold all of the bytes; each of them holds one, unless it is empty; the first of them holds the first byte of the range,
and the last of them its last byte if it counts; and there are none if there are no bytes. -/
structure Covers (layout : Layout) (range : ByteRange) (selected : List Chunk) : Prop where
  run : selected <:+: layout.chunks
  whole : ∀ chunk ∈ layout.chunks, ∀ byte, chunk.Holds byte → range.Asks layout.size byte → chunk ∈ selected
  exact : ∀ chunk ∈ selected, chunk.length ≠ 0 → ∃ byte, chunk.Holds byte ∧ range.Asks layout.size byte
  first : ∀ chunk, selected.head? = some chunk → chunk.Holds range.start
  last : ∀ last, range.bound? = some last → last < layout.size →
    ∃ chunk, selected.getLast? = some chunk ∧ chunk.Holds last
  empty : (∀ byte, ¬ range.Asks layout.size byte) → selected = []

/-- The chunks through a byte that the file has end with the one that holds it, and all others lie behind the byte. -/
theorem Complete.throughByte_split (h : layout.Complete) {last : Nat} (hlast : last < layout.size) :
    ∃ front chunk back, layout.chunks = front ++ chunk :: back ∧ throughByte last layout.chunks = front ++ [chunk] ∧
      chunk.Holds last ∧ (∀ other ∈ front, other.stop ≤ last) ∧ ∀ other ∈ back, last < other.offset := by
  obtain ⟨front, chunk, hthrough, hlow, hhigh⟩ :=
    exists_last_throughByte h.endToEnd (Nat.zero_le last) (h.stop_eq ▸ hlast)
  obtain ⟨back, hback⟩ := throughByte_isPrefix last layout.chunks
  rw [hthrough, List.append_assoc] at hback
  have hall := h.endToEnd
  rw [← hback, endToEnd_append] at hall
  obtain ⟨-, -, -, hbehind⟩ := hall
  exact ⟨front, chunk, back, hback.symm, hthrough, ⟨hlow, hhigh⟩, stop_le_of_throughByte hthrough,
    fun other hother => Nat.lt_of_lt_of_le hhigh (hbehind.between hother).1⟩

/-- A chunk that holds a byte no later than the last byte of a range is reached. -/
theorem Complete.mem_reached (h : layout.Complete) (hbound : ∀ last, range.bound? = some last → last < layout.size)
    (hmem : chunk ∈ layout.chunks) (hlow : ∀ last, range.bound? = some last → chunk.offset ≤ last) :
    chunk ∈ reached layout.chunks range := by
  rw [reached]
  split
  · next last hlast =>
    obtain ⟨front, holder, back, hsplit, hthrough, -, -, hbehind⟩ := h.throughByte_split (hbound last hlast)
    rw [hthrough]
    rw [hsplit, ← List.singleton_append, ← List.append_assoc] at hmem
    rcases List.mem_append.mp hmem with hreached | hback
    · exact hreached
    · exact absurd (hbehind chunk hback) (Nat.not_lt.mpr (hlow last hlast))
  · exact hmem

/-- A chunk that is reached starts no later than the last byte of the range. -/
theorem Complete.offset_le_of_reached (h : layout.Complete) {last : Nat} (hlast : range.bound? = some last)
    (hinside : last < layout.size) (hmem : chunk ∈ reached layout.chunks range) : chunk.offset ≤ last := by
  obtain ⟨front, holder, back, -, hthrough, hholds, hfront, -⟩ := h.throughByte_split hinside
  rw [reached, hlast] at hmem
  simp only [hthrough] at hmem
  rcases List.mem_append.mp hmem with hbefore | hholder
  · exact Nat.le_trans (offset_le_stop chunk) (hfront chunk hbefore)
  · obtain rfl := List.mem_singleton.mp hholder
    exact hholds.1

/-- A selected chunk that is not empty holds a byte that the range asks for. -/
theorem Complete.exists_asked (h : layout.Complete)
    (hbound : ∀ last, range.bound? = some last → range.start ≤ last ∧ last < layout.size)
    (hmem : chunk ∈ overlapping layout.chunks range) (hlength : chunk.length ≠ 0) :
    ∃ byte, chunk.Holds byte ∧ range.Asks layout.size byte := by
  obtain ⟨placed, offset, dropped, -, -, -, hsplit, -, hstart⟩ := h.endToEnd_overlapping range
  have hreached : chunk ∈ reached layout.chunks range := hsplit ▸ List.mem_append_right _ hmem
  have hlow := hstart chunk hmem
  have hhigh := (h.endToEnd.between ((reached_isPrefix layout.chunks range).subset hreached)).2
  have hstop : chunk.stop = chunk.offset + chunk.length := rfl
  rw [h.stop_eq] at hhigh
  refine ⟨max range.start chunk.offset, ⟨Nat.le_max_right _ _, by omega⟩, Nat.le_max_left _ _, by omega, ?_⟩
  intro last hlast
  obtain ⟨horder, hinside⟩ := hbound last hlast
  exact Nat.max_le.mpr ⟨horder, h.offset_le_of_reached hlast hinside hreached⟩

/-- The first chunk that is selected holds the first byte of the range. -/
theorem Complete.holds_start (h : layout.Complete) (hhead : (overlapping layout.chunks range).head? = some chunk) :
    chunk.Holds range.start := by
  obtain ⟨placed, offset, dropped, hle, hend, -, -, -, hstart⟩ := h.endToEnd_overlapping range
  obtain ⟨rest, hcons⟩ := List.head?_eq_some_iff.mp hhead
  rw [hcons] at hend
  exact ⟨hend.2.1 ▸ hle, hstart chunk (List.mem_of_head? hhead)⟩

/-- The last chunk that is selected holds the last byte of the range, if this is in the file. -/
theorem Complete.exists_getLast (h : layout.Complete) {last : Nat} (hlast : range.bound? = some last)
    (horder : range.start ≤ last) (hinside : last < layout.size) :
    ∃ chunk, (overlapping layout.chunks range).getLast? = some chunk ∧ chunk.Holds last := by
  obtain ⟨placed, offset, dropped, -, -, -, hsplit, hbefore, -⟩ := h.endToEnd_overlapping range
  obtain ⟨front, chunk, back, -, hthrough, hholds, -, -⟩ := h.throughByte_split hinside
  have hreached : reached layout.chunks range = front ++ [chunk] := by
    rw [reached, hlast]
    exact hthrough
  rw [hreached] at hsplit
  -- The chunk that holds the last byte ends after the first one, so it is not left out.
  have hnonempty : overlapping layout.chunks range ≠ [] := by
    intro hnil
    rw [hnil, List.append_nil] at hsplit
    have hstop := hbefore chunk (hsplit ▸ List.mem_append_right _ List.mem_cons_self)
    have hhigh := hholds.2
    omega
  refine ⟨chunk, ?_, hholds⟩
  rw [← List.getLast?_append_of_ne_nil dropped hnonempty, ← hsplit, List.getLast?_concat]

/-- A chunk that holds a byte that the range asks for is selected. -/
theorem Complete.mem_overlapping (h : layout.Complete)
    (hbound : ∀ last, range.bound? = some last → last < layout.size) (hmem : chunk ∈ layout.chunks) {byte : Nat}
    (hholds : chunk.Holds byte) (hasks : range.Asks layout.size byte) : chunk ∈ overlapping layout.chunks range := by
  obtain ⟨placed, offset, dropped, -, -, -, hsplit, hbefore, -⟩ := h.endToEnd_overlapping range
  have hreached : chunk ∈ reached layout.chunks range :=
    h.mem_reached hbound hmem fun last hlast => Nat.le_trans hholds.1 (hasks.2.2 last hlast)
  rcases List.mem_append.mp (hsplit ▸ hreached) with hdropped | hselected
  · have hstop := hbefore chunk hdropped
    have hlow := hasks.1
    have hhigh := hholds.2
    omega
  · exact hselected

/-- The chunks that a range overlaps are the exact cover of what it asks for, when its last byte is in the file. -/
theorem Complete.covers_overlapping (h : layout.Complete)
    (hbound : ∀ last, range.bound? = some last → range.start ≤ last ∧ last < layout.size) :
    layout.Covers range (overlapping layout.chunks range) where
  run := (List.dropWhile_suffix _).isInfix.trans (reached_isPrefix layout.chunks range).isInfix
  whole chunk hmem byte := h.mem_overlapping (fun last hlast => (hbound last hlast).2) hmem
  exact chunk := h.exists_asked hbound
  first chunk := h.holds_start
  last last hlast hinside := h.exists_getLast hlast (hbound last hlast).1 hinside
  empty := by
    intro hnone
    rw [← List.head?_eq_none_iff, Option.eq_none_iff_forall_ne_some]
    intro chunk hhead
    obtain ⟨hlow, hhigh⟩ := h.holds_start hhead
    have hlength : chunk.length ≠ 0 := by
      have hstop : chunk.stop = chunk.offset + chunk.length := rfl
      omega
    obtain ⟨byte, -, hasks⟩ := h.exists_asked hbound (List.mem_of_head? hhead) hlength
    exact hnone byte hasks

/-- What covers a normalized range covers the one that it comes from. -/
theorem Covers.of_normalize {normalized : ByteRange} {fileId : String} (h : layout.Covers normalized selected)
    (hnormal : range.normalize fileId layout.size = .ok normalized) : layout.Covers range selected where
  run := h.run
  whole chunk hmem byte hholds hasks :=
    h.whole chunk hmem byte hholds ((ByteRange.asks_of_normalize hnormal byte).mpr hasks)
  exact chunk hmem hlength := by
    obtain ⟨byte, hholds, hasks⟩ := h.exact chunk hmem hlength
    exact ⟨byte, hholds, (ByteRange.asks_of_normalize hnormal byte).mp hasks⟩
  first chunk hhead := (ByteRange.normalized_of_normalize hnormal).start_eq ▸ h.first chunk hhead
  last last hlast hinside := h.last last ((ByteRange.bound?_of_normalize hnormal).mpr ⟨hlast, hinside⟩) hinside
  empty hnone := h.empty fun byte hasks => hnone byte ((ByteRange.asks_of_normalize hnormal byte).mp hasks)

/-- A range that starts beyond the end of a file is refused. -/
theorem selectRange_eq_error (h : layout.size < range.start) :
    layout.selectRange range = .error (.rangeBeyondEnd layout.fileId range.start layout.size) := by
  rw [selectRange, ByteRange.normalize_eq_error h]
  rfl

/-- No other range is refused. -/
theorem exists_selectRange_eq_error_iff :
    (∃ error, layout.selectRange range = .error error) ↔ layout.size < range.start := by
  refine ⟨fun ⟨error, herror⟩ => ?_, fun hbeyond => ⟨_, selectRange_eq_error hbeyond⟩⟩
  by_contra hstart
  obtain ⟨normalized, hselected⟩ := exists_selectRange (Nat.le_of_not_lt hstart)
  simp [hselected] at herror

end Layout

/-- A stream that finds its range to start beyond the end of the file fails with this, and its range is as it was asked
for. -/
theorem FragmentStream.poll_of_beyond {stream : FragmentStream} (hlive : stream.state.isTerminal = false)
    (hunopened : stream.holding = .unopened) {answer : Except ServiceError Manifest} {file : ResolvedFile}
    (hfile : ResolvedFile.ofAnswer stream.fileId stream.credentials answer = .ok file)
    (hbeyond : file.layout.size < stream.range.start) :
    (stream.poll (some answer)).1 = .item (.error (.stream stream.offset
        (.rangeBeyondEnd file.layout.fileId stream.range.start file.layout.size))) ∧
      (stream.poll (some answer)).2.range = stream.range := by
  have hopening : stream.opening answer =
      .error (.rangeBeyondEnd file.layout.fileId stream.range.start file.layout.size) := by
    rw [opening, hfile, Result.ok_bind, Layout.selectRange_eq_error hbeyond]
    rfl
  rw [poll_eq hlive, hunopened]
  simp only [hopening]
  exact ⟨rfl, rfl⟩

open Layout (ofManifest) in
/-- What a range selects of a file.

Selecting fails exactly when the range starts beyond the end of the file, and then leaves it as it was asked for: so is
the range of a stream that fails with this when it is opened. Otherwise the chunks that are selected are the exact cover
of the bytes that the range asks for. All that selecting changes of the range is that it runs to the end of the file
when its last byte is not before the end. This does not change what it asks for, and once it is done, normalizing the
range or selecting by it again gives the same range and the same chunks. -/
theorem selectRange_covers_exactly {fileId : String} {manifest : Manifest} {layout : Layout}
    (hlaid : ofManifest fileId manifest = .ok layout) {range : ByteRange}
    (horder : ∀ last, range.last = some last → range.start ≤ last) :
    ((∃ error, layout.selectRange range = .error error) ↔ layout.size < range.start) ∧
    (layout.size < range.start →
      layout.selectRange range = .error (.rangeBeyondEnd fileId range.start layout.size) ∧
      ∀ (stream : FragmentStream) answer file, stream.state.isTerminal = false → stream.holding = .unopened →
        stream.range = range → ResolvedFile.ofAnswer stream.fileId stream.credentials answer = .ok file →
        file.layout = layout →
          (stream.poll (some answer)).1 =
            .item (.error (.stream stream.offset (.rangeBeyondEnd fileId range.start layout.size))) ∧
          (stream.poll (some answer)).2.range = range) ∧
    ∀ normalized selected, layout.selectRange range = .ok (normalized, selected) →
      layout.Covers range selected ∧
      (normalized.start = range.start ∧ normalized.last = range.last ∧
        (normalized.toEnd = true ↔ range.toEnd = true ∨ ∃ last, range.last = some last ∧ layout.size ≤ last) ∧
        ∀ byte, normalized.Asks layout.size byte ↔ range.Asks layout.size byte) ∧
      range.normalize fileId layout.size = .ok normalized ∧
      normalized.normalize fileId layout.size = .ok normalized ∧
      layout.selectRange normalized = .ok (normalized, selected) := by
  have hlay := Layout.lay_of_ofManifest hlaid
  have hcomplete := Layout.complete_of_lay hlay
  have hid : layout.fileId = fileId := (Layout.lay_eq_ok hlay).1
  refine ⟨Layout.exists_selectRange_eq_error_iff, fun hbeyond => ⟨?_, ?_⟩, ?_⟩
  · rw [Layout.selectRange_eq_error hbeyond, hid]
  · rintro stream answer file hlive hunopened rfl hfile rfl
    rw [← hid]
    exact FragmentStream.poll_of_beyond hlive hunopened hfile hbeyond
  · intro normalized selected hselected
    obtain ⟨hnormal, rfl⟩ := Layout.selectRange_eq_ok hselected
    have hkept := ByteRange.normalized_of_normalize hnormal
    have hbound : ∀ last, normalized.bound? = some last → normalized.start ≤ last ∧ last < layout.size := by
      intro last hlast
      refine ⟨?_, hkept.bound_lt last hlast⟩
      rw [hkept.start_eq]
      refine horder last ?_
      rw [← hkept.last_eq]
      exact ByteRange.last_of_bound? hlast
    have hagain := ByteRange.normalize_of_normalize hnormal layout.fileId
    refine ⟨(hcomplete.covers_overlapping hbound).of_normalize hnormal,
      ⟨hkept.start_eq, hkept.last_eq, ByteRange.toEnd_of_normalize hnormal, ByteRange.asks_of_normalize hnormal⟩,
      hid ▸ hnormal, hid ▸ hagain, ?_⟩
    rw [Layout.selectRange, hagain]
    rfl

/-- Of a file of five bytes, the second to the fourth are covered by all three chunks, and a range that starts at the
seventh is refused. -/
theorem selectRange_covers_exactly_sample :
    ResolvedFile.sample.layout.Covers ⟨1, some 3, false⟩ ResolvedFile.sample.layout.chunks ∧
      ResolvedFile.sample.layout.selectRange (.starting 6) = .error (.rangeBeyondEnd "f" 6 5) := by
  have hlaid : Layout.ofManifest "f" .sample = .ok ResolvedFile.sample.layout := by with_unfolding_all rfl
  have hinside : ∀ last, (⟨1, some 3, false⟩ : ByteRange).last = some last → 1 ≤ last := by simp
  have hbeyond : ∀ last, (ByteRange.starting 6).last = some last → 6 ≤ last := by simp [ByteRange.starting]
  obtain ⟨-, -, hcovers⟩ := selectRange_covers_exactly hlaid hinside
  obtain ⟨-, hrefused, -⟩ := selectRange_covers_exactly hlaid hbeyond
  exact ⟨(hcovers _ _ rfl).1, (hrefused (by decide)).1⟩

end Reassembly
