import Reassembly.Proofs.Cover

/-!
# What a range selects

The chunks that a range selects are those that end after its first byte, up to the first that ends
after its last. All of them but the last are read to their ends, so their fragments cover the range as
far as they go, and the fragments of all of them cover it whole. The front part of this statement is
what a read that fails in the middle has yielded.
-/

namespace Reassembly

namespace ByteRange

variable {range normalized : ByteRange} {fileId : String} {size : Nat}

/-- What normalizing a range leaves as it is, and what it makes sure of. -/
structure Normalized (range normalized : ByteRange) (size : Nat) : Prop where
  start_eq : normalized.start = range.start
  last_eq : normalized.last = range.last
  start_le : range.start ≤ size
  stop_eq : normalized.stop size = range.stop size
  bound_lt : ∀ last, normalized.bound? = some last → last < size

/-- A range that is not refused is normalized. -/
theorem normalized_of_normalize (h : range.normalize fileId size = .ok normalized) :
    Normalized range normalized size := by
  obtain ⟨start, last, toEnd⟩ := range
  simp only [normalize] at h
  split at h
  · simp at h
  · next hstart =>
    cases last with
    | none =>
      obtain rfl := Except.ok.inj h
      exact ⟨rfl, rfl, Nat.le_of_not_lt hstart, rfl, by simp [bound?]⟩
    | some last =>
      obtain rfl := Except.ok.inj h
      by_cases hlast : size ≤ last
      · refine ⟨by simp [hlast, throughEnd], by simp [hlast, throughEnd], Nat.le_of_not_lt hstart, ?_, ?_⟩
        · cases toEnd <;> simp [hlast, throughEnd, stop, bound?]
        · simp [hlast, throughEnd, bound?]
      · refine ⟨by simp [hlast], by simp [hlast], Nat.le_of_not_lt hstart, by simp [hlast], ?_⟩
        intro bound hbound
        cases toEnd with
        | true => simp [hlast, bound?] at hbound
        | false =>
          obtain rfl : last = bound := by simpa [hlast, bound?] using hbound
          omega

/-- A range is refused exactly when it starts beyond the end. -/
theorem normalize_eq_error (h : size < range.start) :
    range.normalize fileId size = .error (.rangeBeyondEnd fileId range.start size) := by
  rw [normalize, if_pos h]

/-- A range that does not start beyond the end is not refused. -/
theorem exists_normalize (fileId : String) (h : range.start ≤ size) :
    ∃ normalized, range.normalize fileId size = .ok normalized := by
  rw [normalize, if_neg (by omega)]
  split
  · exact ⟨_, rfl⟩
  · exact ⟨_, rfl⟩

end ByteRange

namespace Layout

variable {placed offset last : Nat} {chunks front back : List Chunk} {range : ByteRange}

/-- The chunks through a byte are the first ones. -/
theorem throughByte_isPrefix (last : Nat) (chunks : List Chunk) : throughByte last chunks <+: chunks := by
  induction chunks with
  | nil => exact List.nil_prefix
  | cons chunk rest ih =>
    rw [throughByte]
    split
    · exact ⟨rest, rfl⟩
    · exact (List.prefix_cons_inj chunk).mpr ih

/-- Of the chunks through a byte, all but the last end no later than at it. -/
theorem stop_le_of_throughByte {chunk : Chunk} (h : throughByte last chunks = front ++ chunk :: back) :
    ∀ other ∈ front, other.stop ≤ last := by
  induction chunks generalizing front with
  | nil => simp [throughByte] at h
  | cons first rest ih =>
    cases front with
    | nil => simp
    | cons other front =>
      rw [throughByte] at h
      split at h
      · simp at h
      · next hstop =>
        obtain ⟨rfl, hrest⟩ : first = other ∧ throughByte last rest = front ++ chunk :: back := by
          simpa using h
        intro x hx
        rcases List.mem_cons.mp hx with rfl | hx
        · omega
        · exact ih hrest x hx

/-- The last of the chunks through a byte that the file has is the chunk that holds it. -/
theorem exists_last_throughByte (hchunks : EndToEnd placed offset chunks) (hlow : offset ≤ last)
    (hhigh : last < stopOf offset chunks) :
    ∃ front chunk, throughByte last chunks = front ++ [chunk] ∧ chunk.offset ≤ last ∧
      last < chunk.stop := by
  induction chunks generalizing placed offset with
  | nil =>
    simp only [stopOf] at hhigh
    omega
  | cons first rest ih =>
    obtain ⟨-, hoffset, hrest⟩ := hchunks
    rw [throughByte]
    split
    · next hstop => exact ⟨[], first, rfl, by omega, hstop⟩
    · obtain ⟨front, chunk, hfront, hchunk⟩ := ih hrest (by omega) hhigh
      exact ⟨first :: front, chunk, by rw [hfront]; rfl, hchunk⟩

/-- The chunks that a range reaches, before those that end before it starts are left out. -/
def reached (chunks : List Chunk) (range : ByteRange) : List Chunk :=
  match range.bound? with
  | some last => throughByte last chunks
  | none => chunks

/-- A range selects the reached chunks that end after its first byte. -/
theorem overlapping_eq (chunks : List Chunk) (range : ByteRange) :
    overlapping chunks range = (reached chunks range).dropWhile (·.stop ≤ range.start) := rfl

/-- The reached chunks are the first ones. -/
theorem reached_isPrefix (chunks : List Chunk) (range : ByteRange) : reached chunks range <+: chunks := by
  unfold reached
  split
  · exact throughByte_isPrefix _ _
  · exact List.prefix_refl _

/-- Dropping the chunks of a run that end before a byte leaves a run of chunks that end after the byte.
It starts no later than the byte if the whole run did. -/
theorem endToEnd_dropWhile (start : Nat) (h : EndToEnd placed offset chunks) :
    ∃ dropped : List Chunk, chunks = dropped ++ chunks.dropWhile (·.stop ≤ start) ∧
      (∀ chunk ∈ dropped, chunk.stop ≤ start) ∧ stopOf offset dropped ≤ max start offset ∧
        EndToEnd (placed + dropped.length) (stopOf offset dropped) (chunks.dropWhile (·.stop ≤ start)) ∧
          ∀ chunk ∈ chunks.dropWhile (·.stop ≤ start), start < chunk.stop := by
  induction chunks generalizing placed offset with
  | nil => exact ⟨[], rfl, by simp, Nat.le_max_right _ _, trivial, by simp⟩
  | cons chunk rest ih =>
    obtain ⟨hnumber, hoffset, hrest⟩ := h
    by_cases hstop : chunk.stop ≤ start
    · obtain ⟨dropped, hsplit, hbefore, hle, hend, hafter⟩ := ih hrest
      rw [List.dropWhile_cons_of_pos (by simpa using hstop)]
      refine ⟨chunk :: dropped, by rw [List.cons_append, ← hsplit], ?_, ?_, ?_, hafter⟩
      · exact List.forall_mem_cons.mpr ⟨hstop, hbefore⟩
      · exact Nat.le_trans hle (by omega)
      · rw [List.length_cons, show placed + (dropped.length + 1) = placed + 1 + dropped.length by omega]
        exact hend
    · rw [List.dropWhile_cons_of_neg (by simpa using hstop)]
      refine ⟨[], rfl, by simp, Nat.le_max_right _ _, ⟨hnumber, hoffset, hrest⟩, ?_⟩
      intro other hother
      rcases List.mem_cons.mp hother with rfl | hother
      · omega
      · have hlow := (hrest.between hother).1
        have := offset_le_stop other
        omega

variable {content : Bytes}

/-- Chunks end to end that all end after a range's first byte, and that the range does not leave
before their ends, cover the range from where they start to where they stop. -/
theorem cover_of_endToEnd (fileId : String) (hchunks : EndToEnd placed offset chunks)
    (hcontent : stopOf offset chunks ≤ content.length)
    (hstart : ∀ chunk ∈ chunks, range.start < chunk.stop)
    (hreach : ∀ chunk ∈ chunks, chunk.reach range = chunk.stop) :
    Cover content placed (max range.start offset) (max range.start (stopOf offset chunks))
      (Block.fragments range (chunks.map (·.block fileId content))) := by
  induction chunks generalizing placed offset with
  | nil => exact rfl
  | cons chunk rest ih =>
    obtain ⟨hnumber, hoffset, hrest⟩ := hchunks
    have hfirst := hreach chunk (by simp)
    have hinside : chunk.stop ≤ content.length := Nat.le_trans hrest.le_stopOf hcontent
    have hcover := cover_fragment fileId placed hinside (hstart chunk (by simp))
      (by omega) (by rw [hfirst]; exact offset_le_stop chunk)
    rw [hoffset, hfirst] at hcover
    have hlater := ih hrest hcontent (fun other hother => hstart other (by simp [hother]))
      (fun other hother => hreach other (by simp [hother]))
    rw [List.map_cons, ← List.singleton_append (x := chunk.block fileId content), Block.fragments_append]
    refine hcover.append (Nat.le_succ placed) ?_ hlater
    intro fragment hfragment
    obtain ⟨block, hblock, hsame⟩ := Block.number_of_mem_fragments hfragment
    obtain rfl : block = chunk.block fileId content := by simpa using hblock
    rw [hsame]
    exact Nat.le_of_eq hnumber

/-- The same for a run whose last chunk the range may leave earlier. -/
theorem cover_concat (fileId : String) {chunk : Chunk} (hchunks : EndToEnd placed offset (front ++ [chunk]))
    (hcontent : chunk.stop ≤ content.length)
    (hstart : ∀ other ∈ front ++ [chunk], range.start < other.stop)
    (hreach : ∀ other ∈ front, other.reach range = other.stop) (hlast : chunk.offset ≤ chunk.reach range) :
    Cover content placed (max range.start offset) (max range.start (chunk.reach range))
      (Block.fragments range ((front ++ [chunk]).map (·.block fileId content))) := by
  rw [endToEnd_append] at hchunks
  obtain ⟨hfront, hnumber, hoffset, -⟩ := hchunks
  have hinside : stopOf offset front ≤ content.length := by
    have := offset_le_stop chunk
    omega
  have hbefore := cover_of_endToEnd fileId hfront hinside
    (fun other hother => hstart other (by simp [hother])) hreach
  have hchunk := cover_fragment fileId (placed + front.length) hcontent
    (hstart chunk (by simp)) (by omega) hlast
  rw [hoffset] at hchunk
  rw [List.map_append, Block.fragments_append]
  refine hbefore.append (Nat.le_add_right _ _) ?_ hchunk
  intro fragment hfragment
  obtain ⟨block, hblock, hsame⟩ := Block.number_of_mem_fragments hfragment
  obtain ⟨other, hother, rfl⟩ := List.mem_map.mp hblock
  obtain ⟨i, hi⟩ := List.mem_iff_getElem?.mp hother
  have hplace := hfront.number_getElem? hi
  have hlength := (List.getElem?_eq_some_iff.mp hi).1
  show fragment.number ≤ _
  rw [hsame]
  show other.number ≤ _
  omega

end Layout

/-- A range leaves a chunk at its end when it has no last byte or the chunk ends no later than at it. -/
theorem Chunk.reach_eq_stop {chunk : Chunk} {range : ByteRange}
    (h : ∀ last, range.bound? = some last → chunk.stop ≤ last) : chunk.reach range = chunk.stop := by
  unfold Chunk.reach
  split
  · next last hbound =>
    have := h last hbound
    rw [if_neg (by omega)]
  · rfl

namespace Layout

variable {layout : Layout} {range : ByteRange} {content : Bytes}
  {before after : List Chunk} {chunk : Chunk}

/-- The reached chunks lie end to end inside the file. -/
theorem Complete.endToEnd_reached (h : Complete layout) (range : ByteRange) :
    EndToEnd 0 0 (reached layout.chunks range) ∧
      stopOf 0 (reached layout.chunks range) ≤ layout.size := by
  obtain ⟨tail, htail⟩ := reached_isPrefix layout.chunks range
  have hall := h.endToEnd
  rw [← htail, endToEnd_append] at hall
  refine ⟨hall.1, ?_⟩
  calc stopOf 0 (reached layout.chunks range)
      ≤ stopOf (stopOf 0 (reached layout.chunks range)) tail := hall.2.le_stopOf
    _ = stopOf 0 layout.chunks := by rw [← stopOf_append, htail]
    _ = layout.size := h.stop_eq

/-- The selected chunks lie end to end, from an offset no later than the range's first byte to where
the reached ones stop, and all end after that byte; those left out end before it. -/
theorem Complete.endToEnd_overlapping (h : Complete layout) (range : ByteRange) :
    ∃ placed offset, ∃ dropped : List Chunk, offset ≤ range.start ∧
      EndToEnd placed offset (overlapping layout.chunks range) ∧
        stopOf offset (overlapping layout.chunks range) = stopOf 0 (reached layout.chunks range) ∧
          reached layout.chunks range = dropped ++ overlapping layout.chunks range ∧
            (∀ chunk ∈ dropped, chunk.stop ≤ range.start) ∧
              ∀ chunk ∈ overlapping layout.chunks range, range.start < chunk.stop := by
  obtain ⟨dropped, hsplit, hbefore, hle, hend, hafter⟩ :=
    endToEnd_dropWhile range.start (h.endToEnd_reached range).1
  rw [← overlapping_eq] at hsplit hend hafter
  refine ⟨_, _, dropped, by simpa using hle, hend, ?_, hsplit, hbefore, hafter⟩
  rw [← stopOf_append, ← hsplit]

/-- The selected chunks before one of them are read to their ends. -/
theorem reach_eq_stop_of_before (hselected : overlapping layout.chunks range = before ++ chunk :: after) :
    ∀ other ∈ before, other.reach range = other.stop := by
  intro other hother
  refine Chunk.reach_eq_stop fun last hbound => ?_
  obtain ⟨dropped, hdropped⟩ : ∃ dropped : List Chunk,
      reached layout.chunks range = dropped ++ (before ++ chunk :: after) :=
    ⟨_, by rw [← hselected, overlapping_eq, List.takeWhile_append_dropWhile]⟩
  have hthrough : throughByte last layout.chunks = (dropped ++ before) ++ chunk :: after := by
    rw [List.append_assoc, ← hdropped, reached, hbound]
  exact stop_le_of_throughByte hthrough other (by simp [hother])

/-- The fragments of the selected chunks before one of them cover the range up to that chunk. -/
theorem Complete.cover_before (h : Complete layout) (fileId : String) (hcontent : content.length = layout.size)
    (hselected : overlapping layout.chunks range = before ++ chunk :: after) :
    Cover content 0 range.start (max range.start chunk.offset)
      (Block.fragments range (before.map (·.block fileId content))) := by
  obtain ⟨placed, offset, dropped, hle, hend, hstop, -, -, hstart⟩ := h.endToEnd_overlapping range
  have hsize := (h.endToEnd_reached range).2
  rw [← hstop, hselected, stopOf_append] at hsize
  rw [hselected] at hend hstart
  rw [endToEnd_append] at hend
  obtain ⟨hbefore, -, hoffset, hafter⟩ := hend
  have hwithin : stopOf offset before ≤ content.length := by
    have hchunk := Nat.le_trans (offset_le_stop chunk) hafter.le_stopOf
    simp only [stopOf] at hsize
    omega
  have hcover := cover_of_endToEnd fileId hbefore hwithin
    (fun other hother => hstart other (by simp [hother])) (reach_eq_stop_of_before hselected)
  rw [Nat.max_eq_left hle, ← hoffset] at hcover
  exact hcover.of_le (Nat.zero_le _)

/-- The fragments of all selected chunks cover the range. -/
theorem Complete.cover_overlapping (h : Complete layout) (fileId : String) (hcontent : content.length = layout.size)
    (hsize : range.start ≤ layout.size) (hbound : ∀ last, range.bound? = some last → last < layout.size) :
    Cover content 0 range.start (range.stop layout.size)
      (Block.fragments range ((overlapping layout.chunks range).map (·.block fileId content))) := by
  obtain ⟨placed, offset, dropped, hle, hend, hstop, hsplit, hbefore, hstart⟩ :=
    h.endToEnd_overlapping range
  obtain ⟨hreached, hwithin⟩ := h.endToEnd_reached range
  have hoffset : max range.start offset = range.start := Nat.max_eq_left hle
  cases hlast : range.bound? with
  | none =>
    -- Every chunk is read to its end, and the last of them stops at the end of the file.
    have hinside : stopOf offset (overlapping layout.chunks range) ≤ content.length := by omega
    have hcover := cover_of_endToEnd fileId hend hinside hstart
      (fun other _ => Chunk.reach_eq_stop (by simp [hlast]))
    have hall : reached layout.chunks range = layout.chunks := by rw [reached, hlast]
    rw [hoffset, hstop, hall, h.stop_eq, Nat.max_eq_right hsize] at hcover
    rw [ByteRange.stop, hlast]
    exact hcover.of_le (Nat.zero_le _)
  | some last =>
    have hinside := hbound last hlast
    have hend' : range.stop layout.size = max range.start (last + 1) := by
      rw [ByteRange.stop, hlast]
      exact if_neg (by omega)
    obtain ⟨front, chunk, hthrough, hlow, hhigh⟩ :=
      exists_last_throughByte h.endToEnd (Nat.zero_le last) (by rw [h.stop_eq]; exact hinside)
    have hall : reached layout.chunks range = front ++ [chunk] := by
      rw [reached, hlast]
      exact hthrough
    rw [hall] at hsplit
    rcases List.eq_nil_or_concat (overlapping layout.chunks range) with hnil | ⟨init, final, hfinal⟩
    · -- The chunk that holds the last byte ends before the range starts.
      rw [hnil, List.append_nil] at hsplit
      have hempty := hbefore chunk (by rw [← hsplit]; simp)
      rw [hnil, hend']
      show range.start = max range.start (last + 1)
      omega
    · rw [List.concat_eq_append] at hfinal
      have hsame : front ++ [chunk] = (dropped ++ init) ++ [final] := by
        rw [hsplit, hfinal, List.append_assoc]
      obtain ⟨-, hsame⟩ := List.append_inj' hsame rfl
      obtain rfl : chunk = final := by simpa using hsame
      have hreach : chunk.reach range = last + 1 := by
        rw [Chunk.reach, hlast]
        exact if_pos ⟨hlow, hhigh⟩
      have hchunk : chunk.stop ≤ content.length := by
        rw [hall, stopOf_append] at hwithin
        simp only [stopOf] at hwithin
        omega
      rw [hfinal] at hend hstart
      have hcover := cover_concat fileId hend hchunk hstart
        (reach_eq_stop_of_before (hfinal.trans rfl)) (by omega)
      rw [hoffset, hreach, ← hend', ← hfinal] at hcover
      exact hcover.of_le (Nat.zero_le _)

end Layout

end Reassembly
