import Reassembly.Text.Split

/-!
# Cutting text

Nothing is trimmed off a text with no white space at its ends, and so off no digits. A text is cut at a separator into
what stands before it and what stands after it, or at all of them into pieces, of which there is one more than there are
separators. Nothing is lost: the pieces and the separators have all the characters of the text, and no piece has a
separator in it.
-/

namespace Reassembly.Text

variable {p isMark : Char → Bool} {chars before after : List Char} {mark : Char}

/-! ## White space -/

/-- Nothing is dropped from a text whose first character stays. -/
theorem dropWhile_eq_self (h : ∀ c, chars.head? = some c → p c = false) : chars.dropWhile p = chars := by
  cases chars with
  | nil => rfl
  | cons first rest => rw [List.dropWhile_cons_of_neg (by simp [h first rfl])]

/-- Nothing is trimmed off a text with an edge at neither end. -/
theorem trim_eq (hfirst : ∀ c, chars.head? = some c → p c = false)
    (hlast : ∀ c, chars.getLast? = some c → p c = false) :
    ((chars.dropWhile p).reverse.dropWhile p).reverse = chars := by
  rw [dropWhile_eq_self hfirst, dropWhile_eq_self (by rwa [List.head?_reverse]), List.reverse_reverse]

/-- A digit is no white space. -/
theorem isBlank_of_isDigit {c : Char} (h : c.isDigit = true) : isBlank c = false := by
  simp only [Char.isDigit, Bool.and_eq_true, decide_eq_true_eq, ge_iff_le, UInt32.le_iff_toNat_le] at h
  have hcode : 48 ≤ c.toNat ∧ c.toNat ≤ 57 := h
  simp only [isBlank, Bool.or_eq_false_iff, Bool.and_eq_false_iff, decide_eq_false_iff_not, beq_eq_false_iff_ne]
  omega

/-- Nothing is trimmed off digits. -/
theorem trim_digits (h : ∀ c ∈ chars, c.isDigit = true) : trim chars = chars :=
  trim_eq (fun c hc => isBlank_of_isDigit (h c (List.mem_of_head? hc)))
    fun c hc => isBlank_of_isDigit (h c (List.mem_of_getLast? hc))

/-! ## One separator -/

/-- The first separator is the one with none before it. -/
theorem splitFirst?_append (hbefore : ∀ c ∈ before, isMark c = false) (hmark : isMark mark = true) :
    splitFirst? isMark (before ++ mark :: after) = some (before, after) := by
  have hnot : ∀ c ∈ before, (!isMark c) = true := fun c hc => by rw [hbefore c hc]; rfl
  rw [splitFirst?, List.dropWhile_append_of_pos hnot, List.takeWhile_append_of_pos hnot,
    List.dropWhile_cons_of_neg (by simp [hmark]), List.takeWhile_cons_of_neg (by simp [hmark])]
  simp

/-- The last separator is the one with none after it. -/
theorem splitLast?_append (hafter : ∀ c ∈ after, isMark c = false) (hmark : isMark mark = true) :
    splitLast? isMark (before ++ mark :: after) = some (before, after) := by
  have hreverse : (before ++ mark :: after).reverse = after.reverse ++ mark :: before.reverse := by simp
  rw [splitLast?, hreverse, splitFirst?_append (fun c hc => hafter c (List.mem_reverse.mp hc)) hmark]
  simp

/-- A text without separators stays in front of the first separator. -/
theorem splitFirst?_append_left (hbefore : ∀ c ∈ before, isMark c = false) (rest : List Char) :
    splitFirst? isMark (before ++ rest) = (splitFirst? isMark rest).map fun parts => (before ++ parts.1, parts.2) := by
  have hnot : ∀ c ∈ before, (!isMark c) = true := fun c hc => by rw [hbefore c hc]; rfl
  rw [splitFirst?, splitFirst?, List.dropWhile_append_of_pos hnot, List.takeWhile_append_of_pos hnot]
  cases rest.dropWhile (!isMark ·) <;> rfl

/-- What comes before the first separator, or everything when there is none. -/
theorem front_splitFirst? (isMark : Char → Bool) (chars : List Char) :
    ((splitFirst? isMark chars).map (·.1)).getD chars = chars.takeWhile (!isMark ·) := by
  have hwhole := List.takeWhile_append_dropWhile (p := (!isMark ·)) (l := chars)
  rw [splitFirst?]
  split
  · next hnone => rwa [hnone, List.append_nil, eq_comm] at hwhole
  · rfl

/-- A text that is cut at its first separator is the two parts with the separator between them. -/
theorem splitFirst?_eq_some (h : splitFirst? isMark chars = some (before, after)) :
    ∃ mark, isMark mark = true ∧ chars = before ++ mark :: after := by
  rw [splitFirst?] at h
  split at h
  · simp at h
  · next mark rest hrest =>
    obtain ⟨rfl, rfl⟩ : chars.takeWhile (!isMark ·) = before ∧ rest = after := by simpa using h
    refine ⟨mark, ?_, ?_⟩
    · have hhead := List.head?_dropWhile_not (fun c => !isMark c) chars
      rw [hrest] at hhead
      simpa using hhead
    · rw [← hrest, List.takeWhile_append_dropWhile]

/-- A text that is cut at its last separator is the two parts with the separator between them. -/
theorem splitLast?_eq_some (h : splitLast? isMark chars = some (before, after)) :
    ∃ mark, isMark mark = true ∧ chars = before ++ mark :: after := by
  rw [splitLast?] at h
  split at h
  · simp at h
  · next second first hsplit =>
    obtain ⟨rfl, rfl⟩ : first.reverse = before ∧ second.reverse = after := by simpa using h
    obtain ⟨mark, hmark, hchars⟩ := splitFirst?_eq_some hsplit
    refine ⟨mark, hmark, ?_⟩
    rw [← List.reverse_reverse chars, hchars]
    simp

/-- What follows the first of two texts in a row. -/
theorem isPrefixOf?_append (first second : List Char) : first.isPrefixOf? (first ++ second) = some second := by
  induction first with
  | nil => rfl
  | cons c rest ih =>
    show (if c == c then rest.isPrefixOf? (rest ++ second) else none) = some second
    rw [if_pos (beq_self_eq_true c), ih]

/-! ## All separators -/

/-- There is always a piece. -/
theorem pieces_ne_nil (isMark : Char → Bool) (chars : List Char) : pieces isMark chars ≠ [] := by
  cases chars with
  | nil => simp [pieces]
  | cons c rest =>
    rw [pieces]
    split
    · simp
    · split <;> simp

/-- A character before the first separator goes to the first piece. -/
theorem exists_pieces_cons {c : Char} (h : isMark c = false) (rest : List Char) :
    ∃ piece others, pieces isMark rest = piece :: others ∧ pieces isMark (c :: rest) = (c :: piece) :: others := by
  obtain ⟨piece, others, hpieces⟩ := List.exists_cons_of_ne_nil (pieces_ne_nil isMark rest)
  refine ⟨piece, others, hpieces, ?_⟩
  rw [pieces, if_neg (by simp [h]), hpieces]

/-- A text without separators is one piece. -/
theorem pieces_of_forall (h : ∀ c ∈ chars, isMark c = false) : pieces isMark chars = [chars] := by
  induction chars with
  | nil => rfl
  | cons c rest ih =>
    rw [pieces, if_neg (by simp [h c List.mem_cons_self]), ih fun d hd => h d (List.mem_cons_of_mem _ hd)]

/-- A text without separators is the first piece of what it starts. -/
theorem pieces_append_cons (hbefore : ∀ c ∈ before, isMark c = false) (hmark : isMark mark = true) :
    pieces isMark (before ++ mark :: after) = before :: pieces isMark after := by
  induction before with
  | nil => rw [List.nil_append, pieces, if_pos hmark]
  | cons c rest ih =>
    rw [List.cons_append, pieces, if_neg (by simp [hbefore c List.mem_cons_self]),
      ih fun d hd => hbefore d (List.mem_cons_of_mem _ hd)]

/-- There is one more piece than there are separators. -/
theorem length_pieces (isMark : Char → Bool) (chars : List Char) :
    (pieces isMark chars).length = chars.countP isMark + 1 := by
  induction chars with
  | nil => rfl
  | cons c rest ih =>
    cases hmark : isMark c with
    | true => rw [pieces, if_pos hmark, List.length_cons, ih, List.countP_cons_of_pos hmark]
    | false =>
      obtain ⟨piece, others, hpieces, hcons⟩ := exists_pieces_cons hmark rest
      rw [hcons, List.countP_cons_of_neg (by simp [hmark]), ← ih, hpieces]
      rfl

/-- A character is a separator or in a piece. -/
theorem mark_or_mem_pieces (isMark : Char → Bool) {c : Char} (h : c ∈ chars) :
    isMark c = true ∨ ∃ piece ∈ pieces isMark chars, c ∈ piece := by
  induction chars with
  | nil => simp at h
  | cons first rest ih =>
    cases hmark : isMark first with
    | true =>
      rcases List.mem_cons.mp h with rfl | hrest
      · exact .inl hmark
      · rw [pieces, if_pos hmark]
        exact (ih hrest).imp_right fun ⟨piece, hpiece, hc⟩ => ⟨piece, List.mem_cons_of_mem _ hpiece, hc⟩
    | false =>
      obtain ⟨piece, others, hpieces, hcons⟩ := exists_pieces_cons hmark rest
      rw [hcons]
      rcases List.mem_cons.mp h with rfl | hrest
      · exact .inr ⟨_, List.mem_cons_self, List.mem_cons_self⟩
      · refine (ih hrest).imp_right fun ⟨found, hfound, hc⟩ => ?_
        rw [hpieces] at hfound
        rcases List.mem_cons.mp hfound with rfl | hlater
        · exact ⟨_, List.mem_cons_self, List.mem_cons_of_mem _ hc⟩
        · exact ⟨found, List.mem_cons_of_mem _ hlater, hc⟩

/-- A character of a piece is no separator, and one of the text. -/
theorem of_mem_pieces {piece : List Char} (h : piece ∈ pieces isMark chars) {c : Char} (hc : c ∈ piece) :
    isMark c = false ∧ c ∈ chars := by
  induction chars generalizing piece with
  | nil =>
    obtain rfl : piece = [] := by simpa [pieces] using h
    simp at hc
  | cons first rest ih =>
    cases hmark : isMark first with
    | true =>
      rw [pieces, if_pos hmark] at h
      rcases List.mem_cons.mp h with rfl | hlater
      · simp at hc
      · exact (ih hlater hc).imp_right (List.mem_cons_of_mem _)
    | false =>
      obtain ⟨found, others, hpieces, hcons⟩ := exists_pieces_cons hmark rest
      rw [hcons] at h
      rcases List.mem_cons.mp h with rfl | hlater
      · rcases List.mem_cons.mp hc with rfl | hrest
        · exact ⟨hmark, List.mem_cons_self⟩
        · exact (ih (by simp [hpieces]) hrest).imp_right (List.mem_cons_of_mem _)
      · exact (ih (by simp [hpieces, hlater]) hc).imp_right (List.mem_cons_of_mem _)

end Reassembly.Text
