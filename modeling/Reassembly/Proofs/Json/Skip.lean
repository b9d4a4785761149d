import Reassembly.Proofs.Json.Structure

/-!
# Well-formed values are skipped whole

Skipping keeps the brackets that are open on a stack, so the depth of a value does not matter to it. What holds of one
value holds under any stack: it is left where it ends, with the brackets open that were open in front of it. Parts
between brackets are skipped one by one, the first behind the opening bracket and any other behind a separator.
-/

namespace Reassembly.Json

open Reader Bytes

variable {stack stack' : List Frame} {stand stand' : Stand} {blank rest s t u v : Bytes}

/-- A value that is not waited for is not skipped. -/
theorem skipFrom_done (s : Bytes) : skipFrom [] .behind s = .ok ((), s) := by
  rw [skipFrom, if_pos ⟨rfl, rfl⟩]

/-- Skipping goes on where a step has come. -/
theorem skipFrom_of_step (hwait : ¬ (stack = [] ∧ stand = .behind))
    (h : skipStep stack stand s = .ok ((stack', stand'), t)) : skipFrom stack stand s = skipFrom stack' stand' t := by
  rw [skipFrom, if_neg hwait]
  split
  · next hstep => simp [h] at hstep
  · next hstep =>
    obtain ⟨⟨rfl, rfl⟩, rfl⟩ : (stack' = _ ∧ stand' = _) ∧ t = _ := by simpa [h] using hstep
    rfl

/-- Skipping depends on its next step alone. -/
theorem skipFrom_congr (hwait : ¬ (stack = [] ∧ stand = .behind))
    (h : skipStep stack stand s = skipStep stack stand t) : skipFrom stack stand s = skipFrom stack stand t := by
  cases hstep : skipStep stack stand t with
  | ok found => rw [skipFrom_of_step hwait (h.trans hstep), skipFrom_of_step hwait hstep]
  | error fault =>
    rw [skipFrom, skipFrom, if_neg hwait, if_neg hwait]
    split
    · next hleft =>
      obtain rfl : fault = _ := by simpa [h.trans hstep] using hleft
      split
      · next hright =>
        obtain rfl : fault = _ := by simpa [hstep] using hright
        rfl
      · next hright => simp [hstep] at hright
    · next hleft => simp [h.trans hstep] at hleft

/-- Space in front of a value is left behind. -/
theorem skipFrom_before_append (hblank : Blank blank) (s : Bytes) :
    skipFrom stack .before (blank ++ s) = skipFrom stack .before s :=
  skipFrom_congr (by simp) (bind_congr (nextPart_append hblank s) _)

/-- A value without brackets is skipped in one step. -/
theorem skipFrom_scalar {b : UInt8} {later : Bytes} (hspace : isSpace b = false) (hlist : b ≠ 0x5b) (hobject : b ≠ 0x7b)
    (h : skipScalar b (b :: later) = .ok ((), t)) : skipFrom stack .before (b :: later) = skipFrom stack .behind t := by
  refine skipFrom_of_step (by simp) ?_
  rw [skipStep, bind_of_ok (nextPart_cons hspace later)]
  dsimp only
  rw [if_neg hlist, if_neg hobject, bind_of_ok h]
  rfl

/-! ## Between brackets -/

/-- The byte that opens a bracket. -/
def Frame.opening : Frame → UInt8
  | .list => 0x5b
  | .object => 0x7b

/-- Skipping between two brackets: from the opening one on, or from behind a part. -/
def skipParts (frame : Frame) (stack : List Frame) (first : Bool) : JsonReader Unit := fun s =>
  if first then skipFrom stack .before (frame.opening :: s) else skipFrom (frame :: stack) .behind s

/-- A step at an opening bracket goes into an array, unless it is closed at once. -/
theorem skipStep_list (s : Bytes) :
    skipStep stack .before (0x5b :: s) = (nextPart >>= fun b =>
      if b = some 0x5d then next >>= fun _ => pure (stack, .behind) else pure (.list :: stack, .before)) s := by
  rw [skipStep, bind_of_ok (nextPart_cons (by decide) s)]
  dsimp only
  rw [if_pos rfl, bind_of_ok (next_cons _ _)]

/-- A step at an opening brace goes to the first name of an object, unless it is closed at once. -/
theorem skipStep_object (s : Bytes) :
    skipStep stack .before (0x7b :: s) = (nextPart >>= fun b =>
      if b = some 0x7d then next >>= fun _ => pure (stack, .behind)
      else skipName >>= fun _ => pure (.object :: stack, .before)) s := by
  rw [skipStep, bind_of_ok (nextPart_cons (by decide) s)]
  dsimp only
  rw [if_neg (by decide), if_pos rfl, bind_of_ok (next_cons _ _)]

/-- Space in front of a part, or of a separator, is left behind. -/
theorem skipParts_append {frame : Frame} {first : Bool} (hblank : Blank blank) (s : Bytes) :
    skipParts frame stack first (blank ++ s) = skipParts frame stack first s := by
  cases first with
  | true =>
    refine skipFrom_congr (by simp) ?_
    cases frame with
    | list =>
      show skipStep stack .before (0x5b :: (blank ++ s)) = skipStep stack .before (0x5b :: s)
      rw [skipStep_list, skipStep_list, bind_congr (nextPart_append hblank s)]
    | object =>
      show skipStep stack .before (0x7b :: (blank ++ s)) = skipStep stack .before (0x7b :: s)
      rw [skipStep_object, skipStep_object, bind_congr (nextPart_append hblank s)]
  | false =>
    exact skipFrom_congr (by simp) (bind_congr (space_append hblank s) _)

/-- A closing bracket ends the parts. -/
theorem skipParts_close (frame : Frame) (first : Bool) (rest : Bytes) :
    skipParts frame stack first (frame.close :: rest) = skipFrom stack .behind rest := by
  cases first with
  | true =>
    refine skipFrom_of_step (by simp) ?_
    cases frame with
    | list =>
      show skipStep stack .before (0x5b :: 0x5d :: rest) = _
      rw [skipStep_list, bind_of_ok (nextPart_cons (by decide) rest), if_pos rfl]
      rfl
    | object =>
      show skipStep stack .before (0x7b :: 0x7d :: rest) = _
      rw [skipStep_object, bind_of_ok (nextPart_cons (by decide) rest), if_pos rfl]
      rfl
  | false =>
    refine skipFrom_of_step (by simp) ?_
    cases frame <;>
      (rw [skipStep, bind_of_ok (space_cons (by decide) rest), bind_of_ok (next_cons _ _), if_neg (by decide),
        if_pos rfl]; rfl)

/-- The next part of a text stands behind a blank. -/
theorem nextPart_eq_some {b : UInt8} (h : nextPart s = .ok (some b, t)) :
    ∃ blank later, Blank blank ∧ isSpace b = false ∧ s = blank ++ b :: later ∧ t = b :: later := by
  obtain ⟨hhead, rfl⟩ : (s.dropWhile isSpace).head? = some b ∧ s.dropWhile isSpace = t := by
    simpa [nextPart, space, peek, bind, StateT.bind, Except.bind] using h
  obtain ⟨later, hlater⟩ := List.head?_eq_some_iff.mp hhead
  have hspace := List.head?_dropWhile_not isSpace s
  rw [hhead] at hspace
  refine ⟨s.takeWhile isSpace, later, fun c hc => ?_, by simpa using hspace, ?_, hlater⟩
  · simpa [isSpace, or_assoc] using List.mem_takeWhile_imp hc
  · rw [← hlater, List.takeWhile_append_dropWhile]

/-- A reader that goes by the first byte of the next part, and succeeds, has found one behind a blank. -/
theorem first_of_ok {α : Type} {fault : Fault} {f : UInt8 → JsonReader α} {a : α}
    (h : (nextPart >>= fun part => match part with
      | none => refuse fault
      | some b => f b) s = .ok (a, t)) :
    ∃ blank b later, Blank blank ∧ isSpace b = false ∧ s = blank ++ b :: later ∧ f b (b :: later) = .ok (a, t) := by
  obtain ⟨part, u, hpart, h⟩ := bind_eq_ok h
  cases part with
  | none => simp [refuse] at h
  | some b =>
    obtain ⟨blank, later, hblank, hspace, rfl, rfl⟩ := nextPart_eq_some hpart
    exact ⟨blank, b, later, hblank, hspace, rfl, h⟩

/-- An element that is found is waited for inside the array. -/
theorem skipParts_of_element {first : Bool} (h : nextElement first s = .ok (true, t)) :
    skipParts .list stack first s = skipFrom (.list :: stack) .before t := by
  obtain ⟨blank, b, later, hblank, hspace, rfl, hread⟩ := first_of_ok h
  rw [skipParts_append hblank]
  split at hread
  · exact absurd (pure_eq_ok hread).1 Bool.false_ne_true
  · next hclose =>
    cases first with
    | true =>
      obtain ⟨-, rfl⟩ := pure_eq_ok hread
      refine skipFrom_of_step (by simp) ?_
      show skipStep stack .before (0x5b :: b :: later) = _
      rw [skipStep_list, bind_of_ok (nextPart_cons hspace later), if_neg (by simpa using hclose)]
      rfl
    | false =>
      rw [if_neg Bool.false_ne_true] at hread
      split at hread
      · next hcomma =>
        subst hcomma
        rw [bind_of_ok (next_cons _ _)] at hread
        obtain ⟨inner, c, tail, hinner, -, rfl, hthen⟩ := first_of_ok hread
        have hstep : skipParts .list stack false (0x2c :: (inner ++ c :: tail)) =
            skipFrom (.list :: stack) .before (inner ++ c :: tail) := by
          refine skipFrom_of_step (by simp) ?_
          rw [skipStep, bind_of_ok (space_cons (by decide) _), bind_of_ok (next_cons _ _), if_pos rfl]
          rfl
        rw [hstep, skipFrom_before_append hinner]
        split at hthen
        · simp [refuse] at hthen
        · obtain ⟨-, rfl⟩ := pure_eq_ok hthen
          rfl
      · simp [refuse] at hread

/-- A name and the colon behind it are skipped when the name is. -/
theorem skipName_cons (hname : skipStringRest s = .ok ((), t)) (hcolon : expect 0x3a t = .ok ((), u)) :
    skipName (0x22 :: s) = .ok ((), u) := by
  rw [skipName, bind_of_ok (expect_cons (by decide) s), bind_of_ok hname, hcolon]

/-- Behind the name of a member and its colon, its value is waited for inside the object. -/
theorem skipParts_of_name (first : Bool) (hblank : Blank blank) (hname : skipStringRest s = .ok ((), t))
    (hcolon : expect 0x3a t = .ok ((), u)) :
    skipParts .object stack first ((if first then [] else [0x2c]) ++ (blank ++ 0x22 :: s)) =
      skipFrom (.object :: stack) .before u := by
  cases first with
  | true =>
    rw [if_pos rfl, List.nil_append, skipParts_append hblank]
    refine skipFrom_of_step (by simp) ?_
    show skipStep stack .before (0x7b :: 0x22 :: s) = _
    rw [skipStep_object, bind_of_ok (nextPart_cons (by decide) s), if_neg (by decide),
      bind_of_ok (skipName_cons hname hcolon)]
    rfl
  | false =>
    have hskip : skipName (blank ++ 0x22 :: s) = .ok ((), u) :=
      (bind_congr (expect_append hblank 0x22 _) _).trans (skipName_cons hname hcolon)
    refine skipFrom_of_step (by simp) ?_
    show skipStep (.object :: stack) .behind (0x2c :: (blank ++ 0x22 :: s)) = _
    rw [skipStep, bind_of_ok (space_cons (by decide) _), bind_of_ok (next_cons _ _), if_pos rfl, bind_of_ok hskip]
    rfl

/-! ## Well-formed values -/

/-- A text is skipped as a value, under any stack and wherever it stands. -/
def Skipped (text : Bytes) : Prop :=
  ∀ stack rest, Ends rest → skipFrom stack .before (text ++ rest) = skipFrom stack .behind rest

/-- The elements of an array are skipped one by one. -/
theorem skipParts_elements {elements : List Padded} (h : ∀ e ∈ elements, Starts e.value ∧ Skipped e.value)
    (first : Bool) (hblank : Blank blank) (stack : List Frame) (rest : Bytes) :
    skipParts .list stack first (blank ++ (separated first (elements.map Padded.text) ++ 0x5d :: rest)) =
      skipFrom stack .behind rest := by
  induction elements generalizing first blank with
  | nil =>
    rw [skipParts_append hblank]
    exact skipParts_close .list first rest
  | cons e later ih =>
    obtain ⟨⟨hstarts, hskipped⟩, hlater⟩ := List.forall_mem_cons.mp h
    rw [skipParts_of_element (nextElement_separated first hblank hstarts later _),
      hskipped _ _ (ends_separated e.blank_behind (by decide) _ rest)]
    exact ih hlater false e.blank_behind

/-- The members of an object are skipped one by one. -/
theorem skipParts_lines {lines : List Line} (h : ∀ line ∈ lines, StringBody line.name ∧ Skipped line.value.value)
    (first : Bool) (hblank : Blank blank) (stack : List Frame) (rest : Bytes) :
    skipParts .object stack first (blank ++ (separated first (lines.map Line.text) ++ 0x7d :: rest)) =
      skipFrom stack .behind rest := by
  induction lines generalizing first blank with
  | nil =>
    rw [skipParts_append hblank]
    exact skipParts_close .object first rest
  | cons line later ih =>
    obtain ⟨⟨hname, hskipped⟩, hlater⟩ := List.forall_mem_cons.mp h
    have hrow : separated first ((line :: later).map Line.text) ++ 0x7d :: rest =
        (if first then [] else [0x2c]) ++ (line.before ++ 0x22 :: (line.name ++ 0x22 :: (line.tail ++
          (line.value.behind ++ (separated false (later.map Line.text) ++ 0x7d :: rest))))) := by
      cases first <;> simp [separated, Line.text]
    rw [skipParts_append hblank, hrow,
      skipParts_of_name first line.blank_before (skipStringRest_body hname _) (expect_tail line _),
      skipFrom_before_append line.value.blank_before,
      hskipped _ _ (ends_separated line.value.blank_behind (by decide) _ rest)]
    exact ih hlater false line.value.blank_behind

/-- A well-formed value starts with neither a space nor a closing bracket. -/
theorem WellFormed.starts {text : Bytes} (h : WellFormed text) : Starts text := by
  cases h with
  | null => exact ⟨_, _, rfl, by decide, by decide⟩
  | truth value => cases value <;> exact ⟨_, _, rfl, by decide, by decide⟩
  | string _ => exact ⟨_, _, rfl, by decide, by decide⟩
  | number h =>
    obtain ⟨b, later, rfl, hb⟩ := h.exists_cons
    refine ⟨b, later, rfl, isSpace_of_isDigit hb, fun hclose => ?_⟩
    exact forall_byte (p := fun b => b = 0x2d ∨ isDigit b = true → b ∉ [0x5d, 0x7d]) (by decide +kernel) b hb hclose
  | list _ _ => exact ⟨_, _, rfl, by decide, by decide⟩
  | object _ _ _ => exact starts_objectText _ _

/-- A value that starts as a number is skipped as one. -/
theorem skipFrom_number {b : UInt8} {later : Bytes} (hb : b = 0x2d ∨ isDigit b = true) {text : NumberText}
    (h : numberText .skipped (b :: later) = .ok (text, t)) (stack : List Frame) :
    skipFrom stack .before (b :: later) = skipFrom stack .behind t := by
  have hnone : b ∉ [0x5b, 0x7b, 0x6e, 0x74, 0x66, 0x22] :=
    forall_byte (p := fun b => b = 0x2d ∨ isDigit b = true → b ∉ [0x5b, 0x7b, 0x6e, 0x74, 0x66, 0x22])
      (by decide +kernel) b hb
  simp only [List.mem_cons, List.not_mem_nil, or_false, not_or] at hnone
  obtain ⟨hlist, hobject, hnull, htrue, hfalse, hquote⟩ := hnone
  refine skipFrom_scalar (isSpace_of_isDigit hb) hlist hobject ?_
  rw [skipScalar, if_neg hnull, if_neg htrue, if_neg hfalse, if_neg hquote, if_pos hb, bind_of_ok h]
  rfl

/-- A well-formed value is skipped, whatever its depth. -/
theorem WellFormed.skipped {text : Bytes} (h : WellFormed text) : Skipped text := by
  induction h with
  | null =>
    intro stack rest _
    show skipFrom stack .before (0x6e :: (nullRest ++ rest)) = _
    refine skipFrom_scalar (by decide) (by decide) (by decide) ?_
    rw [skipScalar, if_pos rfl, bind_of_ok (next_cons _ _), literal_append]
  | truth value =>
    intro stack rest _
    cases value with
    | true =>
      show skipFrom stack .before (0x74 :: (trueRest ++ rest)) = _
      refine skipFrom_scalar (by decide) (by decide) (by decide) ?_
      rw [skipScalar, if_neg (by decide), if_pos rfl, bind_of_ok (next_cons _ _), literal_append]
    | false =>
      show skipFrom stack .before (0x66 :: (falseRest ++ rest)) = _
      refine skipFrom_scalar (by decide) (by decide) (by decide) ?_
      rw [skipScalar, if_neg (by decide), if_neg (by decide), if_pos rfl, bind_of_ok (next_cons _ _), literal_append]
  | @string body h =>
    intro stack rest _
    rw [quoted, List.cons_append, List.append_assoc]
    refine skipFrom_scalar (by decide) (by decide) (by decide) ?_
    rw [skipScalar, if_neg (by decide), if_neg (by decide), if_neg (by decide), if_pos rfl, bind_of_ok (next_cons _ _)]
    exact skipStringRest_body h rest
  | @number parts text h =>
    intro stack rest hends
    obtain ⟨b, later, hfirst, hb⟩ := h.exists_cons
    have hread : numberText .skipped (text ++ rest) = .ok (parts, rest) := numberText_append h hends
    rw [hfirst, List.cons_append] at hread ⊢
    exact skipFrom_number hb hread stack
  | @list blank elements hblank helements ih =>
    intro stack rest _
    rw [listText_append]
    exact skipParts_elements (fun e he => ⟨(helements e he).starts, ih e he⟩) true hblank stack rest
  | @object blank lines hblank hnames _ ih =>
    intro stack rest _
    rw [objectText_append]
    exact skipParts_lines (fun line hline => ⟨hnames line hline, ih line hline⟩) true hblank stack rest

/-- Skipping a value leaves space in front of it behind. -/
theorem skims_skipValue : Skims skipValue := fun _ s h => skipFrom_before_append h s

/-- A well-formed value is read by skipping it. -/
theorem reads_skipValue {text : Bytes} (h : WellFormed text) : Reads skipValue text () :=
  fun rest hends => (h.skipped [] rest hends).trans (skipFrom_done rest)

end Reassembly.Json
