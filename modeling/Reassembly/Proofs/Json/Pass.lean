import Reassembly.Proofs.Json.Skip

/-!
# What a reader takes is one value

A reader that succeeds has taken what skipping would have passed: whatever is wanted of a text, the grammar decides
where it ends. So a reader that succeeds in front of a well-formed value stops where that ends, and one that succeeds
at an object has taken its members one by one, each under the label that its name spells.
-/

namespace Reassembly.Json

open Reader Bytes

variable {α β γ : Type} {blank rest s t u : Bytes}

/-! ## Strings and numbers -/

/-- A word that is taken is what comes first. -/
theorem literal_eq_ok {word : Bytes} (h : literal word s = .ok ((), t)) : s = word ++ t := by
  induction word generalizing s with
  | nil => exact (pure_eq_ok h).2
  | cons b later ih =>
    obtain ⟨c, u, hnext, h⟩ := bind_eq_ok h
    cases s with
    | nil => simp [next] at hnext
    | cons first rest =>
      obtain ⟨rfl, rfl⟩ : first = c ∧ rest = u := by simpa [next] using hnext
      split at h
      · next heq => rw [heq, ih h, List.cons_append]
      · simp [refuse] at h

/-- What an escape takes is skipped, though as two escapes when it is a pair. -/
theorem stringBytes_of_escape {decoded : Bytes} (h : escape .kept s = .ok (decoded, t)) (read : Array UInt8) :
    ∃ read', stringBytes .skipped read (0x5c :: s) = stringBytes .skipped read' t := by
  have hunit : ∀ {n : Nat} {s t : Bytes}, hex4 s = .ok (n, t) → ∀ read : Array UInt8,
      stringBytes .skipped read (0x5c :: 0x75 :: s) = stringBytes .skipped (read ++ ([] : Bytes)) t := by
    intro n s t hnumber read
    refine stringBytes_escape ?_ read
    rw [escape_number]
    dsimp only
    rw [bind_of_ok hnumber]
    rfl
  cases s with
  | nil => exact absurd h (by simp [escape, next, bind, StateT.bind, Except.bind])
  | cons b later =>
    rw [escape, bind_of_ok (next_cons b later)] at h
    cases hshort : shortEscape? b with
    | some c =>
      rw [hshort] at h
      obtain ⟨-, rfl⟩ := pure_eq_ok h
      refine ⟨read ++ [c], stringBytes_escape ?_ read⟩
      rw [escape, bind_of_ok (next_cons b later), hshort]
      rfl
    | none =>
      rw [hshort] at h
      dsimp only at h
      split at h
      · next hletter =>
        subst hletter
        obtain ⟨high, u, hhigh, h⟩ := bind_eq_ok h
        rw [hunit hhigh]
        split at h
        · simp [refuse] at h
        · split at h
          · obtain ⟨⟨⟩, v, hmark, h⟩ := bind_eq_ok h
            obtain ⟨low, w, hlow, h⟩ := bind_eq_ok h
            rw [literal_eq_ok hmark]
            split at h
            · obtain ⟨-, rfl⟩ := pure_eq_ok h
              exact ⟨_, hunit hlow _⟩
            · simp [refuse] at h
          · obtain ⟨-, rfl⟩ := pure_eq_ok h
            exact ⟨_, rfl⟩
      · simp [refuse] at h

/-- A string that is kept is skipped up to the same quotation mark. -/
theorem stringBytes_skipped {read found : Array UInt8} (h : stringBytes .kept read s = .ok (found, t))
    (read' : Array UInt8) : ∃ found', stringBytes .skipped read' s = .ok (found', t) := by
  fun_induction stringBytes .kept read s generalizing read' with
  | case1 => simp at h
  | case2 read rest =>
    obtain ⟨rfl, rfl⟩ : read = found ∧ rest = t := by simpa using h
    exact ⟨read', stringBytes_quote read' rest⟩
  | case3 => simp at h
  | case4 read rest decoded rest' hescape _ _ ih =>
    obtain ⟨read'', hskip⟩ := stringBytes_of_escape hescape read'
    rw [hskip]
    exact ih h read''
  | case5 => simp at h
  | case6 read b rest hquote hbackslash hcontrol ih =>
    obtain ⟨found', hfound⟩ := ih h (read' ++ [b])
    exact ⟨found', (stringBytes_plain (List.forall_mem_singleton.mpr ⟨hquote, hbackslash, hcontrol⟩) read' rest).trans
      hfound⟩

/-- A string that is read is skipped. -/
theorem skipStringRest_of_read {text : String} (h : stringRest s = .ok (text, t)) : skipStringRest s = .ok ((), t) := by
  obtain ⟨read, u, hread, h⟩ := bind_eq_ok h
  obtain ⟨found, hskip⟩ := stringBytes_skipped hread #[]
  cases htext : String.fromUTF8? ⟨read⟩ with
  | none => simp [htext, refuse] at h
  | some text =>
    rw [htext] at h
    obtain ⟨-, rfl⟩ := pure_eq_ok h
    rw [skipStringRest, bind_of_ok hskip]
    rfl

/-- What one reader reads, the other reads as well, up to a change of the result. -/
def Agrees (change : α → β) (x : JsonReader α) (y : JsonReader β) : Prop :=
  ∀ s a t, x s = .ok (a, t) → y s = .ok (change a, t)

/-- A reader agrees with itself. -/
theorem Agrees.refl (x : JsonReader α) : Agrees id x x := fun _ _ _ h => h

/-- Reading nothing agrees with reading nothing. -/
theorem Agrees.pure (change : α → β) (a : α) : Agrees change (Pure.pure a) (Pure.pure (change a)) := by
  intro s b t h
  obtain ⟨rfl, rfl⟩ := pure_eq_ok h
  rfl

/-- A refusal agrees with anything. -/
theorem Agrees.refuse (change : α → β) (fault : Fault) (y : JsonReader β) : Agrees change (refuse fault) y := by
  intro s a t h
  simp [Reader.refuse] at h

/-- Readers that agree do so one after the other. -/
theorem Agrees.bind {change : β → γ} {x y : JsonReader α} {f : α → JsonReader β} {g : α → JsonReader γ}
    (hx : Agrees id x y) (hf : ∀ a, Agrees change (f a) (g a)) : Agrees change (x >>= f) (y >>= g) := by
  intro s b u h
  obtain ⟨a, t, ha, hb⟩ := bind_eq_ok h
  rw [bind_of_ok (hx s a t ha)]
  exact hf a t b u hb

/-- Digits that are kept are skipped. -/
theorem agrees_someDigits : Agrees id (someDigits .kept) (someDigits .skipped) := by
  refine (Agrees.refl _).bind fun first => (Agrees.refl _).bind fun found => ?_
  split
  · exact .refuse _ _ _
  · exact .refl _

/-- A number that is kept is skipped. -/
theorem agrees_numberText : Agrees id (numberText .kept) (numberText .skipped) := by
  have whole : Agrees id (wholeDigits .kept) (wholeDigits .skipped) := agrees_someDigits.bind fun _ => .refl _
  have fraction : Agrees id (fractionDigits .kept) (fractionDigits .skipped) := by
    refine (Agrees.refl _).bind fun b => ?_
    split
    · exact (Agrees.refl _).bind fun _ => agrees_someDigits.bind fun _ => .refl _
    · exact .refl _
  have exponent : Agrees id (exponentDigits .kept) (exponentDigits .skipped) := by
    refine (Agrees.refl _).bind fun b => ?_
    split
    · exact (Agrees.refl _).bind fun _ => (Agrees.refl _).bind fun _ => agrees_someDigits.bind fun _ => .refl _
    · exact .refl _
  have unsigned : ∀ negative, Agrees id (unsignedNumber .kept negative) (unsignedNumber .skipped negative) :=
    fun _ => whole.bind fun _ => fraction.bind fun _ => exponent.bind fun _ => .refl _
  refine (Agrees.refl _).bind fun b => ?_
  split
  · exact (Agrees.refl _).bind fun _ => unsigned true
  · exact unsigned false

/-! ## Values -/

/-- What a reader takes off a text is passed by skipping one value. -/
def Passes (value : JsonReader α) : Prop :=
  ∀ s a t, value s = .ok (a, t) → ∀ stack, skipFrom stack .before s = skipFrom stack .behind t

/-- In front of a well-formed value, a reader stops where that ends. -/
theorem Passes.rest_eq {value : JsonReader α} (h : Passes value) {text : Bytes} (hvalue : WellFormed text)
    (hends : Ends rest) {a : α} (hread : value (text ++ rest) = .ok (a, t)) : t = rest := by
  have hskip := h _ _ _ hread []
  rw [hvalue.skipped [] rest hends, skipFrom_done, skipFrom_done] at hskip
  simpa using hskip.symm

/-- A reader passes a value when it does from its first byte on. -/
theorem passes_of_first {f : UInt8 → JsonReader α}
    (h : ∀ b later a t, isSpace b = false → f b (b :: later) = .ok (a, t) →
      ∀ stack, skipFrom stack .before (b :: later) = skipFrom stack .behind t) :
    Passes (nextPart >>= fun part => match part with
      | none => refuse .truncated
      | some b => f b) := by
  intro s a t hread stack
  obtain ⟨blank, b, later, hblank, hspace, rfl, hfirst⟩ := first_of_ok hread
  rw [skipFrom_before_append hblank]
  exact h b later a t hspace hfirst stack

/-- A string passes. -/
theorem passes_string : Passes string := by
  refine passes_of_first fun b later text t hspace h stack => ?_
  split at h
  · next hquote =>
    subst hquote
    rw [bind_of_ok (next_cons _ _)] at h
    refine skipFrom_scalar hspace (by decide) (by decide) ?_
    rw [skipScalar, if_neg (by decide), if_neg (by decide), if_neg (by decide), if_pos rfl, bind_of_ok (next_cons _ _)]
    exact skipStringRest_of_read h
  · exact absurd h refuseKind_ne_ok

/-- A truth value passes. -/
theorem passes_boolean : Passes boolean := by
  refine passes_of_first fun b later value t hspace h stack => ?_
  split at h
  · next htrue =>
    subst htrue
    rw [bind_of_ok (next_cons _ _)] at h
    obtain ⟨⟨⟩, u, hword, h⟩ := bind_eq_ok h
    obtain ⟨-, rfl⟩ := pure_eq_ok h
    refine skipFrom_scalar hspace (by decide) (by decide) ?_
    rw [skipScalar, if_neg (by decide), if_pos rfl, bind_of_ok (next_cons _ _), hword]
  · split at h
    · next hfalse =>
      subst hfalse
      rw [bind_of_ok (next_cons _ _)] at h
      obtain ⟨⟨⟩, u, hword, h⟩ := bind_eq_ok h
      obtain ⟨-, rfl⟩ := pure_eq_ok h
      refine skipFrom_scalar hspace (by decide) (by decide) ?_
      rw [skipScalar, if_neg (by decide), if_neg (by decide), if_pos rfl, bind_of_ok (next_cons _ _), hword]
    · exact absurd h refuseKind_ne_ok

/-- A wanted number has been read as one that is skipped is. -/
theorem numberText_of_number {n : Option Nat} (h : number s = .ok (n, t)) :
    ∃ text, numberText .skipped s = .ok (text, t) := by
  obtain ⟨text, u, htext, h⟩ := bind_eq_ok h
  refine ⟨text, agrees_numberText _ _ _ ?_⟩
  rw [htext]
  dsimp only at h
  repeat' split at h
  all_goals
    first
    | simp [refuse] at h
    | (obtain ⟨-, rfl⟩ := pure_eq_ok h
       rfl)

/-- A number passes. -/
theorem passes_natural : Passes natural := by
  refine passes_of_first fun b later n t hspace h stack => ?_
  split at h
  · next hb =>
    obtain ⟨found, u, hnumber, h⟩ := bind_eq_ok h
    obtain ⟨text, htext⟩ := numberText_of_number hnumber
    cases found with
    | none => simp [refuse] at h
    | some n =>
      obtain ⟨-, rfl⟩ := pure_eq_ok h
      exact skipFrom_number hb htext stack
  · exact absurd h refuseKind_ne_ok

/-- Brackets that are open further out do not change a step. -/
theorem agrees_skipStep (inner outer : List Frame) (stand : Stand) :
    Agrees (fun state : List Frame × Stand => (state.1 ++ outer, state.2)) (skipStep inner stand)
      (skipStep (inner ++ outer) stand) := by
  cases stand with
  | before =>
    refine (Agrees.refl _).bind fun part => ?_
    cases part with
    | none => exact .refuse _ _ _
    | some b =>
      dsimp only
      split
      · refine (Agrees.refl _).bind fun _ => (Agrees.refl _).bind fun next => ?_
        split
        · exact (Agrees.refl _).bind fun _ => .pure _ _
        · exact .pure _ _
      · split
        · refine (Agrees.refl _).bind fun _ => (Agrees.refl _).bind fun next => ?_
          split
          · exact (Agrees.refl _).bind fun _ => .pure _ _
          · exact (Agrees.refl _).bind fun _ => .pure _ _
        · exact (Agrees.refl _).bind fun _ => .pure _ _
  | behind =>
    cases inner with
    | nil => exact .refuse _ _ _
    | cons frame inner =>
      refine (Agrees.refl _).bind fun _ => (Agrees.refl _).bind fun b => ?_
      split
      · cases frame with
        | list => exact .pure _ _
        | object => exact (Agrees.refl _).bind fun _ => .pure _ _
      · split
        · exact .pure _ _
        · exact .refuse _ _ _

/-- Skipping inside brackets that are open further out ends behind the value as well. -/
theorem skipFrom_append {inner : List Frame} {stand : Stand} (h : skipFrom inner stand s = .ok ((), t))
    (outer : List Frame) : skipFrom (inner ++ outer) stand s = skipFrom outer .behind t := by
  fun_induction skipFrom inner stand s with
  | case1 inner stand s hdone =>
    obtain ⟨rfl, rfl⟩ := hdone
    obtain rfl : s = t := by simpa using h
    rfl
  | case2 => simp at h
  | case3 inner stand s hwait inner' stand' u hstep _ ih =>
    rw [← ih h]
    refine skipFrom_of_step (fun hdone => hwait ⟨?_, hdone.2⟩) (agrees_skipStep inner outer stand _ _ _ hstep)
    exact (List.append_eq_nil_iff.mp hdone.1).1

/-- A value that is skipped passes. -/
theorem passes_skipValue : Passes skipValue := fun _ _ _ h stack => skipFrom_append h stack

/-! ## Between brackets -/

/-- A byte that was expected stands behind a blank. -/
theorem expect_eq_ok {b : UInt8} (h : expect b s = .ok ((), t)) : ∃ blank, Blank blank ∧ s = blank ++ b :: t := by
  obtain ⟨⟨⟩, u, hspace, h⟩ := bind_eq_ok h
  obtain ⟨c, v, hnext, h⟩ := bind_eq_ok h
  cases u with
  | nil => simp [next] at hnext
  | cons first later =>
    obtain ⟨rfl, rfl⟩ : first = c ∧ later = v := by simpa [next] using hnext
    have hpart : nextPart s = .ok (some first, first :: later) := by
      rw [nextPart, bind_of_ok hspace]
      rfl
    split at h
    · next hfirst =>
      obtain ⟨-, rfl⟩ := pure_eq_ok h
      obtain ⟨blank, later', hblank, -, hs, heq⟩ := nextPart_eq_some hpart
      exact ⟨blank, hblank, by rw [hs, ← heq, hfirst]⟩
    · simp [refuse] at h

/-- Behind the last part, a closing bracket ends the parts. -/
theorem skipParts_of_expect (frame : Frame) (h : expect frame.close s = .ok ((), t)) (stack : List Frame) :
    skipParts frame stack false s = skipFrom stack .behind t := by
  obtain ⟨blank, hblank, rfl⟩ := expect_eq_ok h
  rw [skipParts_append hblank, skipParts_close]

/-- What a reader takes between two brackets is passed by skipping part after part. -/
def PassesParts (frame : Frame) (first : Bool) (x : JsonReader α) : Prop :=
  ∀ s a t, x s = .ok (a, t) → ∀ stack, skipParts frame stack first s = skipParts frame stack false t

/-- A refusal passes whatever one likes. -/
theorem PassesParts.refuse (frame : Frame) (first : Bool) (fault : Fault) :
    PassesParts frame first (refuse fault : JsonReader α) := by
  intro s a t h
  simp [Reader.refuse] at h

/-- Reading nothing passes nothing. -/
theorem PassesParts.pure (frame : Frame) (a : α) : PassesParts frame false (Pure.pure a) := by
  intro s b t h stack
  obtain ⟨-, rfl⟩ := pure_eq_ok h
  rfl

/-- Parts that are passed one after the other. -/
theorem PassesParts.bind {frame : Frame} {first : Bool} {x : JsonReader α} {f : α → JsonReader β}
    (hx : PassesParts frame first x) (hf : ∀ a, PassesParts frame false (f a)) : PassesParts frame first (x >>= f) := by
  intro s b u h stack
  obtain ⟨a, t, ha, hb⟩ := bind_eq_ok h
  rw [hx s a t ha stack]
  exact hf a t b u hb stack

/-- In front of a closing bracket, behind space, nothing is passed. -/
theorem skipParts_of_close (frame : Frame) (first : Bool) (hblank : Blank blank) (later : Bytes) (stack : List Frame) :
    skipParts frame stack first (blank ++ frame.close :: later) =
      skipParts frame stack false (frame.close :: later) := by
  rw [skipParts_append hblank, skipParts_close, skipParts_close]

/-- Where there is no element, nothing is passed. -/
theorem skipParts_of_no_element {first : Bool} (h : nextElement first s = .ok (false, t)) (stack : List Frame) :
    skipParts .list stack first s = skipParts .list stack false t := by
  obtain ⟨blank, b, later, hblank, -, rfl, hread⟩ := first_of_ok h
  split at hread
  · next hclose =>
    obtain ⟨-, rfl⟩ := pure_eq_ok hread
    subst hclose
    exact skipParts_of_close .list first hblank later stack
  · split at hread
    · exact absurd (pure_eq_ok hread).1 (by decide)
    · split at hread
      · obtain ⟨c, u, -, hread⟩ := bind_eq_ok hread
        obtain ⟨-, d, later', -, -, -, hread⟩ := first_of_ok hread
        split at hread
        · simp [refuse] at hread
        · exact absurd (pure_eq_ok hread).1 (by decide)
      · simp [refuse] at hread

/-- An element passes, if there is one. -/
theorem passesParts_element? {element : JsonReader α} (h : Passes element) (first : Bool) :
    PassesParts .list first (element? first element) := by
  intro s a t hread stack
  obtain ⟨found, u, hnext, hread⟩ := bind_eq_ok hread
  cases found with
  | true =>
    obtain ⟨b, v, hb, hread⟩ := bind_eq_ok hread
    obtain ⟨-, rfl⟩ := pure_eq_ok hread
    rw [skipParts_of_element hnext, h _ _ _ hb]
    rfl
  | false =>
    obtain ⟨-, rfl⟩ := pure_eq_ok hread
    exact skipParts_of_no_element hnext stack

/-- Elements pass up to the closing bracket. -/
theorem passesParts_elementsFrom {element : JsonReader α} (consumes : Consumes element) (h : Passes element)
    (first : Bool) (earlier : List α) : PassesParts .list first (elementsFrom element consumes first earlier) := by
  intro s a t hread stack
  fun_induction elementsFrom element consumes first earlier s with
  | case1 => simp at hread
  | case2 first earlier s rest hnext =>
    obtain ⟨-, rfl⟩ : earlier.reverse = a ∧ rest = t := by simpa using hread
    exact skipParts_of_no_element hnext stack
  | case3 => simp at hread
  | case4 first earlier s rest hnext b rest' hb _ ih =>
    rw [skipParts_of_element hnext, h _ _ _ hb]
    exact ih hread

/-- An array passes when its elements do. -/
theorem passes_array {element : JsonReader α} (consumes : Consumes element) (h : Passes element) :
    Passes (array element consumes) := by
  refine passes_of_first fun b later a t hspace hread stack => ?_
  split at hread
  · next hopen =>
    subst hopen
    rw [bind_of_ok (next_cons _ _)] at hread
    obtain ⟨elements, u, helements, hread⟩ := bind_eq_ok hread
    obtain ⟨⟨⟩, v, hclose, hread⟩ := bind_eq_ok hread
    obtain ⟨-, rfl⟩ := pure_eq_ok hread
    rw [← skipParts_of_expect .list hclose stack]
    exact passesParts_elementsFrom consumes h true [] _ _ _ helements stack
  · exact absurd hread refuseKind_ne_ok

/-- What a reader takes behind a name is passed by skipping a colon and a value. -/
def PassesMember (x : JsonReader α) : Prop :=
  ∀ s a t, x s = .ok (a, t) → ∃ u, expect 0x3a s = .ok ((), u) ∧
    ∀ stack, skipFrom stack .before u = skipFrom stack .behind t

/-- A refusal passes whatever one likes. -/
theorem PassesMember.refuse (fault : Fault) : PassesMember (refuse fault : JsonReader α) := by
  intro s a t h
  simp [Reader.refuse] at h

/-- The value of a member passes, wherever it is put. -/
theorem Passes.member {value : JsonReader α} (h : Passes value) (put : α → β) :
    PassesMember (memberValue value >>= fun a => pure (put a)) := by
  intro s b t hmember
  obtain ⟨a, u, hvalue, hput⟩ := bind_eq_ok hmember
  obtain ⟨-, rfl⟩ := pure_eq_ok hput
  obtain ⟨⟨⟩, v, hcolon, hread⟩ := bind_eq_ok hvalue
  exact ⟨v, hcolon, h _ _ _ hread⟩

/-- Where there is no name, nothing is passed. -/
theorem skipParts_of_no_name {first : Bool} (h : nextName first s = .ok (none, t)) (stack : List Frame) :
    skipParts .object stack first s = skipParts .object stack false t := by
  obtain ⟨blank, b, later, hblank, -, rfl, hread⟩ := first_of_ok h
  split at hread
  · next hclose =>
    obtain ⟨-, rfl⟩ := pure_eq_ok hread
    subst hclose
    exact skipParts_of_close .object first hblank later stack
  · split at hread
    · obtain ⟨name, u, -, hread⟩ := bind_eq_ok hread
      exact absurd (pure_eq_ok hread).1 (Option.some_ne_none _)
    · split at hread
      · obtain ⟨c, u, -, hread⟩ := bind_eq_ok hread
        obtain ⟨⟨⟩, v, -, hread⟩ := bind_eq_ok hread
        obtain ⟨name, w, -, hread⟩ := bind_eq_ok hread
        exact absurd (pure_eq_ok hread).1 (Option.some_ne_none _)
      · simp [refuse] at hread

/-- A name that is read is a string behind a quotation mark. -/
theorem memberName_eq_ok {name : String} (h : memberName s = .ok (name, t)) :
    ∃ later, s = 0x22 :: later ∧ stringRest later = .ok (name, t) := by
  obtain ⟨b, u, hnext, h⟩ := bind_eq_ok h
  cases s with
  | nil => simp [next] at hnext
  | cons first later =>
    obtain ⟨rfl, rfl⟩ : first = b ∧ later = u := by simpa [next] using hnext
    split at h
    · next hquote => exact ⟨later, by rw [hquote], h⟩
    · simp [refuse] at h

/-- A name that is found stands behind a separator, if one is due, and space. -/
theorem nextName_eq_some {first : Bool} {name : String} (h : nextName first s = .ok (some name, t)) :
    ∃ blank blank' later, Blank blank ∧ Blank blank' ∧
      s = blank ++ ((if first then [] else [0x2c]) ++ (blank' ++ 0x22 :: later)) ∧
      stringRest later = .ok (name, t) := by
  obtain ⟨blank, b, later, hblank, -, rfl, hfirst⟩ := first_of_ok h
  split at hfirst
  · exact absurd (pure_eq_ok hfirst).1.symm (Option.some_ne_none _)
  · cases first with
    | true =>
      obtain ⟨found, v, hname, hfirst⟩ := bind_eq_ok hfirst
      obtain ⟨hfound, rfl⟩ := pure_eq_ok hfirst
      obtain rfl := Option.some.inj hfound
      obtain ⟨later', heq, hread⟩ := memberName_eq_ok hname
      exact ⟨blank, [], later', hblank, Blank.nil, by rw [heq]; rfl, hread⟩
    | false =>
      rw [if_neg Bool.false_ne_true] at hfirst
      split at hfirst
      · next hcomma =>
        subst hcomma
        rw [bind_of_ok (next_cons _ _)] at hfirst
        obtain ⟨⟨⟩, v, hspace, hfirst⟩ := bind_eq_ok hfirst
        obtain ⟨found, w, hname, hfirst⟩ := bind_eq_ok hfirst
        obtain ⟨hfound, rfl⟩ := pure_eq_ok hfirst
        obtain rfl := Option.some.inj hfound
        obtain ⟨later', rfl, hread⟩ := memberName_eq_ok hname
        have hpart : nextPart later = .ok (some 0x22, 0x22 :: later') := by
          rw [nextPart, bind_of_ok hspace]
          rfl
        obtain ⟨blank', later'', hblank', -, rfl, heq⟩ := nextPart_eq_some hpart
        obtain rfl := (List.cons.inj heq).2
        exact ⟨blank, blank', later', hblank, hblank', rfl, hread⟩
      · simp [refuse] at hfirst

/-- A member that is taken passes with its name. -/
theorem skipParts_of_member {first : Bool} {name : String} {x : JsonReader α} {a : α}
    (hname : nextName first s = .ok (some name, t)) (hx : PassesMember x) (h : x t = .ok (a, u)) (stack : List Frame) :
    skipParts .object stack first s = skipParts .object stack false u := by
  obtain ⟨blank, blank', later, hblank, hblank', rfl, hread⟩ := nextName_eq_some hname
  obtain ⟨v, hcolon, hskip⟩ := hx _ _ _ h
  rw [skipParts_append hblank, skipParts_of_name first hblank' (skipStringRest_of_read hread) hcolon]
  exact hskip _

/-- Members pass up to the closing brace. -/
theorem passesParts_membersFrom {take : String → α → JsonReader α} (consumes : ∀ name a, Consumes (take name a))
    (h : ∀ name a, PassesMember (take name a)) (first : Bool) (a : α) :
    PassesParts .object first (membersFrom take consumes first a) := by
  intro s b t hread stack
  fun_induction membersFrom take consumes first a s with
  | case1 => simp at hread
  | case2 first a s rest hnext =>
    obtain ⟨-, rfl⟩ : a = b ∧ rest = t := by simpa using hread
    exact skipParts_of_no_name hnext stack
  | case3 => simp at hread
  | case4 first a s name rest hnext c rest' hc _ ih =>
    rw [skipParts_of_member hnext (h name a) hc]
    exact ih hread

/-- A record passes when what stands between its brackets does. -/
theorem passes_record {ofObject ofArray : JsonReader α} (hobject : PassesParts .object true ofObject)
    (harray : PassesParts .list true ofArray) : Passes (record ofObject ofArray) := by
  refine passes_of_first fun b later a t hspace h stack => ?_
  split at h
  · next hopen =>
    subst hopen
    rw [bind_of_ok (next_cons _ _)] at h
    obtain ⟨found, u, hfound, h⟩ := bind_eq_ok h
    obtain ⟨⟨⟩, v, hclose, h⟩ := bind_eq_ok h
    obtain ⟨-, rfl⟩ := pure_eq_ok h
    rw [← skipParts_of_expect .object hclose stack]
    exact hobject _ _ _ hfound stack
  · split at h
    · next hopen =>
      subst hopen
      rw [bind_of_ok (next_cons _ _)] at h
      obtain ⟨found, u, hfound, h⟩ := bind_eq_ok h
      obtain ⟨⟨⟩, v, hclose, h⟩ := bind_eq_ok h
      obtain ⟨-, rfl⟩ := pure_eq_ok h
      rw [← skipParts_of_expect .list hclose stack]
      exact harray _ _ _ hfound stack
    · exact absurd h refuseKind_ne_ok

end Reassembly.Json
