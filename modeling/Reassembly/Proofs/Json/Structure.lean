import Mathlib.Data.List.Forall2
import Mathlib.Data.List.TakeWhile
import Reassembly.Proofs.Json.Scan

/-!
# Values are read from any of their texts

A text of a value is read as that value whatever follows it, as long as that ends a value, and whatever space there is
in front. Elements and members that are read one by one are read in a row, so that arrays and objects are. The reader
of a record keeps track of the labels that have come by, and so takes its members in any order.
-/

namespace Reassembly.Json

open Reader Bytes

variable {α β : Type} {blank rest : Bytes}

/-- A text is read as a value wherever it stands. -/
def Reads (value : JsonReader α) (text : Bytes) (a : α) : Prop :=
  ∀ rest, Ends rest → value (text ++ rest) = .ok (a, rest)

/-- A reader of values leaves any space in front of them behind. -/
def Skims (value : JsonReader α) : Prop := ∀ blank s, Blank blank → value (blank ++ s) = value s

/-- A text that is read wherever it stands is read when nothing but space is there. -/
theorem whole_of_reads {value : JsonReader α} (hskims : Skims value) {p : Padded} {a : α}
    (h : Reads value p.value a) : whole value p.text = .ok a := by
  have hends : Ends p.behind := by
    have hnil := Ends.append p.blank_behind .nil
    rwa [List.append_nil] at hnil
  have hbehind : p.behind.dropWhile isSpace = [] :=
    List.dropWhile_eq_nil_iff.mpr fun b hb => isSpace_of_mem (p.blank_behind b hb)
  have hread : value p.text = .ok (a, p.behind) := by
    rw [Padded.text, hskims _ _ p.blank_before]
    exact h _ hends
  rw [whole, hread]
  exact if_pos hbehind

/-! ## Scalars -/

/-- A reader of strings leaves space in front of them behind. -/
theorem skims_string : Skims string := fun _ s h => bind_congr (nextPart_append h s) _

/-- A string is read from any of its texts. -/
theorem reads_string {text : String} {bytes : Bytes} (h : StringText text bytes) : Reads string bytes text := by
  obtain ⟨body, hbody, rfl⟩ := h
  intro rest _
  rw [quoted, List.cons_append, List.append_assoc, string, bind_of_ok (nextPart_cons (by decide) _)]
  exact stringRest_spells hbody rest

/-- A reader of truth values leaves space in front of them behind. -/
theorem skims_boolean : Skims boolean := fun _ s h => bind_congr (nextPart_append h s) _

/-- A truth value is read from its word. -/
theorem reads_boolean (value : Bool) : Reads boolean (ofText (wordOf value)) value := by
  intro rest _
  cases value with
  | true =>
    show boolean (0x74 :: (trueRest ++ rest)) = _
    rw [boolean, bind_of_ok (nextPart_cons (by decide) _)]
    dsimp only
    rw [if_pos rfl, bind_of_ok (next_cons _ _), bind_of_ok (literal_append trueRest rest)]
    rfl
  | false =>
    show boolean (0x66 :: (falseRest ++ rest)) = _
    rw [boolean, bind_of_ok (nextPart_cons (by decide) _)]
    dsimp only
    rw [if_neg (by decide), if_pos rfl, bind_of_ok (next_cons _ _), bind_of_ok (literal_append falseRest rest)]
    rfl

/-- No digit and no sign is a space. -/
theorem isSpace_of_isDigit {b : UInt8} (h : b = 0x2d ∨ isDigit b = true) : isSpace b = false :=
  forall_byte (p := fun b => b = 0x2d ∨ isDigit b = true → isSpace b = false) (by decide +kernel) b h

/-- A reader of numbers leaves space in front of them behind. -/
theorem skims_natural : Skims natural := fun _ s h => bind_congr (nextPart_append h s) _

/-- A number is read from its digits when it is not too large. -/
theorem reads_natural {n : Nat} (h : n < naturalBound) : Reads natural (digitsOf n) n := by
  intro rest hends
  obtain ⟨b, later, hdigits, hfirst⟩ := (numberForm_digitsOf n).exists_cons
  have hnumber : number (digitsOf n ++ rest) = .ok (some n, rest) := by
    rw [number, bind_of_ok (numberText_append (numberForm_digitsOf n) hends)]
    simp only [Option.isNone_none, and_self, if_true, natOfDigits_digitsOf, if_pos h]
    rfl
  have hpart : nextPart (digitsOf n ++ rest) = .ok (some b, digitsOf n ++ rest) := by
    rw [hdigits, List.cons_append, nextPart_cons (isSpace_of_isDigit hfirst)]
  rw [natural, bind_of_ok hpart]
  dsimp only
  rw [if_pos hfirst, bind_of_ok hnumber]
  rfl

/-! ## Arrays -/

/-- What follows a part ends a value, behind any space. -/
theorem ends_separated (hblank : Blank blank) {b : UInt8} (h : b ∈ [0x5d, 0x7d]) (parts : List Bytes) (rest : Bytes) :
    Ends (blank ++ (separated false parts ++ b :: rest)) := by
  refine .append hblank ?_
  cases parts with
  | nil => exact .cons (List.mem_cons_of_mem _ h) rest
  | cons part later => exact .cons List.mem_cons_self _

/-- A text starts with neither a space nor a closing bracket. -/
def Starts (text : Bytes) : Prop := ∃ b later, text = b :: later ∧ isSpace b = false ∧ b ∉ [0x5d, 0x7d]

/-- An object starts with its brace. -/
theorem starts_objectText (blank : Bytes) (lines : List Line) : Starts (objectText blank lines) :=
  ⟨0x7b, _, rfl, by decide, by decide⟩

/-- A text that starts a part is the next part behind any space. -/
theorem Starts.nextPart {text : Bytes} (h : Starts text) (hblank : Blank blank) (rest : Bytes) :
    ∃ b, b ∉ [0x5d, 0x7d] ∧ Json.nextPart (blank ++ (text ++ rest)) = .ok (some b, text ++ rest) := by
  obtain ⟨b, later, rfl, hspace, hclose⟩ := h
  refine ⟨b, hclose, ?_⟩
  rw [nextPart_append hblank]
  exact nextPart_cons hspace _

/-- There is no element in front of a closing bracket. -/
theorem nextElement_close (first : Bool) (hblank : Blank blank) (rest : Bytes) :
    nextElement first (blank ++ 0x5d :: rest) = .ok (false, 0x5d :: rest) := by
  rw [nextElement, bind_congr (nextPart_append hblank _), bind_of_ok (nextPart_cons (by decide) rest)]
  rfl

/-- The next element is found behind a separator, if one is due, and space. -/
theorem nextElement_separated (first : Bool) (hblank : Blank blank) {e : Padded} (h : Starts e.value)
    (later : List Padded) (rest : Bytes) :
    nextElement first (blank ++ (separated first ((e :: later).map Padded.text) ++ rest)) =
      .ok (true, e.value ++ (e.behind ++ (separated false (later.map Padded.text) ++ rest))) := by
  obtain ⟨b, hclose, hpart⟩ :=
    h.nextPart e.blank_before (e.behind ++ (separated false (later.map Padded.text) ++ rest))
  have hbracket : b ≠ 0x5d := fun hb => hclose (hb ▸ List.mem_cons_self)
  cases first with
  | true =>
    rw [List.map_cons, separated, Padded.text, List.append_assoc, List.append_assoc, List.append_assoc, nextElement,
      bind_congr (nextPart_append hblank _), bind_of_ok hpart]
    dsimp only
    rw [if_neg hbracket, if_pos rfl]
    rfl
  | false =>
    rw [List.map_cons, separated, Padded.text, List.cons_append, List.cons_append, List.append_assoc, List.append_assoc,
      List.append_assoc, nextElement, bind_congr (nextPart_append hblank _), bind_of_ok (nextPart_cons (by decide) _)]
    dsimp only
    rw [if_neg (by decide), if_neg (by decide), if_pos rfl, bind_of_ok (next_cons _ _), bind_of_ok hpart]
    dsimp only
    rw [if_neg hbracket]
    rfl

/-- Without a next element the elements are at their end. -/
theorem elementsFrom_of_none {element : JsonReader α} {consumes : Consumes element} {first : Bool} {earlier : List α}
    {s s' : Bytes} (hnext : nextElement first s = .ok (false, s')) :
    elementsFrom element consumes first earlier s = .ok (earlier.reverse, s') := by
  rw [elementsFrom]
  split
  · next fault h => simp [hnext] at h
  · next found h =>
    obtain rfl : s' = found := by simpa [hnext] using h
    rfl
  · next found h => simp [hnext] at h

/-- An element that is read is followed by the others. -/
theorem elementsFrom_cons {element : JsonReader α} {consumes : Consumes element} {first : Bool} {earlier : List α}
    {s s' : Bytes} {a : α} (hnext : nextElement first s = .ok (true, s')) (h : element s' = .ok (a, rest)) :
    elementsFrom element consumes first earlier s = elementsFrom element consumes false (a :: earlier) rest := by
  rw [elementsFrom]
  split
  · next fault hfound => simp [hnext] at hfound
  · next found hfound => simp [hnext] at hfound
  · next found hfound =>
    obtain rfl : s' = found := by simpa [hnext] using hfound
    split
    · next fault hread => simp [h] at hread
    · next b found hread =>
      obtain ⟨rfl, rfl⟩ : a = b ∧ rest = found := by simpa [h] using hread
      rfl

/-- The elements of an array are read one by one. -/
theorem elementsFrom_separated {element : JsonReader α} {consumes : Consumes element} {values : List α}
    {elements : List Padded} (h : List.Forall₂ (fun a e => Reads element e.value a ∧ Starts e.value) values elements)
    (first : Bool) (earlier : List α) (hblank : Blank blank) (rest : Bytes) :
    elementsFrom element consumes first earlier
        (blank ++ (separated first (elements.map Padded.text) ++ 0x5d :: rest)) =
      .ok (earlier.reverse ++ values, 0x5d :: rest) := by
  induction h generalizing first earlier blank with
  | nil =>
    rw [List.append_nil]
    exact elementsFrom_of_none (nextElement_close first hblank rest)
  | @cons a e _ later hfirst _ ih =>
    have hread := hfirst.1 _
      (ends_separated e.blank_behind (by decide : (0x5d : UInt8) ∈ [0x5d, 0x7d]) (later.map Padded.text) rest)
    rw [elementsFrom_cons (nextElement_separated first hblank hfirst.2 later _) hread, ih false _ e.blank_behind,
      List.reverse_cons, List.append_assoc, List.singleton_append]

/-- An array and what follows it, part by part. -/
theorem listText_append (blank : Bytes) (elements : List Padded) (rest : Bytes) : listText blank elements ++ rest =
    0x5b :: (blank ++ (separated true (elements.map Padded.text) ++ 0x5d :: rest)) := by
  simp [listText]

/-- Behind its opening bracket, the elements of an array are read, and the closing one. -/
theorem array_cons (element : JsonReader α) (consumes : Consumes element) (s : Bytes) :
    array element consumes (0x5b :: s) =
      (elementsFrom element consumes true [] >>= fun elements => endArray >>= fun _ => pure elements) s := by
  rw [array, bind_of_ok (nextPart_cons (by decide) _)]
  dsimp only
  rw [if_pos rfl, bind_of_ok (next_cons _ _)]

/-- A reader of arrays leaves space in front of them behind. -/
theorem skims_array (element : JsonReader α) (consumes : Consumes element) : Skims (array element consumes) :=
  fun _ s h => bind_congr (nextPart_append h s) _

/-- An array is read from any text of its elements. -/
theorem reads_array {element : JsonReader α} {consumes : Consumes element} {values : List α} {elements : List Padded}
    (hblank : Blank blank) (h : List.Forall₂ (fun a e => Reads element e.value a ∧ Starts e.value) values elements) :
    Reads (array element consumes) (listText blank elements) values := by
  intro rest _
  rw [listText_append, array_cons, bind_of_ok (elementsFrom_separated h true [] hblank rest), endArray,
    bind_of_ok (expect_cons (by decide) rest)]
  rfl

/-! ## Objects -/

/-- The colon of a member stands behind its name, and space in front of its value. -/
theorem expect_tail (line : Line) (rest : Bytes) :
    expect 0x3a (line.tail ++ rest) = .ok ((), line.value.before ++ (line.value.value ++ rest)) := by
  rw [Line.tail, List.append_assoc, List.cons_append, List.append_assoc, expect_append line.blank_gap]
  exact expect_cons (by decide) _

/-- The value of a member is read behind its colon. -/
theorem memberValue_tail {value : JsonReader α} (hskims : Skims value) (line : Line) (rest : Bytes) :
    memberValue value (line.tail ++ rest) = value (line.value.value ++ rest) := by
  rw [memberValue, bind_of_ok (expect_tail line rest), hskims _ _ line.value.blank_before]

/-- There is no name in front of a closing brace. -/
theorem nextName_close (first : Bool) (hblank : Blank blank) (rest : Bytes) :
    nextName first (blank ++ 0x7d :: rest) = .ok (none, 0x7d :: rest) := by
  rw [nextName, bind_congr (nextPart_append hblank _), bind_of_ok (nextPart_cons (by decide) rest)]
  rfl

/-- The next name is found behind a separator, if one is due, and space. -/
theorem nextName_separated (first : Bool) (hblank : Blank blank) (line : Line) (later : List Line) (rest : Bytes) :
    nextName first (blank ++ (separated first ((line :: later).map Line.text) ++ rest)) =
      (stringRest >>= fun name => pure (some name)) (line.name ++ 0x22 :: (line.tail ++
        (line.value.behind ++ (separated false (later.map Line.text) ++ rest)))) := by
  have hrow : line.text ++ separated false (later.map Line.text) ++ rest =
      line.before ++ 0x22 :: (line.name ++ 0x22 :: (line.tail ++
        (line.value.behind ++ (separated false (later.map Line.text) ++ rest)))) := by
    simp [Line.text]
  cases first with
  | true =>
    rw [List.map_cons, separated, hrow, nextName, bind_congr (nextPart_append hblank _),
      bind_congr (nextPart_append line.blank_before _),
      bind_of_ok (nextPart_cons (by decide) _)]
    rfl
  | false =>
    rw [List.map_cons, separated, List.cons_append, List.cons_append, hrow, nextName,
      bind_congr (nextPart_append hblank _), bind_of_ok (nextPart_cons (by decide) _)]
    dsimp only
    rw [if_neg (by decide), if_neg (by decide), if_pos rfl, bind_of_ok (next_cons _ _),
      bind_congr (space_append line.blank_before _), bind_of_ok (space_cons (by decide) _)]
    rfl

/-- Without a next name the members are at their end. -/
theorem membersFrom_of_none {member : String → α → JsonReader α} {consumes : ∀ name a, Consumes (member name a)}
    {first : Bool} {a : α} {s s' : Bytes} (hnext : nextName first s = .ok (none, s')) :
    membersFrom member consumes first a s = .ok (a, s') := by
  rw [membersFrom]
  split
  · next fault h => simp [hnext] at h
  · next found h =>
    obtain rfl : s' = found := by simpa [hnext] using h
    rfl
  · next found h => simp [hnext] at h

/-- A member that is taken is followed by the others. -/
theorem membersFrom_cons {member : String → α → JsonReader α} {consumes : ∀ name a, Consumes (member name a)}
    {first : Bool} {s s' : Bytes} {name : String} {a a' : α} (hnext : nextName first s = .ok (some name, s'))
    (h : member name a s' = .ok (a', rest)) :
    membersFrom member consumes first a s = membersFrom member consumes false a' rest := by
  rw [membersFrom]
  split
  · next fault hfound => simp [hnext] at hfound
  · next found hfound => simp [hnext] at hfound
  · next other found hfound =>
    obtain ⟨rfl, rfl⟩ : name = other ∧ s' = found := by simpa [hnext] using hfound
    split
    · next fault hread => simp [h] at hread
    · next b found hread =>
      obtain ⟨rfl, rfl⟩ : a' = b ∧ rest = found := by simpa [h] using hread
      rfl

/-- A member is taken, wherever it stands. -/
def TakesMember (take : String → α → JsonReader α) (a : α) (m : Member) (b : α) : Prop :=
  ∀ rest, Ends rest → take m.label a (m.tail ++ rest) = .ok (b, rest)

/-- A member is taken by reading its value and putting that into the state. -/
theorem takesMember_of_reads {take : String → α → JsonReader α} {a b : α} {m : Member} {value : JsonReader β} {x : β}
    {put : β → α} (htake : take m.label a = memberValue value >>= fun x => pure (put x)) (hskims : Skims value)
    (h : Reads value m.value.value x) (hput : b = put x) : TakesMember take a m b := by
  intro rest hends
  rw [htake, bind_of_ok ((memberValue_tail hskims m.toLine rest).trans (h rest hends)), hput]
  rfl

/-- Members are taken one by one. -/
inductive Takes (take : String → α → JsonReader α) : α → List Member → α → Prop
  | nil (a : α) : Takes take a [] a
  | cons {a b c : α} {m : Member} {later : List Member} (first : TakesMember take a m b)
      (others : Takes take b later c) :
      Takes take a (m :: later) c

/-- The members of an object are taken one by one. -/
theorem membersFrom_separated {take : String → α → JsonReader α} {consumes : ∀ name a, Consumes (take name a)}
    {members : List Member} {a b : α} (h : Takes take a members b) (first : Bool) (hblank : Blank blank)
    (rest : Bytes) :
    membersFrom take consumes first a
        (blank ++ (separated first ((members.map Member.toLine).map Line.text) ++ 0x7d :: rest)) =
      .ok (b, 0x7d :: rest) := by
  induction h generalizing first blank with
  | nil a => exact membersFrom_of_none (nextName_close first hblank rest)
  | @cons a b c m later hfirst _ ih =>
    have htaken := hfirst _ (ends_separated m.value.blank_behind (by decide : (0x7d : UInt8) ∈ [0x5d, 0x7d])
      ((later.map Member.toLine).map Line.text) rest)
    have hnext := nextName_separated first hblank m.toLine (later.map Member.toLine) (0x7d :: rest)
    rw [bind_of_ok (stringRest_spells m.spells _)] at hnext
    rw [List.map_cons, membersFrom_cons hnext htaken, ih false m.value.blank_behind]

/-! ## Records -/

/-- An object and what follows it, part by part. -/
theorem objectText_append (blank : Bytes) (lines : List Line) (rest : Bytes) : objectText blank lines ++ rest =
    0x7b :: (blank ++ (separated true (lines.map Line.text) ++ 0x7d :: rest)) := by
  simp [objectText]

/-- Behind an opening brace, a record is read as an object, up to the closing one. -/
theorem record_brace (ofObject ofArray : JsonReader α) (s : Bytes) :
    record ofObject ofArray (0x7b :: s) = (ofObject >>= fun a => expect 0x7d >>= fun _ => pure a) s := by
  rw [record, bind_of_ok (nextPart_cons (by decide) _)]
  dsimp only
  rw [if_pos rfl, bind_of_ok (next_cons _ _)]

/-- Behind an opening bracket, a record is read as an array, up to the closing one. -/
theorem record_bracket (ofObject ofArray : JsonReader α) (s : Bytes) :
    record ofObject ofArray (0x5b :: s) = (ofArray >>= fun a => endArray >>= fun _ => pure a) s := by
  rw [record, bind_of_ok (nextPart_cons (by decide) _)]
  dsimp only
  rw [if_neg (by decide), if_pos rfl, bind_of_ok (next_cons _ _)]

/-- A reader of records leaves space in front of them behind. -/
theorem skims_record (ofObject ofArray : JsonReader α) : Skims (record ofObject ofArray) :=
  fun _ s h => bind_congr (nextPart_append h s) _

/-- A field whose label is on a member is given by it, and by none before it. -/
theorem Field.GivenBy.of_label {field : Field} {earlier later : List Member} {m : Member}
    (h : field.GivenBy (earlier ++ m :: later)) (hlabel : m.label = field.label) :
    field.writes m.value.value ∧ field.label ∉ earlier.map Member.label := by
  obtain ⟨found, hfilter, hwrites⟩ | ⟨-, hnone⟩ := h
  · rw [List.filter_append, List.filter_cons_of_pos (by simpa using hlabel)] at hfilter
    have hearlier : earlier.filter (·.label = field.label) = [] := by
      have hlength := congrArg List.length hfilter
      rw [List.length_append, List.length_cons, List.length_singleton] at hlength
      exact List.length_eq_zero_iff.mp (by omega)
    rw [hearlier, List.nil_append] at hfilter
    obtain rfl := (List.cons.inj hfilter).1
    refine ⟨hwrites, fun hmem => ?_⟩
    obtain ⟨other, hother, heq⟩ := List.mem_map.mp hmem
    exact absurd (decide_eq_true heq) (List.filter_eq_nil_iff.mp hearlier other hother)
  · exact absurd hlabel (hnone m (List.mem_append_right _ List.mem_cons_self))

/-- A field whose label is on no member may be left out. -/
theorem Field.GivenBy.omissible_of_not_mem {field : Field} {members : List Member} (h : field.GivenBy members)
    (hlabel : field.label ∉ members.map Member.label) : field.omissible := by
  obtain ⟨found, hfilter, -⟩ | ⟨homissible, -⟩ := h
  · have hfound : found ∈ members.filter (·.label = field.label) := hfilter ▸ List.mem_singleton_self found
    obtain ⟨hmem, heq⟩ := List.mem_filter.mp hfound
    exact absurd (List.mem_map.mpr ⟨found, hmem, of_decide_eq_true heq⟩) hlabel
  · exact homissible

/-- The value of a field that is given: what its member writes, or else its default. -/
theorem Field.GivenBy.getD {field : Field} {members : List Member} (h : field.GivenBy members) {x default : α}
    (hdefault : field.omissible → x = default) :
    (if field.label ∈ members.map Member.label then some x else none).getD default = x := by
  split
  · rfl
  · next hlabel => exact (hdefault (h.omissible_of_not_mem hlabel)).symm

/-- A record is read from the members that its reader takes. -/
theorem reads_record {take : String → β → JsonReader β} {consumes : ∀ name b, Consumes (take name b)}
    {finish : β → JsonReader α} {ofArray : JsonReader α} {members : List Member} {start final : β} {a : α}
    (hblank : Blank blank) (htakes : Takes take start members final) (hfinish : ∀ s, finish final s = .ok (a, s)) :
    Reads (record (membersFrom take consumes true start >>= finish) ofArray)
      (objectText blank (members.map Member.toLine)) a := by
  intro rest _
  have hobject : (membersFrom take consumes true start >>= finish)
      (blank ++ (separated true ((members.map Member.toLine).map Line.text) ++ 0x7d :: rest)) =
        .ok (a, 0x7d :: rest) := by
    rw [bind_of_ok (membersFrom_separated htakes true hblank rest), hfinish]
  rw [objectText_append, record_brace, bind_of_ok hobject, bind_of_ok (expect_cons (by decide) rest)]
  rfl

end Reassembly.Json
