import Reassembly.Proofs.Json.Pass

/-!
# What a successful reading has read

A reader that comes to the end of a well-formed array has read every element on its own, and one that comes to the end
of a well-formed object has taken every member on its own, each under the label that its name spells. When a state
marks the labels that have come by, and refuses them from then on, no label stands twice.
-/

namespace Reassembly.Json

open Reader Bytes

variable {α β : Type} {blank rest s t : Bytes}

/-- A reader that has come to the end of its elements has found no other, or has read one and then the others. -/
theorem elementsFrom_eq_ok {element : JsonReader α} {consumes : Consumes element} {first : Bool}
    {earlier found : List α} (h : elementsFrom element consumes first earlier s = .ok (found, t)) :
    nextElement first s = .ok (false, t) ∨ ∃ u a v, nextElement first s = .ok (true, u) ∧ element u = .ok (a, v) ∧
      elementsFrom element consumes false (a :: earlier) v = .ok (found, t) := by
  rw [elementsFrom] at h
  split at h
  · simp at h
  · next rest hnext =>
    obtain ⟨-, rfl⟩ : earlier.reverse = found ∧ rest = t := by simpa using h
    exact .inl hnext
  · next rest hnext =>
    split at h
    · simp at h
    · next a rest' ha => exact .inr ⟨rest, a, rest', hnext, ha, h⟩

/-- A reader that has come to the end of its members has found no other, or has taken one and then the others. -/
theorem membersFrom_eq_ok {take : String → α → JsonReader α} {consumes : ∀ name a, Consumes (take name a)}
    {first : Bool} {a b : α} (h : membersFrom take consumes first a s = .ok (b, t)) :
    nextName first s = .ok (none, t) ∨ ∃ name u c v, nextName first s = .ok (some name, u) ∧
      take name a u = .ok (c, v) ∧ membersFrom take consumes false c v = .ok (b, t) := by
  rw [membersFrom] at h
  split at h
  · simp at h
  · next rest hnext =>
    obtain ⟨-, rfl⟩ : a = b ∧ rest = t := by simpa using h
    exact .inl hnext
  · next name rest hnext =>
    split at h
    · simp at h
    · next c rest' hc => exact .inr ⟨name, rest, c, rest', hnext, hc, h⟩

/-- A reader has succeeded in front of a text. -/
def HasRead (value : JsonReader α) (text : Bytes) : Prop := ∃ rest a t, value (text ++ rest) = .ok (a, t)

/-- A reader that has read a whole text has succeeded in front of its value. -/
theorem hasRead_of_whole {value : JsonReader α} (hskims : Skims value) {p : Padded} {a : α}
    (h : whole value p.text = .ok a) : HasRead value p.value := by
  rw [whole, Padded.text, hskims _ _ p.blank_before] at h
  split at h
  · simp at h
  · next b t hread => exact ⟨p.behind, b, t, hread⟩

/-! ## Arrays -/

/-- All elements of an array have been read. -/
theorem hasRead_of_elementsFrom {element : JsonReader α} {consumes : Consumes element} (hpasses : Passes element)
    {elements : List Padded} (helements : ∀ e ∈ elements, WellFormed e.value) {first : Bool} {earlier found : List α}
    (hblank : Blank blank) (h : elementsFrom element consumes first earlier
      (blank ++ (separated first (elements.map Padded.text) ++ 0x5d :: rest)) = .ok (found, t)) :
    ∀ e ∈ elements, HasRead element e.value := by
  induction elements generalizing first earlier blank with
  | nil => exact fun e he => absurd he List.not_mem_nil
  | cons e later ih =>
    obtain ⟨hvalue, hlater⟩ := List.forall_mem_cons.mp helements
    have hnext := nextElement_separated first hblank hvalue.starts later (0x5d :: rest)
    have hends := ends_separated e.blank_behind (by decide : (0x5d : UInt8) ∈ [0x5d, 0x7d]) (later.map Padded.text) rest
    obtain hnone | ⟨u, a, v, hsome, ha, hothers⟩ := elementsFrom_eq_ok h
    · exact absurd (hnext.symm.trans hnone) (by simp)
    · obtain rfl : _ = u := by simpa using hnext.symm.trans hsome
      obtain rfl := hpasses.rest_eq hvalue hends ha
      exact List.forall_mem_cons.mpr ⟨⟨_, a, _, ha⟩, ih hlater e.blank_behind hothers⟩

/-- An array that is read has all of its elements read. -/
theorem hasRead_of_array {element : JsonReader α} {consumes : Consumes element} (hpasses : Passes element)
    {elements : List Padded} {text : Bytes} (htext : ListOf elements text)
    (h : HasRead (array element consumes) text) : ∀ e ∈ elements, HasRead element e.value := by
  obtain ⟨blank, hblank, rfl, helements⟩ := htext
  obtain ⟨rest, found, t, h⟩ := h
  rw [listText_append, array_cons] at h
  obtain ⟨read, u, hread, -⟩ := bind_eq_ok h
  exact hasRead_of_elementsFrom hpasses helements hblank hread

/-- An element that is read in front of others is the first of them. -/
theorem element?_separated {element : JsonReader α} (hpasses : Passes element) {first : Bool} {e : Padded}
    {later : List Padded} (hvalue : WellFormed e.value) (hblank : Blank blank) {found : Option α}
    (h : element? first element (blank ++ (separated first ((e :: later).map Padded.text) ++ 0x5d :: rest)) =
      .ok (found, t)) :
    HasRead element e.value ∧ found.isSome ∧
      t = e.behind ++ (separated false (later.map Padded.text) ++ 0x5d :: rest) := by
  have hends := ends_separated e.blank_behind (by decide : (0x5d : UInt8) ∈ [0x5d, 0x7d]) (later.map Padded.text) rest
  rw [element?, bind_of_ok (nextElement_separated first hblank hvalue.starts later (0x5d :: rest)), if_pos rfl] at h
  obtain ⟨a, u, ha, h⟩ := bind_eq_ok h
  obtain ⟨rfl, rfl⟩ := pure_eq_ok h
  obtain rfl := hpasses.rest_eq hvalue hends ha
  exact ⟨⟨_, a, _, ha⟩, rfl, rfl⟩

/-! ## Objects -/

/-- Behind a name, a reader stops where the value of the member ends. -/
theorem PassesMember.rest_eq {x : JsonReader α} (h : PassesMember x) {line : Line}
    (hvalue : WellFormed line.value.value) (hends : Ends rest) {a : α} (hread : x (line.tail ++ rest) = .ok (a, t)) :
    t = rest := by
  obtain ⟨u, hcolon, hskip⟩ := h _ _ _ hread
  obtain rfl : _ = u := by simpa using (expect_tail line rest).symm.trans hcolon
  have hskip := hskip []
  rw [skipFrom_before_append line.value.blank_before, hvalue.skipped [] rest hends, skipFrom_done,
    skipFrom_done] at hskip
  simpa using hskip.symm

/-- The members of an object are taken one by one, each under the label that its name spells. -/
inductive Walks (take : String → α → JsonReader α) : α → List Line → Prop
  | nil (a : α) : Walks take a []
  | cons {a b : α} {label : String} {line : Line} {later : List Line} {rest : Bytes}
      (named : ∀ other : String, Spells other.toList line.name → other = label)
      (taken : take label a (line.tail ++ rest) = .ok (b, rest)) (others : Walks take b later) :
      Walks take a (line :: later)

/-- A reader that has come to the end of an object has taken all of its members. -/
theorem walks_of_membersFrom {take : String → α → JsonReader α} {consumes : ∀ name a, Consumes (take name a)}
    (hpasses : ∀ name a, PassesMember (take name a)) {lines : List Line}
    (hlines : ∀ line ∈ lines, StringBody line.name ∧ WellFormed line.value.value) {first : Bool} {a b : α}
    (hblank : Blank blank) (h : membersFrom take consumes first a
      (blank ++ (separated first (lines.map Line.text) ++ 0x7d :: rest)) = .ok (b, t)) : Walks take a lines := by
  induction lines generalizing first a blank with
  | nil => exact .nil a
  | cons line later ih =>
    obtain ⟨⟨hbody, hvalue⟩, hlater⟩ := List.forall_mem_cons.mp hlines
    have hnext := nextName_separated first hblank line later (0x7d :: rest)
    have hends := ends_separated line.value.blank_behind (by decide : (0x7d : UInt8) ∈ [0x5d, 0x7d])
      (later.map Line.text) rest
    obtain hnone | ⟨name, u, c, v, hsome, htaken, hothers⟩ := membersFrom_eq_ok h
    · obtain ⟨found, w, -, hfound⟩ := bind_eq_ok (hnext.symm.trans hnone)
      exact absurd (pure_eq_ok hfound).1 (Option.some_ne_none _)
    · obtain ⟨found, w, hread, hfound⟩ := bind_eq_ok (hnext.symm.trans hsome)
      obtain ⟨heq, rfl⟩ := pure_eq_ok hfound
      obtain rfl := Option.some.inj heq
      have hskip := (skipStringRest_body hbody _).symm.trans (skipStringRest_of_read hread)
      obtain rfl : _ = w := by simpa using hskip
      obtain rfl := (hpasses found a).rest_eq hvalue hends htaken
      refine .cons (fun other hspells => ?_) htaken (ih hlater line.value.blank_behind hothers)
      simpa using (stringRest_spells hspells _).symm.trans hread

/-- An object that is read as a record has all of its members taken. -/
theorem walks_of_record {take : String → β → JsonReader β} {consumes : ∀ name b, Consumes (take name b)}
    {finish : β → JsonReader α} {ofArray : JsonReader α} (hpasses : ∀ name b, PassesMember (take name b))
    {lines : List Line} {text : Bytes} (htext : ObjectOf lines text) {start : β}
    (h : HasRead (record (membersFrom take consumes true start >>= finish) ofArray) text) : Walks take start lines := by
  obtain ⟨blank, hblank, rfl, hlines⟩ := htext
  obtain ⟨rest, a, t, h⟩ := h
  rw [objectText_append, record_brace] at h
  obtain ⟨read, u, hread, -⟩ := bind_eq_ok h
  obtain ⟨members, v, hmembers, -⟩ := bind_eq_ok hread
  exact walks_of_membersFrom hpasses hlines hblank hmembers

/-- A member with a known label has been taken under it. -/
theorem Walks.taken {take : String → α → JsonReader α} {a : α} {lines : List Line} (h : Walks take a lines)
    {line : Line} (hline : line ∈ lines) {label : String} (hspells : Spells label.toList line.name) :
    ∃ b c rest, take label b (line.tail ++ rest) = .ok (c, rest) := by
  induction h with
  | nil => exact absurd hline List.not_mem_nil
  | cons named taken _ ih =>
    rcases List.mem_cons.mp hline with rfl | hline
    · exact ⟨_, _, _, named label hspells ▸ taken⟩
    · exact ih hline

/-- The value of a member that is taken has been read. -/
theorem hasRead_of_memberValue {value : JsonReader α} (hskims : Skims value) {line : Line} {a : α}
    (h : memberValue value (line.tail ++ rest) = .ok (a, t)) : HasRead value line.value.value :=
  ⟨rest, a, t, (memberValue_tail hskims line rest).symm.trans h⟩

/-- A state marks the known labels that have come by, and refuses them from then on. -/
def Marks (take : String → α → JsonReader α) (labels : List String) (held : α → String → Prop) : Prop :=
  ∀ name a s b t, take name a s = .ok (b, t) →
    ¬ held a name ∧ ∀ label, held b label ↔ held a label ∨ label = name ∧ label ∈ labels

/-- A label that is marked does not come by again. -/
theorem Walks.not_spells {take : String → α → JsonReader α} {labels : List String} {held : α → String → Prop}
    (hmarks : Marks take labels held) {a : α} {lines : List Line} (h : Walks take a lines) {label : String}
    (hheld : held a label) : ∀ line ∈ lines, ¬ Spells label.toList line.name := by
  induction h with
  | nil => exact fun line hline => absurd hline List.not_mem_nil
  | cons named taken _ ih =>
    obtain ⟨hfree, hkept⟩ := hmarks _ _ _ _ _ taken
    refine List.forall_mem_cons.mpr ⟨fun hspells => ?_, ih ((hkept label).mpr (.inl hheld))⟩
    obtain rfl := named label hspells
    exact hfree hheld

/-- No known label stands twice among members that are taken one by one. -/
theorem Walks.not_repeats {take : String → α → JsonReader α} {labels : List String} {held : α → String → Prop}
    (hmarks : Marks take labels held) {a : α} {lines : List Line} (h : Walks take a lines) :
    ¬ Repeats labels lines := by
  rintro ⟨label, hlabel, first, second, hsub, hfirst, hsecond⟩
  induction h with
  | nil => exact absurd hsub (by simp)
  | @cons a b name line later rest named taken others ih =>
    rcases List.sublist_cons_iff.mp hsub with hsub | ⟨_, heq, hsub⟩
    · exact ih hsub
    · obtain ⟨rfl, rfl⟩ := List.cons.inj heq
      obtain rfl := named label hfirst
      have hheld := ((hmarks _ _ _ _ _ taken).2 label).mpr (.inr ⟨rfl, hlabel⟩)
      exact others.not_spells hmarks hheld second (List.singleton_sublist.mp hsub) hsecond

end Reassembly.Json
