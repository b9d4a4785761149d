import Mathlib.Data.List.Pairwise
import Reassembly.Proofs.Json.Walk

/-!
# Places for the members of an object

An object is read into places, one for each of its known labels. Whatever the places are, as long as they lie apart:
a reading of the object passes it, marks the labels that have come by, and comes to the same state in whatever order
the members stand. What a record adds to this is the readers of its fields and what it makes of the state.
-/

namespace Reassembly.Json

open Reader Bytes

variable {α : Type} {places : List (Place α)} {place other : Place α} {name : String} {a b : α} {s t : Bytes}

/-- Two places lie apart when their labels differ and what one of them keeps is not found in the other. -/
structure Place.Apart (p q : Place α) : Prop where
  label_ne : p.label ≠ q.label
  found_left : ∀ a v, p.found (q.keep a v) = p.found a
  found_right : ∀ a v, q.found (p.keep a v) = q.found a

instance : Std.Symm (Place.Apart (α := α)) := ⟨fun _ _ h => ⟨h.label_ne.symm, h.found_right, h.found_left⟩⟩

section Taking

/-- Of places that lie apart, two with one label are the same. -/
theorem eq_of_label (h : places.Pairwise Place.Apart) (hplace : place ∈ places) (hother : other ∈ places)
    (hlabel : place.label = other.label) : place = other := by
  by_contra hne
  exact (h.forall hplace hother hne).label_ne hlabel

/-- A member with the label of a place is taken into it, unless it is filled. -/
theorem takeInto_of_mem (h : places.Pairwise Place.Apart) (hplace : place ∈ places) (a : α) :
    takeInto places place.label a = if (place.found a).isSome then refuse .mistyped
      else memberValue place.read >>= fun v => pure (place.keep a v) := by
  induction places with
  | nil => exact absurd hplace List.not_mem_nil
  | cons first later ih =>
    obtain ⟨hfirst, hlater⟩ := List.pairwise_cons.mp h
    rcases List.mem_cons.mp hplace with rfl | hmem
    · exact if_pos rfl
    · rw [takeInto, if_neg (hfirst place hmem).label_ne.symm, ih hlater hmem]

/-- A member with the label of no place is skipped. -/
theorem takeInto_of_not_mem (h : name ∉ places.map Place.label) (a : α) :
    takeInto places name a = memberValue skipValue >>= fun _ => pure a := by
  induction places with
  | nil => rfl
  | cons first later ih =>
    rw [List.map_cons, List.mem_cons, not_or] at h
    rw [takeInto, if_neg h.1, ih h.2]

/-- What has been taken with the label of a place has been read for it, and the place was free. -/
theorem takeInto_eq_ok (h : places.Pairwise Place.Apart) (hplace : place ∈ places)
    (htaken : takeInto places place.label a s = .ok (b, t)) :
    place.found a = none ∧ ∃ v, memberValue place.read s = .ok (v, t) ∧ b = place.keep a v := by
  rw [takeInto_of_mem h hplace] at htaken
  split at htaken
  · simp [refuse] at htaken
  · next hfree =>
    obtain ⟨v, u, hread, hkept⟩ := bind_eq_ok htaken
    obtain ⟨rfl, rfl⟩ := pure_eq_ok hkept
    exact ⟨by simpa using hfree, v, hread, rfl⟩

end Taking

/-- A member passes when what its place reads does. -/
theorem passesMember_takeInto (h : ∀ place ∈ places, Passes place.read) (name : String) (a : α) :
    PassesMember (takeInto places name a) := by
  induction places with
  | nil => exact passes_skipValue.member _
  | cons first later ih =>
    obtain ⟨hfirst, hlater⟩ := List.forall_mem_cons.mp h
    rw [takeInto]
    split
    · split
      · exact .refuse _
      · exact hfirst.member _
    · exact ih hlater

section Marking

/-- A label is held by a state when its place is filled. -/
def Held (places : List (Place α)) (a : α) (label : String) : Prop :=
  ∃ place ∈ places, place.label = label ∧ (place.found a).isSome

/-- The label of a place is held when the place is filled. -/
theorem held_label_iff (h : places.Pairwise Place.Apart) (hplace : place ∈ places) :
    Held places a place.label ↔ (place.found a).isSome := by
  constructor
  · rintro ⟨other, hother, hlabel, hsome⟩
    rwa [← eq_of_label h hother hplace hlabel]
  · exact fun hsome => ⟨place, hplace, rfl, hsome⟩

/-- Only labels of places are held. -/
theorem not_held (h : name ∉ places.map Place.label) : ¬ Held places a name := by
  rintro ⟨place, hplace, rfl, -⟩
  exact h (List.mem_map_of_mem hplace)

/-- Filling a place makes its label held, and no other. -/
theorem held_keep_iff (h : places.Pairwise Place.Apart) (hplace : place ∈ places) (v : place.Value) (label : String) :
    Held places (place.keep a v) label ↔ Held places a label ∨ label = place.label := by
  by_cases hlabel : label ∈ places.map Place.label
  · obtain ⟨other, hother, rfl⟩ := List.mem_map.mp hlabel
    rw [held_label_iff h hother, held_label_iff h hother]
    by_cases heq : other = place
    · subst heq
      simp [other.found_keep]
    · have happart := h.forall hother hplace heq
      rw [happart.found_left, or_iff_left happart.label_ne]
  · refine iff_of_false (not_held hlabel) ?_
    rintro (hheld | rfl)
    · exact not_held hlabel hheld
    · exact hlabel (List.mem_map_of_mem hplace)

/-- The labels that have come by are marked. -/
theorem marks_takeInto (h : places.Pairwise Place.Apart) :
    Marks (takeInto places) (places.map Place.label) (Held places) := by
  intro name a s b t htaken
  by_cases hname : name ∈ places.map Place.label
  · obtain ⟨place, hplace, rfl⟩ := List.mem_map.mp hname
    obtain ⟨hfree, v, -, rfl⟩ := takeInto_eq_ok h hplace htaken
    refine ⟨by simp [held_label_iff h hplace, hfree], fun label => ?_⟩
    rw [held_keep_iff h hplace]
    exact or_congr_right ⟨fun heq => ⟨heq, heq ▸ hname⟩, And.left⟩
  · rw [takeInto_of_not_mem hname] at htaken
    obtain ⟨_, u, -, hkept⟩ := bind_eq_ok htaken
    obtain ⟨rfl, -⟩ := pure_eq_ok hkept
    refine ⟨not_held hname, fun label => (or_iff_left ?_).symm⟩
    rintro ⟨rfl, hlabel⟩
    exact hname hlabel

/-- An object that is read into places has none of their labels twice. -/
theorem not_repeats_of_record {β : Type} {finish : α → JsonReader β} {ofArray : JsonReader β} {start : α}
    (h : places.Pairwise Place.Apart) (hpasses : ∀ place ∈ places, Passes place.read) {lines : List Line} {text : Bytes}
    (htext : ObjectOf lines text) (hread : HasRead
      (record (membersFrom (takeInto places) (consumes_takeInto places) true start >>= finish) ofArray) text) :
    ¬ Repeats (places.map Place.label) lines :=
  (walks_of_record (passesMember_takeInto hpasses) htext hread).not_repeats (marks_takeInto h)

end Marking

section Fields

variable {fields : List Field} {members : List Member} {seen : List String} {whole : α}

/-- A place is for a field of a record when it has its label and reads what the field writes as what the whole record
holds there. -/
structure Fills (whole : α) (field : Field) (place : Place α) : Prop where
  label_eq : place.label = field.label
  skims : Skims place.read
  reads : ∃ v, place.found whole = some v ∧ ∀ text, field.writes text → Reads place.read text v

/-- A state has come as far as the labels that have been seen: it holds in their places what the whole record does, and
nothing in any other. -/
def Reached (places : List (Place α)) (whole : α) (seen : List String) (a : α) : Prop :=
  ∀ place ∈ places, place.found a = if place.label ∈ seen then place.found whole else none

/-- Filling a place from the whole record comes one label further. -/
theorem Reached.keep (ha : Reached places whole seen a) (h : places.Pairwise Place.Apart) (hplace : place ∈ places)
    {v : place.Value} (hv : place.found whole = some v) :
    Reached places whole (seen ++ [place.label]) (place.keep a v) := by
  intro other hother
  by_cases heq : other = place
  · subst heq
    rw [other.found_keep, hv, if_pos (List.mem_append_right _ (List.mem_singleton_self _))]
  · have happart := h.forall hother hplace heq
    rw [happart.found_left, ha other hother]
    simp only [List.mem_append, List.mem_singleton, happart.label_ne, or_false]

/-- A label without a place leaves the state as far as it is. -/
theorem Reached.skip (ha : Reached places whole seen a) (hname : name ∉ places.map Place.label) :
    Reached places whole (seen ++ [name]) a := by
  intro other hother
  have hne : other.label ≠ name := fun heq => hname (heq ▸ List.mem_map_of_mem hother)
  rw [ha other hother]
  simp only [List.mem_append, List.mem_singleton, hne, or_false]

/-- A member of a record is taken where its label has not come by, and leads one label further. -/
theorem exists_takesMember (h : places.Pairwise Place.Apart) (hlabels : places.map Place.label = fields.map Field.label)
    (hfills : ∀ field ∈ fields, ∃ place ∈ places, Fills whole field place) (ha : Reached places whole seen a)
    {m : Member} (hfield : ∀ field ∈ fields, m.label = field.label → field.writes m.value.value ∧ field.label ∉ seen)
    (hother : m.label ∉ fields.map Field.label → WellFormed m.value.value) :
    ∃ b, TakesMember (takeInto places) a m b ∧ Reached places whole (seen ++ [m.label]) b := by
  by_cases hlabel : m.label ∈ fields.map Field.label
  · obtain ⟨field, hmem, heq⟩ := List.mem_map.mp hlabel
    obtain ⟨hwrites, hfresh⟩ := hfield field hmem heq.symm
    obtain ⟨place, hplace, hfill⟩ := hfills field hmem
    obtain ⟨v, hv, hreads⟩ := hfill.reads
    have hname : m.label = place.label := heq.symm.trans hfill.label_eq.symm
    have hfree : place.found a = none := by rw [ha place hplace, if_neg (hfill.label_eq ▸ hfresh)]
    have htake : takeInto places m.label a = memberValue place.read >>= fun v => pure (place.keep a v) := by
      rw [hname, takeInto_of_mem h hplace, hfree]
      rfl
    exact ⟨_, takesMember_of_reads htake hfill.skims (hreads _ hwrites) rfl, hname ▸ ha.keep h hplace hv⟩
  · have hname : m.label ∉ places.map Place.label := hlabels ▸ hlabel
    exact ⟨a, takesMember_of_reads (takeInto_of_not_mem hname a) skims_skipValue (reads_skipValue (hother hlabel)) rfl,
      ha.skip hname⟩

/-- The members of a record, in any order, are taken into places for its fields. -/
theorem exists_takes (h : places.Pairwise Place.Apart) (hlabels : places.map Place.label = fields.map Field.label)
    (hfills : ∀ field ∈ fields, ∃ place ∈ places, Fills whole field place) (start : α)
    (hstart : Reached places whole [] start) (hgiven : ∀ field ∈ fields, field.GivenBy members)
    (hothers : ∀ m ∈ members, m.label ∉ fields.map Field.label → WellFormed m.value.value) :
    ∃ final, Takes (takeInto places) start members final ∧ Reached places whole (members.map Member.label) final := by
  have hall : ∀ later earlier a, members = earlier ++ later → Reached places whole (earlier.map Member.label) a →
      ∃ final, Takes (takeInto places) a later final ∧ Reached places whole (members.map Member.label) final := by
    intro later
    induction later with
    | nil =>
      rintro earlier a rfl ha
      exact ⟨a, .nil a, by rwa [List.append_nil]⟩
    | cons m later ih =>
      intro earlier a hmembers ha
      obtain ⟨b, hfirst, hb⟩ := exists_takesMember h hlabels hfills ha
        (fun field hfield hlabel => (hmembers ▸ hgiven field hfield).of_label hlabel)
        (hothers m (hmembers ▸ List.mem_append_right _ List.mem_cons_self))
      obtain ⟨final, hlater, hfinal⟩ := ih (earlier ++ [m]) b
        (by rw [hmembers, List.append_assoc, List.singleton_append]) (by rwa [List.map_append, List.map_singleton])
      exact ⟨final, .cons hfirst hlater, hfinal⟩
  exact hall members [] start rfl hstart

end Fields

end Reassembly.Json
