import Reassembly.Proofs.Http.Path

/-!
# Segments that are added to a path

A text that is added to a path is encoded, and stays one segment that stands for the text. Two things are lost before
that: the dot segments, which add nothing, and the characters that do not count in URLs. When nothing but a dot
segment is left of a text without them, it is resolved like one that is written in a URL.
-/

namespace Reassembly.Url

open Percent Bytes

variable {text : String} {path : List String}

/-! ## Texts as segments -/

/-- What counts of a text in a URL. -/
def counted (text : String) : String := String.ofList (text.toList.filter (!isIgnored ·))

/-- The segment that a text is encoded to. -/
def encoded (text : String) : String := String.ofList (encode inSegment text.toList)

/-- A text is carried unchanged as a segment: it is no dot segment, and all of it counts in URLs. -/
def IsSegment (text : String) : Prop := text ∉ [".", ".."] ∧ ∀ c ∈ text.toList, isIgnored c = false

instance (text : String) : Decidable (IsSegment text) :=
  haveI := List.decidableBAll (fun c => isIgnored c = false) text.toList
  inferInstanceAs (Decidable (_ ∧ _))

/-- A text counts as it is when all of it does. -/
theorem counted_eq_self_iff : counted text = text ↔ ∀ c ∈ text.toList, isIgnored c = false := by
  rw [counted, ← String.toList_inj, String.toList_ofList, List.filter_eq_self]
  simp

/-- The segment of a text stands for the text. -/
theorem bytesOf_encoded (text : String) : bytesOf (encoded text).toList = ofText text := by
  rw [encoded, String.toList_ofList, bytesOf, ofText_ofList, decode_encode (by decide), ← ofText_ofList,
    String.ofList_toList]

/-- Texts with the same bytes are the same. -/
theorem ofText_inj {first second : String} (h : ofText first = ofText second) : first = second := by
  have hsame := congrArg toText? h
  rwa [toText?_ofText, toText?_ofText, Option.some.injEq] at hsame

/-- The text is read from its segment. -/
theorem textOf?_encoded (text : String) : textOf? (encoded text).toList = some text := by
  rw [encoded, String.toList_ofList, textOf?_encode (by decide), String.ofList_toList]

/-- The segment of a text is one for the directory itself when the text is a point. -/
theorem isDot_encoded_iff : isDot (encoded text) = true ↔ text = "." := by
  constructor
  · intro hdot
    have hbytes := bytesOf_of_isDot hdot
    rw [bytesOf_encoded] at hbytes
    exact ofText_inj hbytes
  · rintro rfl
    decide +kernel

/-- The segment of a text is one for the directory above when the text is two points. -/
theorem isDoubleDot_encoded_iff : isDoubleDot (encoded text) = true ↔ text = ".." := by
  constructor
  · intro hdouble
    have hbytes := bytesOf_of_isDoubleDot hdouble
    rw [bytesOf_encoded] at hbytes
    exact ofText_inj hbytes
  · rintro rfl
    decide +kernel

/-- What the segment of a text adds at the end of a path. -/
theorem extend_encoded (path : List String) (text : String) : extend path (encoded text) true =
    if text = ".." then path.dropLast ++ [""] else if text = "." then path ++ [""] else path ++ [encoded text] := by
  simp only [extend, isDoubleDot_encoded_iff, isDot_encoded_iff, if_true]

/-! ## Texts kept under a path -/

/-- The segments behind which a text is added to a path: those of the path without an empty last one, and none when
only a slash is left. -/
def below (path : List String) : List String :=
  if withoutEmptyLast path = [""] then [] else withoutEmptyLast path

/-- A dot segment adds nothing to a path. -/
theorem addSegment_of_mem (h : text ∈ [".", ".."]) (path : List String) :
    addSegment (withoutEmptyLast path) text = withoutEmptyLast path :=
  if_pos (by simpa using h)

/-- Any other text is added as what counts of it. -/
theorem addSegment_of_not_mem (h : text ∉ [".", ".."]) (path : List String) :
    addSegment (withoutEmptyLast path) text = extend (below path) (encoded (counted text)) true := by
  rw [addSegment, if_neg (by simpa using h), encoded, counted, String.toList_ofList]
  rfl

/-- A text that is carried unchanged is one more segment. -/
theorem addSegment_of_isSegment (h : IsSegment text) (path : List String) :
    addSegment (withoutEmptyLast path) text = below path ++ [encoded text] := by
  obtain ⟨hdots, hcounts⟩ := h
  have hsame : ¬ (text = "." ∨ text = "..") := by simpa using hdots
  rw [addSegment_of_not_mem hdots, counted_eq_self_iff.mpr hcounts, extend_encoded, if_neg fun h => hsame (.inr h),
    if_neg fun h => hsame (.inl h)]

/-- A path without one empty last segment. -/
def withoutOneEmpty (path : List String) : List String :=
  if path.getLast? = some "" then path.dropLast else path

/-- Texts are added behind a path without one empty last segment, unless the path is two slashes. -/
theorem below_eq (h : path ≠ ["", ""]) : below path = withoutOneEmpty path := by
  rw [below, withoutOneEmpty]
  by_cases hlast : path.getLast? = some ""
  · obtain ⟨front, rfl⟩ := List.getLast?_eq_some_iff.mp hlast
    rw [if_pos hlast, List.dropLast_concat]
    by_cases hroot : front = []
    · subst hroot
      rfl
    · have hkept : withoutEmptyLast (front ++ [""]) = front := by
        rw [withoutEmptyLast, if_pos ⟨by simpa using hroot, hlast⟩, List.dropLast_concat]
      have hslashes : front ≠ [""] := fun hfront => h (by rw [hfront]; rfl)
      rw [hkept, if_neg hslashes]
  · have hkept : withoutEmptyLast path = path := if_neg fun hends => hlast hends.2
    have hroot : path ≠ [""] := fun hpath => hlast (by rw [hpath]; rfl)
    rw [hkept, if_neg hroot, if_neg hlast]

/-- Nothing is added behind two slashes but one segment. -/
theorem below_slashes : below ["", ""] = [] := rfl

/-- A path is another one without one empty last segment, and behind it exactly one more segment, which stands for a
text. -/
def Addresses (path : List String) (text : String) (extended : List String) : Prop :=
  ∃ segment, extended = withoutOneEmpty path ++ [segment] ∧ bytesOf segment.toList = ofText text

/-- An empty segment stands for an empty text only. -/
theorem eq_empty_of_bytesOf (h : bytesOf "".toList = ofText text) : text = "" :=
  (ofText_inj (show ofText "" = ofText text from h)).symm

/-- A dot segment is not addressed under any path. -/
theorem not_addresses_of_mem (h : text ∈ [".", ".."]) : ¬ Addresses path text (withoutEmptyLast path) := by
  rintro ⟨segment, hsegments, hbytes⟩
  by_cases hroot : path = [""]
  · subst hroot
    obtain rfl : "" = segment := by simpa [withoutEmptyLast, withoutOneEmpty] using hsegments
    obtain rfl := eq_empty_of_bytesOf hbytes
    simp at h
  · have hsame : withoutEmptyLast path = withoutOneEmpty path := by
      rw [withoutEmptyLast, withoutOneEmpty]
      simp only [ne_eq, hroot, not_false_eq_true, true_and]
    rw [hsame] at hsegments
    simpa using congrArg List.length hsegments

/-- A text is addressed under a path exactly when it is carried unchanged, and the path is not two slashes. -/
theorem addresses_iff : Addresses path text (addSegment (withoutEmptyLast path) text) ↔
    IsSegment text ∧ path ≠ ["", ""] := by
  constructor
  · intro haddresses
    by_cases hdots : text ∈ [".", ".."]
    · rw [addSegment_of_mem hdots] at haddresses
      exact absurd haddresses (not_addresses_of_mem hdots)
    rw [addSegment_of_not_mem hdots, extend_encoded] at haddresses
    obtain ⟨segment, hsegments, hbytes⟩ := haddresses
    -- What is resolved like a dot segment ends in an empty segment, and then nothing counts of the text.
    have hresolved : ∀ {front : List String}, front ++ [""] = withoutOneEmpty path ++ [segment] →
        counted text = "" := by
      intro front hends
      rw [← List.concat_eq_append, ← List.concat_eq_append, List.concat_inj] at hends
      obtain ⟨-, rfl⟩ := hends
      obtain rfl := eq_empty_of_bytesOf hbytes
      rfl
    split at hsegments
    · next hdouble => exact absurd (hdouble.symm.trans (hresolved hsegments)) (by decide)
    split at hsegments
    · next hdot => exact absurd (hdot.symm.trans (hresolved hsegments)) (by decide)
    rw [← List.concat_eq_append, ← List.concat_eq_append, List.concat_inj] at hsegments
    obtain ⟨hbelow, rfl⟩ := hsegments
    rw [bytesOf_encoded] at hbytes
    refine ⟨⟨hdots, counted_eq_self_iff.mp (ofText_inj hbytes)⟩, ?_⟩
    rintro rfl
    simp [below_slashes, withoutOneEmpty] at hbelow
  · rintro ⟨hsegment, hpath⟩
    exact ⟨encoded text, by rw [addSegment_of_isSegment hsegment, below_eq hpath], bytesOf_encoded text⟩

/-- Two points count of a text that has more to it. -/
def Climbs (text : String) : Prop := text ≠ ".." ∧ counted text = ".."

instance (text : String) : Decidable (Climbs text) := inferInstanceAs (Decidable (_ ∧ _))

/-- A text of which two points count takes the last segment of the path away. -/
theorem addSegment_of_climbs (h : Climbs text) (path : List String) :
    addSegment (withoutEmptyLast path) text = (below path).dropLast ++ [""] := by
  obtain ⟨hne, hcounted⟩ := h
  have hdots : text ∉ [".", ".."] := by
    simp only [List.mem_cons, List.not_mem_nil, or_false, not_or]
    refine ⟨?_, hne⟩
    rintro rfl
    exact absurd hcounted (by decide)
  rw [addSegment_of_not_mem hdots, extend_encoded, if_pos hcounted]

/-- Any other text leaves the path in place. -/
theorem below_isPrefix (h : ¬ Climbs text) (path : List String) :
    below path <+: addSegment (withoutEmptyLast path) text := by
  by_cases hdots : text ∈ [".", ".."]
  · rw [addSegment_of_mem hdots, below]
    split
    · exact List.nil_prefix
    · exact List.prefix_rfl
  · have hdouble : counted text ≠ ".." := fun hcounted => h ⟨fun htext => hdots (by simp [htext]), hcounted⟩
    rw [addSegment_of_not_mem hdots, extend_encoded, if_neg hdouble]
    split <;> exact List.prefix_append _ _

/-- Another text is added in the same way as a text. -/
theorem exists_ne_addSegment (text : String) :
    ∃ other ≠ text, ∀ path, addSegment (withoutEmptyLast path) other = addSegment (withoutEmptyLast path) text := by
  by_cases hdots : text ∈ [".", ".."]
  · obtain ⟨other, hmem, hne⟩ : ∃ other ∈ [".", ".."], other ≠ text := by
      by_cases hdot : text = "."
      · exact ⟨"..", by simp, by simp [hdot]⟩
      · exact ⟨".", by simp, Ne.symm hdot⟩
    exact ⟨other, hne, fun path => by rw [addSegment_of_mem hmem, addSegment_of_mem hdots]⟩
  · have htab : ∀ other : String, (text ++ "\t").toList = other.toList → '\t' ∈ other.toList := by
      intro other hother
      rw [← hother, String.toList_append]
      exact List.mem_append_right _ (List.mem_singleton.mpr rfl)
    have hmem : text ++ "\t" ∉ [".", ".."] := by
      simp only [List.mem_cons, List.not_mem_nil, or_false, not_or]
      exact ⟨fun h => absurd (htab _ (congrArg _ h)) (by decide), fun h => absurd (htab _ (congrArg _ h)) (by decide)⟩
    have hcounted : counted (text ++ "\t") = counted text := by
      have hnone : "\t".toList.filter (!isIgnored ·) = [] := by decide
      rw [counted, counted, String.toList_append, List.filter_append, hnone, List.append_nil]
    refine ⟨text ++ "\t", fun hsame => ?_, fun path => ?_⟩
    · have hlength := congrArg (fun s : String => s.toList.length) hsame
      simp at hlength
    · rw [addSegment_of_not_mem hmem, addSegment_of_not_mem hdots, hcounted]

/-- Paths that differ in their last segments have different targets. -/
theorem eq_of_target {url : Url} {front : List String} {first second : String}
    (h : target { url with path := .segments (front ++ [first]) } =
      target { url with path := .segments (front ++ [second]) }) : first = second := by
  have hlists := congrArg String.toList h
  simp only [target, pathText, String.toList_append, String.toList_join, List.map_append, List.flatMap_append,
    List.append_left_inj, List.append_right_inj, List.map_cons, List.map_nil, List.flatMap_cons, List.flatMap_nil,
    List.append_nil] at hlists
  exact String.toList_inj.mp hlists

end Reassembly.Url
