import Mathlib.Algebra.GroupWithZero.Nat
import Reassembly.Proofs.Http.Url

/-!
# Paths of URLs

The pieces of a path become its segments, except where a dot segment takes something away. What the segments
stand for is never more than what is written, and is as much only when every piece stands for itself and
becomes a segment. A server cuts the path of a request at its slashes and finds the segments again.
-/

namespace Reassembly.Url

open Percent Bytes

variable {pieces : List (List Char)} {piece : List Char} {path segments : List String}

/-! ## Dot segments -/

/-- A character that has one of these in lower case is that one, or the letter in upper case. -/
theorem cases_of_toLower {c d : Char} (h : c.toLower = d) (hd : d ∈ ['.', '%', '2', 'e']) :
    c = d ∨ c = 'E' ∧ d = 'e' := by
  have hlt : c.toNat < 128 := by
    delta Char.toLower at h
    split at h
    · next hupper => exact Nat.lt_of_le_of_lt (UInt32.le_iff_toNat_le.mp hupper.2) (by decide)
    · exact (List.forall_iff_forall_mem (p := (Char.toNat · < 128))).mp (by decide) c (h ▸ hd)
  have hall := forall_char
    (p := fun c => ['.', '%', '2', 'e'].Forall fun d => c.toLower = d → c = d ∨ c = 'E' ∧ d = 'e') (by decide) hlt
  exact List.forall_iff_forall_mem.mp hall d hd h

/-- A point in front, written in either way, stands for a point. -/
theorem bytesOf_of_point {chars rest : List Char}
    (h : chars.map Char.toLower = '.' :: rest ∨ chars.map Char.toLower = '%' :: '2' :: 'e' :: rest) :
    ∃ later, later.map Char.toLower = rest ∧ bytesOf chars = 0x2e :: bytesOf later := by
  rcases h with hpoint | hescape
  · obtain ⟨c, later, rfl, hc, hlater⟩ := List.map_eq_cons_iff.mp hpoint
    obtain rfl := (cases_of_toLower hc (by decide)).resolve_right (by simp)
    refine ⟨later, hlater, ?_⟩
    rw [bytesOf, bytesOf, ofText_ofList, ofText_ofList, List.flatMap_cons, utf8EncodeChar_of_lt (by decide),
      List.singleton_append, decode_cons_of_ne (by decide)]
    rfl
  · obtain ⟨c, chars, rfl, hc, htwo⟩ := List.map_eq_cons_iff.mp hescape
    obtain ⟨d, chars, rfl, hd, hthree⟩ := List.map_eq_cons_iff.mp htwo
    obtain ⟨e, later, rfl, he, hlater⟩ := List.map_eq_cons_iff.mp hthree
    obtain rfl := (cases_of_toLower hc (by decide)).resolve_right (by simp)
    obtain rfl := (cases_of_toLower hd (by decide)).resolve_right (by simp)
    refine ⟨later, hlater, ?_⟩
    have hletter : ∀ b : UInt8, digit? (Char.ofNat b.toNat) = some 14 →
        decode (0x25 :: 0x32 :: b :: later.flatMap String.utf8EncodeChar) =
          0x2e :: decode (later.flatMap String.utf8EncodeChar) := by
      intro b hb
      rw [decode, hb, show digit? (Char.ofNat (0x32 : UInt8).toNat) = some 2 by decide]
      rfl
    rw [bytesOf, bytesOf, ofText_ofList, ofText_ofList, List.flatMap_cons, List.flatMap_cons, List.flatMap_cons]
    rcases cases_of_toLower he (by decide) with rfl | ⟨rfl, -⟩
    · exact hletter 0x65 (by decide)
    · exact hletter 0x45 (by decide)

/-- A segment for the directory itself stands for a point. -/
theorem bytesOf_of_isDot {segment : String} (h : isDot segment = true) : bytesOf segment.toList = ofText "." := by
  have hlower : segment.toList.map Char.toLower = ['.'] ∨ segment.toList.map Char.toLower = ['%', '2', 'e'] := by
    rw [← String.toList_map]
    rcases List.mem_cons.mp (of_decide_eq_true h) with hpoint | hescape
    · exact .inl (congrArg String.toList hpoint)
    · exact .inr (congrArg String.toList (List.mem_singleton.mp hescape))
  obtain ⟨later, hlater, hbytes⟩ := bytesOf_of_point hlower
  rw [hbytes, List.map_eq_nil_iff.mp hlater]
  rfl

/-- A segment for the directory above stands for two points. -/
theorem bytesOf_of_isDoubleDot {segment : String} (h : isDoubleDot segment = true) :
    bytesOf segment.toList = ofText ".." := by
  have hlower : ∃ rest,
      (segment.toList.map Char.toLower = '.' :: rest ∨ segment.toList.map Char.toLower = '%' :: '2' :: 'e' :: rest) ∧
        (rest = ['.'] ∨ rest = ['%', '2', 'e']) := by
    rw [← String.toList_map]
    have hmem : segment.map Char.toLower ∈ ["..", ".%2e", "%2e.", "%2e%2e"] := of_decide_eq_true h
    simp only [List.mem_cons, List.not_mem_nil, or_false] at hmem
    rcases hmem with hequal | hequal | hequal | hequal <;> rw [hequal]
    · exact ⟨_, .inl rfl, .inl rfl⟩
    · exact ⟨_, .inl rfl, .inr rfl⟩
    · exact ⟨_, .inr rfl, .inl rfl⟩
    · exact ⟨_, .inr rfl, .inr rfl⟩
  obtain ⟨rest, hfirst, hsecond⟩ := hlower
  obtain ⟨later, hlater, hbytes⟩ := bytesOf_of_point hfirst
  rw [← hlater] at hsecond
  obtain ⟨last, hlast, hsecondBytes⟩ := bytesOf_of_point hsecond
  rw [hbytes, hsecondBytes, List.map_eq_nil_iff.mp hlast]
  rfl

/-! ## Sizes -/

/-- The number of bytes that segments stand for, each with the slash before it. -/
def meantSize (segments : List String) : Nat :=
  (segments.map fun segment => (bytesOf segment.toList).length + 1).sum

/-- The number of bytes that pieces are written in, each with the slash before it. -/
def writtenSize (pieces : List (List Char)) : Nat :=
  (pieces.map fun piece => (ofText (String.ofList piece)).length + 1).sum

/-- The segment that a piece becomes. -/
def segmentOf (piece : List Char) : String := String.ofList (encode inPath piece)

/-- A piece is meant as it is written. -/
def Stands (piece : List Char) : Prop := bytesOf piece = ofText (String.ofList piece)

/-- Segments in a row have their sizes together. -/
theorem meantSize_append (first second : List String) :
    meantSize (first ++ second) = meantSize first + meantSize second := by
  rw [meantSize, List.map_append, List.sum_append]
  rfl

/-- The text of a segment is that of a piece that is meant as it is written. -/
theorem textOf?_encode_of_stands (h : Stands piece) : textOf? (encode inPath piece) = some (String.ofList piece) := by
  rw [textOf?, bytesOf_encode_inPath, h, toText?_ofText]

/-- The bytes that the segment of a piece stands for. -/
theorem bytesOf_segmentOf (piece : List Char) : bytesOf (segmentOf piece).toList = bytesOf piece := by
  rw [segmentOf, String.toList_ofList, bytesOf_encode_inPath]

/-- Taking the last segment away does not make a path larger. -/
theorem meantSize_dropLast_le (path : List String) : meantSize path.dropLast ≤ meantSize path := by
  rcases List.eq_nil_or_concat path with rfl | ⟨front, last, rfl⟩
  · exact Nat.le_refl _
  · rw [List.concat_eq_append, List.dropLast_concat, meantSize_append]
    exact Nat.le_add_right _ _

/-- A segment that is added to a path is added behind it, or the path becomes smaller than the piece would
make it. -/
theorem extend_cases (path : List String) (piece : List Char) (isLast : Bool) :
    extend path (segmentOf piece) isLast = path ++ [segmentOf piece] ∨
      meantSize (extend path (segmentOf piece) isLast) < meantSize path + writtenSize [piece] := by
  have hlength := (length_bytesOf piece).1
  have hwritten : writtenSize [piece] = (ofText (String.ofList piece)).length + 1 := rfl
  have hempty : meantSize [""] = 1 := rfl
  have hdrop := meantSize_dropLast_le path
  rw [extend]
  split
  · next hdouble =>
    have hbytes := bytesOf_of_isDoubleDot hdouble
    rw [bytesOf_segmentOf] at hbytes
    rw [hbytes, show (ofText "..").length = 2 from rfl] at hlength
    right
    split
    · rw [meantSize_append]
      omega
    · omega
  · split
    · next hdot =>
      have hbytes := bytesOf_of_isDot hdot
      rw [bytesOf_segmentOf] at hbytes
      rw [hbytes, show (ofText ".").length = 1 from rfl] at hlength
      right
      split
      · rw [meantSize_append]
        omega
      · omega
    · exact .inl rfl

/-- A piece that is meant as it is written, and is no dot segment, becomes a segment. -/
theorem extend_of_stands (hstands : Stands piece) (hdot : String.ofList piece ≠ ".")
    (hdouble : String.ofList piece ≠ "..") (path : List String) (isLast : Bool) :
    extend path (segmentOf piece) isLast = path ++ [segmentOf piece] := by
  have hne : ∀ text, String.ofList piece ≠ text → bytesOf (segmentOf piece).toList ≠ ofText text := by
    intro text htext hbytes
    rw [bytesOf_segmentOf, hstands] at hbytes
    have hsame := congrArg toText? hbytes
    rw [toText?_ofText, toText?_ofText] at hsame
    exact htext (Option.some.inj hsame)
  rw [extend, if_neg fun h => hne _ hdouble (bytesOf_of_isDoubleDot h), if_neg fun h => hne _ hdot (bytesOf_of_isDot h)]

/-- Pieces are added to a path one by one. -/
theorem extendAll_cons (path : List String) (piece : List Char) (rest : List (List Char)) :
    extendAll path (piece :: rest) = extendAll (extend path (segmentOf piece) rest.isEmpty) rest := by
  cases rest <;> rfl

/-- A path never stands for more than is written, and for as much only when each piece is meant as it is
written and becomes a segment. -/
theorem extendAll_le (path : List String) (pieces : List (List Char)) :
    meantSize (extendAll path pieces) ≤ meantSize path + writtenSize pieces ∧
      (meantSize (extendAll path pieces) = meantSize path + writtenSize pieces →
        extendAll path pieces = path ++ pieces.map segmentOf ∧ ∀ piece ∈ pieces, Stands piece) := by
  induction pieces generalizing path with
  | nil => exact ⟨Nat.le_refl _, fun _ => ⟨(List.append_nil path).symm, by simp⟩⟩
  | cons piece rest ih =>
    obtain ⟨hle, hequal⟩ := ih (extend path (segmentOf piece) rest.isEmpty)
    have hwritten : writtenSize (piece :: rest) = writtenSize [piece] + writtenSize rest := rfl
    rw [extendAll_cons]
    rcases extend_cases path piece rest.isEmpty with hadded | hless
    · have hmeant : meantSize [segmentOf piece] = (bytesOf piece).length + 1 := by
        rw [meantSize, List.map_singleton, bytesOf_segmentOf, List.sum_singleton]
      have hone : writtenSize [piece] = (ofText (String.ofList piece)).length + 1 := rfl
      obtain ⟨hlength, hstands⟩ := length_bytesOf piece
      rw [hadded, meantSize_append] at hle hequal
      rw [hadded]
      refine ⟨by omega, fun hsame => ?_⟩
      obtain ⟨hall, hrest⟩ := hequal (by omega)
      refine ⟨by rw [hall, List.append_assoc]; rfl, ?_⟩
      exact List.forall_mem_cons.mpr ⟨hstands (by omega), hrest⟩
    · exact ⟨by omega, fun hsame => by omega⟩

/-- Pieces that are meant as they are written, and are no dot segments, become segments. -/
theorem extendAll_of_stands {pieces : List (List Char)}
    (h : ∀ piece ∈ pieces, Stands piece ∧ String.ofList piece ≠ "." ∧ String.ofList piece ≠ "..") (path : List String) :
    extendAll path pieces = path ++ pieces.map segmentOf := by
  induction pieces generalizing path with
  | nil => exact (List.append_nil path).symm
  | cons piece rest ih =>
    obtain ⟨⟨hstands, hdot, hdouble⟩, hrest⟩ := List.forall_mem_cons.mp h
    rw [extendAll_cons, extend_of_stands hstands hdot hdouble, ih hrest, List.append_assoc]
    rfl

/-- A character that separates segments is one of ASCII. -/
theorem lt_of_isSlash (form : Form) (c : Char) (h : isSlash form c = true) : c.toNat < 128 := by
  simp only [isSlash, Bool.or_eq_true, Bool.and_eq_true, decide_eq_true_eq] at h
  rcases h with rfl | ⟨-, rfl⟩ <;> decide

/-- What is written between slashes is written in their pieces. -/
theorem writtenSize_pieces {isMark : Char → Bool} (hmark : ∀ c, isMark c = true → c.toNat < 128) (chars : List Char) :
    writtenSize (Text.pieces isMark chars) = (ofText (String.ofList chars)).length + 1 := by
  induction chars with
  | nil => rfl
  | cons c rest ih =>
    have hcons : (ofText (String.ofList (c :: rest))).length =
        (String.utf8EncodeChar c).length + (ofText (String.ofList rest)).length := by
      rw [ofText_ofList, ofText_ofList, List.flatMap_cons, List.length_append]
    cases hslash : isMark c with
    | true =>
      rw [utf8EncodeChar_of_lt (hmark c hslash)] at hcons
      rw [Text.pieces, if_pos hslash, hcons]
      show 0 + 1 + writtenSize (Text.pieces isMark rest) = _
      rw [ih]
      simp only [List.length_singleton]
      omega
    | false =>
      obtain ⟨piece, others, hpieces, hall⟩ := Text.exists_pieces_cons hslash rest
      rw [hpieces] at ih
      rw [hall, hcons]
      have hone : writtenSize (piece :: others) = (ofText (String.ofList piece)).length + 1 + writtenSize others := rfl
      have hmore : writtenSize ((c :: piece) :: others) =
          (ofText (String.ofList (c :: piece))).length + 1 + writtenSize others := rfl
      rw [hmore, ofText_ofList, List.flatMap_cons, List.length_append, ← ofText_ofList]
      omega

/-- A text within another is written in no more bytes, and in as many only when it is the other. -/
theorem length_ofText_sublist {first second : List Char} (h : first.Sublist second) :
    (ofText (String.ofList first)).length ≤ (ofText (String.ofList second)).length ∧
      ((ofText (String.ofList first)).length = (ofText (String.ofList second)).length → first = second) := by
  simp only [ofText_ofList]
  induction h with
  | slnil => exact ⟨Nat.le_refl _, fun _ => rfl⟩
  | cons c _ ih =>
    have hpos : 0 < (String.utf8EncodeChar c).length := String.length_utf8EncodeChar c ▸ c.utf8Size_pos
    rw [List.flatMap_cons, List.length_append]
    exact ⟨by omega, fun hsame => by omega⟩
  | cons_cons c _ ih =>
    simp only [List.flatMap_cons, List.length_append]
    exact ⟨by omega, fun hsame => by rw [ih.2 (by omega)]⟩

/-! ## Targets -/

/-- What adding pieces to a path keeps: a property of the segments that there are, of the empty segment, and of
the segments that the pieces become. -/
theorem forall_mem_extendAll {p : String → Prop} (hempty : p "") {pieces : List (List Char)} {path : List String}
    (hpath : ∀ segment ∈ path, p segment) (hpieces : ∀ piece ∈ pieces, p (segmentOf piece)) :
    ∀ segment ∈ extendAll path pieces, p segment := by
  induction pieces generalizing path with
  | nil => exact hpath
  | cons piece rest ih =>
    obtain ⟨hpiece, hrest⟩ := List.forall_mem_cons.mp hpieces
    have hdrop : ∀ segment ∈ path.dropLast, p segment := fun segment h => hpath segment (List.dropLast_subset _ h)
    rw [extendAll_cons]
    refine ih ?_ hrest
    rw [extend]
    repeat' split
    · exact List.forall_mem_append.mpr ⟨hdrop, List.forall_mem_singleton.mpr hempty⟩
    · exact hdrop
    · exact List.forall_mem_append.mpr ⟨hpath, List.forall_mem_singleton.mpr hempty⟩
    · exact hpath
    · exact List.forall_mem_append.mpr ⟨hpath, List.forall_mem_singleton.mpr hpiece⟩

/-- A path that pieces are added to has a segment. -/
theorem extendAll_ne_nil {pieces : List (List Char)} (h : pieces ≠ []) (path : List String) :
    extendAll path pieces ≠ [] := by
  induction pieces generalizing path with
  | nil => exact absurd rfl h
  | cons piece rest ih =>
    rw [extendAll_cons]
    cases rest with
    | nil =>
      show extend path (segmentOf piece) true ≠ []
      rw [extend]
      repeat' split
      all_goals simp_all
    | cons next rest => exact ih (List.cons_ne_nil _ _) _

/-- A segment that a server finds again: it has no slash, and does not start a query. -/
def IsClean (segment : String) : Prop := ∀ c ∈ segment.toList, c ≠ '/' ∧ c ≠ '?'

/-- Segments with slashes between them are cut at the slashes. -/
theorem pieces_segments {first : String} {rest : List String} (hclean : ∀ segment ∈ first :: rest, IsClean segment) :
    Text.pieces (· = '/') (first.toList ++ rest.flatMap fun segment => '/' :: segment.toList) =
      (first :: rest).map String.toList := by
  induction rest generalizing first with
  | nil =>
    rw [List.flatMap_nil, List.append_nil]
    exact Text.pieces_of_forall fun c hc => decide_eq_false (hclean first (by simp) c hc).1
  | cons second rest ih =>
    obtain ⟨hfirst, hothers⟩ := List.forall_mem_cons.mp hclean
    rw [List.flatMap_cons, List.cons_append, Text.pieces_append_cons (fun c hc => decide_eq_false (hfirst c hc).1)
      (by decide), ih hothers]
    rfl

/-- A server finds the segments of a URL in the path of its target. -/
theorem partsOf_target {url : Url} (hpath : url.path = .segments segments) (hsome : segments ≠ [])
    (hclean : ∀ segment ∈ segments, IsClean segment) :
    Gateway.partsOf (Gateway.pathOf url.target) = some (segments.map String.toList) := by
  have hsegments : (pathText url.path).toList = segments.flatMap fun segment => '/' :: segment.toList := by
    rw [hpath, pathText, String.toList_join, List.flatMap_map]
    simp only [String.toList_append]
    rfl
  have hkept : ∀ c ∈ segments.flatMap (fun segment => '/' :: segment.toList), decide (c ≠ '?') = true := by
    intro c hc
    obtain ⟨segment, hsegment, hmem⟩ := List.mem_flatMap.mp hc
    rcases List.mem_cons.mp hmem with rfl | hmem
    · rfl
    · exact decide_eq_true (hclean segment hsegment c hmem).2
  have hquery : ((url.query.map ("?" ++ ·)).getD "").toList.takeWhile (· ≠ '?') = [] := by
    cases url.query with
    | none => rfl
    | some query =>
      rw [Option.map_some, Option.getD_some, String.toList_append]
      rfl
  have hall : Gateway.pathOf url.target = segments.flatMap fun segment => '/' :: segment.toList := by
    rw [Gateway.pathOf, target, String.toList_append, hsegments, List.takeWhile_append_of_pos hkept, hquery,
      List.append_nil]
  obtain ⟨first, rest, rfl⟩ := List.exists_cons_of_ne_nil hsome
  rw [hall, List.flatMap_cons, List.cons_append, Gateway.partsOf, pieces_segments hclean]

end Reassembly.Url
