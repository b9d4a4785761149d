import Reassembly.Proofs.Http.Segment

/-!
# Where requests lead

A request for the manifest of a file leads there when nothing of the name is dropped and the name is no dot
segment; the name of the health of a gateway is taken. The location of a chunk is written without encoding the
name, so that a request for the payload leads there only when the name is also meant as it is written and has
nothing in it that would end a segment or the path.
-/

namespace Reassembly.Gateway

open Percent Bytes

/-- The name of a file that a request for its manifest leads to: no dot segment, not that of the health of a
gateway, and without characters that do not count in URLs. -/
def IsName (fileId : String) : Prop :=
  fileId ∉ [".", "..", "health"] ∧ ∀ c ∈ fileId.toList, Url.isIgnored c = false

/-- The name of a file that the locations of its chunks lead to: no dot segment, without characters that do not
count in URLs or that end a segment or a path, and without escapes. -/
def IsPlainName (fileId : String) : Prop :=
  fileId ∉ [".", ".."] ∧ (∀ c ∈ fileId.toList, Url.isIgnored c = false ∧ c ∉ ['/', '\\', '?', '#']) ∧
    decode (ofText fileId) = ofText fileId

instance (fileId : String) : Decidable (IsName fileId) :=
  haveI := List.decidableBAll (fun c => Url.isIgnored c = false) fileId.toList
  inferInstanceAs (Decidable (_ ∧ _))

instance (fileId : String) : Decidable (IsPlainName fileId) :=
  haveI := List.decidableBAll (fun c => Url.isIgnored c = false ∧ c ∉ ['/', '\\', '?', '#']) fileId.toList
  inferInstanceAs (Decidable (_ ∧ _ ∧ _))

variable {fileId : String} {index : Nat} {url child : Url}

/-! ## Manifests -/

/-- The segment that a name becomes under a gateway, unless it becomes an empty one. -/
theorem addSegment_cases (fileId : String) :
    Url.addSegment [""] fileId = [""] ∨
      fileId ∉ [".", ".."] ∧ Url.addSegment [""] fileId = [Url.encoded (Url.counted fileId)] := by
  by_cases hdots : fileId ∈ [".", ".."]
  · exact .inl (Url.addSegment_of_mem hdots [""])
  · have hadded : Url.addSegment [""] fileId = Url.extend [] (Url.encoded (Url.counted fileId)) true :=
      Url.addSegment_of_not_mem hdots [""]
    rw [hadded, Url.extend_encoded]
    split
    · exact .inl rfl
    · split
      · exact .inl rfl
      · exact .inr ⟨hdots, rfl⟩

/-- A name becomes a segment that a gateway finds again. -/
theorem isClean_encoded (text : String) : Url.IsClean (Url.encoded text) := by
  intro c hc
  rw [Url.encoded, String.toList_ofList] at hc
  rcases of_mem_encode hc with ⟨-, -, hreserved⟩ | rfl | halphanum
  · constructor <;> rintro rfl <;> simp [inSegment, inPath] at hreserved
  · decide
  · constructor <;> rintro rfl <;> exact absurd halphanum (by decide)

/-- The parts of the path that the manifest of a file is asked for under. -/
theorem partsOf_child (hpath : url.path = .segments [""]) (hchild : url.child? fileId = some child) :
    partsOf (pathOf child.target) = some ((Url.addSegment [""] fileId).map String.toList) := by
  have hsegments : child.path = .segments (Url.addSegment [""] fileId) := by
    rw [Url.child?, hpath] at hchild
    obtain rfl := Option.some.inj hchild
    rfl
  refine Url.partsOf_target hsegments ?_ ?_
  · rcases addSegment_cases fileId with hempty | ⟨-, hname⟩
    · simp [hempty]
    · simp [hname]
  · rcases addSegment_cases fileId with hempty | ⟨-, hname⟩
    · rw [hempty]
      exact List.forall_mem_singleton.mpr fun c hc => by simp at hc
    · rw [hname]
      exact List.forall_mem_singleton.mpr (isClean_encoded _)

/-- A path of one part leads to the health of a gateway, or to a manifest. -/
theorem route_one {target : String} {part : List Char} (h : partsOf (pathOf target) = some [part]) (hsome : part ≠ []) :
    route target =
      if part = "health".toList then .ok .health
      else ((textOf? part).map fun fileId => .ok (.manifest fileId)).getD (.error badRequest) := by
  have hpart : [part].any List.isEmpty = false := by simp [hsome]
  rw [route, h]
  simp only [hpart, Bool.false_eq_true, if_false, List.cons.injEq, and_true]
  split
  · rfl
  · cases textOf? part <;> rfl

/-- A request for the manifest of a file leads there only when the name of the file lets it. -/
theorem isName_of_route (hpath : url.path = .segments [""]) (hchild : url.child? fileId = some child)
    (hroute : route child.target = .ok (.manifest fileId)) : IsName fileId := by
  have hparts := partsOf_child hpath hchild
  rcases addSegment_cases fileId with hempty | ⟨hdots, hname⟩
  · rw [hempty] at hparts
    rw [route, hparts] at hroute
    simp at hroute
  · rw [hname, List.map_singleton] at hparts
    have hpart : (Url.encoded (Url.counted fileId)).toList ≠ [] := by
      intro hnone
      rw [hnone] at hparts
      rw [route, hparts] at hroute
      simp at hroute
    rw [route_one hparts hpart, Url.textOf?_encoded] at hroute
    split at hroute
    · simp at hroute
    · next hhealth =>
      -- What counts of the name is all of it.
      have hcounted : Url.counted fileId = fileId := by simpa using hroute
      refine ⟨?_, Url.counted_eq_self_iff.mp hcounted⟩
      simp only [List.mem_cons, List.not_mem_nil, or_false, not_or] at hdots ⊢
      refine ⟨hdots.1, hdots.2, ?_⟩
      rintro rfl
      exact hhealth (by decide)

/-- The name of a file that a request for its manifest leads to is carried unchanged. -/
theorem IsName.isSegment (h : IsName fileId) : Url.IsSegment fileId := by
  obtain ⟨hnames, hcounts⟩ := h
  simp only [List.mem_cons, List.not_mem_nil, or_false, not_or] at hnames
  exact ⟨by simp [hnames], hcounts⟩

/-- A request for the manifest of a file leads there when the name of the file lets it. -/
theorem route_child (hname : IsName fileId) (hsome : fileId ≠ "") (hpath : url.path = .segments [""])
    (hchild : url.child? fileId = some child) : route child.target = .ok (.manifest fileId) := by
  have hparts := partsOf_child hpath hchild
  have hadded : Url.addSegment [""] fileId = [Url.encoded fileId] :=
    Url.addSegment_of_isSegment hname.isSegment [""]
  rw [hadded, List.map_singleton] at hparts
  have hpart : (Url.encoded fileId).toList ≠ [] := by
    rw [Url.encoded, String.toList_ofList]
    exact encode_ne_nil (by simpa using hsome)
  have hword : (Url.encoded fileId).toList ≠ "health".toList := by
    intro hword
    have htext := Url.textOf?_encoded fileId
    rw [hword, (by decide : textOf? "health".toList = some "health")] at htext
    exact hname.1 (by simp [← Option.some.inj htext])
  rw [route_one hparts hpart, if_neg hword, Url.textOf?_encoded]
  rfl

/-! ## Payloads -/

/-- The path of the location of a chunk, behind its first slash. -/
def chunkPath (fileId : String) (index : Nat) : List Char :=
  "chunks".toList ++ '/' :: (fileId.toList ++ '/' :: Nat.toDigits 10 index)

/-- The parts of the path of the location of a chunk. -/
theorem chunkPath_eq (fileId : String) (index : Nat) :
    chunkPath fileId index = "chunks".toList ++ '/' :: (fileId.toList ++ '/' :: Nat.toDigits 10 index) := rfl

/-- The segments of the location of a chunk. -/
def chunkSegments (fileId : String) (index : Nat) : List String :=
  Url.extendAll [] (Text.pieces (Url.isSlash (.web 80)) (Url.pathPart (chunkPath fileId index)))

/-- The characters of the location of a chunk. -/
theorem locationOf_eq (address : String) (token : Option String) (fileId : String) (index : Nat) :
    locationOf ⟨urlOf address, token⟩ fileId index =
      String.ofList ("http://".toList ++ (address.toList ++ '/' :: chunkPath fileId index)) := by
  have hindex : (toString index).toList = Nat.toDigits 10 index := Nat.toList_repr
  have hlist : ("http://" ++ address ++ "/chunks/" ++ fileId ++ "/" ++ toString index).toList =
      "http://".toList ++ (address.toList ++ '/' :: chunkPath fileId index) := by
    simp only [String.toList_append, hindex, List.append_assoc]
    rfl
  rw [← hlist, String.ofList_toList]
  rfl

/-- An index is written in digits. -/
theorem isAddressChar_of_toDigits (index : Nat) {c : Char} (h : c ∈ Nat.toDigits 10 index) :
    Host.isAddressChar c = true :=
  Host.isAddressChar_of_isDigit (Number.isDigit_of_mem_toDigits h)

/-- The location of a chunk is read as a URL of the gateway. -/
theorem parse_locationOf {address : String} (haddress : isSocketAddress address = true) {authority : Authority}
    (hauthority : Url.authorityOf (.web 80) address.toList = .ok authority) (token : Option String) (fileId : String)
    (index : Nat) :
    ∃ query fragment, Url.parse (locationOf ⟨urlOf address, token⟩ fileId index) =
      .ok ⟨"http", some authority, .segments (chunkSegments fileId index), query, fragment⟩ := by
  obtain ⟨hsome, hplain⟩ := isAddressChar_of_isSocketAddress haddress
  have hlast : ∀ c, ('/' :: chunkPath fileId index).getLast? = some c → Url.isEdge c = false := by
    intro c hc
    have hsplit : '/' :: chunkPath fileId index =
        ('/' :: ("chunks".toList ++ '/' :: (fileId.toList ++ ['/']))) ++ Nat.toDigits 10 index := by
      simp only [chunkPath_eq, List.cons_append, List.append_assoc, List.nil_append]
    rw [hsplit, List.getLast?_append_of_ne_nil _ Nat.toDigits_ne_nil] at hc
    exact (Url.of_isAddressChar (isAddressChar_of_toDigits _ (List.mem_of_getLast? hc))).1
  obtain ⟨query, fragment, hparse⟩ := Url.parse_web hplain hsome (.inr ⟨_, rfl⟩) hlast
  refine ⟨query, fragment, ?_⟩
  rw [locationOf_eq, hparse, hauthority, Url.cutTail_slash]
  rfl

/-- A gateway finds the segments of the location of a chunk again. -/
theorem partsOf_chunkSegments (hpath : url.path = .segments (chunkSegments fileId index)) :
    partsOf (pathOf url.target) = some ((chunkSegments fileId index).map String.toList) := by
  refine Url.partsOf_target hpath (Url.extendAll_ne_nil (Text.pieces_ne_nil _ _) _) ?_
  refine Url.forall_mem_extendAll (fun c hc => by simp at hc) (by simp) fun piece hpiece c hc => ?_
  rw [Url.segmentOf, String.toList_ofList] at hc
  rcases of_mem_encode hc with ⟨hmem, -, hreserved⟩ | rfl | halphanum
  · have hslash := (Text.of_mem_pieces hpiece hmem).1
    constructor <;> rintro rfl
    · exact absurd hslash (by decide)
    · exact absurd hreserved (by decide)
  · decide
  · constructor <;> rintro rfl <;> exact absurd halphanum (by decide)

/-- The pieces of the path of a chunk when the name of its file has no slash in it. -/
theorem pieces_chunkPath (hslash : ∀ c ∈ fileId.toList, Url.isSlash (.web 80) c = false) (index : Nat) :
    Text.pieces (Url.isSlash (.web 80)) (chunkPath fileId index) =
      ["chunks".toList, fileId.toList, Nat.toDigits 10 index] := by
  have hdigits : ∀ c ∈ Nat.toDigits 10 index, Url.isSlash (.web 80) c = false := by
    intro c hc
    have hends := (Url.of_isAddressChar (isAddressChar_of_toDigits index hc)).2.2 (.web 80)
    exact (Bool.or_eq_false_iff.mp (Bool.or_eq_false_iff.mp hends).1).1
  rw [chunkPath_eq, Text.pieces_append_cons (List.forall_iff_forall_mem.mp (by decide)) (by decide),
    Text.pieces_append_cons hslash (by decide), Text.pieces_of_forall hdigits]

/-- A path of three parts, the first of which is that of payloads, leads to a payload. -/
theorem route_three {target name : String} {second third digits : List Char}
    (h : partsOf (pathOf target) = some ["chunks".toList, second, third]) (hsecond : second ≠ []) (hthird : third ≠ [])
    (hname : textOf? second = some name) (hdigits : textOf? third = some (String.ofList digits)) :
    route target = ((Number.natural? Location.indexBound digits).map fun index => .ok (.payload name index)).getD
      (.error badRequest) := by
  have hparts : ["chunks".toList, second, third].any List.isEmpty = false := by simp [hsecond, hthird]
  rw [route, h]
  simp only [hparts, hname, hdigits, Bool.false_eq_true, if_false, if_true, String.toList_ofList, List.cons.injEq,
    List.cons_ne_nil, and_false]
  cases Number.natural? Location.indexBound digits <;> rfl

/-- The location of a chunk leads to its payload when the name of the file lets it. -/
theorem route_payload (hname : IsPlainName fileId) (hsome : fileId ≠ "") (hindex : index < Location.indexBound)
    (hpath : url.path = .segments (chunkSegments fileId index)) :
    route url.target = .ok (.payload fileId index) := by
  obtain ⟨hdots, hplain, hstands⟩ := hname
  simp only [List.mem_cons, List.not_mem_nil, or_false, not_or] at hdots hplain
  have hdigits := fun c => isAddressChar_of_toDigits index (c := c)
  have hfront : Url.pathPart (chunkPath fileId index) = chunkPath fileId index := by
    refine Url.pathPart_eq_self_iff.mpr ?_
    simp only [chunkPath_eq, List.forall_mem_append, List.forall_mem_cons]
    refine ⟨List.forall_iff_forall_mem.mp (by decide), by decide, fun c hc => ?_, by decide, fun c hc => ?_⟩
    · obtain ⟨hignored, -, -, hquery, hfragment⟩ := hplain c hc
      exact ⟨hignored, hfragment, hquery⟩
    · obtain ⟨-, hignored, hends⟩ := Url.of_isAddressChar (hdigits c hc)
      have hends := hends .other
      simp only [Url.endsAuthority, Bool.or_eq_false_iff, decide_eq_false_iff_not] at hends
      exact ⟨hignored, hends.2, hends.1.2⟩
  have hslash : ∀ c ∈ fileId.toList, Url.isSlash (.web 80) c = false := by
    intro c hc
    obtain ⟨-, hslash, hbackslash, -⟩ := hplain c hc
    simp [Url.isSlash, hslash, hbackslash]
  have hpieces : ∀ piece ∈ ["chunks".toList, fileId.toList, Nat.toDigits 10 index],
      Url.Stands piece ∧ String.ofList piece ≠ "." ∧ String.ofList piece ≠ ".." := by
    have hpoint : ∀ text : String, '.' ∈ text.toList → String.ofList (Nat.toDigits 10 index) ≠ text := by
      rintro text hmem rfl
      rw [String.toList_ofList] at hmem
      exact absurd (Number.isDigit_of_mem_toDigits hmem) (by decide)
    simp only [List.forall_mem_cons]
    refine ⟨⟨bytesOf_of_forall (List.forall_iff_forall_mem.mp (by decide)), by decide, by decide⟩, ⟨?_, ?_⟩,
      ⟨bytesOf_of_forall ?_, ?_, ?_⟩, by simp⟩
    · rw [Url.Stands, bytesOf, String.ofList_toList, hstands]
    · rwa [String.ofList_toList]
    · rintro c hc rfl
      exact absurd (hdigits _ hc) (by decide)
    · exact hpoint _ (by decide)
    · exact hpoint _ (by decide)
  have hparts := partsOf_chunkSegments hpath
  rw [chunkSegments, hfront, pieces_chunkPath hslash, Url.extendAll_of_stands hpieces] at hparts
  have hchunks : encode inPath "chunks".toList = "chunks".toList := by decide
  simp only [List.nil_append, List.map_cons, List.map_nil, Url.segmentOf, String.toList_ofList] at hparts
  rw [hchunks] at hparts
  rw [route_three hparts (encode_ne_nil (by simpa using hsome)) (encode_ne_nil Nat.toDigits_ne_nil)
    (Url.textOf?_encode_of_stands (hpieces _ (by simp)).1) (Url.textOf?_encode_of_stands (hpieces _ (by simp)).1),
    Number.natural?_toDigits hindex, String.ofList_toList]
  rfl

/-- A path that leads to a payload has three parts: that of payloads, the name of a file, and an index. -/
theorem parts_of_route_payload {target : String} (h : route target = .ok (.payload fileId index)) :
    ∃ second third digits, partsOf (pathOf target) = some ["chunks".toList, second, third] ∧
      textOf? second = some fileId ∧ textOf? third = some digits ∧ digits ≠ "" := by
  rw [route] at h
  split at h
  · simp at h
  · next parts hparts =>
    split at h
    · simp at h
    · split at h
      · simp at h
      · split at h
        · split at h <;> simp at h
        · next chunks second third _ _ =>
          split at h
          · next hchunks =>
            split at h
            · next name digits hname hdigits =>
              split at h
              · next found hfound =>
                obtain ⟨rfl, rfl⟩ : name = fileId ∧ found = index := by simpa using h
                refine ⟨second, third, digits, by rw [hparts, hchunks], hname, hdigits, ?_⟩
                rintro rfl
                exact absurd hfound (by simp [Number.natural?, Number.digits?])
              · simp at h
            · simp at h
          · simp at h
        · simp at h

/-- The bytes that the path of the first chunk of a file is written in. -/
theorem length_chunkPath (fileId : String) :
    (ofText (String.ofList (chunkPath fileId 0))).length = (ofText fileId).length + 9 := by
  have hname : ofText fileId = fileId.toList.flatMap String.utf8EncodeChar := by
    rw [← ofText_ofList, String.ofList_toList]
  have hchunks : ("chunks".toList.flatMap String.utf8EncodeChar).length = 6 := by decide
  have hslash : (String.utf8EncodeChar '/').length = 1 := by decide
  have hzero : ((Nat.toDigits 10 0).flatMap String.utf8EncodeChar).length = 1 := by decide
  simp only [ofText_ofList, chunkPath_eq, List.flatMap_append, List.flatMap_cons, List.length_append, hname]
  omega

/-- A location that leads to the payload of a first chunk has lost nothing on the way: its path is all there, and
each piece of it is meant as it is written and has become a segment, of which there are three. -/
theorem kept_of_route (hpath : url.path = .segments (chunkSegments fileId 0))
    (hroute : route url.target = .ok (.payload fileId 0)) :
    Url.pathPart (chunkPath fileId 0) = chunkPath fileId 0 ∧
      chunkSegments fileId 0 = (Text.pieces (Url.isSlash (.web 80)) (chunkPath fileId 0)).map Url.segmentOf ∧
      (∀ piece ∈ Text.pieces (Url.isSlash (.web 80)) (chunkPath fileId 0), Url.Stands piece) ∧
      (chunkSegments fileId 0).length = 3 := by
  obtain ⟨second, third, digits, hfound, hname, hdigits, hsome⟩ := parts_of_route_payload hroute
  rw [partsOf_chunkSegments hpath] at hfound
  have hparts := Option.some.inj hfound
  have hlength : (chunkSegments fileId 0).length = 3 := by simpa using congrArg List.length hparts
  -- What the request leads to is as long as all that is written.
  have hmeant : Url.meantSize (chunkSegments fileId 0) = (ofText fileId).length + (ofText digits).length + 9 := by
    have hsizes : Url.meantSize (chunkSegments fileId 0) =
        (["chunks".toList, second, third].map fun part => (bytesOf part).length + 1).sum := by
      rw [← hparts, List.map_map]
      rfl
    have hchunks : (bytesOf "chunks".toList).length = 6 := by decide
    rw [hsizes]
    simp only [List.map_cons, List.map_nil, List.sum_cons, List.sum_nil, hchunks,
      eq_ofText_of_toText? hname, eq_ofText_of_toText? hdigits]
    omega
  have hindex : 0 < (ofText digits).length := by
    rw [List.length_pos_iff]
    intro hnone
    have hempty := toText?_ofText digits
    rw [hnone] at hempty
    exact hsome (Option.some.inj hempty).symm
  obtain ⟨hle, hequal⟩ := Url.extendAll_le []
    (Text.pieces (Url.isSlash (.web 80)) (Url.pathPart (chunkPath fileId 0)))
  obtain ⟨hshort, hwhole⟩ := Url.length_ofText_sublist (Url.pathPart_sublist (chunkPath fileId 0))
  have hwritten := Url.writtenSize_pieces (Url.lt_of_isSlash (.web 80)) (Url.pathPart (chunkPath fileId 0))
  have hempty : Url.meantSize [] = 0 := rfl
  rw [chunkSegments] at hmeant
  rw [length_chunkPath] at hshort hwhole
  obtain ⟨hall, hstands⟩ := hequal (by omega)
  have hfront := hwhole (by omega)
  rw [hfront] at hstands
  refine ⟨hfront, ?_, hstands, hlength⟩
  rw [chunkSegments, hall, hfront, List.nil_append]

/-- The location of the first chunk of a file leads to its payload only when the name of the file lets it. -/
theorem isPlainName_of_route (hpath : url.path = .segments (chunkSegments fileId 0))
    (hroute : route url.target = .ok (.payload fileId 0)) : IsPlainName fileId := by
  obtain ⟨hfront, hall, hstands, hlength⟩ := kept_of_route hpath hroute
  have hslash : ∀ c ∈ fileId.toList, Url.isSlash (.web 80) c = false := by
    rw [hall, List.length_map, Text.length_pieces, chunkPath_eq, List.countP_append,
      List.countP_cons_of_pos (by decide), List.countP_append, List.countP_cons_of_pos (by decide)] at hlength
    intro c hc
    simpa using List.countP_eq_zero.mp (by omega : fileId.toList.countP (Url.isSlash (.web 80)) = 0) c hc
  rw [pieces_chunkPath hslash] at hall hstands
  have hplain := Url.pathPart_eq_self_iff.mp hfront
  refine ⟨?_, fun c hc => ?_, ?_⟩
  · simp only [List.mem_cons, List.not_mem_nil, or_false, not_or]
    constructor <;> rintro rfl <;> exact absurd hall (by decide +kernel)
  · obtain ⟨hignored, hfragment, hquery⟩ := hplain c (by simp [chunkPath_eq, hc])
    have hslash := hslash c hc
    simp only [Url.isSlash, Url.Form.hasBackslash, Bool.true_and, Bool.or_eq_false_iff,
      decide_eq_false_iff_not] at hslash
    simp [hignored, hfragment, hquery, hslash]
  · have hname := hstands fileId.toList (by simp)
    rwa [Url.Stands, bytesOf, String.ofList_toList] at hname

end Reassembly.Gateway
