import Reassembly.Codec.Base64
import Reassembly.Proofs.Bytes
import Reassembly.Proofs.Result

/-!
# Base64 texts are read back

Encoding writes quads of symbols, the last of which may be padded. Decoding reads the quads before the
last, and then the last on its own; what was encoded comes back, and nothing else can be decoded: the
values are those of the symbols, the padding fills the last quad, and no symbol has bits left over.
-/

namespace Reassembly.Base64

/-- A byte is its number. -/
theorem ofNat_eq {n : Nat} {b : UInt8} (h : n = b.toNat) : UInt8.ofNat n = b := by
  rw [h, UInt8.ofNat_toNat]

/-- The symbols of values are not the padding. -/
theorem symbolOf_ne_pad {v : Nat} (h : v < 64) : symbolOf v ≠ pad := by
  intro hpad
  have hvalue := valueOf?_symbolOf h
  rw [hpad] at hvalue
  simp [valueOf?, pad] at hvalue

/-- Reading a symbol in front of the last group. -/
theorem readSymbols_cons {v : Nat} (h : v < 64) (rest : Bytes) (offset : Nat) :
    readSymbols (symbolOf v :: rest) offset = (readSymbols rest (offset + 1)).map (v :: ·) := by
  rw [readSymbols, valueOf?_symbolOf h]
  cases readSymbols rest (offset + 1) <;> rfl

/-- Reading a symbol in the last group. -/
theorem readLastGroup_cons {v : Nat} (h : v < 64) (rest : Bytes) (position offset : Nat) :
    readLastGroup (symbolOf v :: rest) position offset none =
      (readLastGroup rest (position + 1) (offset + 1) none).map fun group =>
        { group with values := v :: group.values } := by
  rw [readLastGroup, if_neg (symbolOf_ne_pad h)]
  simp only [valueOf?_symbolOf h]
  cases readLastGroup rest (position + 1) (offset + 1) none <;> rfl

/-- Reading the padding of the last group. -/
theorem readLastGroup_pad {position : Nat} (h : 2 ≤ position) (rest : Bytes) (offset : Nat)
    (firstPad : Option Nat) :
    readLastGroup (pad :: rest) position offset firstPad =
      (readLastGroup rest (position + 1) (offset + 1) (firstPad.or (some offset))).map fun group =>
        { group with pads := group.pads + 1 } := by
  cases firstPad with
  | none =>
    rw [readLastGroup, if_pos rfl, if_neg (Nat.not_lt.mpr h)]
    cases readLastGroup rest (position + 1) (offset + 1) (some offset) <;> rfl
  | some first =>
    rw [readLastGroup, if_pos rfl, if_neg (Nat.not_lt.mpr h)]
    cases readLastGroup rest (position + 1) (offset + 1) (some first) <;> rfl

/-- A text is written as quads and a last group: the quads are read as the values, the last group as it
is, and both together give the bytes. -/
structure Written (bytes quads last : Bytes) (values : List Nat) (group : LastGroup) : Prop where
  text : encode bytes = quads ++ last
  whole : 4 ∣ quads.length
  size : last.length = 4
  quads : ∀ offset, readSymbols quads offset = .ok values
  last : ∀ offset, readLastGroup last 0 offset none = .ok group
  enough : 2 ≤ group.values.length
  bytes : ∀ start, ∃ tail, group.decode start = .ok tail ∧ bytesOfQuads values ++ tail = bytes

/-- One byte makes a last group of two symbols. -/
theorem written_one (x : UInt8) :
    Written [x] [] (encode [x]) [] ⟨[x.toNat / 4, x.toNat % 4 * 16], 2⟩ where
  text := rfl
  whole := ⟨0, rfl⟩
  size := rfl
  quads _ := rfl
  last offset := by
    have hx := x.toNat_lt
    rw [encode, readLastGroup_cons (by omega), readLastGroup_cons (by omega), readLastGroup_pad (by decide),
      readLastGroup_pad (by decide)]
    rfl
  enough := Nat.le_refl 2
  bytes start := by
    refine ⟨[x], ?_, rfl⟩
    rw [LastGroup.decode, if_neg (by simp)]
    simp only
    rw [if_neg (by omega), ofNat_eq (by omega : _ = x.toNat)]

/-- Two bytes make a last group of three symbols. -/
theorem written_two (x y : UInt8) :
    Written [x, y] [] (encode [x, y]) []
      ⟨[x.toNat / 4, x.toNat % 4 * 16 + y.toNat / 16, y.toNat % 16 * 4], 1⟩ where
  text := rfl
  whole := ⟨0, rfl⟩
  size := rfl
  quads _ := rfl
  last offset := by
    have hx := x.toNat_lt
    have hy := y.toNat_lt
    rw [encode, readLastGroup_cons (by omega), readLastGroup_cons (by omega), readLastGroup_cons (by omega),
      readLastGroup_pad (by decide)]
    rfl
  enough := Nat.le_succ 2
  bytes start := by
    have hy := y.toNat_lt
    refine ⟨[x, y], ?_, rfl⟩
    rw [LastGroup.decode, if_neg (by simp)]
    simp only
    rw [if_neg (by omega), ofNat_eq (by omega : _ = x.toNat), ofNat_eq (by omega : _ = y.toNat)]

/-- The bytes of a quad that was made of three. -/
theorem bytesOfQuad_eq (x y z : UInt8) :
    bytesOfQuad (x.toNat / 4) (x.toNat % 4 * 16 + y.toNat / 16) (y.toNat % 16 * 4 + z.toNat / 64)
      (z.toNat % 64) = [x, y, z] := by
  have hy := y.toNat_lt
  have hz := z.toNat_lt
  rw [bytesOfQuad, ofNat_eq (by omega : _ = x.toNat), ofNat_eq (by omega : _ = y.toNat),
    ofNat_eq (by omega : _ = z.toNat)]

/-- Three bytes make a last group of four symbols. -/
theorem written_three (x y z : UInt8) :
    Written [x, y, z] [] (encode [x, y, z]) []
      ⟨[x.toNat / 4, x.toNat % 4 * 16 + y.toNat / 16, y.toNat % 16 * 4 + z.toNat / 64, z.toNat % 64], 0⟩ where
  text := rfl
  whole := ⟨0, rfl⟩
  size := rfl
  quads _ := rfl
  last offset := by
    have hx := x.toNat_lt
    have hy := y.toNat_lt
    have hz := z.toNat_lt
    rw [encode, readLastGroup_cons (by omega), readLastGroup_cons (by omega), readLastGroup_cons (by omega),
      readLastGroup_cons (by omega)]
    rfl
  enough := Nat.le_add_right 2 2
  bytes start := ⟨[x, y, z], by
    rw [LastGroup.decode, if_neg (by simp)]
    simp only [bytesOfQuad_eq], rfl⟩

/-- Three bytes in front of others make a quad in front of the others' text. -/
theorem Written.cons {bytes quads last : Bytes} {values : List Nat} {group : LastGroup}
    (h : Written bytes quads last values group) (x y z : UInt8) :
    ∃ quads values, Written (x :: y :: z :: bytes) quads last values group := by
  have hx := x.toNat_lt
  have hy := y.toNat_lt
  have hz := z.toNat_lt
  refine ⟨symbolOf (x.toNat / 4) :: symbolOf (x.toNat % 4 * 16 + y.toNat / 16) ::
      symbolOf (y.toNat % 16 * 4 + z.toNat / 64) :: symbolOf (z.toNat % 64) :: quads,
    x.toNat / 4 :: (x.toNat % 4 * 16 + y.toNat / 16) :: (y.toNat % 16 * 4 + z.toNat / 64) ::
      (z.toNat % 64) :: values, ?_⟩
  exact {
    text := by rw [encode, h.text]; rfl
    whole := by simpa [Nat.add_assoc] using Nat.dvd_add h.whole (Nat.dvd_refl 4)
    size := h.size
    quads := fun offset => by
      rw [readSymbols_cons (by omega), readSymbols_cons (by omega), readSymbols_cons (by omega),
        readSymbols_cons (by omega), h.quads]
      rfl
    last := h.last
    enough := h.enough
    bytes := fun start => by
      obtain ⟨tail, htail, hbytes⟩ := h.bytes start
      refine ⟨tail, htail, ?_⟩
      rw [bytesOfQuads, bytesOfQuad_eq, List.append_assoc, hbytes]
      rfl }

/-- Every byte string that is not empty is written as quads and a last group. -/
theorem exists_written (bytes : Bytes) (h : bytes ≠ []) :
    ∃ quads last values group, Written bytes quads last values group := by
  induction bytes using encode.induct with
  | case1 => exact absurd rfl h
  | case2 x => exact ⟨_, _, _, _, written_one x⟩
  | case3 x y => exact ⟨_, _, _, _, written_two x y⟩
  | case4 x y z rest ih =>
    cases rest with
    | nil => exact ⟨_, _, _, _, written_three x y z⟩
    | cons next rest =>
      obtain ⟨quads, last, values, group, hrest⟩ := ih (by simp)
      obtain ⟨quads, values, hall⟩ := hrest.cons x y z
      exact ⟨quads, last, values, group, hall⟩

/-- What was encoded is decoded. -/
theorem decode_encode (bytes : Bytes) : decode (encode bytes) = .ok bytes := by
  by_cases hempty : bytes = []
  · rw [hempty]
    rfl
  obtain ⟨quads, last, values, group, h⟩ := exists_written bytes hempty
  obtain ⟨count, hcount⟩ := h.whole
  have hlength : (quads ++ last).length = 4 * count + 4 := by rw [List.length_append, hcount, h.size]
  have hhead : headLength (quads ++ last).length = quads.length := by
    rw [headLength, hlength, if_pos (by omega), hcount]
    omega
  have hcheck : checkDanglingSymbol (quads ++ last) = .ok () := by
    rw [checkDanglingSymbol, if_neg (by rw [hlength]; omega)]
  obtain ⟨tail, htail, hbytes⟩ := h.bytes quads.length
  rw [h.text, decode, hcheck]
  simp only [hhead, List.take_left, List.drop_left, h.quads, h.last, Result.ok_bind]
  rw [if_neg fun hfew => by have := h.enough; omega]
  simp only [htail, Result.ok_bind, Result.pure_eq_ok, hbytes]

/-- The symbols of a text are printable. -/
theorem printable_of_mem_encode {bytes : Bytes} {b : UInt8} (h : b ∈ encode bytes) :
    0x20 ≤ b.toNat ∧ b.toNat ≤ 0x7e := by
  have hsymbol : ∀ v < 64, 0x20 ≤ (symbolOf v).toNat ∧ (symbolOf v).toNat ≤ 0x7e := by decide
  have hpad : 0x20 ≤ pad.toNat ∧ pad.toNat ≤ 0x7e := by decide
  induction bytes using encode.induct with
  | case1 => simp [encode] at h
  | case2 x =>
    have hx := x.toNat_lt
    simp only [encode, List.mem_cons, List.not_mem_nil, or_false] at h
    rcases h with rfl | rfl | rfl | rfl
    · exact hsymbol _ (by omega)
    · exact hsymbol _ (by omega)
    · exact hpad
    · exact hpad
  | case3 x y =>
    have hx := x.toNat_lt
    have hy := y.toNat_lt
    simp only [encode, List.mem_cons, List.not_mem_nil, or_false] at h
    rcases h with rfl | rfl | rfl | rfl
    · exact hsymbol _ (by omega)
    · exact hsymbol _ (by omega)
    · exact hsymbol _ (by omega)
    · exact hpad
  | case4 x y z rest ih =>
    have hx := x.toNat_lt
    have hy := y.toNat_lt
    have hz := z.toNat_lt
    simp only [encode, List.mem_cons] at h
    rcases h with rfl | rfl | rfl | rfl | h
    · exact hsymbol _ (by omega)
    · exact hsymbol _ (by omega)
    · exact hsymbol _ (by omega)
    · exact hsymbol _ (by omega)
    · exact ih h

section Canonicity

/-- A value is below 64, and its symbol is the one that was read. -/
theorem symbolOf_of_valueOf? {symbol : UInt8} {v : Nat} (h : valueOf? symbol = some v) :
    v < 64 ∧ symbolOf v = symbol := by
  have hall : ∀ symbol : UInt8, ∀ v ∈ valueOf? symbol, v < 64 ∧ symbolOf v = symbol :=
    Bytes.forall_byte (by decide +kernel)
  exact hall symbol v h

/-- Symbols before the last group are those of their values. -/
theorem eq_map_of_readSymbols {text : Bytes} {offset : Nat} {values : List Nat}
    (h : readSymbols text offset = .ok values) :
    text = values.map symbolOf ∧ ∀ v ∈ values, v < 64 := by
  induction text generalizing offset values with
  | nil =>
    obtain rfl := Except.ok.inj h
    exact ⟨rfl, by simp⟩
  | cons symbol rest ih =>
    rw [readSymbols] at h
    split at h
    · simp at h
    · next v hv =>
      obtain ⟨later, hlater, hvalues⟩ := Result.bind_eq_ok_iff.mp h
      obtain rfl := Except.ok.inj hvalues
      obtain ⟨hsmall, rfl⟩ := symbolOf_of_valueOf? hv
      obtain ⟨rfl, hall⟩ := ih hlater
      exact ⟨rfl, List.forall_mem_cons.mpr ⟨hsmall, hall⟩⟩

/-- Behind padding the last group holds nothing but padding. -/
theorem eq_replicate_of_readLastGroup {text : Bytes} {position offset first : Nat} {group : LastGroup}
    (h : readLastGroup text position offset (some first) = .ok group) :
    text = List.replicate group.pads pad ∧ group.values = [] := by
  induction text generalizing position offset group with
  | nil =>
    obtain rfl := Except.ok.inj h
    exact ⟨rfl, rfl⟩
  | cons symbol rest ih =>
    rw [readLastGroup] at h
    split at h
    · next hpad =>
      split at h
      · simp at h
      · obtain ⟨later, hlater, hgroup⟩ := Result.bind_eq_ok_iff.mp h
        obtain rfl := Except.ok.inj hgroup
        obtain ⟨rfl, hnone⟩ := ih hlater
        exact ⟨by rw [hpad]; rfl, hnone⟩
    · simp at h

/-- The last group holds the symbols of its values, and then its padding. -/
theorem eq_append_of_readLastGroup {text : Bytes} {position offset : Nat} {group : LastGroup}
    (h : readLastGroup text position offset none = .ok group) :
    text = group.values.map symbolOf ++ List.replicate group.pads pad ∧ ∀ v ∈ group.values, v < 64 := by
  induction text generalizing position offset group with
  | nil =>
    obtain rfl := Except.ok.inj h
    exact ⟨rfl, by simp⟩
  | cons symbol rest ih =>
    rw [readLastGroup] at h
    split at h
    · next hpad =>
      split at h
      · simp at h
      · obtain ⟨later, hlater, hgroup⟩ := Result.bind_eq_ok_iff.mp h
        obtain rfl := Except.ok.inj hgroup
        obtain ⟨rfl, hnone⟩ := eq_replicate_of_readLastGroup hlater
        simp only [hnone, hpad]
        exact ⟨rfl, by simp⟩
    · split at h
      · simp at h
      · next v hv =>
        obtain ⟨later, hlater, hgroup⟩ := Result.bind_eq_ok_iff.mp h
        obtain rfl := Except.ok.inj hgroup
        obtain ⟨hsmall, rfl⟩ := symbolOf_of_valueOf? hv
        obtain ⟨rfl, hall⟩ := ih hlater
        exact ⟨rfl, List.forall_mem_cons.mpr ⟨hsmall, hall⟩⟩

/-- The bytes of a quad are written as its symbols. -/
theorem encode_bytesOfQuad {a b c d : Nat} (ha : a < 64) (hb : b < 64) (hc : c < 64) (hd : d < 64) (rest : Bytes) :
    encode (bytesOfQuad a b c d ++ rest) = symbolOf a :: symbolOf b :: symbolOf c :: symbolOf d :: encode rest := by
  have hfirst : (UInt8.ofNat (a * 4 + b / 16)).toNat = a * 4 + b / 16 :=
    UInt8.toNat_ofNat_of_lt' (by show _ < 256; omega)
  have hsecond : (UInt8.ofNat (b % 16 * 16 + c / 4)).toNat = b % 16 * 16 + c / 4 :=
    UInt8.toNat_ofNat_of_lt' (by show _ < 256; omega)
  have hthird : (UInt8.ofNat (c % 4 * 64 + d)).toNat = c % 4 * 64 + d :=
    UInt8.toNat_ofNat_of_lt' (by show _ < 256; omega)
  rw [bytesOfQuad, List.cons_append, List.cons_append, List.cons_append, List.nil_append, encode, hfirst, hsecond,
    hthird, show (a * 4 + b / 16) / 4 = a by omega,
    show (a * 4 + b / 16) % 4 * 16 + (b % 16 * 16 + c / 4) / 16 = b by omega,
    show (b % 16 * 16 + c / 4) % 16 * 4 + (c % 4 * 64 + d) / 64 = c by omega, show (c % 4 * 64 + d) % 64 = d by omega]

/-- The bytes of whole quads are written as their symbols. -/
theorem encode_bytesOfQuads {values : List Nat} (hwhole : 4 ∣ values.length) (hsmall : ∀ v ∈ values, v < 64)
    (rest : Bytes) : encode (bytesOfQuads values ++ rest) = values.map symbolOf ++ encode rest := by
  fun_induction bytesOfQuads values with
  | case1 a b c d values ih =>
    have hlater : 4 ∣ values.length := by
      simp only [List.length_cons] at hwhole
      omega
    simp only [List.forall_mem_cons] at hsmall
    obtain ⟨ha, hb, hc, hd, hsmall⟩ := hsmall
    rw [List.append_assoc, encode_bytesOfQuad ha hb hc hd, ih hlater hsmall]
    rfl
  | case2 values hfew =>
    match values, hfew, hwhole with
    | [], _, _ => rfl
    | [_], _, hwhole | [_, _], _, hwhole | [_, _, _], _, hwhole => simp at hwhole
    | a :: b :: c :: d :: values, hfew, _ => exact absurd rfl (hfew a b c d values)

/-- The bytes of a last group that fills a quad are written as its symbols and its padding. -/
theorem encode_of_decode_group {group : LastGroup} {start : Nat} {bytes : Bytes}
    (hsize : group.values.length + group.pads = 4) (henough : 2 ≤ group.values.length)
    (hsmall : ∀ v ∈ group.values, v < 64) (h : group.decode start = .ok bytes) :
    encode bytes = group.values.map symbolOf ++ List.replicate group.pads pad := by
  obtain ⟨values, pads⟩ := group
  simp only at hsize henough hsmall ⊢
  rw [LastGroup.decode, if_neg (by simp only [hsize]; decide)] at h
  match values, hsize, henough, hsmall, h with
  | [], _, henough, _, _ | [_], _, henough, _, _ => simp at henough
  | [a, b], hsize, _, hsmall, h =>
    obtain rfl : pads = 2 := Nat.add_left_cancel hsize
    simp only [List.forall_mem_cons] at hsmall
    obtain ⟨ha, hb, -⟩ := hsmall
    simp only at h
    split at h
    · simp at h
    · next hbits =>
      obtain rfl := Except.ok.inj h
      have hbyte : (UInt8.ofNat (a * 4 + b / 16)).toNat = a * 4 + b / 16 :=
        UInt8.toNat_ofNat_of_lt' (by show _ < 256; omega)
      rw [encode, hbyte, show (a * 4 + b / 16) / 4 = a by omega, show (a * 4 + b / 16) % 4 * 16 = b by omega]
      rfl
  | [a, b, c], hsize, _, hsmall, h =>
    obtain rfl : pads = 1 := Nat.add_left_cancel hsize
    simp only [List.forall_mem_cons] at hsmall
    obtain ⟨ha, hb, hc, -⟩ := hsmall
    simp only at h
    split at h
    · simp at h
    · next hbits =>
      obtain rfl := Except.ok.inj h
      have hfirst : (UInt8.ofNat (a * 4 + b / 16)).toNat = a * 4 + b / 16 :=
        UInt8.toNat_ofNat_of_lt' (by show _ < 256; omega)
      have hsecond : (UInt8.ofNat (b % 16 * 16 + c / 4)).toNat = b % 16 * 16 + c / 4 :=
        UInt8.toNat_ofNat_of_lt' (by show _ < 256; omega)
      rw [encode, hfirst, hsecond, show (a * 4 + b / 16) / 4 = a by omega,
        show (a * 4 + b / 16) % 4 * 16 + (b % 16 * 16 + c / 4) / 16 = b by omega,
        show (b % 16 * 16 + c / 4) % 16 * 4 = c by omega]
      rfl
  | [a, b, c, d], hsize, _, hsmall, h =>
    obtain rfl : pads = 0 := Nat.add_left_cancel hsize
    simp only [List.forall_mem_cons] at hsmall
    obtain ⟨ha, hb, hc, hd, -⟩ := hsmall
    obtain rfl := Except.ok.inj h
    have hquad := encode_bytesOfQuad ha hb hc hd []
    rwa [List.append_nil] at hquad
  | _ :: _ :: _ :: _ :: _ :: _, hsize, _, _, _ =>
    simp only [List.length_cons] at hsize
    omega

/-- What is decoded was encoded. -/
theorem eq_encode_of_decode {text bytes : Bytes} (h : decode text = .ok bytes) : text = encode bytes := by
  obtain ⟨-, -, h⟩ := Result.bind_eq_ok_iff.mp h
  obtain ⟨values, hvalues, h⟩ := Result.bind_eq_ok_iff.mp h
  obtain ⟨group, hgroup, h⟩ := Result.bind_eq_ok_iff.mp h
  split at h
  · simp at h
  · next henough =>
    obtain ⟨last, hlast, h⟩ := Result.bind_eq_ok_iff.mp h
    obtain rfl := Except.ok.inj h
    obtain ⟨hhead, hsmall⟩ := eq_map_of_readSymbols hvalues
    obtain ⟨htail, hsmaller⟩ := eq_append_of_readLastGroup hgroup
    by_cases hempty : text = []
    · subst hempty
      obtain rfl := Except.ok.inj hvalues
      obtain rfl := Except.ok.inj hgroup
      obtain rfl := Except.ok.inj hlast
      rfl
    · rw [not_and, Nat.not_lt] at henough
      have hfull : (group.values.length + group.pads) % 4 = 0 := by
        by_contra hragged
        rw [LastGroup.decode, if_pos hragged] at hlast
        simp at hlast
      have hlength : 0 < text.length := List.length_pos_iff.mpr hempty
      have hcut := congrArg List.length htail
      have hbefore := congrArg List.length hhead
      simp only [List.length_drop, List.length_append, List.length_map, List.length_replicate, List.length_take,
        headLength] at hcut hbefore
      -- A text that is not whole quads would leave a group that its padding does not fill.
      have hwhole : text.length % 4 = 0 := by
        by_contra hragged
        rw [if_neg hragged] at hcut
        omega
      rw [if_pos hwhole] at hcut hbefore
      rw [encode_bytesOfQuads (by omega) hsmall, encode_of_decode_group (by omega) (henough hempty) hsmaller hlast,
        ← htail, ← hhead, List.take_append_drop]

/-- A text is decoded exactly when it is what the bytes are encoded as. -/
theorem decode_eq_ok_iff {text bytes : Bytes} : decode text = .ok bytes ↔ text = encode bytes := by
  constructor
  · exact eq_encode_of_decode
  · rintro rfl
    exact decode_encode bytes

end Canonicity

end Reassembly.Base64
