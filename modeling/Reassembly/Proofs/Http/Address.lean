import Mathlib.Data.List.Basic
import Mathlib.Data.List.Induction
import Reassembly.Http.Gateway
import Reassembly.Proofs.Bytes
import Reassembly.Proofs.Number.Text
import Reassembly.Proofs.Text.Split

/-!
# Addresses of gateways

An address that can be listened at has a host and a port. Whichever host it is, it is written in letters,
digits, points, colons and brackets, so that nothing in an address ends the authority of a URL.
-/

namespace Reassembly

namespace Host

/-- A character that an address is written in. -/
def isAddressChar (c : Char) : Bool := c.isAlphanum || c ∈ ['.', ':', '[', ']']

/-- A decimal digit is a character of an address. -/
theorem isAddressChar_of_isDigit {c : Char} (h : c.isDigit = true) : isAddressChar c = true := by
  simp [isAddressChar, Char.isAlphanum, h]

/-- A hexadecimal digit is a character of an address. -/
theorem isAddressChar_of_digit? {c : Char} {n : Nat} (h : Percent.digit? c = some n) : isAddressChar c = true := by
  have hlt : c.toNat < 128 := by
    rw [Percent.digit?] at h
    repeat' split at h
    all_goals first | omega | simp at h
  exact Bytes.forall_char (p := fun c => (Percent.digit? c).isSome = true → isAddressChar c = true)
    (by decide) hlt (by simp [h])

/-- When a list succeeds, so does each of its elements. -/
theorem exists_of_mapM {α β : Type} {f : α → Option β} {as : List α} {bs : List β} (h : as.mapM f = some bs) {a : α}
    (hmem : a ∈ as) : ∃ b, f a = some b := by
  induction as generalizing bs with
  | nil => simp at hmem
  | cons first rest ih =>
    rw [List.mapM_cons] at h
    obtain ⟨b, hb, h⟩ := Option.bind_eq_some_iff.mp h
    obtain ⟨later, hlater, -⟩ := Option.bind_eq_some_iff.mp h
    rcases List.mem_cons.mp hmem with rfl | hrest
    · exact ⟨b, hb⟩
    · exact ih hlater hrest

/-- A number is read digit by digit. -/
theorem inBase?_concat (base : Nat) (front : List Char) (c : Char) :
    inBase? base (front ++ [c]) =
      (Percent.digit? c).bind fun digit =>
        if digit < base then (inBase? base front).map (· * base + digit) else none := by
  rw [inBase?, List.foldl_append, List.foldl_cons, List.foldl_nil]
  show (Percent.digit? c).bind (fun digit => if digit < base then (inBase? base front).bind _ else none) = _
  congr 1
  funext digit
  split
  · cases inBase? base front <;> rfl
  · rfl

/-- What writes a number in some base is written in digits. -/
theorem isAddressChar_of_inBase? {base n : Nat} {chars : List Char} (h : inBase? base chars = some n) :
    ∀ c ∈ chars, isAddressChar c = true := by
  induction chars using List.reverseRecOn generalizing n with
  | nil => simp
  | append_singleton front last ih =>
    rw [inBase?_concat] at h
    obtain ⟨digit, hdigit, h⟩ := Option.bind_eq_some_iff.mp h
    obtain ⟨-, h⟩ := Option.ite_none_right_eq_some.mp h
    obtain ⟨value, hvalue, -⟩ := Option.map_eq_some_iff.mp h
    intro c hc
    rcases List.mem_append.mp hc with hfront | hlast
    · exact ih hvalue c hfront
    · rw [List.mem_singleton.mp hlast]
      exact isAddressChar_of_digit? hdigit

/-- A piece of an address of version 6 is written in digits. -/
theorem isAddressChar_of_piece? {n : Nat} {chars : List Char} (h : piece? chars = some n) :
    ∀ c ∈ chars, isAddressChar c = true := by
  rw [piece?] at h
  split at h
  · simp at h
  · exact isAddressChar_of_inBase? h

/-- A byte of an address of version 4 is written in digits. -/
theorem isAddressChar_of_byte? {n : Nat} {chars : List Char} (h : byte? chars = some n) :
    ∀ c ∈ chars, isAddressChar c = true := by
  rw [byte?] at h
  split at h
  · simp at h
  · have hdigits := (Option.filter_eq_some_iff.mp h).1
    exact fun c hc => isAddressChar_of_isDigit ((Number.isDigit_of_digits? hdigits).2 c hc)

/-- What is written in pieces, all of which are read, is written in the characters of an address. -/
theorem isAddressChar_of_pieces {mark : Char} (hmark : isAddressChar mark = true) {α : Type}
    {read : List Char → Option α} (hread : ∀ {piece a}, read piece = some a → ∀ c ∈ piece, isAddressChar c = true)
    {chars : List Char} {found : List α} (h : (Text.pieces (· = mark) chars).mapM read = some found) :
    ∀ c ∈ chars, isAddressChar c = true := by
  intro c hc
  rcases Text.mark_or_mem_pieces (· = mark) hc with heq | ⟨piece, hpiece, hmem⟩
  · exact of_decide_eq_true heq ▸ hmark
  · obtain ⟨a, ha⟩ := exists_of_mapM h hpiece
    exact hread ha c hmem

/-- The first double colon stands between what comes before and after it. -/
theorem splitGap?_eq_some {chars before after : List Char} (h : splitGap? chars = some (before, after)) :
    chars = before ++ ':' :: ':' :: after := by
  fun_induction splitGap? chars generalizing before with
  | case1 rest =>
    obtain ⟨rfl, rfl⟩ : [] = before ∧ rest = after := by simpa using h
    rfl
  | case2 c rest _ ih =>
    obtain ⟨⟨front, back⟩, hsplit, hequal⟩ := Option.map_eq_some_iff.mp h
    obtain ⟨rfl, rfl⟩ : c :: front = before ∧ back = after := by simpa using hequal
    rw [ih hsplit, List.cons_append]
  | case3 => simp at h

/-- One side of an address of version 6 is written in the characters of an address. -/
theorem isAddressChar_of_side? {last : Bool} {chars : List Char} {found : List Nat}
    (h : side? last chars = some found) : ∀ c ∈ chars, isAddressChar c = true := by
  have hcolon : isAddressChar ':' = true := by decide
  have hpoint : isAddressChar '.' = true := by decide
  rw [side?] at h
  split at h
  · next hempty =>
    rw [List.isEmpty_iff.mp hempty]
    simp
  · dsimp only at h
    split at h
    · next hnone => exact absurd (List.getLast?_eq_none_iff.mp hnone) (Text.pieces_ne_nil _ _)
    · next tail htail =>
      split at h
      · obtain ⟨front, hfront, h⟩ := Option.bind_eq_some_iff.mp h
        obtain ⟨bytes, hbytes, -⟩ := Option.bind_eq_some_iff.mp h
        have hsplit : Text.pieces (· = ':') chars = (Text.pieces (· = ':') chars).dropLast ++ [tail] :=
          (List.dropLast_append_getLast? tail htail).symm
        intro c hc
        rcases Text.mark_or_mem_pieces (· = ':') hc with heq | ⟨piece, hpiece, hmem⟩
        · exact of_decide_eq_true heq ▸ hcolon
        · rw [hsplit] at hpiece
          rcases List.mem_append.mp hpiece with hearly | hlate
          · obtain ⟨value, hvalue⟩ := exists_of_mapM hfront hearly
            exact isAddressChar_of_piece? hvalue c hmem
          · rw [List.mem_singleton.mp hlate] at hmem
            exact isAddressChar_of_pieces hpoint isAddressChar_of_byte? hbytes c hmem
      · exact isAddressChar_of_pieces hcolon isAddressChar_of_piece? h

/-- An address of version 6 is written in the characters of an address. -/
theorem isAddressChar_of_ipv6? {chars : List Char} {found : List Nat} (h : ipv6? chars = some found) :
    ∀ c ∈ chars, isAddressChar c = true := by
  rw [ipv6?] at h
  split at h
  · exact isAddressChar_of_side? (Option.filter_eq_some_iff.mp h).1
  · next before after hsplit =>
    obtain ⟨front, hfront, h⟩ := Option.bind_eq_some_iff.mp h
    obtain ⟨back, hback, -⟩ := Option.bind_eq_some_iff.mp h
    have hcolon : isAddressChar ':' = true := by decide
    rw [splitGap?_eq_some hsplit]
    simp only [List.forall_mem_append, List.forall_mem_cons]
    exact ⟨isAddressChar_of_side? hfront, hcolon, hcolon, isAddressChar_of_side? hback⟩

end Host

namespace Gateway

/-- An address that can be listened at is not empty, and is written in the characters of an address. -/
theorem isAddressChar_of_isSocketAddress {address : String} (h : isSocketAddress address = true) :
    address.toList ≠ [] ∧ ∀ c ∈ address.toList, Host.isAddressChar c = true := by
  rw [isSocketAddress] at h
  split at h
  · simp at h
  · next host port hsplit =>
    obtain ⟨mark, hmark, hchars⟩ := Text.splitLast?_eq_some hsplit
    obtain rfl : mark = ':' := of_decide_eq_true hmark
    obtain ⟨hport, hhost⟩ := Bool.and_eq_true_iff.mp h
    obtain ⟨number, hnumber⟩ := Option.isSome_iff_exists.mp hport
    have hdigits := (Number.isDigit_of_digits? (Option.filter_eq_some_iff.mp hnumber).1).2
    have hplain : ∀ c ∈ host, Host.isAddressChar c = true := by
      split at hhost
      · next rest =>
        obtain ⟨hlast, hinside⟩ := Bool.and_eq_true_iff.mp hhost
        obtain ⟨found, hfound⟩ := Option.isSome_iff_exists.mp hinside
        have hrest : rest = rest.dropLast ++ [']'] :=
          (List.dropLast_append_getLast? ']' (of_decide_eq_true hlast)).symm
        have hopening : Host.isAddressChar '[' = true := by decide
        have hclosing : Host.isAddressChar ']' = true := by decide
        rw [hrest]
        simp only [List.forall_mem_cons, List.forall_mem_append]
        exact ⟨hopening, Host.isAddressChar_of_ipv6? hfound, hclosing, by simp⟩
      · split at hhost
        · next bytes hbytes => exact Host.isAddressChar_of_pieces (by decide) Host.isAddressChar_of_byte? hbytes
        · simp at hhost
    rw [hchars]
    refine ⟨by simp, ?_⟩
    simp only [List.forall_mem_append, List.forall_mem_cons]
    exact ⟨hplain, by decide, fun c hc => Host.isAddressChar_of_isDigit (hdigits c hc)⟩

end Gateway

end Reassembly
