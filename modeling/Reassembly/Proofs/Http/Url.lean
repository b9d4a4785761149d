import Mathlib.Data.List.TakeWhile
import Reassembly.Proofs.Http.Address
import Reassembly.Proofs.Http.Percent
import Reassembly.Proofs.Text.Split

/-!
# Reading the URLs of gateways

A URL that starts with an address that can be listened at has that address for its authority, whatever
follows. Its segments are the encoded pieces of the path that follows, up to a query or a fragment, without
the dot segments.
-/

namespace Reassembly.Url

open Text

variable {address tail : List Char}

/-! ## Addresses in URLs -/

/-- A character of an address ends no authority and is not dropped. -/
theorem of_isAddressChar {c : Char} (h : Host.isAddressChar c = true) :
    isEdge c = false ∧ isIgnored c = false ∧ ∀ form, endsAuthority form c = false := by
  have hedge : isEdge c = false := by
    refine decide_eq_false fun hle => ?_
    have hlow := Bytes.forall_char (p := fun c => Host.isAddressChar c = false) (by decide) (Nat.lt_succ_of_le hle)
    simp [h] at hlow
  refine ⟨hedge, ?_, fun form => ?_⟩
  · simp only [isIgnored, Bool.or_eq_false_iff, decide_eq_false_iff_not]
    refine ⟨⟨?_, ?_⟩, ?_⟩ <;> rintro rfl <;> exact absurd hedge (by decide)
  · simp only [endsAuthority, isSlash, Bool.or_eq_false_iff, Bool.and_eq_false_iff, decide_eq_false_iff_not]
    refine ⟨⟨⟨?_, .inr ?_⟩, ?_⟩, ?_⟩ <;> rintro rfl <;> exact absurd h (by decide)

/-! ## Queries and fragments -/

/-- The path ends where the query or the fragment begins. -/
theorem cutTail_fst (chars : List Char) :
    (cutTail chars).1 = (chars.takeWhile (· ≠ '#')).takeWhile (· ≠ '?') := by
  have hnot : ∀ mark : Char, (fun c => !decide (c = mark)) = fun c => decide (c ≠ mark) :=
    fun mark => funext fun c => (decide_not).symm
  rw [← hnot, ← hnot, ← front_splitFirst?, ← front_splitFirst?, cutTail]
  cases splitFirst? (· = '#') chars with
  | none =>
    dsimp only [Option.map_none, Option.getD_none]
    cases splitFirst? (· = '?') chars <;> rfl
  | some parts =>
    dsimp only [Option.map_some, Option.getD_some]
    cases splitFirst? (· = '?') parts.1 <;> rfl

/-- A text without query and fragment stays in front of the path. -/
theorem cutTail_append {front : List Char} (h : ∀ c ∈ front, c ≠ '#' ∧ c ≠ '?') (rest : List Char) :
    cutTail (front ++ rest) = (front ++ (cutTail rest).1, (cutTail rest).2) := by
  rw [cutTail, cutTail, splitFirst?_append_left fun c hc => decide_eq_false (h c hc).1]
  have hquery : ∀ c ∈ front, (fun c => decide (c = '?')) c = false := fun c hc => decide_eq_false (h c hc).2
  cases splitFirst? (· = '#') rest with
  | none =>
    dsimp only [Option.map_none]
    rw [splitFirst?_append_left hquery]
    cases splitFirst? (· = '?') rest <;> rfl
  | some parts =>
    dsimp only [Option.map_some]
    rw [splitFirst?_append_left hquery]
    cases splitFirst? (· = '?') parts.1 <;> rfl

/-- What is left of a text in a path: it ends where a query or a fragment begins, and characters that do not
count are dropped. -/
def pathPart (chars : List Char) : List Char :=
  ((chars.filter (!isIgnored ·)).takeWhile (· ≠ '#')).takeWhile (· ≠ '?')

/-- What is left of a path behind its first slash. -/
theorem cutTail_slash (chars : List Char) :
    (cutTail (('/' :: chars).filter (!isIgnored ·))).1 = '/' :: pathPart chars := by
  rw [cutTail_fst]
  rfl

/-- What is left of a text in a path is a part of it. -/
theorem pathPart_sublist (chars : List Char) : (pathPart chars).Sublist chars :=
  (List.takeWhile_sublist _).trans ((List.takeWhile_sublist _).trans List.filter_sublist)

/-- Everything is left of a text without characters that do not count or that end a path, and of no other. -/
theorem pathPart_eq_self_iff {chars : List Char} :
    pathPart chars = chars ↔ ∀ c ∈ chars, isIgnored c = false ∧ c ≠ '#' ∧ c ≠ '?' := by
  constructor
  · intro h c hc
    rw [← h] at hc
    have hquery := List.mem_takeWhile_imp hc
    have hfragment := List.mem_takeWhile_imp ((List.takeWhile_subset _) hc)
    have hkept := (List.mem_filter.mp ((List.takeWhile_subset _) ((List.takeWhile_subset _) hc))).2
    exact ⟨by simpa using hkept, by simpa using hfragment, by simpa using hquery⟩
  · intro h
    have hkept : chars.filter (!isIgnored ·) = chars := List.filter_eq_self.mpr fun c hc => by simp [(h c hc).1]
    have hfragment : chars.takeWhile (· ≠ '#') = chars :=
      List.takeWhile_eq_self_iff.mpr fun c hc => decide_eq_true (h c hc).2.1
    have hquery : chars.takeWhile (· ≠ '?') = chars :=
      List.takeWhile_eq_self_iff.mpr fun c hc => decide_eq_true (h c hc).2.2
    rw [pathPart, hkept, hfragment, hquery]

/-! ## Reading -/

/-- What follows the scheme of a URL of the web is the address, which is the authority, and the path. -/
theorem bodyOf_web (haddress : ∀ c ∈ address, Host.isAddressChar c = true) (hsome : address ≠ [])
    (htail : tail = [] ∨ ∃ rest, tail = '/' :: rest) :
    bodyOf (.web 80) ('/' :: '/' :: (address ++ tail)) =
      (authorityOf (.web 80) address).map fun authority =>
        (some authority, .segments (segmentsOf (.web 80) tail)) := by
  have hends : ∀ c ∈ address, (!endsAuthority (.web 80) c) = true := fun c hc => by
    rw [(of_isAddressChar (haddress c hc)).2.2]
    rfl
  have hslashes : ('/' :: '/' :: (address ++ tail)).dropWhile (isSlash (.web 80)) = address ++ tail := by
    obtain ⟨first, rest, rfl⟩ := List.exists_cons_of_ne_nil hsome
    have hfirst := (of_isAddressChar (haddress first List.mem_cons_self)).2.2 (.web 80)
    simp only [endsAuthority, Bool.or_eq_false_iff] at hfirst
    rw [List.dropWhile_cons_of_pos (by decide), List.dropWhile_cons_of_pos (by decide), List.cons_append,
      List.dropWhile_cons_of_neg (by simp [hfirst.1.1])]
  have htake : (address ++ tail).takeWhile (fun c => !endsAuthority (.web 80) c) = address := by
    rw [List.takeWhile_append_of_pos hends]
    rcases htail with rfl | ⟨rest, rfl⟩
    · rw [List.takeWhile_nil, List.append_nil]
    · rw [List.takeWhile_cons_of_neg (by decide), List.append_nil]
  have hdrop : (address ++ tail).dropWhile (fun c => !endsAuthority (.web 80) c) = tail := by
    rw [List.dropWhile_append_of_pos hends]
    rcases htail with rfl | ⟨rest, rfl⟩
    · rfl
    · rw [List.dropWhile_cons_of_neg (by decide)]
  rw [bodyOf]
  simp only [hslashes, htake, hdrop]
  cases authorityOf (.web 80) address <;> rfl

/-- The scheme of a URL of the web is read. -/
theorem scheme?_web (rest : List Char) : scheme? ("http://".toList ++ rest) = some ("http", "//".toList ++ rest) := by
  have hsplit : "http://".toList ++ rest = "http".toList ++ ':' :: ("//".toList ++ rest) := by simp
  have hname : splitFirst? (· = ':') ("http".toList ++ ':' :: ("//".toList ++ rest)) =
      some ("http".toList, "//".toList ++ rest) :=
    splitFirst?_append (List.forall_iff_forall_mem.mp (by decide)) (by decide)
  rw [hsplit, scheme?.eq_def, hname]
  rfl

/-- A URL is read that starts with an address. -/
theorem parse_web (haddress : ∀ c ∈ address, Host.isAddressChar c = true) (hsome : address ≠ [])
    (htail : tail = [] ∨ ∃ rest, tail = '/' :: rest) (hlast : ∀ c, tail.getLast? = some c → isEdge c = false) :
    ∃ query fragment,
      parse (String.ofList ("http://".toList ++ (address ++ tail))) =
        (authorityOf (.web 80) address).map fun authority =>
          ⟨"http", some authority, .segments (segmentsOf (.web 80) (cutTail (tail.filter (!isIgnored ·))).1),
            query, fragment⟩ := by
  have hfirst : ∀ c, ("http://".toList ++ (address ++ tail)).head? = some c → isEdge c = false := by
    intro c hc
    obtain rfl : 'h' = c := Option.some.inj hc
    rfl
  have hedge : ∀ c, ("http://".toList ++ (address ++ tail)).getLast? = some c → isEdge c = false := by
    intro c hc
    rcases htail with rfl | ⟨rest, rfl⟩
    · have hmem : address.getLast? = some c := by
        rwa [List.append_nil, List.getLast?_append_of_ne_nil _ hsome] at hc
      exact (of_isAddressChar (haddress c (List.mem_of_getLast? hmem))).1
    · rw [← List.append_assoc, List.getLast?_append_of_ne_nil _ (List.cons_ne_nil _ _)] at hc
      exact hlast c hc
  have hkept : address.filter (!isIgnored ·) = address := by
    refine List.filter_eq_self.mpr fun c hc => ?_
    rw [(of_isAddressChar (haddress c hc)).2.1]
    rfl
  have hfront : ∀ c ∈ "//".toList ++ address, c ≠ '#' ∧ c ≠ '?' := by
    intro c hc
    rcases List.mem_append.mp hc with hslash | hmem
    · exact (List.forall_iff_forall_mem (p := fun c => c ≠ '#' ∧ c ≠ '?')).mp (by decide) c hslash
    · have hends := (of_isAddressChar (haddress c hmem)).2.2 .other
      simp only [endsAuthority, Bool.or_eq_false_iff, decide_eq_false_iff_not] at hends
      exact ⟨hends.2, hends.1.2⟩
  have hpath : (cutTail (tail.filter (!isIgnored ·))).1 = [] ∨
      ∃ rest, (cutTail (tail.filter (!isIgnored ·))).1 = '/' :: rest := by
    rw [cutTail_fst]
    rcases htail with rfl | ⟨rest, rfl⟩
    · exact .inl rfl
    · exact .inr ⟨_, rfl⟩
  refine ⟨(cutTail (tail.filter (!isIgnored ·))).2.1.map fun chars =>
      String.ofList (Percent.encode Percent.inQuery chars),
    (cutTail (tail.filter (!isIgnored ·))).2.2.map fun chars =>
      String.ofList (Percent.encode Percent.inFragment chars), ?_⟩
  rw [parse, String.toList_ofList, trim_eq hfirst hedge, List.filter_append, List.filter_append, hkept,
    show "http://".toList.filter (!isIgnored ·) = "http://".toList by decide, scheme?_web, ← List.append_assoc]
  simp only [cutTail_append hfront]
  have hbody := bodyOf_web haddress hsome hpath
  show (bodyOf (.web 80) ('/' :: '/' :: (address ++ (cutTail (tail.filter (!isIgnored ·))).1)) >>= _) = _
  rw [hbody]
  cases authorityOf (.web 80) address <;> rfl

end Reassembly.Url
