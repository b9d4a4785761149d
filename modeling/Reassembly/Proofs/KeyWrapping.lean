import Reassembly.Proofs.Codec.ContentKey

/-!
# Unwrapping inverts wrapping

Any text may be wrapped, not only that of a key. What comes back is the key that the printable characters of
the text quote, and nothing when they quote none: the padding of the cipher, the characters that are not
printable, and the two that enclose the key do not matter. The secret counts only as far as the cipher uses it.
-/

namespace Reassembly.ContentKey

/-- What is wrapped under a secret depends only on the wrapping key of the secret. -/
theorem wrapText_congr {secret other decoded found : Bytes} (hsecret : Base64.decode secret = .ok decoded)
    (hother : Base64.decode other = .ok found) (hkey : wrappingKey found = wrappingKey decoded) (text : Bytes) :
    wrapText text other = wrapText text secret := by
  rw [wrapText_eq text hother, wrapText_eq text hsecret, cipher, cipher, hkey]

/-- What is unwrapped under a secret depends only on the wrapping key of the secret. -/
theorem unwrap_congr {secret other decoded found : Bytes} (hsecret : Base64.decode secret = .ok decoded)
    (hother : Base64.decode other = .ok found) (hkey : wrappingKey found = wrappingKey decoded) (wrapped : Bytes) :
    unwrap wrapped other = unwrap wrapped secret := by
  rw [unwrap, unwrap, hother, hsecret]
  simp only [cipher, hkey]

/-- The text that is wrapped for no bytes at all gives no key. -/
theorem ofText_quoted_nil : ofText (Bytes.asciiText (quoted [])) = .error .empty := by decide +kernel

/-- Unwrapping inverts wrapping, and nothing else.

Under every secret that is Base64 each text can be wrapped. Unwrapping then gives a key exactly when the printable
characters of the text are the canonical text of the key between two more characters, and the key is not empty; it is
refused otherwise. So each key that is not empty comes back, and an empty one does not. Another secret that makes
the same wrapping key wraps and unwraps the same. -/
theorem unwrap_inverts_wrap {secret decoded : Bytes} (hsecret : Base64.decode secret = .ok decoded) :
    (∀ text : String, ∃ wrapped, wrapText (Bytes.ofText text) secret = .ok wrapped ∧
      (∀ key, unwrap wrapped secret = .ok key ↔ key ≠ [] ∧ Quotes text key) ∧
      ((¬ ∃ key, key ≠ [] ∧ Quotes text key) → ∃ fault, unwrap wrapped secret = .error fault)) ∧
    (∀ key, key ≠ [] → ∃ wrapped, wrap key secret = .ok wrapped ∧ unwrap wrapped secret = .ok key) ∧
    (∃ wrapped, wrap [] secret = .ok wrapped ∧ unwrap wrapped secret = .error .empty) ∧
    ∀ other found, Base64.decode other = .ok found → wrappingKey found = wrappingKey decoded →
      (∀ text, wrapText text other = wrapText text secret) ∧ (∀ key, wrap key other = wrap key secret) ∧
        ∀ wrapped, unwrap wrapped other = unwrap wrapped secret := by
  refine ⟨fun text => ⟨_, wrapText_eq _ hsecret, ?_, ?_⟩, fun key hsome => ?_, ?_, fun other found hother hkey =>
    ⟨wrapText_congr hsecret hother hkey, fun key => wrapText_congr hsecret hother hkey _,
      unwrap_congr hsecret hother hkey⟩⟩
  · intro key
    rw [unwrap_wrapText (wrapText_eq _ hsecret), ofText_eq_ok_iff]
  · intro hnone
    rw [unwrap_wrapText (wrapText_eq _ hsecret)]
    cases hkey : ofText text with
    | ok key => exact absurd ⟨key, ofText_eq_ok_iff.mp hkey⟩ hnone
    | error fault => exact ⟨fault, rfl⟩
  · obtain ⟨wrapped, hwrap, -⟩ := exists_wrap key hsecret
    exact ⟨wrapped, hwrap, unwrap_of_wrap hsome hwrap⟩
  · obtain ⟨wrapped, hwrap, -⟩ := exists_wrap [] hsecret
    refine ⟨wrapped, hwrap, ?_⟩
    rw [wrap_eq] at hwrap
    rw [unwrap_wrapText hwrap, ofText_quoted_nil]

/-- A text with characters around its quotes that are not printable quotes three bytes. -/
theorem quotes_sample : Quotes "\u200b\"AQID\"\u00ad" [1, 2, 3] := ⟨'"', '"', by decide +kernel⟩

/-- No secret at all makes the wrapping key of three zeros. Under it three bytes come back from a quoted text with
other characters around it, and from their own wrapping, and nothing comes back from a single character. -/
theorem unwrap_inverts_wrap_sample :
    Base64.decode [] = .ok [] ∧
      (∃ wrapped, wrapText (Bytes.ofText "\u200b\"AQID\"\u00ad") [] = .ok wrapped ∧ unwrap wrapped [] = .ok [1, 2, 3]) ∧
      (∃ wrapped fault, wrapText (Bytes.ofText "x") [] = .ok wrapped ∧ unwrap wrapped [] = .error fault) ∧
      (∃ wrapped, wrap [1, 2, 3] (Bytes.ofText "AAAA") = .ok wrapped ∧ unwrap wrapped [] = .ok [1, 2, 3]) := by
  have hsecret : Base64.decode [] = .ok [] := rfl
  obtain ⟨htext, hwrap, -, hother⟩ := unwrap_inverts_wrap hsecret
  refine ⟨hsecret, ?_, ?_, ?_⟩
  · obtain ⟨wrapped, hwrapped, hquotes, -⟩ := htext "\u200b\"AQID\"\u00ad"
    exact ⟨wrapped, hwrapped, (hquotes _).mpr ⟨by decide, quotes_sample⟩⟩
  · obtain ⟨wrapped, hwrapped, -, hrefused⟩ := htext "x"
    obtain ⟨fault, hfault⟩ := hrefused (by
      rintro ⟨key, -, first, last, hchars⟩
      have hlength := congrArg List.length hchars
      have hone : (printableOf "x").length = 1 := by decide
      simp only [List.length_append, List.length_cons, List.length_nil] at hlength
      omega)
    exact ⟨wrapped, fault, hwrapped, hfault⟩
  · obtain ⟨-, hsame, -⟩ := hother (Bytes.ofText "AAAA") [0, 0, 0] (by decide +kernel) (by decide)
    obtain ⟨wrapped, hwrapped, hkey⟩ := hwrap [1, 2, 3] (by decide)
    exact ⟨wrapped, (hsame _).trans hwrapped, hkey⟩

end Reassembly.ContentKey
