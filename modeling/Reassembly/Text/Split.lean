/-!
# Cutting text

Trimming a sequence of characters of the white space at its ends, and cutting it at its separators.
White space is what has the Unicode property White_Space.
-/

namespace Reassembly.Text

/-- A character is white space. -/
def isBlank (c : Char) : Bool :=
  let n := c.toNat
  (0x9 ≤ n && n ≤ 0xd) || n == 0x20 || n == 0x85 || n == 0xa0 || n == 0x1680 ||
    (0x2000 ≤ n && n ≤ 0x200a) || n == 0x2028 || n == 0x2029 || n == 0x202f || n == 0x205f ||
    n == 0x3000

/-- A sequence of characters without the white space at both its ends. -/
def trim (chars : List Char) : List Char :=
  ((chars.dropWhile isBlank).reverse.dropWhile isBlank).reverse

/-- What comes before and after the first occurrence of a separator. -/
def splitFirst? (isMark : Char → Bool) (chars : List Char) : Option (List Char × List Char) :=
  match chars.dropWhile (!isMark ·) with
  | [] => none
  | _ :: after => some (chars.takeWhile (!isMark ·), after)

/-- What comes before and after the last occurrence of a separator. -/
def splitLast? (isMark : Char → Bool) (chars : List Char) : Option (List Char × List Char) :=
  match splitFirst? isMark chars.reverse with
  | none => none
  | some (after, before) => some (before.reverse, after.reverse)

/-- The pieces between separators. There is one more of them than there are separators. -/
def pieces (isMark : Char → Bool) : List Char → List (List Char)
  | [] => [[]]
  | c :: rest =>
    if isMark c then [] :: pieces isMark rest
    else
      match pieces isMark rest with
      | [] => [[c]]
      | piece :: others => (c :: piece) :: others

end Reassembly.Text
