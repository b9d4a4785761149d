import Reassembly.Http.Percent
import Reassembly.Number.Text
import Reassembly.Text.Split

/-!
# Hosts of URLs

A host is a domain name, or an address of version 4 or 6. Domain names are percent-decoded and
compared in lower case; characters beyond ASCII are kept as they are. A host whose last label is a
number is meant as an address of version 4, whose parts may be decimal, octal, or hexadecimal, and
of which the last part fills the bytes that the others leave.
-/

namespace Reassembly

/-- Why a text is not an absolute URL. -/
inductive UrlFault
  | emptyHost
  | invalidDomain
  | invalidHostCharacter
  | invalidPort
  | invalidIpv4
  | invalidIpv6
  | noScheme
  deriving Repr, DecidableEq

/-- The wording of a fault. -/
def UrlFault.message : UrlFault → String
  | .emptyHost => "empty host"
  | .invalidDomain => "invalid international domain name"
  | .invalidHostCharacter => "invalid domain character"
  | .invalidPort => "invalid port number"
  | .invalidIpv4 => "invalid IPv4 address"
  | .invalidIpv6 => "invalid IPv6 address"
  | .noScheme => "relative URL without a base"

/-- The host of a URL. -/
inductive Host
  | domain (name : String)
  | ipv4 (address : Nat)
  | ipv6 (pieces : List Nat)
  deriving Repr, DecidableEq

namespace Host

/-- A character that no domain name contains. -/
def isForbidden (c : Char) : Bool :=
  c.toNat ≤ 0x20 || c.toNat = 0x7f || c ∈ ['#', '%', '/', ':', '<', '>', '?', '@', '[', '\\', ']', '^', '|']

/-- A character that no other host contains. -/
def isForbiddenElsewhere (c : Char) : Bool :=
  c.toNat = 0 || c ∈ [' ', '#', '/', ':', '<', '>', '?', '@', '[', '\\', ']', '^', '|']

/-- The number that digits of a base write; no digits write zero. -/
def inBase? (base : Nat) (chars : List Char) : Option Nat :=
  chars.foldl
    (fun value c => do
      let digit ← Percent.digit? c
      if digit < base then return (← value) * base + digit else none)
    (some 0)

/-- A part of an address of version 4: decimal, octal after a zero, hexadecimal after `0x`. -/
def part? : List Char → Option Nat
  | [] => none
  | '0' :: 'x' :: rest => inBase? 16 rest
  | '0' :: 'X' :: rest => inBase? 16 rest
  | ['0'] => some 0
  | '0' :: rest => inBase? 8 rest
  | chars => inBase? 10 chars

/-- The labels of a name, without the empty one after a final point. -/
def labels (chars : List Char) : List (List Char) :=
  let labels := Text.pieces (· = '.') chars
  if 1 < labels.length ∧ labels.getLast? = some [] then labels.dropLast else labels

/-- A name is meant as an address: its last label is a number. -/
def endsInNumber (chars : List Char) : Bool :=
  match (labels chars).getLast? with
  | none => false
  | some label => (!label.isEmpty && label.all Char.isDigit) || (part? label).isSome

/-- The address of version 4 that the given parts make. -/
def ofParts? (parts : List Nat) : Option Nat :=
  match parts.getLast? with
  | none => none
  | some last =>
    let others := parts.dropLast
    if 4 < parts.length ∨ others.any (255 < ·) ∨ Nat.pow 256 (4 - others.length) ≤ last then none
    else some (Bytes.bigEndian ((others.map UInt8.ofNat) ++ List.replicate (4 - others.length) 0) + last)

/-- The address of version 4 that a name writes. -/
def ipv4? (chars : List Char) : Option Nat := ((labels chars).mapM part?).bind ofParts?

/-- A piece of an address of version 6: at most four hexadecimal digits. -/
def piece? (chars : List Char) : Option Nat :=
  if chars.isEmpty ∨ 4 < chars.length then none else inBase? 16 chars

/-- A decimal byte without leading zeros. -/
def byte? (chars : List Char) : Option Nat :=
  if 1 < chars.length ∧ chars.head? = some '0' then none
  else (Number.digits? chars).filter (· ≤ 255)

/-- The pieces of one side of an address of version 6. The last may be an address of version 4, if
the side ends the whole. -/
def side? (last : Bool) (chars : List Char) : Option (List Nat) :=
  if chars.isEmpty then some []
  else
    let parts := Text.pieces (· = ':') chars
    match parts.getLast? with
    | none => some []
    | some tail =>
      if last ∧ tail.contains '.' then do
        let pieces ← parts.dropLast.mapM piece?
        match ← (Text.pieces (· = '.') tail).mapM byte? with
        | [a, b, c, d] => return pieces ++ [a * 256 + b, c * 256 + d]
        | _ => none
      else parts.mapM piece?

/-- What comes before and after the first double colon. -/
def splitGap? : List Char → Option (List Char × List Char)
  | ':' :: ':' :: rest => some ([], rest)
  | c :: rest => (splitGap? rest).map fun (before, after) => (c :: before, after)
  | [] => none

/-- The eight pieces of an address of version 6. -/
def ipv6? (chars : List Char) : Option (List Nat) :=
  match splitGap? chars with
  | none => (side? true chars).filter (·.length = 8)
  | some (before, after) => do
    let front ← side? false before
    let back ← side? true after
    if front.length + back.length < 8 then
      return front ++ List.replicate (8 - front.length - back.length) 0 ++ back
    else none

/-- The host that stands between brackets. -/
def bracketed (chars : List Char) : Except UrlFault Host :=
  if chars.getLast? = some ']' then
    match ipv6? chars.dropLast with
    | some pieces => .ok (.ipv6 pieces)
    | none => .error .invalidIpv6
  else .error .invalidIpv6

/-- The host of a URL whose scheme has domain names. -/
def parse (chars : List Char) : Except UrlFault Host :=
  match chars with
  | '[' :: rest => bracketed rest
  | chars =>
    match Percent.textOf? chars with
    | none => .error .invalidDomain
    | some name =>
      let name := name.toList.map Char.toLower
      if name.any isForbidden then .error .invalidDomain
      else if name.isEmpty then .error .emptyHost
      else if endsInNumber name then
        match ipv4? name with
        | some address => .ok (.ipv4 address)
        | none => .error .invalidIpv4
      else .ok (.domain (String.ofList name))

/-- The host of a URL of any other scheme. -/
def parseElsewhere (chars : List Char) : Except UrlFault Host :=
  match chars with
  | '[' :: rest => bracketed rest
  | chars =>
    if chars.any isForbiddenElsewhere then .error .invalidHostCharacter
    else .ok (.domain (String.ofList (Percent.encode (fun _ => false) chars)))

end Host

end Reassembly
