import Reassembly.Http.Url.Host

/-!
# URLs

An absolute URL has a scheme, and then either an authority and a path of segments, or just some
text. Reading a URL trims blanks and controls, ignores line breaks and tabs, resolves the dot
segments of its path, and percent-encodes what its parts reserve. The schemes of the web have an
authority and a path even where they are not written in full.

A segment can be added to a path. It is encoded as a whole, so that it stays one segment.
-/

namespace Reassembly

/-- The machine that a URL leads to. -/
structure Authority where
  /-- User name and password, as written. -/
  userInfo : Option String := none
  host : Host
  /-- The port, unless it is the scheme's own. -/
  port : Option Nat := none
  deriving Repr, DecidableEq

/-- What follows the authority of a URL: segments, each after a slash, or plain text. -/
inductive UrlPath
  | segments (segments : List String)
  | plain (text : String)
  deriving Repr, DecidableEq

/-- An absolute URL. -/
structure Url where
  scheme : String
  authority : Option Authority
  path : UrlPath
  query : Option String := none
  fragment : Option String := none
  deriving Repr, DecidableEq

namespace Url

/-- How the URLs of a scheme are written. -/
inductive Form
  /-- With an authority and a path of segments, and a port of its own. -/
  | web (port : Nat)
  /-- With a path of segments, and perhaps a host. -/
  | file
  /-- In any way. -/
  | other
  deriving Repr, DecidableEq

/-- How the URLs of a scheme are written. -/
def formOf (scheme : String) : Form :=
  if scheme = "http" ∨ scheme = "ws" then .web 80
  else if scheme = "https" ∨ scheme = "wss" then .web 443
  else if scheme = "ftp" then .web 21
  else if scheme = "file" then .file
  else .other

/-- A backslash counts as a slash. -/
def Form.hasBackslash : Form → Bool
  | other => false
  | _ => true

/-- A character separates segments. -/
def isSlash (form : Form) (c : Char) : Bool := c = '/' || (form.hasBackslash && c = '\\')

/-- A character ends an authority. -/
def endsAuthority (form : Form) (c : Char) : Bool := isSlash form c || c = '?' || c = '#'

/-- The scheme of a URL, in lower case, and what follows its colon. -/
def scheme? (chars : List Char) : Option (String × List Char) :=
  match chars with
  | first :: _ =>
    if first.isAlpha then
      match Text.splitFirst? (· = ':') chars with
      | some (scheme, rest) =>
        if scheme.all fun c => c.isAlphanum || c ∈ ['+', '-', '.'] then
          some (String.ofList (scheme.map Char.toLower), rest)
        else none
      | none => none
    else none
  | [] => none

/-- The written host, and the written port if there is a colon for it. -/
def splitHost : (bracketed : Bool) → List Char → List Char × Option (List Char)
  | _, [] => ([], none)
  | bracketed, c :: rest =>
    if c = ':' ∧ !bracketed then ([], some rest)
    else
      let bracketed := if c = '[' then true else if c = ']' then false else bracketed
      let (host, port) := splitHost bracketed rest
      (c :: host, port)

/-- Ports are at most this. -/
def maxPort : Nat := 65535

/-- The port that is written, unless it is the scheme's own. -/
def port (form : Form) (chars : List Char) : Except UrlFault (Option Nat) :=
  if chars.isEmpty then .ok none
  else
    match Number.digits? chars with
    | some port =>
      if maxPort < port then .error .invalidPort
      else .ok (if form = .web port then none else some port)
    | none => .error .invalidPort

/-- The host that is written after any user information. -/
def hostOf (form : Form) (hasUser : Bool) (chars : List Char) (hasPort : Bool) : Except UrlFault Host :=
  match form with
  | .other =>
    if chars.isEmpty ∧ (hasUser ∨ hasPort) then .error .emptyHost else Host.parseElsewhere chars
  | _ => if chars.isEmpty then .error .emptyHost else Host.parse chars

/-- The authority that is written between the slashes. -/
def authorityOf (form : Form) (chars : List Char) : Except UrlFault Authority := do
  let (userInfo, rest) :=
    match Text.splitLast? (· = '@') chars with
    | some (userInfo, rest) => (some (String.ofList (Percent.encode Percent.inUserInfo userInfo)), rest)
    | none => (none, chars)
  let (hostChars, portChars) := splitHost false rest
  let host ← hostOf form userInfo.isSome hostChars portChars.isSome
  let port ← port form (portChars.getD [])
  return ⟨userInfo, host, port⟩

/-- A segment stands for the directory itself. -/
def isDot (segment : String) : Bool := segment.map Char.toLower ∈ [".", "%2e"]

/-- A segment stands for the directory above. -/
def isDoubleDot (segment : String) : Bool :=
  segment.map Char.toLower ∈ ["..", ".%2e", "%2e.", "%2e%2e"]

/-- Add a written segment to a path. A dot segment that ends the path leaves a slash behind. -/
def extend (path : List String) (segment : String) (isLast : Bool) : List String :=
  if isDoubleDot segment then
    if isLast then path.dropLast ++ [""] else path.dropLast
  else if isDot segment then
    if isLast then path ++ [""] else path
  else path ++ [segment]

/-- Add written segments to a path, of which the last ends it. -/
def extendAll : (path : List String) → List (List Char) → List String
  | path, [] => path
  | path, [segment] => extend path (String.ofList (Percent.encode Percent.inPath segment)) true
  | path, segment :: rest =>
    extendAll (extend path (String.ofList (Percent.encode Percent.inPath segment)) false) rest

/-- The path that is written after the authority. -/
def segmentsOf (form : Form) (chars : List Char) : List String :=
  match chars with
  | [] => if form = .other then [] else [""]
  | first :: rest =>
    extendAll [] (Text.pieces (isSlash form) (if isSlash form first then rest else chars))

/-- The parts of a text before its query and fragment, and those two. -/
def cutTail (chars : List Char) : List Char × Option (List Char) × Option (List Char) :=
  let (front, fragment) :=
    match Text.splitFirst? (· = '#') chars with
    | some (front, fragment) => (front, some fragment)
    | none => (chars, none)
  match Text.splitFirst? (· = '?') front with
  | some (front, query) => (front, some query, fragment)
  | none => (front, none, fragment)

/-- The authority and path that follow a scheme. -/
def bodyOf (form : Form) (chars : List Char) : Except UrlFault (Option Authority × UrlPath) :=
  let withAuthority := fun (chars : List Char) => do
    let authority ← authorityOf form (chars.takeWhile fun c => !endsAuthority form c)
    let path := segmentsOf form (chars.dropWhile fun c => !endsAuthority form c)
    return (some authority, UrlPath.segments path)
  match form, chars with
  | .web _, chars => withAuthority (chars.dropWhile (isSlash form))
  | .file, a :: b :: rest =>
    if isSlash form a && isSlash form b then do
      let hostChars := rest.takeWhile fun c => !isSlash form c
      let path := UrlPath.segments (segmentsOf form (rest.dropWhile fun c => !isSlash form c))
      if hostChars.isEmpty then return (none, path)
      else return (some { host := ← Host.parse hostChars }, path)
    else .ok (none, .segments (segmentsOf form chars))
  | .file, chars => .ok (none, .segments (segmentsOf form chars))
  | .other, '/' :: '/' :: rest => withAuthority rest
  | .other, '/' :: rest => .ok (none, .segments (segmentsOf form ('/' :: rest)))
  | .other, chars => .ok (none, .plain (String.ofList (Percent.encode (fun _ => false) chars)))

/-- A blank or control at either end of a URL does not count. -/
def isEdge (c : Char) : Bool := c.toNat ≤ 0x20

/-- A character that does not count anywhere in a URL. -/
def isIgnored (c : Char) : Bool := c = '\t' || c = '\n' || c = '\r'

/-- Read an absolute URL. -/
def parse (text : String) : Except UrlFault Url := do
  let trimmed := ((text.toList.dropWhile isEdge).reverse.dropWhile isEdge).reverse
  let some (scheme, rest) := scheme? (trimmed.filter (!isIgnored ·)) | throw .noScheme
  let (front, query, fragment) := cutTail rest
  let (authority, path) ← bodyOf (formOf scheme) front
  return {
    scheme, authority, path
    query := query.map fun chars => String.ofList (Percent.encode Percent.inQuery chars)
    fragment := fragment.map fun chars => String.ofList (Percent.encode Percent.inFragment chars) }

/-- The segments of a path without an empty last one, unless that is the only one. -/
def withoutEmptyLast (segments : List String) : List String :=
  if segments ≠ [""] ∧ segments.getLast? = some "" then segments.dropLast else segments

/-- Add a text to a path as one segment. Characters that do not count in URLs are dropped from it,
and the two dot segments add nothing. -/
def addSegment (segments : List String) (text : String) : List String :=
  if text = "." ∨ text = ".." then segments
  else
    let encoded := Percent.encode Percent.inSegment (text.toList.filter (!isIgnored ·))
    extend (if segments = [""] then [] else segments) (String.ofList encoded) true

/-- The URL of something kept under another URL, unless that has no path of segments. -/
def child? (url : Url) (text : String) : Option Url :=
  match url.path with
  | .segments segments =>
    some { url with path := .segments (addSegment (withoutEmptyLast segments) text) }
  | .plain _ => none

/-- The path of a URL as it is sent, each segment after a slash. -/
def pathText : UrlPath → String
  | .segments segments => String.join (segments.map ("/" ++ ·))
  | .plain text => text

/-- What a request asks for: the path and the query of a URL. -/
def target (url : Url) : String :=
  pathText url.path ++ (url.query.map ("?" ++ ·)).getD ""

/-- A URL of the web's own transfer protocol. -/
def isHttp (url : Url) : Bool := url.scheme = "http" || url.scheme = "https"

/-- Something can be kept under a URL. -/
def isBase (url : Url) : Bool :=
  match url.path with
  | .segments _ => true
  | .plain _ => false

end Url

end Reassembly
