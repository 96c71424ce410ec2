import TagGateway.Foundation.HttpHeader
import Mathlib.Data.List.Sort

/-!
# The canonical forms of the signature

What the signer and the validator share: how a path, a query, a header value are
written into the text that is signed. `Stdlib` holds what the repository takes
from elsewhere, the hashes, the clock formats and the parsing of URLs.
-/
namespace TagGateway.Auth

open Foundation

/-- A point in time with the offset it was written in, both in nanoseconds. -/
structure Time where
  instant : ℤ
  offset : ℤ := 0
deriving DecidableEq

inductive TimeLayout where
  | amz
  | rfc1123
  | rfc1123z
deriving DecidableEq

/-- A parsed URL: `path` is decoded, `rawQuery` is not. -/
structure URL where
  scheme : Bytes := []
  opaqueData : Bytes := []
  host : Bytes := []
  path : Bytes := []
  rawPath : Bytes := []
  rawQuery : Bytes := []
  forceQuery : Bool := false
  fragment : Bytes := []
deriving DecidableEq

structure Request where
  method : Bytes
  url : URL
  host : Bytes
  header : Header
deriving DecidableEq

/-- Code outside the repository. `formatTime` and `formatDate` write a time in the
two layouts of the signature; `reparse` parses the string form of a URL. -/
structure Stdlib where
  hmacSHA256 : Bytes → Bytes → Bytes
  sha256 : Bytes → Bytes
  parseTime : TimeLayout → Bytes → Option Time
  formatTime : Time → Bytes
  formatDate : Time → Bytes
  parseQuery : Bytes → List (Bytes × Bytes)
  pathUnescape : Bytes → Option Bytes
  reparse : URL → Option URL

def emptyBodyHash : Bytes :=
  ascii "e3b0c44298fc1c149afbf4c8996fb92427ae41e4649b934ca495991b7852b855"

def unsignedPayload : Bytes := ascii "UNSIGNED-PAYLOAD"

def algorithm : Bytes := ascii "AWS4-HMAC-SHA256"

def service : Bytes := ascii "s3"

def terminationString : Bytes := ascii "aws4_request"

def joinWith (sep : UInt8) (parts : List Bytes) : Bytes := [sep].intercalate parts

theorem infix_joinWith (sep : UInt8) {part : Bytes} {parts : List Bytes} (h : part ∈ parts) :
    part <:+: joinWith sep parts := by
  induction parts with
  | nil => cases h
  | cons first rest ih =>
    cases rest with
    | nil =>
      rw [List.mem_singleton.mp h, joinWith, List.intercalate_singleton]
    | cons second rest =>
      rw [joinWith, List.intercalate_cons_cons]
      rcases List.mem_cons.mp h with hfirst | hrest
      · rw [hfirst, List.append_assoc]
        exact (List.prefix_append _ _).isInfix
      · exact (ih hrest).trans (List.suffix_append _ _).isInfix

def newline : UInt8 := 10

def hexDigit (digits : Bytes) (n : ℕ) : UInt8 := digits.getD n 0

def hexByte (digits : Bytes) (b : UInt8) : Bytes :=
  [hexDigit digits (b.toNat / 16), hexDigit digits (b.toNat % 16)]

def hexEncode (s : Bytes) : Bytes := s.flatMap (hexByte (ascii "0123456789abcdef"))

theorem mem_hexEncode {b : UInt8} {s : Bytes} (h : b ∈ hexEncode s) :
    (isDigit b || (byte 'a' ≤ b && b ≤ byte 'f')) = true := by
  have hdigit : ∀ n < 16, (isDigit (hexDigit (ascii "0123456789abcdef") n) ||
      (byte 'a' ≤ hexDigit (ascii "0123456789abcdef") n &&
        hexDigit (ascii "0123456789abcdef") n ≤ byte 'f')) = true := by
    decide
  obtain ⟨c, -, hb⟩ := List.mem_flatMap.mp h
  have hc := c.toNat_lt
  simp only [hexByte, List.mem_cons, List.not_mem_nil, or_false] at hb
  rcases hb with rfl | rfl
  · exact hdigit _ (by omega)
  · exact hdigit _ (by omega)

def awsURIHex : Bytes := ascii "0123456789ABCDEF"

/-- Percent-encoding; only unreserved bytes, and the slash of a path, stay. -/
def awsURIEncode (s : Bytes) (encodeSlash : Bool) : Bytes :=
  s.flatMap fun c =>
    if isUpper c || isLower c || isDigit c || (ascii "_-~.").contains c ||
        (c == byte '/' && !encodeSlash) then [c]
    else byte '%' :: hexByte awsURIHex c

def sortBytes (l : List Bytes) : List Bytes := l.insertionSort (· ≤ ·)

/-- Every pair, ordered by name and then by value. -/
def canonicalQueryString (query : List (Bytes × Bytes)) : Bytes :=
  let keys := sortBytes (query.map Prod.fst).dedup
  joinWith (byte '&') <| keys.flatMap fun key =>
    let values := sortBytes ((query.filter fun p => p.1 == key).map Prod.snd)
    values.map fun value => awsURIEncode key true ++ [byte '='] ++ awsURIEncode value true

def collapseSpaces : Bool → Bytes → Bytes
  | _, [] => []
  | previousSpace, b :: bs =>
    if b = byte ' ' then
      if previousSpace then collapseSpaces true bs else b :: collapseSpaces true bs
    else b :: collapseSpaces false bs

def canonicalHeaderValue (value : Bytes) : Bytes :=
  let value := trimSpace value
  if contains value (ascii "  ") then collapseSpaces false value else value

def canonicalHeaderValues (values : List Bytes) : Bytes :=
  joinWith (byte ',') (values.map canonicalHeaderValue)

def headerLine (name value : Bytes) : Bytes := name ++ [byte ':'] ++ value ++ [newline]

def canonicalURI (path : Bytes) : Bytes :=
  let encoded := awsURIEncode path false
  if encoded = [] then ascii "/" else encoded

def canonicalRequest (method path : Bytes) (query : List (Bytes × Bytes))
    (canonicalHeaders signedHeaders bodyHash : Bytes) : Bytes :=
  joinWith newline [method, canonicalURI path, canonicalQueryString query, canonicalHeaders,
    signedHeaders, bodyHash]

section

variable (lib : Stdlib)

def credentialScope (signingTime : Time) (region : Bytes) : Bytes :=
  joinWith (byte '/') [lib.formatDate signingTime, region, service, terminationString]

def stringToSign (signingTime : Time) (region canonical : Bytes) : Bytes :=
  joinWith newline [algorithm, lib.formatTime signingTime, credentialScope lib signingTime region,
    hexEncode (lib.sha256 canonical)]

def signatureOf (signingKey : Bytes) (signingTime : Time) (region canonical : Bytes) : Bytes :=
  hexEncode (lib.hmacSHA256 signingKey (stringToSign lib signingTime region canonical))

def parseHTTPDate (text : Bytes) : Option Time :=
  [.amz, .rfc1123, .rfc1123z].findSome? fun layout => lib.parseTime layout text

def queryGet (r : Request) (name : Bytes) : Bytes :=
  ((lib.parseQuery r.url.rawQuery).lookup name).getD []

end

example : canonicalQueryString [(ascii "b", ascii "2"), (ascii "a", ascii "x y"), (ascii "b", [])] =
    ascii "a=x%20y&b=&b=2" := by decide +kernel

end TagGateway.Auth
