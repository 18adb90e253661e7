import Jasonrpc.Lib.Decimal

/-!
# Framing codecs

How JSON messages are delimited on a byte stream: the trait `Framing` and the codecs `Delimited`,
`Newline`, `Netstring` and `ContentLength`.  A codec works on in-memory buffers only; `usize` is a
word of `w` bits, which the length parsers and the overflow guards depend on.
-/

namespace Jasonrpc

open ByteString

/-- A `std::io::Error`, by its text. -/
abbrev IoError := String

/-- Errors from framing and byte I/O in the transport layer. -/
inductive TransportError where
  /-- A framing violation (bad length prefix, missing terminator, etc.). -/
  | frame (message : String)
  /-- Underlying I/O error. -/
  | io (e : IoError)
deriving DecidableEq, Repr

/-- A message framing: how to delimit JSON messages on a byte stream. -/
structure Framing where
  /-- Encode one message payload, appending to `dst`. -/
  encodeInto : (payload dst : Bytes) → Bytes
  /-- Attempt to decode one complete message from the front of `src`: the message and the number
  of bytes to drain, or `none` when more bytes are needed. -/
  decode : (src : Bytes) → Except TransportError (Option (Bytes × ℕ))
  /-- Whether the I/O driver treats end-of-file as a valid frame boundary. -/
  takeOnEof : Bool := false

/-- The wire bytes of one payload. -/
def Framing.encode (f : Framing) (payload : Bytes) : Bytes := f.encodeInto payload []

/-! ## Byte-delimited framing -/

namespace Delimited

/-- The payload, and the delimiter after it. -/
def encodeInto (delimiter : UInt8) (payload dst : Bytes) : Bytes :=
  dst ++ payload ++ [delimiter]

/-- The bytes before the first delimiter, which the frame takes as well. -/
def decode (delimiter : UInt8) (src : Bytes) : Except TransportError (Option (Bytes × ℕ)) :=
  match memchr delimiter src with
  | some idx => .ok (some (src.take idx, idx + 1))
  | none => .ok none

end Delimited

/-- Each message is terminated by a single delimiter byte. -/
def Delimited (delimiter : UInt8) : Framing where
  encodeInto := Delimited.encodeInto delimiter
  decode := Delimited.decode delimiter
  takeOnEof := true

/-- The line feed. -/
abbrev lf : UInt8 := 10

/-- Newline-delimited framing: the `\n`-delimited special case of `Delimited`. -/
def Newline : Framing where
  encodeInto := (Delimited lf).encodeInto
  decode := (Delimited lf).decode
  takeOnEof := true

/-! ## Netstrings -/

/-- The byte `:`. -/
abbrev colon : UInt8 := 58

/-- The byte `,`. -/
abbrev comma : UInt8 := 44

namespace Netstring

/-- The length in decimal, a colon, the payload and a comma. -/
def encodeInto (payload dst : Bytes) : Bytes :=
  dst ++ decimal payload.length ++ [colon] ++ payload ++ [comma]

/-- The payload of a whole netstring at the front. -/
def decode (w : ℕ) (src : Bytes) : Except TransportError (Option (Bytes × ℕ)) :=
  match memchr colon src with
  | none =>
    -- Guard against an unbounded or garbage length prefix.
    if src.length > 20 then .error (.frame "netstring length prefix too long") else .ok none
  | some col =>
    match (fromUtf8 (src.take col)).bind (parseUsize w) with
    | none => .error (.frame "invalid netstring length")
    | some len =>
      match (checkedAdd w col 1).bind fun v => checkedAdd w v len with
      | none => .error (.frame "netstring length overflows usize")
      | some fin =>
        if h : src.length ≤ fin then .ok none
        else if src[fin] ≠ comma then .error (.frame "netstring missing trailing comma")
        else .ok (some ((src.take fin).drop (col + 1), fin + 1))

end Netstring

/-- Netstring framing: `<len>:<payload>,`. -/
def Netstring (w : ℕ) : Framing where
  encodeInto := Netstring.encodeInto
  decode := Netstring.decode w

/-! ## `Content-Length` headers -/

/-- The header/body separator, `\r\n\r\n`. -/
abbrev crlfcrlf : Bytes := [13, 10, 13, 10]

/-- The loop of `find_header_end` at offset `start`; each turn moves `start` forward, so `fuel`
turns see `fuel` bytes. -/
def findHeaderEndFrom (src : Bytes) : (fuel start : ℕ) → Option ℕ
  | 0, _ => none
  | fuel + 1, start =>
    match memchr 13 (src.drop start) with
    | none => none
    | some rel =>
      let i := start + rel
      if crlfcrlf.isPrefixOf (src.drop i) then some i else findHeaderEndFrom src fuel (i + 1)

/-- Find the byte offset of the `\r\n\r\n` header/body separator, if present. -/
def findHeaderEnd (src : Bytes) : Option ℕ := findHeaderEndFrom src (src.length + 1) 0

/-- A header line without its trailing `\r`. -/
def stripCr (line : Bytes) : Bytes :=
  if line.getLast? = some 13 then line.dropLast else line

/-- The CRLF-separated header lines, without the empty ones. -/
def splitCrlf (headers : Bytes) : List Bytes :=
  ((headers.splitOn lf).map stripCr).filter fun line => !line.isEmpty

namespace ContentLength

/-- Cap on the header block size. -/
def maxHeaderBytes : ℕ := 8 * 1024

/-- The header, an empty line and the payload. -/
def encodeInto (payload dst : Bytes) : Bytes :=
  dst ++ ascii "Content-Length: " ++ decimal payload.length ++ crlfcrlf ++ payload

/-- Scan the header lines for `Content-Length`; the last one wins. -/
def scanHeaders (w : ℕ) : List Bytes → Option ℕ → Except TransportError (Option ℕ)
  | [], contentLen => .ok contentLen
  | line :: lines, contentLen =>
    match memchr colon line with
    | none => .error (.frame "malformed content-length header line")
    | some col =>
      if eqIgnoreAsciiCase (line.take col) (ascii "content-length") then
        match (fromUtf8 (line.drop (col + 1))).bind fun v => parseUsize w (trim v) with
        | none => .error (.frame "invalid content-length value")
        | some parsed => scanHeaders w lines (some parsed)
      else scanHeaders w lines contentLen

/-- The payload that follows the header block at the front. -/
def decode (w : ℕ) (src : Bytes) : Except TransportError (Option (Bytes × ℕ)) :=
  match findHeaderEnd src with
  | none =>
    if src.length > maxHeaderBytes then .error (.frame "content-length header block too long")
    else .ok none
  | some sep =>
    let headerEnd := sep + 4
    match scanHeaders w (splitCrlf (src.take sep)) none with
    | .error e => .error e
    | .ok none => .error (.frame "missing content-length header")
    | .ok (some len) =>
      match checkedAdd w headerEnd len with
      | none => .error (.frame "content-length overflows usize")
      | some fin =>
        if src.length < fin then .ok none
        else .ok (some ((src.take fin).drop headerEnd, fin))

end ContentLength

/-- `Content-Length` header framing, as used by the Language Server Protocol. -/
def ContentLength (w : ℕ) : Framing where
  encodeInto := ContentLength.encodeInto
  decode := ContentLength.decode w

/-- The codecs of the crate. -/
inductive Codec where
  | delimited (delimiter : UInt8)
  | newline
  | netstring
  | contentLength
deriving DecidableEq, Repr

/-- The framing of a codec, on a target with `w`-bit words. -/
def Codec.framing (w : ℕ) : Codec → Framing
  | delimited delimiter => Delimited delimiter
  | newline => Newline
  | netstring => Netstring w
  | contentLength => ContentLength w

end Jasonrpc
