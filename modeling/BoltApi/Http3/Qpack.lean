import BoltApi.Hpack.Codec
import BoltApi.Http3.QpackHuffman

/-! # The QPACK codec

`QpackEncoder::encode_field_section` and `QpackDecoder::decode_field_section`,
of `http3/qpack.h`. As in the HPACK codec, a function that reads returns the
input behind what it consumed, and one that writes returns what it writes, or
`none` when it does not fit. -/
namespace BoltApi.Http3.Qpack
open Octets Hpack QpackHuffman

structure QpackHeader where
  name : Bytes
  value : Bytes
deriving DecidableEq

def kQpackMaxHeaders : Nat := 256

def kQpackMaxStringLen : Nat := 8192

def kQpackHuffmanScratch : Nat := kQpackMaxStringLen

def kQpackMaxIntValue : Nat := 2 ^ 62 - 1

/-! ## Static table -/

/-- `QpackStaticTable::kEntries`: RFC 9204, Appendix A. -/
def staticTable : List QpackHeader :=
  [(":authority", ""), (":path", "/"), ("age", "0"), ("content-disposition", ""),
    ("content-length", "0"), ("cookie", ""), ("date", ""), ("etag", ""), ("if-modified-since", ""),
    ("if-none-match", ""), ("last-modified", ""), ("link", ""), ("location", ""), ("referer", ""),
    ("set-cookie", ""), (":method", "CONNECT"), (":method", "DELETE"), (":method", "GET"),
    (":method", "HEAD"), (":method", "OPTIONS"), (":method", "POST"), (":method", "PUT"),
    (":scheme", "http"), (":scheme", "https"), (":status", "103"), (":status", "200"),
    (":status", "304"), (":status", "404"), (":status", "503"), ("accept", "*/*"),
    ("accept", "application/dns-message"), ("accept-encoding", "gzip, deflate, br"),
    ("accept-ranges", "bytes"), ("access-control-allow-headers", "cache-control"),
    ("access-control-allow-headers", "content-type"), ("access-control-allow-origin", "*"),
    ("cache-control", "max-age=0"), ("cache-control", "max-age=2592000"),
    ("cache-control", "max-age=604800"), ("cache-control", "no-cache"),
    ("cache-control", "no-store"), ("cache-control", "public, max-age=31536000"),
    ("content-encoding", "br"), ("content-encoding", "gzip"),
    ("content-type", "application/dns-message"), ("content-type", "application/javascript"),
    ("content-type", "application/json"), ("content-type", "application/x-www-form-urlencoded"),
    ("content-type", "image/gif"), ("content-type", "image/jpeg"), ("content-type", "image/png"),
    ("content-type", "text/css"), ("content-type", "text/html; charset=utf-8"),
    ("content-type", "text/plain"), ("content-type", "text/plain;charset=utf-8"),
    ("range", "bytes=0-"), ("strict-transport-security", "max-age=31536000"),
    ("strict-transport-security", "max-age=31536000; includesubdomains"),
    ("strict-transport-security", "max-age=31536000; includesubdomains; preload"),
    ("vary", "accept-encoding"), ("vary", "origin"), ("x-content-type-options", "nosniff"),
    ("x-xss-protection", "1; mode=block"), (":status", "100"), (":status", "204"),
    (":status", "206"), (":status", "302"), (":status", "400"), (":status", "403"),
    (":status", "421"), (":status", "425"), (":status", "500"), ("accept-language", ""),
    ("access-control-allow-credentials", "FALSE"), ("access-control-allow-credentials", "TRUE"),
    ("access-control-allow-headers", "*"), ("access-control-allow-methods", "get"),
    ("access-control-allow-methods", "get, post, options"),
    ("access-control-allow-methods", "options"),
    ("access-control-expose-headers", "content-length"),
    ("access-control-request-headers", "content-type"), ("access-control-request-method", "get"),
    ("access-control-request-method", "post"), ("alt-svc", "clear"), ("authorization", ""),
    ("content-security-policy", "script-src 'none'; object-src 'none'; base-uri 'none'"),
    ("early-data", "1"), ("expect-ct", ""), ("forwarded", ""), ("if-range", ""), ("origin", ""),
    ("purpose", "prefetch"), ("server", ""), ("timing-allow-origin", "*"),
    ("upgrade-insecure-requests", "1"), ("user-agent", ""), ("x-forwarded-for", ""),
    ("x-frame-options", "deny"), ("x-frame-options", "sameorigin")].map fun e => ⟨ascii e.1, ascii e.2⟩

def staticFind (name value : Bytes) : Option Nat :=
  staticTable.findIdx? fun e => e.name == name && e.value == value

def staticFindName (name : Bytes) : Option Nat := staticTable.findIdx? fun e => e.name == name

/-! ## Integers -/

def qpackEncodeInt (value prefixBits : Nat) (pattern : UInt8) (cap : Nat) : Option Bytes :=
  Codec.encodeInteger pattern value prefixBits cap

/-- The loop of `qpack_decode_int` over the octets behind the first. -/
def qpackDecodeIntLoop : Nat → Nat → Nat → Bytes → Option (Nat × Bytes)
  | 0, _, _, _ => none
  | _ + 1, _, _, [] => none
  | guard + 1, shift, value, b :: rest =>
    if 63 ≤ shift then none
    else
      let low := (b &&& 0x7F).toNat
      let add := low * 2 ^ shift % 2 ^ 64
      if add / 2 ^ shift ≠ low then none
      else
        let value := value + add
        if kQpackMaxIntValue < value then none
        else if b &&& 0x80 = 0 then some (value, rest)
        else qpackDecodeIntLoop guard (shift + 7) value rest

def qpackDecodeInt (input : Bytes) (prefixBits : Nat) : Option (Nat × Bytes) :=
  match input with
  | [] => none
  | b :: rest =>
    let value := b.toNat % 2 ^ prefixBits
    if value < 2 ^ prefixBits - 1 then some (value, rest) else qpackDecodeIntLoop 10 0 value rest

/-! ## The encoder -/

variable (useHuffman : Bool)

/-- A string with its length in the low bits of the first octet; `pattern` has
the bits above them. -/
def encodeStringImpl (str : Bytes) (pattern : UInt8) (prefixBits : Nat)
    (huffmanBit : UInt8) (cap : Nat) : Option Bytes :=
  if useHuffman ∧ qpackHuffmanEncodedSize str < str.length then
    match qpackEncodeInt (qpackHuffmanEncodedSize str) prefixBits (pattern ||| huffmanBit) cap with
    | none => none
    | some len => (qpackHuffmanEncode str (cap - len.length)).map (len ++ ·)
  else
    match qpackEncodeInt str.length prefixBits pattern cap with
    | none => none
    | some len => if cap - len.length < str.length then none else some (len ++ str)

def encodeString (str : Bytes) (cap : Nat) : Option Bytes :=
  encodeStringImpl useHuffman str 0x00 7 0x80 cap

def encodeLiteralNameLine (h : QpackHeader) (cap : Nat) : Option Bytes :=
  match encodeStringImpl useHuffman h.name 0x20 3 0x08 cap with
  | none => none
  | some name => (encodeString useHuffman h.value (cap - name.length)).map (name ++ ·)

def encodeOneLine (h : QpackHeader) (cap : Nat) : Option Bytes :=
  match staticFind h.name h.value with
  | some index => qpackEncodeInt index 6 0xC0 cap
  | none =>
    match staticFindName h.name with
    | some index =>
      match qpackEncodeInt index 4 0x50 cap with
      | none => none
      | some name => (encodeString useHuffman h.value (cap - name.length)).map (name ++ ·)
    | none => encodeLiteralNameLine useHuffman h cap

def encodeLines (useHuffman : Bool) : List QpackHeader → Nat → Option Bytes
  | [], _ => some []
  | h :: headers, cap =>
    match encodeOneLine useHuffman h cap with
    | none => none
    | some line => (encodeLines useHuffman headers (cap - line.length)).map (line ++ ·)

/-- Required Insert Count and Delta Base are 0. -/
def encodeFieldSection (headers : List QpackHeader) (cap : Nat) : Option Bytes :=
  match qpackEncodeInt 0 8 0x00 cap with
  | none => none
  | some count =>
    match qpackEncodeInt 0 7 0x00 (cap - count.length) with
    | none => none
    | some base =>
      (encodeLines useHuffman headers (cap - count.length - base.length)).map (count ++ base ++ ·)

/-! ## The decoder -/

/-- The live entries of `QpackDynamicTable`, the oldest first. -/
structure QpackDynamicTable where
  entries : List QpackHeader := []
  insertCount : Nat := 0
  dropCount : Nat := 0

def QpackDynamicTable.getAbsolute (t : QpackDynamicTable) (index : Nat) : Option QpackHeader :=
  if index < t.dropCount ∨ t.insertCount ≤ index then none else t.entries[index - t.dropCount]?

structure QpackDecoder where
  dynamicTable : QpackDynamicTable := {}

namespace QpackDecoder

variable (d : QpackDecoder)

def resolveDynamicRelative (rel : Nat) : Option QpackHeader :=
  let inserted := d.dynamicTable.insertCount
  if inserted = 0 ∨ inserted ≤ rel then none else d.dynamicTable.getAbsolute (inserted - 1 - rel)

def resolve (isStatic : Bool) (index : Nat) : Option QpackHeader :=
  if isStatic then staticTable[index]? else d.resolveDynamicRelative index

def decodeString (input : Bytes) (prefixBits : Nat) : Option (Bytes × Bytes) :=
  match input with
  | [] => none
  | b :: _ =>
    match qpackDecodeInt input prefixBits with
    | none => none
    | some (len, rest) =>
      if kQpackMaxStringLen < len ∨ rest.length < len then none
      else if b.toNat.testBit prefixBits then
        (qpackHuffmanDecode (rest.take len) kQpackHuffmanScratch).map (·, rest.drop len)
      else some (rest.take len, rest.drop len)

def decodeIndexedLine (b : UInt8) (input : Bytes) : Option (QpackHeader × Bytes) :=
  match qpackDecodeInt input 6 with
  | none => none
  | some (index, rest) => (d.resolve (b &&& 0x40 ≠ 0) index).map (·, rest)

def decodeNameRefLine (b : UInt8) (input : Bytes) : Option (QpackHeader × Bytes) :=
  match qpackDecodeInt input 4 with
  | none => none
  | some (index, rest) =>
    match d.resolve (b &&& 0x10 ≠ 0) index with
    | none => none
    | some e => (decodeString rest 7).map fun (value, rest) => (⟨e.name, value⟩, rest)

def decodeLiteralNameLine (input : Bytes) : Option (QpackHeader × Bytes) :=
  match decodeString input 3 with
  | none => none
  | some (name, rest) => (decodeString rest 7).map fun (value, rest) => (⟨name, value⟩, rest)

def decodeOneLine (b : UInt8) (input : Bytes) : Option (QpackHeader × Bytes) :=
  if b &&& 0x80 ≠ 0 then d.decodeIndexedLine b input
  else if b &&& 0x40 ≠ 0 then d.decodeNameRefLine b input
  else if b &&& 0x20 ≠ 0 then decodeLiteralNameLine input
  else none

def decodeLines (d : QpackDecoder) : Nat → Bytes → Option (List QpackHeader)
  | _, [] => some []
  | 0, _ :: _ => none
  | left + 1, b :: input =>
    match d.decodeOneLine b (b :: input) with
    | none => none
    | some (h, rest) => (decodeLines d left rest).map (h :: ·)

/-- The values of the prefix are not used. -/
def decodeFieldSection (input : Bytes) : Option (List QpackHeader) :=
  match qpackDecodeInt input 8 with
  | none => none
  | some (_, rest) =>
    match qpackDecodeInt rest 7 with
    | none => none
    | some (_, rest) => d.decodeLines kQpackMaxHeaders rest

end QpackDecoder

end BoltApi.Http3.Qpack
