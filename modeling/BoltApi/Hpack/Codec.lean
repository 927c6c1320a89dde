import BoltApi.Hpack.Tables
import BoltApi.Hpack.Huffman

/-! # The HPACK codec

`HPACKDecoder` and `HPACKEncoder`, of `http/hpack.cpp`. A function that reads
from a position returns the input behind what it consumed; one that writes at a
position returns what it writes, and `none` when it does not fit. -/
namespace BoltApi.Hpack.Codec
open Octets Tables

/-! ## The decoder -/

def kMaxStringLen : Nat := 64 * 1024
def kMaxIntegerBytes : Nat := 6

/-- `HPACKDecoder`'s result codes. -/
inductive DecodeStatus
  | ok
  | compressionError
  | tooManyHeaders
  deriving DecidableEq

/-- The loop of `decode_integer`, over the octets behind the first. -/
def decodeIntegerLoop : Nat → Nat → Nat → Bytes → Option (Nat × Bytes)
  | 0, _, _, _ => none
  | _ + 1, _, _, [] => none
  | guard + 1, shift, value, b :: rest =>
    let value := value + (b &&& 0x7F).toNat * 2 ^ shift
    if b &&& 0x80 = 0 then some (value, rest) else decodeIntegerLoop guard (shift + 7) value rest

/-- `HPACKDecoder::decode_integer`, with `1 ≤ prefix_bits ≤ 8`. -/
def decodeInteger (input : Bytes) (prefixBits : Nat) : Option (Nat × Bytes) :=
  match input with
  | [] => none
  | b :: rest =>
    let mask := 2 ^ prefixBits - 1
    let value := b.toNat % 2 ^ prefixBits
    if value < mask then some (value, rest)
    else decodeIntegerLoop (kMaxIntegerBytes - 1) 0 value rest

def decodeString (input : Bytes) : Option (Bytes × Bytes) :=
  match input with
  | [] => none
  | b :: _ =>
    match decodeInteger input 7 with
    | none => none
    | some (n, rest) =>
      if kMaxStringLen < n ∨ rest.length < n then none
      else if b &&& 0x80 = 0 then some (rest.take n, rest.drop n)
      else if n = 0 then some ([], rest)
      else
        -- shortest code is 5 bits
        match Huffman.decode (rest.take n) (n * 8 / 5 + 1) with
        | none => none
        | some out => some (out, rest.drop n)

/-- `temp_buffers_` only holds what the output views. -/
structure HPACKDecoder where
  table : HPACKDynamicTable
  limit : Nat

namespace HPACKDecoder

def create (maxTableSize : Nat) : HPACKDecoder where
  table := { maxSize := min maxTableSize kStorageBytes }
  limit := min maxTableSize kStorageBytes

variable (d : HPACKDecoder)

def lookup (index : Nat) : Option HPACKHeader :=
  if index = 0 then none
  else if index ≤ STATIC_TABLE_SIZE then staticGet index
  else d.table.get (index - STATIC_TABLE_SIZE - 1)

def decodeLiteral (input : Bytes) (prefixBits : Nat) : Option (Bytes × Bytes × Bytes) :=
  match decodeInteger input prefixBits with
  | none => none
  | some (index, rest) =>
    match if index = 0 then decodeString rest else (d.lookup index).map fun h => (h.name, rest) with
    | none => none
    | some (name, rest) =>
      match decodeString rest with
      | none => none
      | some (value, rest) => some (name, value, rest)

structure Progress where
  output : List HPACKHeader := []
  fieldSeen : Bool := false
  tooMany : Bool := false

def Progress.push (p : Progress) (maxHeaders : Nat) (h : HPACKHeader) : Progress :=
  if p.output.length < maxHeaders then { p with output := p.output ++ [h], fieldSeen := true }
  else { p with tooMany := true, fieldSeen := true }

/-- One round of `decode` at a first octet: the decoder, the progress and the
input behind it. -/
def decodeField (p : Progress) (maxHeaders : Nat) (b : UInt8) (input : Bytes) :
    Option (HPACKDecoder × Progress × Bytes) :=
  if b &&& 0x80 ≠ 0 then
    -- indexed field (6.1)
    match decodeInteger input 7 with
    | none => none
    | some (index, rest) =>
      match d.lookup index with
      | none => none
      | some h => some (d, p.push maxHeaders h, rest)
  else if b &&& 0xC0 = 0x40 then
    -- literal, incremental indexing (6.2.1)
    match d.decodeLiteral input 6 with
    | none => none
    | some (name, value, rest) =>
      some ({ d with table := d.table.add name value },
        p.push maxHeaders { name := name, value := value }, rest)
  else if b &&& 0xE0 = 0x20 then
    -- dynamic table size update (6.3)
    if p.fieldSeen then none
    else
      match decodeInteger input 5 with
      | none => none
      | some (size, rest) =>
        if d.limit < size then none else some ({ d with table := d.table.setMaxSize size }, p, rest)
  else
    -- literal without indexing / never indexed (6.2.2, 6.2.3)
    match d.decodeLiteral input 4 with
    | none => none
    | some (name, value, rest) =>
      some (d, p.push maxHeaders
        { name := name, value := value, sensitive := b &&& 0x10 ≠ 0 }, rest)

def decodeLoop (maxHeaders : Nat) :
    Nat → HPACKDecoder → Progress → Bytes → DecodeStatus × List HPACKHeader × HPACKDecoder
  | 0, d, p, _ => (if p.tooMany then .tooManyHeaders else .ok, p.output, d)
  | _ + 1, d, p, [] => (if p.tooMany then .tooManyHeaders else .ok, p.output, d)
  | guard + 1, d, p, b :: input =>
    match d.decodeField p maxHeaders b (b :: input) with
    | none => (.compressionError, p.output, d)
    | some (d, p, rest) => decodeLoop maxHeaders guard d p rest

/-- `HPACKDecoder::decode`. Each representation consumes at least one byte. -/
def decode (input : Bytes) (maxHeaders : Nat) : DecodeStatus × List HPACKHeader × HPACKDecoder :=
  decodeLoop maxHeaders input.length d {} input

end HPACKDecoder

/-! ## The encoder -/

/-- The loop of `encode_integer`, for a value of 64 bits. -/
def encodeIntegerLoop : Nat → Nat → Bytes
  | 0, value => [UInt8.ofNat value]
  | guard + 1, value =>
    if value < 128 then [UInt8.ofNat value]
    else (UInt8.ofNat (value % 128) ||| 0x80) :: encodeIntegerLoop guard (value / 128)

/-- The octets of an integer, with the high bits of the first one that the caller
set. -/
def integerOctets (flags : UInt8) (value prefixBits : Nat) : Bytes :=
  let mask := 2 ^ prefixBits - 1
  if value < mask then [flags ||| UInt8.ofNat value]
  else (flags ||| UInt8.ofNat mask) :: encodeIntegerLoop 9 (value - mask)

def encodeInteger (flags : UInt8) (value prefixBits capacity : Nat) : Option Bytes :=
  if capacity < (integerOctets flags value prefixBits).length then none
  else some (integerOctets flags value prefixBits)

def sendsHuffman (str : Bytes) : Bool := !str.isEmpty && Huffman.encodedSize str < str.length

def encodeString (str : Bytes) (capacity : Nat) : Option Bytes :=
  let payload := if sendsHuffman str then Huffman.encodedSize str else str.length
  match encodeInteger (if sendsHuffman str then 0x80 else 0) payload 7 capacity with
  | none => none
  | some len =>
    if capacity - len.length < payload then none
    else if sendsHuffman str then (Huffman.encode str payload).map (len ++ ·)
    else some (len ++ str)

structure HPACKEncoder where
  tableSize : Nat
  pendingMin : Nat
  pendingUpdate : Bool := false

namespace HPACKEncoder

def create (maxTableSize : Nat) : HPACKEncoder where
  tableSize := min maxTableSize kStorageBytes
  pendingMin := min maxTableSize kStorageBytes

def setMaxTableSize (e : HPACKEncoder) (size : Nat) : HPACKEncoder :=
  -- our table is always empty: a larger peer table needs no announcement
  if e.tableSize ≤ size then e
  else
    { tableSize := size
      pendingMin := if e.pendingUpdate then min e.pendingMin size else size
      pendingUpdate := true }

def updates (e : HPACKEncoder) : List Nat :=
  if e.pendingUpdate then
    if e.tableSize = e.pendingMin then [e.pendingMin] else [e.pendingMin, e.tableSize]
  else []

def fullIndex (h : HPACKHeader) : Nat := if h.sensitive then 0 else staticFind h.name h.value

def encodeLiteral (h : HPACKHeader) (capacity : Nat) : Option Bytes :=
  let nameIdx := staticFindName h.name
  match encodeInteger (if h.sensitive then 0x10 else 0) nameIdx 4 capacity with
  | none => none
  | some index =>
    match if nameIdx = 0 then encodeString h.name (capacity - index.length) else some [] with
    | none => none
    | some name =>
      (encodeString h.value (capacity - index.length - name.length)).map (index ++ name ++ ·)

def encodeField (h : HPACKHeader) (capacity : Nat) : Option Bytes :=
  if fullIndex h ≠ 0 then encodeInteger 0x80 (fullIndex h) 7 capacity else encodeLiteral h capacity

/-- The pieces of a block one behind the other, as long as there is room. -/
def encodeAll {α : Type} (piece : α → Nat → Option Bytes) : List α → Nat → Option Bytes
  | [], _ => some []
  | a :: as, capacity =>
    if capacity = 0 then none
    else
      match piece a capacity with
      | none => none
      | some out => (encodeAll piece as (capacity - out.length)).map (out ++ ·)

/-- The update stays pending unless the whole block is known to fit. -/
def encode (e : HPACKEncoder) (headers : List HPACKHeader) (capacity : Nat) :
    Option Bytes × HPACKEncoder :=
  match encodeAll (fun size => encodeInteger 0x20 size 5) e.updates capacity with
  | none => (none, e)
  | some start =>
    match encodeAll encodeField headers (capacity - start.length) with
    | none => (none, e)
    | some fields => (some (start ++ fields), { e with pendingUpdate := false })

end HPACKEncoder

end BoltApi.Hpack.Codec
