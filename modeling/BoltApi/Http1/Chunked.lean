import BoltApi.Octets
import BoltApi.Lib.Scanning

/-! # Chunked bodies: the scanner and the in-place decoder

`chunk_size_line`, `HTTP1Parser::scan_chunked` and
`HTTP1Parser::dechunk_in_place` of `src/http/http1_parser.cpp`. A pointer into
the buffer is the unread rest of it; the position is what has been read. -/
namespace BoltApi.Http1.Chunked
open Octets Lib.Scanning

def hexVal (c : UInt8) : Option Nat :=
  if 0x30 ≤ c ∧ c ≤ 0x39 then some (c.toNat - 0x30)
  else if 0x61 ≤ c ∧ c ≤ 0x66 then some (c.toNat - 0x61 + 10)
  else if 0x41 ≤ c ∧ c ≤ 0x46 then some (c.toNat - 0x41 + 10)
  else none

/-- The digit loop of `chunk_size_line`: at most `fuel` hex digits are folded
into the 64-bit accumulator. Returns the accumulator, the number of digits read
and the rest. -/
def hexDigits : Nat → Nat → Bytes → Nat × Nat × Bytes
  | 0, v, p => (v, 0, p)
  | _ + 1, v, [] => (v, 0, [])
  | fuel + 1, v, c :: p =>
    match hexVal c with
    | none => (v, 0, c :: p)
    | some h =>
      let r := hexDigits fuel ((v * 16 + h) % 2 ^ 64) p
      (r.1, r.2.1 + 1, r.2.2)

def kMaxLine : Nat := 4096

/-- The extension loop of `chunk_size_line`, at index `i` of the line: up to the
CRLF, whose LF is consumed. -/
def extLine : Nat → Bytes → Scan Unit UInt8
  | _, [] => .more
  | i, c :: p =>
    if kMaxLine ≤ i then .bad
    else if c = LF then .bad
    else if c = CR then
      match p with
      | [] => .more
      | d :: q => if d = LF then .ok () q else .bad
    else extLine (i + 1) p

/-- The chunk size, with the rest behind the line. -/
def chunkSizeLine (p : Bytes) : Scan Nat UInt8 :=
  match hexDigits 17 0 p with
  | (v, i, rest) =>
    if 16 < i then .bad
    else if rest = [] then .more
    else if i = 0 then .bad
    else (extLine i rest).andThen fun _ q => .ok v q

/-- The chunk loop of `scan_chunked`; `guard` is the source's loop bound. It is
left through the last chunk's `break`, or when the bound is used up. -/
def scanChunks : Nat → Bytes → Scan Unit UInt8
  | 0, p => .ok () p
  | guard + 1, p =>
    match chunkSizeLine p with
    | .more => .more
    | .bad => .bad
    | .ok size rest =>
      if size = 0 then .ok () rest
      else if rest.length < size then .more
      else if rest.length - size < 2 then .more
      else
        match rest.drop size with
        | c :: d :: q => if c = CR ∧ d = LF then scanChunks guard q else .bad
        | _ => .bad

/-- One line of the trailer section: the bytes before the LF, which is
consumed. -/
def trailerLine : Bytes → Scan Bytes UInt8 := spanUntil LF fun _ => true

def scanTrailers : Nat → Bytes → Scan Unit UInt8
  | 0, _ => .bad
  | guard + 1, p =>
    match trailerLine p with
    | .more => .more
    | .bad => .bad
    | .ok line rest =>
      if line.getLast? ≠ some CR then .bad
      else if line.length = 1 then .ok () rest
      else scanTrailers guard rest

/-- Accepts with the bytes behind the body. -/
def scanChunked (data : Bytes) : Scan Unit UInt8 :=
  (scanChunks (data.length + 1) data).andThen fun _ rest => scanTrailers (data.length + 1) rest

/-- `*out_raw_len` of an accepting scan. -/
def rawLen (data rest : Bytes) : Nat := data.length - rest.length

/-- `std::memmove(data + wr, data + rd, n)` on a buffer. -/
def memmove (data : Bytes) (wr rd n : Nat) : Bytes :=
  data.take wr ++ (data.drop rd).take n ++ data.drop (wr + n)

/-- The loop variables of `dechunk_in_place`. -/
structure DechunkState where
  data : Bytes
  rd : Nat
  wr : Nat

/-- One iteration of `dechunk_in_place`; `none` is its `break`. -/
def dechunkStep (rawLen : Nat) (s : DechunkState) : Option DechunkState :=
  let p := (s.data.take rawLen).drop s.rd
  match chunkSizeLine p with
  | .more | .bad => none
  | .ok size rest =>
    if size = 0 then none
    else
      let rd := s.rd + (p.length - rest.length)
      some { data := memmove s.data s.wr rd size
             rd := rd + size + 2
             wr := s.wr + size }

/-- The loop of `dechunk_in_place` under its `guard` bound. -/
def dechunkLoop (rawLen : Nat) : Nat → DechunkState → DechunkState
  | 0, s => s
  | guard + 1, s =>
    match dechunkStep rawLen s with
    | none => s
    | some s' => dechunkLoop rawLen guard s'

/-- The buffer afterwards and the decoded length. -/
def dechunkInPlace (data : Bytes) (rawLen : Nat) : Bytes × Nat :=
  let s := dechunkLoop rawLen (rawLen + 1) ⟨data, 0, 0⟩
  (s.data, s.wr)

end BoltApi.Http1.Chunked
