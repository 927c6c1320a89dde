import BoltApi.Octets
import BoltApi.Lib.BigEndian

/-! # PackStream

The value encoding of the Neo4j Bolt protocol, `proto/neo4j_bolt_packstream.cpp`:
`PackWriter::put_value` and `PackReader::read`, with the arena the reader copies
strings and containers into. Integers and doubles are their 64 bits; `store_be`
and `load_be` are those of the library. -/
namespace BoltApi.Neo4j.PackStream
open Octets Lib.BigEndian

def kMaxDepth : Nat := 16
def kMaxElements : Nat := 2 ^ 20
def kMaxStringBytes : Nat := 2 ^ 24

inductive PackError
  | truncated
  | badMarker
  | overflow
  | depthExceeded
  | tooLarge
  | outOfMemory
  | unsupported
  | invalid
  deriving DecidableEq

def packErrorName : PackError → Bytes
  | .truncated => ascii "truncated"
  | .badMarker => ascii "bad_marker"
  | .overflow => ascii "buffer_overflow"
  | .depthExceeded => ascii "depth_exceeded"
  | .tooLarge => ascii "too_large"
  | .outOfMemory => ascii "arena_exhausted"
  | .unsupported => ascii "unsupported_marker"
  | .invalid => ascii "invalid_value"

inductive PackValue
  | null
  | bool (b : Bool)
  | int (i : BitVec 64)
  | float (bits : BitVec 64)
  | string (s : Bytes)
  | bytes (s : Bytes)
  | list (items : List PackValue)
  | dict (pairs : List (Bytes × PackValue))
  | struct (signature : UInt8) (items : List PackValue)

namespace PackValue

def isDict : PackValue → Bool
  | .dict _ => true
  | _ => false

def isNull : PackValue → Bool
  | .null => true
  | _ => false

/-- The first entry of a dictionary under the key. -/
def find (v : PackValue) (key : Bytes) : Option PackValue :=
  match v with
  | .dict pairs => (pairs.find? fun kv => kv.1 == key).map (·.2)
  | _ => none

def findStr (v : PackValue) (key : Bytes) : Bytes :=
  match v.find key with
  | some (.string s) => s
  | _ => []

def findInt (v : PackValue) (key : Bytes) (fallback : BitVec 64) : BitVec 64 :=
  match v.find key with
  | some (.int i) => i
  | _ => fallback

end PackValue

/-! ## PackWriter -/

structure PackWriter where
  buf : Bytes := []
  cap : Nat

variable (w : PackWriter)

def raw (p : Bytes) : Except PackError PackWriter :=
  if w.cap - w.buf.length < p.length then .error .overflow
  else .ok { w with buf := w.buf ++ p }

def intBytes (v : BitVec 64) : Bytes :=
  if -16 ≤ v.toInt ∧ v.toInt ≤ 127 then [UInt8.ofNat v.toNat]
  else if -128 ≤ v.toInt ∧ v.toInt ≤ 127 then [0xC8, UInt8.ofNat v.toNat]
  else if -32768 ≤ v.toInt ∧ v.toInt ≤ 32767 then 0xC9 :: storeBe 2 (v.toNat % 2 ^ 16)
  else if -2147483648 ≤ v.toInt ∧ v.toInt ≤ 2147483647 then 0xCA :: storeBe 4 (v.toNat % 2 ^ 32)
  else 0xCB :: storeBe 8 v.toNat

def putSizedHeader (n : Nat) (tiny m8 m16 m32 : UInt8) (limit : Nat) : Except PackError Bytes :=
  if limit < n then .error .tooLarge
  else if tiny ≠ 0 ∧ n ≤ 0x0F then .ok [tiny ||| UInt8.ofNat n]
  else if n ≤ 0xFF then .ok [m8, UInt8.ofNat n]
  else if n ≤ 0xFFFF then .ok (m16 :: storeBe 2 n)
  else .ok (m32 :: storeBe 4 n)

def putSized (header : Except PackError Bytes) (s : Bytes) : Except PackError PackWriter :=
  header.bind fun h => (raw w h).bind fun w => raw w s

def putString (s : Bytes) : Except PackError PackWriter :=
  if kMaxStringBytes < s.length then .error .tooLarge
  else putSized w (putSizedHeader s.length 0x80 0xD0 0xD1 0xD2 kMaxStringBytes) s

def putBytes (s : Bytes) : Except PackError PackWriter :=
  if kMaxStringBytes < s.length then .error .tooLarge
  else putSized w (putSizedHeader s.length 0 0xCC 0xCD 0xCE kMaxStringBytes) s

def beginList (n : Nat) : Except PackError PackWriter :=
  (putSizedHeader n 0x90 0xD4 0xD5 0xD6 kMaxElements).bind (raw w)

def beginDict (n : Nat) : Except PackError PackWriter :=
  (putSizedHeader n 0xA0 0xD8 0xD9 0xDA kMaxElements).bind (raw w)

def beginStruct (signature nFields : UInt8) : Except PackError PackWriter :=
  if 15 < nFields then .error .tooLarge else raw w [0xB0 ||| nFields, signature]

mutual

def putValueAt (depth : Nat) (w : PackWriter) (v : PackValue) : Except PackError PackWriter :=
  if kMaxDepth ≤ depth then .error .depthExceeded
  else
    match v with
    | .null => raw w [0xC0]
    | .bool b => raw w [if b then 0xC3 else 0xC2]
    | .int i => raw w (intBytes i)
    | .float bits => raw w (0xC1 :: storeBe 8 bits.toNat)
    | .string s => putString w s
    | .bytes s => putBytes w s
    | .list items => (beginList w items.length).bind fun w => putItems (depth + 1) w items
    -- the count is narrowed to an octet
    | .struct signature items =>
      (beginStruct w signature (UInt8.ofNat items.length)).bind fun w =>
        putItems (depth + 1) w items
    | .dict pairs => (beginDict w pairs.length).bind fun w => putPairs (depth + 1) w pairs

def putItems (depth : Nat) (w : PackWriter) : List PackValue → Except PackError PackWriter
  | [] => .ok w
  | v :: items => (putValueAt depth w v).bind fun w => putItems depth w items

def putPairs (depth : Nat) (w : PackWriter) : List (Bytes × PackValue) → Except PackError PackWriter
  | [] => .ok w
  | (key, v) :: pairs =>
    (putString w key).bind fun w => (putValueAt depth w v).bind fun w => putPairs depth w pairs

end

def putValue (v : PackValue) : Except PackError PackWriter := putValueAt 0 w v

/-! ## PackReader -/

structure PackArena where
  cap : Nat
  used : Nat := 0
  deriving DecidableEq

def PackArena.alloc (a : PackArena) (n align : Nat) : Option PackArena :=
  let pad := (align - a.used % align) % align
  if a.cap < n ∨ a.cap - n < pad ∨ a.cap - n - pad < a.used then none
  else some { a with used := a.used + pad + n }

def PackArena.allocN (a : PackArena) (size n : Nat) : Option PackArena :=
  if n ≠ 0 ∧ 2 ^ 40 / n < size then none else a.alloc (size * n) 8

def kPackValueSize : Nat := 56
def kPackPairSize : Nat := 24

/-- What is left of the input, and the arena. -/
structure PackReader where
  rest : Bytes
  arena : PackArena

abbrev Read (α : Type) := PackReader → Except PackError (α × PackReader)

def Read.then {α β : Type} (x : Read α) (f : α → Read β) : Read β := fun r =>
  (x r).bind fun (a, r) => f a r

def Read.done {α : Type} (a : α) : Read α := fun r => .ok (a, r)

def Read.fail {α : Type} (e : PackError) : Read α := fun _ => .error e

def take (n : Nat) : Read Bytes := fun r =>
  if r.rest.length < n then .error .truncated
  else .ok (r.rest.take n, { r with rest := r.rest.drop n })

def takeUint (width : Nat) : Read Nat := (take width).then fun s => .done (loadBe s)

/-- An allocation, if there is anything to allocate. -/
def allocate (alloc : PackArena → Option PackArena) (n : Nat) : Read Unit := fun r =>
  if n = 0 then .ok ((), r)
  else
    match alloc r.arena with
    | none => .error .outOfMemory
    | some arena => .ok ((), { r with arena := arena })

def readStringPayload (n : Nat) : Read Bytes :=
  if kMaxStringBytes < n then .fail .tooLarge
  else (take n).then fun s => (allocate (fun a => a.alloc n 1) n).then fun _ => .done s

def readItems (read : Read PackValue) : Nat → Read (List PackValue)
  | 0 => .done []
  | n + 1 => read.then fun v => (readItems read n).then fun items => .done (v :: items)

def readPairs (read : Read PackValue) : Nat → Read (List (Bytes × PackValue))
  | 0 => .done []
  | n + 1 =>
    read.then fun
      | .string key =>
        (allocate (fun a => a.allocN kPackValueSize 1) 1).then fun _ =>
          read.then fun v => (readPairs read n).then fun pairs => .done ((key, v) :: pairs)
      | _ => .fail .badMarker

def readList (read : Read PackValue) (n : Nat) : Read (List PackValue) :=
  if kMaxElements < n then .fail .tooLarge
  else (allocate (fun a => a.allocN kPackValueSize n) n).then fun _ => readItems read n

def readDict (read : Read PackValue) (n : Nat) : Read (List (Bytes × PackValue)) :=
  if kMaxElements < n then .fail .tooLarge
  else (allocate (fun a => a.allocN kPackPairSize n) n).then fun _ => readPairs read n

def readInt (width : Nat) : Read PackValue :=
  (takeUint width).then fun n =>
    .done (.int ((BitVec.ofNat (8 * width) n).signExtend 64))

def readMarked (read : Read PackValue) (marker : UInt8) : Read PackValue :=
  if marker ≤ 0x7F ∨ 0xF0 ≤ marker then .done (.int ((BitVec.ofNat 8 marker.toNat).signExtend 64))
  else if marker ≤ 0x8F then
    (readStringPayload (marker.toNat % 16)).then fun s => .done (.string s)
  else if marker ≤ 0x9F then (readList read (marker.toNat % 16)).then fun l => .done (.list l)
  else if marker ≤ 0xAF then (readDict read (marker.toNat % 16)).then fun d => .done (.dict d)
  else if marker ≤ 0xBF then
    (take 1).then fun sig =>
      (readList read (marker.toNat % 16)).then fun l => .done (.struct (sig.getD 0 0) l)
  else if marker = 0xC0 then .done .null
  else if marker = 0xC1 then (takeUint 8).then fun n => .done (.float (BitVec.ofNat 64 n))
  else if marker = 0xC2 then .done (.bool false)
  else if marker = 0xC3 then .done (.bool true)
  else if marker = 0xC8 then readInt 1
  else if marker = 0xC9 then readInt 2
  else if marker = 0xCA then readInt 4
  else if marker = 0xCB then readInt 8
  else if marker = 0xCC ∨ marker = 0xCD ∨ marker = 0xCE then
    (takeUint (if marker = 0xCC then 1 else if marker = 0xCD then 2 else 4)).then fun n =>
      (readStringPayload n).then fun s => .done (.bytes s)
  else if marker = 0xD0 ∨ marker = 0xD1 ∨ marker = 0xD2 then
    (takeUint (if marker = 0xD0 then 1 else if marker = 0xD1 then 2 else 4)).then fun n =>
      (readStringPayload n).then fun s => .done (.string s)
  else if marker = 0xD4 ∨ marker = 0xD5 ∨ marker = 0xD6 then
    (takeUint (if marker = 0xD4 then 1 else if marker = 0xD5 then 2 else 4)).then fun n =>
      (readList read n).then fun l => .done (.list l)
  else if marker = 0xD8 ∨ marker = 0xD9 ∨ marker = 0xDA then
    (takeUint (if marker = 0xD8 then 1 else if marker = 0xD9 then 2 else 4)).then fun n =>
      (readDict read n).then fun d => .done (.dict d)
  else if marker = 0xDC ∨ marker = 0xDD then .fail .unsupported
  else .fail .badMarker

/-- `read_at`, with the levels left before `kMaxDepth`. -/
def readAt : Nat → Read PackValue
  | 0 => .fail .depthExceeded
  | levels + 1 => (take 1).then fun m => readMarked (readAt levels) (m.getD 0 0)

def read : Read PackValue := readAt kMaxDepth

end BoltApi.Neo4j.PackStream
