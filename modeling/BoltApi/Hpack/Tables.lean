import BoltApi.Octets

/-! # HPACK tables

`HPACKStaticTable` and `HPACKDynamicTable` of `http/hpack.cpp`. The dynamic
table keeps its entries as one list, the newest first; the byte region and the
ring the source keeps them in are not modelled. -/
namespace BoltApi.Hpack.Tables
open Octets

structure HPACKHeader where
  name : Bytes
  value : Bytes
  sensitive : Bool := false
  deriving DecidableEq

/-! ## Static table -/

def staticTable : List (Bytes × Bytes) :=
  [(":authority", ""), (":method", "GET"), (":method", "POST"), (":path", "/"),
    (":path", "/index.html"), (":scheme", "http"), (":scheme", "https"), (":status", "200"),
    (":status", "204"), (":status", "206"), (":status", "304"), (":status", "400"),
    (":status", "404"), (":status", "500"), ("accept-charset", ""),
    ("accept-encoding", "gzip, deflate"), ("accept-language", ""), ("accept-ranges", ""),
    ("accept", ""), ("access-control-allow-origin", ""), ("age", ""), ("allow", ""),
    ("authorization", ""), ("cache-control", ""), ("content-disposition", ""),
    ("content-encoding", ""), ("content-language", ""), ("content-length", ""),
    ("content-location", ""), ("content-range", ""), ("content-type", ""), ("cookie", ""),
    ("date", ""), ("etag", ""), ("expect", ""), ("expires", ""), ("from", ""), ("host", ""),
    ("if-match", ""), ("if-modified-since", ""), ("if-none-match", ""), ("if-range", ""),
    ("if-unmodified-since", ""), ("last-modified", ""), ("link", ""), ("location", ""),
    ("max-forwards", ""), ("proxy-authenticate", ""), ("proxy-authorization", ""), ("range", ""),
    ("referer", ""), ("refresh", ""), ("retry-after", ""), ("server", ""), ("set-cookie", ""),
    ("strict-transport-security", ""), ("transfer-encoding", ""), ("user-agent", ""), ("vary", ""),
    ("via", ""), ("www-authenticate", "")].map fun e => (ascii e.1, ascii e.2)

def STATIC_TABLE_SIZE : Nat := 61

def staticGet (index : Nat) : Option HPACKHeader :=
  if index = 0 then none
  else (staticTable[index - 1]?).map fun e => { name := e.1, value := e.2 }

def staticFind (name value : Bytes) : Nat :=
  match staticTable.findIdx? fun e => name == e.1 && value == e.2 with
  | some i => i + 1
  | none => 0

def staticFindName (name : Bytes) : Nat :=
  match staticTable.findIdx? fun e => name == e.1 with
  | some i => i + 1
  | none => 0

/-! ## Dynamic table -/

/-- `kStorageBytes`, the largest table that is held. -/
def kStorageBytes : Nat := 4096

def DEFAULT_MAX_SIZE : Nat := 4096

def entrySize (e : Bytes × Bytes) : Nat := e.1.length + e.2.length + 32

structure HPACKDynamicTable where
  entries : List (Bytes × Bytes) := []
  maxSize : Nat
  deriving DecidableEq

namespace HPACKDynamicTable

variable (t : HPACKDynamicTable)

def evict (limit : Nat) : List (Bytes × Bytes) → List (Bytes × Bytes)
  | [] => []
  | e :: es =>
    if entrySize e ≤ limit then e :: evict (limit - entrySize e) es else []

def add (name value : Bytes) : HPACKDynamicTable :=
  if t.maxSize < entrySize (name, value) then { t with entries := [] }
  else { t with entries := (name, value) :: evict (t.maxSize - entrySize (name, value)) t.entries }

def get (index : Nat) : Option HPACKHeader :=
  (t.entries[index]?).map fun e => { name := e.1, value := e.2 }

def setMaxSize (newMax : Nat) : HPACKDynamicTable :=
  { entries := evict (min newMax kStorageBytes) t.entries, maxSize := min newMax kStorageBytes }

end HPACKDynamicTable

end BoltApi.Hpack.Tables
