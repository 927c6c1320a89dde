import BoltApi.Octets

/-! # HTTP/2 frames

The frame types, flags and codes of `http/http2_frame.h` and the wire format of
a frame: `parse_frame_header`, and what `queue_frame` writes. -/
namespace BoltApi.Http2.Wire
open Octets

inductive FrameType
  | data
  | headers
  | priority
  | rstStream
  | settings
  | pushPromise
  | ping
  | goaway
  | windowUpdate
  | continuation
  | unknown (code : UInt8)
  deriving DecidableEq

def FrameType.ofByte (b : UInt8) : FrameType :=
  match b with
  | 0x0 => .data
  | 0x1 => .headers
  | 0x2 => .priority
  | 0x3 => .rstStream
  | 0x4 => .settings
  | 0x5 => .pushPromise
  | 0x6 => .ping
  | 0x7 => .goaway
  | 0x8 => .windowUpdate
  | 0x9 => .continuation
  | b => .unknown b

def FrameType.toByte : FrameType → UInt8
  | .data => 0x0
  | .headers => 0x1
  | .priority => 0x2
  | .rstStream => 0x3
  | .settings => 0x4
  | .pushPromise => 0x5
  | .ping => 0x6
  | .goaway => 0x7
  | .windowUpdate => 0x8
  | .continuation => 0x9
  | .unknown b => b

/-! ## Flags -/

/-- `DATA_END_STREAM` and `HEADERS_END_STREAM`. -/
def END_STREAM : UInt8 := 0x1
def ACK : UInt8 := 0x1
/-- `HEADERS_END_HEADERS` and `CONTINUATION_END_HEADERS`. -/
def END_HEADERS : UInt8 := 0x4
def PADDED : UInt8 := 0x8
def PRIORITY : UInt8 := 0x20

/-! ## Codes -/

abbrev ErrorCode := Nat

def NO_ERROR : ErrorCode := 0x0
def PROTOCOL_ERROR : ErrorCode := 0x1
def INTERNAL_ERROR : ErrorCode := 0x2
def FLOW_CONTROL_ERROR : ErrorCode := 0x3
def STREAM_CLOSED : ErrorCode := 0x5
def FRAME_SIZE_ERROR : ErrorCode := 0x6
def REFUSED_STREAM : ErrorCode := 0x7
def COMPRESSION_ERROR : ErrorCode := 0x9
def ENHANCE_YOUR_CALM : ErrorCode := 0xb

inductive SettingsId
  | headerTableSize
  | enablePush
  | maxConcurrentStreams
  | initialWindowSize
  | maxFrameSize
  | maxHeaderListSize
  | unknown (id : Nat)
  deriving DecidableEq

def SettingsId.ofNat : Nat → SettingsId
  | 0x1 => .headerTableSize
  | 0x2 => .enablePush
  | 0x3 => .maxConcurrentStreams
  | 0x4 => .initialWindowSize
  | 0x5 => .maxFrameSize
  | 0x6 => .maxHeaderListSize
  | id => .unknown id

/-! ## Wire format -/

/-- The octet at an index; the source reads only inside the payload. -/
def octet (p : Bytes) (i : Nat) : Nat := (p.getD i 0).toNat

def getU32 (p : Bytes) : Nat :=
  octet p 0 * 2 ^ 24 + octet p 1 * 2 ^ 16 + octet p 2 * 2 ^ 8 + octet p 3

def getU31 (p : Bytes) : Nat := getU32 p % 2 ^ 31

def putU32 (v : Nat) : Bytes :=
  [UInt8.ofNat (v / 2 ^ 24), UInt8.ofNat (v / 2 ^ 16), UInt8.ofNat (v / 2 ^ 8), UInt8.ofNat v]

theorem getU32_putU32 {v} (hv : v < 2 ^ 32) (rest : Bytes) : getU32 (putU32 v ++ rest) = v := by
  simp only [getU32, octet, putU32, List.cons_append, List.getD_cons_zero, List.getD_cons_succ,
    UInt8.toNat_ofNat']
  omega

theorem getU31_putU32 {v} (hv : v < 2 ^ 31) (rest : Bytes) : getU31 (putU32 v ++ rest) = v := by
  rw [getU31, getU32_putU32 (by omega), Nat.mod_eq_of_lt hv]

structure FrameHeader where
  length : Nat
  type : FrameType
  flags : UInt8
  streamId : Nat

def parseFrameHeader (p : Bytes) : FrameHeader where
  length := octet p 0 * 2 ^ 16 + octet p 1 * 2 ^ 8 + octet p 2
  type := .ofByte (p.getD 3 0)
  flags := p.getD 4 0
  streamId := getU31 (p.drop 5)

structure Frame where
  type : FrameType
  flags : UInt8
  streamId : Nat
  payload : Bytes
  deriving DecidableEq

namespace Frame

def length (f : Frame) : Nat := f.payload.length

def has (f : Frame) (flag : UInt8) : Bool := f.flags &&& flag != 0

/-- The bytes `queue_frame` appends. -/
def encode (f : Frame) : Bytes :=
  [UInt8.ofNat (f.length / 2 ^ 16), UInt8.ofNat (f.length / 2 ^ 8), UInt8.ofNat f.length,
    f.type.toByte, f.flags] ++ putU32 (f.streamId % 2 ^ 31) ++ f.payload

end Frame

def CONNECTION_PREFACE : Bytes :=
  ascii "PRI * HTTP/2.0" ++ CRLF ++ CRLF ++ ascii "SM" ++ CRLF ++ CRLF

def CONNECTION_PREFACE_LEN : Nat := 24

end BoltApi.Http2.Wire
