import Mathlib.Algebra.Group.Int.Defs
import Mathlib.Algebra.GroupWithZero.Nat
import Mathlib.Data.List.Basic

/-! # Octets and ASCII text

The engine reads its inputs as bytes. A `std::string_view` into a buffer is
modelled by the bytes it shows. -/
namespace BoltApi.Octets

abbrev Bytes := List UInt8

/-- The bytes of an ASCII literal of the source. -/
def ascii (s : String) : Bytes := s.toList.map fun c => UInt8.ofNat c.toNat

def CR : UInt8 := 0x0D
def LF : UInt8 := 0x0A
def SP : UInt8 := 0x20
def HTAB : UInt8 := 0x09
def COLON : UInt8 := 0x3A
def CRLF : Bytes := [CR, LF]

def toLowerAscii (c : UInt8) : UInt8 := if 0x41 ≤ c ∧ c ≤ 0x5A then c + 32 else c

def ieq (a lower : Bytes) : Bool := a.map toLowerAscii == lower

/-- Both sides are lowered (`std::tolower` in the C locale). -/
def strEqCi (a b : Bytes) : Bool := a.map toLowerAscii == b.map toLowerAscii

def isDigit (c : UInt8) : Bool := 0x30 ≤ c ∧ c ≤ 0x39

def isAlpha (c : UInt8) : Bool := (0x61 ≤ c ∧ c ≤ 0x7A) ∨ (0x41 ≤ c ∧ c ≤ 0x5A)

def isTokenChar (c : UInt8) : Bool :=
  isDigit c || isAlpha c || (ascii "!#$%&'*+-.^_`|~").contains c

def isWhitespace (c : UInt8) : Bool := c = SP ∨ c = HTAB ∨ c = CR ∨ c = LF

def decimal (v : Bytes) : Nat := v.foldl (fun n c => n * 10 + (c.toNat - 0x30)) 0

end BoltApi.Octets
