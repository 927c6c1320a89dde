import BoltApi.Hpack.Tables

/-! # Header fields of HTTP/2

`validate_fields`, `Http2Connection::validate_request` and their helpers, of
`http/http2_connection_recv.cpp`. -/
namespace BoltApi.Http2.Fields
open Octets Hpack.Tables

def kMaxHeaderListSize : Nat := 64 * 1024

def isLowerTchar (c : UInt8) : Bool :=
  (0x61 ≤ c ∧ c ≤ 0x7A) || isDigit c || (ascii "!#$%&'*+-.^_`|~").contains c

def validName (n : Bytes) : Bool :=
  match n with
  | [] => false
  | c :: rest =>
    if c = COLON then !rest.isEmpty && rest.all isLowerTchar else (c :: rest).all isLowerTchar

def isBlank (c : UInt8) : Bool := c = SP ∨ c = HTAB

def validValue (v : Bytes) : Bool :=
  !(v.head?.any isBlank || v.getLast?.any isBlank) &&
    v.all fun c => c != 0 && c != CR && c != LF

def validMethod (m : Bytes) : Bool := !m.isEmpty && m.all fun c => isLowerTchar (toLowerAscii c)

def validScheme (s : Bytes) : Bool :=
  match s with
  | [] => false
  | c :: rest =>
    isAlpha c && rest.all fun c => isAlpha c || isDigit c || (ascii "+-.").contains c

def parseDigits (v : Bytes) : Option Nat :=
  if v.isEmpty || 16 < v.length then none
  else if v.all isDigit then some (decimal v)
  else none

def isConnectionField (name : Bytes) : Bool :=
  name == ascii "connection" || name == ascii "keep-alive" || name == ascii "proxy-connection" ||
    name == ascii "transfer-encoding" || name == ascii "upgrade"

inductive Section
  | request
  | requestTrailers
  | response
  | responseTrailers
  deriving DecidableEq

def Section.trailers : Section → Bool
  | .request => false
  | .requestTrailers => true
  | .response => false
  | .responseTrailers => true

def Section.isResponse : Section → Bool
  | .request => false
  | .requestTrailers => false
  | .response => true
  | .responseTrailers => true

/-- The local variables of `validate_fields`, with `RequestFacts` and `*status`. -/
structure Facts where
  regularSeen : Bool := false
  method : Option Bytes := none
  scheme : Bool := false
  path : Bool := false
  authority : Bool := false
  status : Nat := 0
  contentLength : Option Nat := none
  isHead : Bool := false

def checkPseudo (sec : Section) (h : HPACKHeader) (f : Facts) : Option Facts :=
  if sec.trailers || f.regularSeen then none
  else if sec.isResponse then
    if h.name != ascii ":status" || f.status != 0 || h.value.length != 3 then none
    else
      match parseDigits h.value with
      | none => none
      | some code => if code < 100 ∨ 599 < code then none else some { f with status := code }
  else if h.name = ascii ":method" then
    if f.method.isSome then none else some { f with method := some h.value }
  else if h.name = ascii ":scheme" then
    if f.scheme then none else some { f with scheme := true }
  else if h.name = ascii ":path" then
    if f.path || h.value.isEmpty then none else some { f with path := true }
  else if h.name = ascii ":authority" then
    if f.authority then none else some { f with authority := true }
  else none

def checkRegular (sec : Section) (h : HPACKHeader) (f : Facts) : Option Facts :=
  let f := { f with regularSeen := true }
  if isConnectionField h.name then none
  else if h.name = ascii "te" ∧ (sec.isResponse ∨ h.value ≠ ascii "trailers") then none
  else if h.name = ascii "content-length" then
    match parseDigits h.value with
    | none => none
    | some n =>
      if f.contentLength.any (· != n) then none else some { f with contentLength := some n }
  else some f

def checkField (sec : Section) (h : HPACKHeader) (f : Facts) : Option Facts :=
  if kMaxHeaderListSize < h.name.length ∨ kMaxHeaderListSize < h.value.length then none
  else if !validName h.name || !validValue h.value then none
  else if h.name.head? = some COLON then checkPseudo sec h f
  else checkRegular sec h f

def checkFields (sec : Section) : List HPACKHeader → Facts → Option Facts
  | [], f => some f
  | h :: hs, f => (checkField sec h f).bind (checkFields sec hs)

def listSize (fields : List HPACKHeader) : Nat :=
  (fields.map fun h => h.name.length + h.value.length + 32).sum

def validateFields (sec : Section) (fields : List HPACKHeader) : Option Facts :=
  match checkFields sec fields {} with
  | none => none
  | some f =>
    if kMaxHeaderListSize < listSize fields then none
    else if sec.trailers then some f
    else if sec.isResponse then if f.status = 0 then none else some f
    else if f.method = some (ascii "CONNECT") then
      if f.authority && !f.scheme && !f.path then some f else none
    else if f.method.isSome && f.scheme && f.path then
      some { f with isHead := f.method = some (ascii "HEAD") }
    else none

def validateRequest (fields : List HPACKHeader) (bodySize maxHeaderListSize : Nat) : Option Bool :=
  if fields.isEmpty then none
  else
    match validateFields .request fields with
    | none => none
    | some f =>
      if f.contentLength.any (· != bodySize) then none
      else if fields.any fun h =>
          (h.name = ascii ":method" ∧ (!validMethod h.value ∨ h.value = ascii "CONNECT")) ∨
            (h.name = ascii ":scheme" ∧ !validScheme h.value) then none
      else if maxHeaderListSize < listSize fields then none
      else some f.isHead

end BoltApi.Http2.Fields
