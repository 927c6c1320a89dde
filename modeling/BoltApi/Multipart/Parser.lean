import BoltApi.Octets
import BoltApi.Lib.Occurrence

/-! # The multipart parser

`MultipartParser` and `MultipartFormData` of `http/multipart_parser.h`. A call of
`parse` puts its octets behind those that are still in the buffer and lets the
states work on the buffer as long as one of them gets on. -/
namespace BoltApi.Multipart
open Octets Lib.Occurrence

def DASHES : Bytes := ascii "--"
def SEMICOLON : UInt8 := 0x3B
def EQUALS : UInt8 := 0x3D
def QUOTE : UInt8 := 0x22

/-- `filename` is empty for a part that is no file; `extra` has one entry for a
name. -/
structure PartHeaders where
  name : Bytes := []
  filename : Bytes := []
  contentType : Bytes := []
  extra : List (Bytes × Bytes) := []
deriving DecidableEq

inductive State where
  | start
  | boundary
  | headerName
  | headerValue
  | partData
  | done
  | error
deriving DecidableEq

inductive Event where
  | partBegin (headers : PartHeaders)
  | partData (data : Bytes)
  | partEnd
  | failed (message : String)
deriving DecidableEq

structure Parser where
  delimiter : Bytes
  state : State := .start
  headers : PartHeaders := {}
  headerName : Bytes := []
  buffer : Bytes := []

def isBlank (c : UInt8) : Bool := c = SP ∨ c = HTAB

def trim (s : Bytes) : Bytes := ((s.dropWhile isBlank).reverse.dropWhile isBlank).reverse

/-! ## Headers -/

def paramValue (s : Bytes) : Bytes :=
  match s.dropWhile isBlank with
  | c :: r => if c = QUOTE then r.takeWhile (· ≠ QUOTE) else trim (c :: r)
  | [] => trim []

def setParam (h : PartHeaders) (param : Bytes) : PartHeaders :=
  match find [EQUALS] param with
  | none => h
  | some eq =>
    let key := trim (param.take eq)
    let val := paramValue (param.drop (eq + 1))
    if key = ascii "name" then { h with name := val }
    else if key = ascii "filename" then { h with filename := val }
    else h

def setParams : Nat → PartHeaders → Bytes → PartHeaders
  | 0, h, _ => h
  | fuel + 1, h, s =>
    let s := s.dropWhile isBlank
    if s = [] then h
    else setParams fuel (setParam h (s.takeWhile (· ≠ SEMICOLON))) ((s.dropWhile (· ≠ SEMICOLON)).drop 1)

def parseContentDisposition (h : PartHeaders) (value : Bytes) : PartHeaders :=
  let h := { h with name := [], filename := [] }
  match find [SEMICOLON] value with
  | none => h
  | some pos => setParams value.length h (value.drop (pos + 1))

def setExtra (extra : List (Bytes × Bytes)) (name value : Bytes) : List (Bytes × Bytes) :=
  if extra.any (·.1 = name) then extra.map fun e => if e.1 = name then (name, value) else e
  else extra ++ [(name, value)]

def setHeader (h : PartHeaders) (name value : Bytes) : PartHeaders :=
  let lower := name.map toLowerAscii
  if lower = ascii "content-disposition" then parseContentDisposition h value
  else if lower = ascii "content-type" then { h with contentType := value }
  else { h with extra := setExtra h.extra name value }

def noHeaders : PartHeaders := { contentType := ascii "text/plain" }

/-! ## States -/

namespace Parser

variable (p : Parser)

def fail (message : String) : Parser × List Event :=
  ({ p with state := .error }, [.failed message])

def beginPart (buffer : Bytes) : Parser :=
  { p with state := .headerName, headers := noHeaders, buffer }

def skip (buffer : Bytes) : Nat := if CRLF <+: buffer then 2 else 0

def processStart : Parser × List Event :=
  match find p.delimiter (p.buffer.drop (skip p.buffer)) with
  | none =>
    if p.delimiter.length * 2 + skip p.buffer < p.buffer.length then p.fail "Initial boundary not found"
    else (p, [])
  | some pos =>
    match p.buffer.drop (skip p.buffer + pos + p.delimiter.length) with
    | a :: b :: rest =>
      if [a, b] = DASHES then ({ p with state := .done, buffer := [] }, [])
      else if [a, b] = CRLF then (p.beginPart rest, [])
      else p.fail "Invalid boundary format"
    | _ => (p, [])

def processBoundary : Parser × List Event :=
  if p.buffer.length < 2 then (p, [])
  else if p.delimiter ++ DASHES <+: p.buffer then ({ p with state := .done, buffer := [] }, [])
  else if p.delimiter <+: p.buffer then
    match p.buffer.drop p.delimiter.length with
    | a :: b :: rest =>
      if [a, b] = DASHES then ({ p with state := .done, buffer := [] }, [])
      else if [a, b] = CRLF then (p.beginPart rest, [])
      else p.fail "Invalid boundary format"
    | _ => (p, [])
  else p.fail "Expected boundary"

def processHeaderName : Parser × List Event :=
  if CRLF <+: p.buffer then
    ({ p with state := .partData, buffer := p.buffer.drop 2 }, [.partBegin p.headers])
  else
    match find [COLON] p.buffer with
    | none => if 1024 < p.buffer.length then p.fail "Header name too long" else (p, [])
    | some colon =>
      ({ p with
        state := .headerValue, headerName := trim (p.buffer.take colon), buffer := p.buffer.drop (colon + 1) }, [])

def processHeaderValue : Parser × List Event :=
  match find CRLF p.buffer with
  | none => if 8192 < p.buffer.length then p.fail "Header value too long" else (p, [])
  | some crlf =>
    ({ p with
      state := .headerName, headers := setHeader p.headers p.headerName (trim (p.buffer.take crlf))
      buffer := p.buffer.drop (crlf + 2) }, [])

/-- `emit_part_data`, which reports nothing for no octets. -/
def emitData (data : Bytes) : List Event := if data = [] then [] else [.partData data]

def processPartData : Parser × List Event :=
  let search := CRLF ++ p.delimiter
  match find search p.buffer with
  | some pos =>
    let events := emitData (p.buffer.take pos) ++ [.partEnd]
    match p.buffer.drop (pos + search.length) with
    | a :: b :: rest =>
      if [a, b] = DASHES then ({ p with state := .done, buffer := [] }, events)
      else if [a, b] = CRLF then (p.beginPart rest, events)
      else ((p.fail "Invalid boundary format").1, events ++ (p.fail "Invalid boundary format").2)
    | _ => ({ p with state := .boundary, buffer := p.buffer.drop (pos + 2) }, events)
  | none =>
    -- what could be the start of a delimiter is kept
    let safe := p.buffer.length - search.length
    ({ p with buffer := p.buffer.drop safe }, emitData (p.buffer.take safe))

def process : Parser × List Event :=
  match p.state with
  | .start => p.processStart
  | .boundary => p.processBoundary
  | .headerName => p.processHeaderName
  | .headerValue => p.processHeaderValue
  | .partData => p.processPartData
  | .done => (p, [])
  | .error => (p, [])

def loop : Nat → Parser → Parser × List Event
  | 0, p => (p, [])
  | fuel + 1, p =>
    if p.state = .done ∨ p.state = .error then (p, [])
    else
      let (p', events) := p.process
      if p'.state = p.state ∧ p'.buffer.length = p.buffer.length then (p', events)
      else
        let (q, more) := loop fuel p'
        (q, events ++ more)

/-- One call. Each round of the loop that gets on shortens the buffer or ends. -/
def parse (data : Bytes) : Parser × List Event :=
  let p := { p with buffer := p.buffer ++ data }
  loop (p.buffer.length + 1) p

def parseAll (p : Parser) : List Bytes → Parser × List Event
  | [] => (p, [])
  | piece :: pieces =>
    let (p', events) := p.parse piece
    let (q, more) := p'.parseAll pieces
    (q, events ++ more)

end Parser

def newParser (boundary : Bytes) : Parser := { delimiter := DASHES ++ boundary }

/-! ## The whole body at once -/

def extractBoundary (contentType : Bytes) : Bytes :=
  match find (ascii "boundary=") contentType with
  | none => []
  | some pos =>
    match contentType.drop (pos + 9) with
    | [] => []
    | c :: r =>
      if c = QUOTE then if QUOTE ∈ r then r.takeWhile (· ≠ QUOTE) else []
      else (((c :: r).takeWhile (· ≠ SEMICOLON)).reverse.dropWhile isBlank).reverse

structure FormField where
  name : Bytes
  value : Bytes
deriving DecidableEq

structure FileUpload where
  name : Bytes
  filename : Bytes
  contentType : Bytes
  data : Bytes
deriving DecidableEq

structure FormData where
  fields : List FormField := []
  files : List FileUpload := []
  headers : PartHeaders := {}
  data : Bytes := []

namespace FormData

def on (d : FormData) : Event → FormData
  | .partBegin headers => { d with headers, data := [] }
  | .partData data => { d with data := d.data ++ data }
  | .partEnd =>
    if d.headers.filename = [] then { d with fields := d.fields ++ [⟨d.headers.name, d.data⟩] }
    else { d with
      files := d.files ++ [⟨d.headers.name, d.headers.filename, d.headers.contentType, d.data⟩], data := [] }
  | .failed _ => d

def parse (contentType body : Bytes) : Bool × List FormField × List FileUpload :=
  let boundary := extractBoundary contentType
  if boundary = [] then (false, [], [])
  else
    let (p, events) := (newParser boundary).parse body
    let d := events.foldl on {}
    (p.state ≠ .error, d.fields, d.files)

end FormData

end BoltApi.Multipart
