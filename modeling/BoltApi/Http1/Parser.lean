import BoltApi.Http1.Chunked

/-! # The HTTP/1 request parser

`HTTP1Parser::parse` of `src/http/http1_parser.cpp`. The parser restarts from
the top of the buffer on every call; what it keeps is the `HTTP1Request` object
the caller passes in again, so the request is threaded through and is part of
the answer whatever the return code. The return codes 0, -1 and 1 are
`Status.ok`, `Status.more` and `Status.bad`. -/
namespace BoltApi.Http1.Parser
open Octets Lib.Scanning Chunked

inductive HTTP1Method
  | GET | HEAD | POST | PUT | DELETE | CONNECT | OPTIONS | TRACE | PATCH | UNKNOWN
  deriving DecidableEq

inductive HTTP1Version
  | HTTP_1_0 | HTTP_1_1
  deriving DecidableEq

structure Header where
  name : Bytes
  value : Bytes
  deriving DecidableEq

/-- The parsed request. `headers` lists the first `header_count` slots of the
source's array. -/
structure HTTP1Request where
  method : HTTP1Method := .UNKNOWN
  version : HTTP1Version := .HTTP_1_1
  methodStr : Bytes := []
  url : Bytes := []
  path : Bytes := []
  query : Bytes := []
  fragment : Bytes := []
  headers : List Header := []
  body : Bytes := []
  contentLength : Nat := 0
  hasContentLength : Bool := false
  chunked : Bool := false
  keepAlive : Bool := false
  upgrade : Bool := false
  upgradeProtocol : Bytes := []
  deriving DecidableEq

def MAX_HEADERS : Nat := 100
def kMaxLeadingEmptyLines : Nat := 4
def kMaxContentLength : Nat := 2 ^ 53
def kMaxContentLengthDigits : Nat := 16

variable (req : HTTP1Request)

def HTTP1Request.getHeader (name : Bytes) : Bytes :=
  ((req.headers.find? fun h => strEqCi h.name name).map Header.value).getD []

/-! ## Framing -/

def parseContentLength (v : Bytes) : Option Nat :=
  if v = [] ∨ kMaxContentLengthDigits < v.length then none
  else if v.all isDigit then
    if kMaxContentLength < decimal v then none else some (decimal v)
  else none

/-- What `extract_framing` collects while it walks the fields. -/
structure Framing where
  contentLength : Nat := 0
  hasContentLength : Bool := false
  chunked : Bool := false
  teCount : Nat := 0

def framingFields (version : HTTP1Version) : List Header → Framing → Option Framing
  | [], f => some f
  | h :: hs, f =>
    if ieq h.name (ascii "content-length") then
      match parseContentLength h.value with
      | none => none
      | some n =>
        if f.hasContentLength ∧ n ≠ f.contentLength then none
        else framingFields version hs { f with contentLength := n, hasContentLength := true }
    else if ieq h.name (ascii "transfer-encoding") then
      if 1 < f.teCount + 1 ∨ ieq h.value (ascii "chunked") = false then none
      else if version ≠ .HTTP_1_1 then none
      else framingFields version hs { f with chunked := true, teCount := f.teCount + 1 }
    else framingFields version hs f

def keepAliveOf (version : HTTP1Version) (connection : Bytes) : Bool :=
  match version with
  | .HTTP_1_1 => connection = [] ∨ ieq connection (ascii "keep-alive")
  | .HTTP_1_0 => ieq connection (ascii "keep-alive")

/-- `none` is its return value 1. The framing fields it has set by then are not kept: a
refused request is read no further. -/
def extractFraming : Option HTTP1Request :=
  match framingFields req.version req.headers {} with
  | none => none
  | some f =>
    if f.chunked ∧ f.hasContentLength then none
    else
      let upgrade := req.getHeader (ascii "upgrade")
      some { req with
        contentLength := f.contentLength
        hasContentLength := f.hasContentLength
        chunked := f.chunked
        keepAlive := keepAliveOf req.version (req.getHeader (ascii "connection"))
        upgrade := upgrade ≠ []
        upgradeProtocol := if upgrade = [] then req.upgradeProtocol else upgrade }

/-! ## The request line and the fields -/

def skipEmptyLines : Nat → Bytes → Scan Unit UInt8
  | 0, data => .ok () data
  | _ + 1, [] => .ok () []
  | fuel + 1, c :: rest =>
    if c = CR then (expect LF rest).andThen fun _ r => skipEmptyLines fuel r
    else .ok () (c :: rest)

/-- The scans of `parse_method` and `parse_url`: a non-empty word up to SP. -/
def word (good : UInt8 → Bool) (data : Bytes) : Scan Bytes UInt8 :=
  (spanUntil SP good data).andThen fun w => check (w ≠ []) w

def parseMethod : Bytes → Scan Bytes UInt8 := word isTokenChar

def parseUrl : Bytes → Scan Bytes UInt8 := word fun c => 0x21 ≤ c ∧ c ≠ 0x7F

def methodOf (m : Bytes) : HTTP1Method :=
  if m = ascii "GET" then .GET
  else if m = ascii "POST" then .POST
  else if m = ascii "PUT" then .PUT
  else if m = ascii "DELETE" then .DELETE
  else if m = ascii "HEAD" then .HEAD
  else if m = ascii "OPTIONS" then .OPTIONS
  else if m = ascii "PATCH" then .PATCH
  else if m = ascii "CONNECT" then .CONNECT
  else if m = ascii "TRACE" then .TRACE
  else .UNKNOWN

variable (data : Bytes)

/-- The first test of `parse_version`: the bytes at hand do not even start
"HTTP/", so the peer speaks another protocol. -/
def notHttp : Bool := (ascii "HTTP/").take data.length ≠ data.take 5

def parseVersion : Scan HTTP1Version UInt8 :=
  if notHttp data then .bad
  else if data.length < 10 then .more
  else if data.take 10 = ascii "HTTP/1.1\r\n" then .ok .HTTP_1_1 (data.drop 10)
  else if data.take 10 = ascii "HTTP/1.0\r\n" then .ok .HTTP_1_0 (data.drop 10)
  else .bad

def parseHeaderField : Scan Bytes UInt8 :=
  (spanUntil COLON isTokenChar data).andThen fun n => check (n ≠ []) n

def trimValue (v : Bytes) : Bytes := (v.reverse.dropWhile isWhitespace).reverse

def parseHeaderValue : Scan Bytes UInt8 :=
  (spanUntil CR (fun c => !((c < 0x20 ∧ c ≠ HTAB) ∨ c = 0x7F)) data).andThen fun v rest =>
    (expect LF rest).andThen fun _ r => .ok (trimValue v) r

/-- One header field. The whitespace behind the colon belongs to
`parse_header_field` in the source. -/
def parseHeader : Scan Header UInt8 :=
  (parseHeaderField data).andThen fun name rest =>
    (parseHeaderValue (rest.dropWhile fun c => c = SP ∨ c = HTAB)).andThen fun value r =>
      .ok ⟨name, value⟩ r

structure HeaderScan where
  status : Status
  headers : List Header
  rest : Bytes
  deriving DecidableEq

/-- The header loop of `parse`, up to the empty line. `fuel` counts the free
slots of the header array and the turn that finds it full. -/
def parseHeaders : Nat → List Header → Bytes → HeaderScan
  | 0, acc, _ => ⟨.bad, acc, []⟩
  | _ + 1, acc, [] => ⟨.more, acc, []⟩
  | fuel + 1, acc, c :: rest =>
    if c = CR then
      match expect LF rest with
      | .ok _ r => ⟨.ok, acc, r⟩
      | .more => ⟨.more, acc, []⟩
      | .bad => ⟨.bad, acc, []⟩
    else if MAX_HEADERS ≤ acc.length then ⟨.bad, acc, []⟩
    else
      match parseHeader (c :: rest) with
      | .ok h r => parseHeaders fuel (acc ++ [h]) r
      | .more => ⟨.more, acc, []⟩
      | .bad => ⟨.bad, acc, []⟩

structure UrlComponents where
  path : Bytes
  query : Option Bytes := none
  fragment : Option Bytes := none

/-- The cuts `parse_url_components` makes at '?' and '#'. -/
def urlComponents (url : Bytes) : UrlComponents :=
  match url.dropWhile (· ≠ 0x3F) with
  | _ :: after =>
    let path := url.takeWhile (· ≠ 0x3F)
    match after.dropWhile (· ≠ 0x23) with
    | _ :: fragment => { path, query := after.takeWhile (· ≠ 0x23), fragment }
    | [] => { path, query := after }
  | [] =>
    match url.dropWhile (· ≠ 0x23) with
    | _ :: fragment => { path := url.takeWhile (· ≠ 0x23), fragment }
    | [] => { path := url }

/-- `parse_url_components`. A component the URL does not have is left as it
was. -/
def parseUrlComponents : HTTP1Request :=
  let c := urlComponents req.url
  { req with
    path := c.path
    query := c.query.getD req.query
    fragment := c.fragment.getD req.fragment }

/-! ## The parser -/

/-- What one call of `parse` answers: its return code, the request object
afterwards, `out_consumed` (set on success only) and `is_not_http()`. -/
structure ParseResult where
  rc : Status
  req : HTTP1Request
  consumed : Nat := 0
  notHttp : Bool := false
  deriving DecidableEq

/-- The accumulation state restarts with every call. -/
def HTTP1Request.restart : HTTP1Request :=
  { req with headers := [], contentLength := 0, hasContentLength := false, chunked := false,
             upgrade := false }

variable (len : Nat)

/-- The body behind a complete header section. `len` is the buffer's length. -/
def parseBody (req : HTTP1Request) (data : Bytes) : ParseResult :=
  if req.chunked then
    match scanChunked data with
    | .more => { rc := .more, req }
    | .bad => { rc := .bad, req }
    | .ok _ rest =>
      { rc := .ok, req := { req with body := data.take (rawLen data rest) }
        consumed := len - rest.length }
  else if req.hasContentLength ∧ 0 < req.contentLength then
    if data.length < req.contentLength then { rc := .more, req }
    else
      { rc := .ok, req := { req with body := data.take req.contentLength }
        consumed := len - (data.length - req.contentLength) }
  else { rc := .ok, req, consumed := len - data.length }

/-- What follows the header section: the URL's components, the framing and the
body. -/
def parseFramed (req : HTTP1Request) (data : Bytes) : ParseResult :=
  match extractFraming (parseUrlComponents req) with
  | none => { rc := .bad, req := parseUrlComponents req }
  | some req => parseBody len req data

def parseFields (req : HTTP1Request) (data : Bytes) : ParseResult :=
  match parseHeaders (MAX_HEADERS + 1) [] data with
  | ⟨.more, headers, _⟩ => { rc := .more, req := { req with headers } }
  | ⟨.bad, headers, _⟩ => { rc := .bad, req := { req with headers } }
  | ⟨.ok, headers, rest⟩ => parseFramed len { req with headers } rest

def parseFromVersion (req : HTTP1Request) (data : Bytes) : ParseResult :=
  match parseVersion data with
  | .more => { rc := .more, req }
  | .bad => { rc := .bad, req, notHttp := notHttp data }
  | .ok v rest => parseFields len { req with version := v } rest

def parseFromUrl (req : HTTP1Request) (data : Bytes) : ParseResult :=
  match parseUrl data with
  | .more => { rc := .more, req }
  | .bad => { rc := .bad, req }
  | .ok u rest => parseFromVersion len { req with url := u } rest

def parseFromMethod (req : HTTP1Request) (data : Bytes) : ParseResult :=
  match parseMethod data with
  | .more => { rc := .more, req }
  | .bad => { rc := .bad, req }
  | .ok m rest => parseFromUrl len { req with methodStr := m, method := methodOf m } rest

def parse : ParseResult :=
  if data = [] then { rc := .more, req }
  else
    match skipEmptyLines kMaxLeadingEmptyLines data with
    | .more => { rc := .more, req := req.restart }
    | .bad => { rc := .bad, req := req.restart }
    | .ok _ rest =>
      if rest = [] then { rc := .more, req := req.restart }
      else parseFromMethod data.length req.restart rest

end BoltApi.Http1.Parser
