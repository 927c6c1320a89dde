import BoltApi.Http1.ChunkedRfc
import BoltApi.Http1.Response

/-! # Reading a response by RFC 9112

What a client makes of the bytes of a response: the lines of the head and the
fields they carry (sections 4 and 5), and how far the body reaches (section
6.3). Nothing here looks at how the bytes were composed; the second half says
how the pieces the server prints are read. -/
namespace BoltApi.Http1.ResponseWire
open Octets Lib.Numerals Chunked ChunkedScan List
open ChunkedGrammar ChunkedRfc Response

/-! ## Head -/

/-- The bytes are the lines of a head, the empty line and a body. -/
structure Reads (bytes : Bytes) (lines : List Bytes) (body : Bytes) : Prop where
  cut : bytes = encodeTrailers lines ++ body
  lines : ∀ l ∈ lines, l ≠ [] ∧ LF ∉ l

theorem Reads.unique {bytes body body' ls ls'} (h : Reads bytes ls body)
    (h' : Reads bytes ls' body') : ls = ls' ∧ body = body' :=
  encodeTrailers_inj h.lines h'.lines (h.cut.symm.trans h'.cut)

def statusCode (l : Bytes) : Nat :=
  decimal (((l.dropWhile (· ≠ SP)).drop 1).takeWhile (· ≠ SP))

def isOws (c : UInt8) : Bool := c = SP ∨ c = HTAB

def trimOws (v : Bytes) : Bytes := ((v.dropWhile isOws).reverse.dropWhile isOws).reverse

def fieldName (l : Bytes) : Bytes := l.takeWhile (· ≠ COLON)

def fieldValue (l : Bytes) : Bytes := trimOws ((l.dropWhile (· ≠ COLON)).drop 1)

def valuesOf (name : Bytes) (ls : List Bytes) : List Bytes :=
  (ls.filter fun l => ieq (fieldName l) name).map fieldValue

def transferEncodings : List Bytes → List Bytes := valuesOf (ascii "transfer-encoding")

def contentLengths : List Bytes → List Bytes := valuesOf (ascii "content-length")

/-! ## Lists of values -/

def COMMA : UInt8 := 0x2C
def DQUOTE : UInt8 := 0x22
def BACKSLASH : UInt8 := 0x5C

inductive Quoting
  | out
  | text
  | pair

/-- The members of a comma-separated list; `cur` is what has been read of the
current one. -/
def members : Quoting → Bytes → Bytes → List Bytes
  | _, cur, [] => [cur]
  | .out, cur, c :: v =>
    if c = COMMA then cur :: members .out [] v
    else members (if c = DQUOTE then .text else .out) (cur ++ [c]) v
  | .text, cur, c :: v =>
    members (if c = DQUOTE then .out else if c = BACKSLASH then .pair else .text) (cur ++ [c]) v
  | .pair, cur, c :: v => members .text (cur ++ [c]) v

def listMembers (vs : List Bytes) : List Bytes := (vs.flatMap (members .out [])).map trimOws

def finalChunked (vs : List Bytes) : Bool :=
  match ((listMembers vs).filter (· ≠ [])).getLast? with
  | some coding => ieq coding (ascii "chunked")
  | none => false

def isNumber (v : Bytes) : Bool := !v.isEmpty && v.all isDigit

/-- The announced length, when all members are valid and the same. -/
def announced (vs : List Bytes) : Option Nat :=
  match listMembers vs with
  | [] => none
  | m :: ms =>
    if (m :: ms).all isNumber && ms.all fun v => decimal v == decimal m then some (decimal m)
    else none

/-! ## Message length -/

inductive Length
  | empty
  | tunnel
  | chunked
  | untilClose
  | exact (n : Nat)
  | invalid

def noContent (method : Bytes) (status : Nat) : Bool :=
  method = ascii "HEAD" ∨ status / 100 = 1 ∨ status = 204 ∨ status = 304

/-- The message body length of section 6.3, for a response. -/
def messageLength (method : Bytes) (status : Nat) (te cl : List Bytes) : Length :=
  if noContent method status then .empty
  else if method = ascii "CONNECT" ∧ status / 100 = 2 then .tunnel
  else if te ≠ [] then if finalChunked te then .chunked else .untilClose
  else if cl ≠ [] then
    match announced cl with
    | some n => .exact n
    | none => .invalid
  else .untilClose

/-- A chunked body, whole, by the grammar of section 7.1. -/
structure ChunkedText (t : ChunkedBody) : Prop where
  framed : t.Framed
  ext : ∀ l ∈ t.sizeLines, ChunkExt l.tail
  trailers : ∀ l ∈ t.trailers, FieldLine l

/-- The message of that length ends with `body` on an open connection. -/
def Length.EndsWith : Length → Bytes → Prop
  | .empty, body => body = []
  | .chunked, body => ∃ t, ChunkedText t ∧ t.encode = body
  | .exact n, body => body.length = n
  | .tunnel, _ => False
  | .untilClose, _ => False
  | .invalid, _ => False

/-- **What a client needs of a response**: not both framing fields, and, when
the connection stays open, a message that ends where the body does. -/
def WellFramed (method : Bytes) (e : Emission) : Prop :=
  ∃ status fields body, Reads e.bytes (status :: fields) body ∧
    (transferEncodings fields = [] ∨ contentLengths fields = []) ∧
    (e.keepAlive →
      (messageLength method (statusCode status) (transferEncodings fields)
        (contentLengths fields)).EndsWith body)

/-! ## Numbers the server prints -/

variable (n : Nat)

theorem decimal_printed : decimal (printed 10 n) = n :=
  printed_value (by decide) (by decide) n

theorem hexValue_printed : hexValue (printed 16 n) = n :=
  printed_value (by decide) (by decide) n

theorem isDigit_printed {n c} (h : c ∈ printed 10 n) : isDigit c := by
  obtain ⟨d, hd, rfl⟩ := mem_printed (by decide) h
  have hall : ∀ d < 10, isDigit (digitOctet d) := by decide
  exact hall d hd

theorem hexVal_printed {n c} (h : c ∈ printed 16 n) : (hexVal c).isSome := by
  obtain ⟨d, hd, rfl⟩ := mem_printed (by decide) h
  have hall : ∀ d < 16, (hexVal (digitOctet d)).isSome := by decide
  exact hall d hd

theorem not_mem_printed {c} (hc : isDigit c = false) (n : Nat) : c ∉ printed 10 n := by
  intro h
  rw [isDigit_printed h] at hc
  cases hc

theorem isNumber_printed : isNumber (printed 10 n) := by
  simp only [isNumber, Bool.and_eq_true, Bool.not_eq_true', isEmpty_eq_false_iff, all_eq_true]
  exact ⟨printed_ne_nil 10 n, fun c hc => isDigit_printed hc⟩

theorem unbroken_printed : Unbroken (printed 10 n) :=
  fun _ hc => unbroken_of_class (by decide) (by decide) (isDigit_printed hc)

/-! ## Fields the server writes -/

@[simp] theorem valuesOf_nil (name : Bytes) : valuesOf name [] = [] := rfl

theorem valuesOf_append (name : Bytes) (ls ls' : List Bytes) :
    valuesOf name (ls ++ ls') = valuesOf name ls ++ valuesOf name ls' := by
  simp [valuesOf]

theorem transferEncodings_append (ls ls' : List Bytes) :
    transferEncodings (ls ++ ls') = transferEncodings ls ++ transferEncodings ls' :=
  valuesOf_append _ ls ls'

theorem contentLengths_append (ls ls' : List Bytes) :
    contentLengths (ls ++ ls') = contentLengths ls ++ contentLengths ls' :=
  valuesOf_append _ ls ls'

theorem valuesOf_cons (name l : Bytes) (ls : List Bytes) :
    valuesOf name (l :: ls) = valuesOf name [l] ++ valuesOf name ls :=
  valuesOf_append name [l] ls

theorem fieldName_fieldLine {e : Entry} (h : COLON ∉ e.name) : fieldName (fieldLine e) = e.name := by
  have hall : ∀ c ∈ e.name, decide (c ≠ COLON) :=
    fun c hc => decide_eq_true fun he => h (he ▸ hc)
  unfold fieldName fieldLine
  rw [append_assoc, takeWhile_append_of_pos hall]
  exact append_nil _

theorem fieldValue_fieldLine {e : Entry} (h : COLON ∉ e.name) :
    fieldValue (fieldLine e) = trimOws e.value := by
  have hall : ∀ c ∈ e.name, decide (c ≠ COLON) :=
    fun c hc => decide_eq_true fun he => h (he ▸ hc)
  unfold fieldValue fieldLine
  rw [append_assoc, dropWhile_append_of_pos hall]
  rfl

theorem valuesOf_fieldLine {e : Entry} (h : COLON ∉ e.name) (name : Bytes) :
    valuesOf name [fieldLine e] = if ieq e.name name then [trimOws e.value] else [] := by
  simp only [valuesOf, filter_cons, filter_nil, fieldName_fieldLine h]
  split
  · rw [map_singleton, fieldValue_fieldLine h]
  · rfl

theorem no_colon_of_ieq {n lower} (h : ieq n lower) (hl : COLON ∉ lower) : COLON ∉ n := by
  intro hc
  apply hl
  rw [← beq_iff_eq.mp h]
  exact mem_map.mpr ⟨COLON, hc, by decide⟩

theorem ieq_unique {n a b} (ha : ieq n a) (hb : ieq n b) : a = b :=
  (beq_iff_eq.mp ha).symm.trans (beq_iff_eq.mp hb)

theorem valuesOf_filter {name : Bytes} {es : List Entry} {keep : Entry → Bool}
    (h : ∀ e ∈ es, keep e = false → ieq (fieldName (fieldLine e)) name = false) :
    valuesOf name ((es.filter keep).map fieldLine) = valuesOf name (es.map fieldLine) := by
  induction es with
  | nil => rfl
  | cons e es ih =>
    have ih := ih fun e' he' => h e' (mem_cons_of_mem _ he')
    rw [map_cons, valuesOf_cons, filter_cons]
    split
    · rw [map_cons, valuesOf_cons, ih]
    rename_i hk
    have hn := h e (by simp) (by simpa using hk)
    rw [ih]
    simp [valuesOf, hn]

theorem lengthLine_eq : lengthLine n = fieldLine ⟨ascii "Content-Length", printed 10 n⟩ := rfl

theorem trimOws_eq {v} (h : ∀ c ∈ v, isOws c = false) : trimOws v = v := by
  have hdrop : ∀ w : Bytes, (∀ c ∈ w, isOws c = false) → w.dropWhile isOws = w := by
    intro w hw
    cases w with
    | nil => rfl
    | cons c w => rw [dropWhile_cons_of_neg (by simp [hw c (by simp)])]
  unfold trimOws
  rw [hdrop v h, hdrop v.reverse (fun c hc => h c (mem_reverse.mp hc)), reverse_reverse]

theorem mem_trimOws {v c} (hc : c ∈ v) (ho : isOws c = false) : c ∈ trimOws v := by
  have hdrop : ∀ w : Bytes, c ∈ w → c ∈ w.dropWhile isOws := by
    intro w hw
    rw [← takeWhile_append_dropWhile (p := isOws) (l := w)] at hw
    rcases mem_append.mp hw with hw | hw
    · rw [mem_takeWhile_imp hw] at ho
      cases ho
    · exact hw
  exact mem_reverse.mpr (hdrop _ (mem_reverse.mpr (hdrop v hc)))

theorem trimOws_printed : trimOws (printed 10 n) = printed 10 n := by
  refine trimOws_eq fun c hc => ?_
  refine decide_eq_false ?_
  rintro (rfl | rfl)
  · exact not_mem_printed (by decide) n hc
  · exact not_mem_printed (by decide) n hc

theorem contentLengths_lengthLine : contentLengths [lengthLine n] = [printed 10 n] := by
  have hname : COLON ∉ ascii "Content-Length" := by decide
  have hieq : ieq (ascii "Content-Length") (ascii "content-length") := by decide
  rw [lengthLine_eq, contentLengths, valuesOf_fieldLine hname, if_pos hieq, trimOws_printed]

theorem transferEncodings_lengthLine : transferEncodings [lengthLine n] = [] := by
  have hname : COLON ∉ ascii "Content-Length" := by decide
  have hieq : ¬ ieq (ascii "Content-Length") (ascii "transfer-encoding") := by decide
  rw [lengthLine_eq, transferEncodings, valuesOf_fieldLine hname, if_neg hieq]

@[simp] theorem contentLengths_connectionLines (k : Bool) :
    contentLengths (connectionLines k) = [] := by
  cases k <;> decide

@[simp] theorem transferEncodings_connectionLines (k : Bool) :
    transferEncodings (connectionLines k) = [] := by
  cases k <;> decide

/-! ## Announced lengths -/

theorem members_plain : ∀ (cur v : Bytes), COMMA ∉ v → DQUOTE ∉ v →
    members .out cur v = [cur ++ v]
  | cur, [], _, _ => by rw [members, append_nil]
  | cur, c :: v, hc, hq => by
    rw [members, if_neg fun he => hc (by simp [he]), if_neg fun he => hq (by simp [he]),
      members_plain (cur ++ [c]) v (fun h => hc (by simp [h])) fun h => hq (by simp [h])]
    simp

theorem mem_members {c} (hc : c ≠ COMMA) : ∀ (q : Quoting) (cur v : Bytes),
    c ∈ cur ++ v → ∃ m ∈ members q cur v, c ∈ m
  | q, cur, [], h => ⟨cur, by cases q <;> simp [members], by simpa using h⟩
  | .out, cur, d :: v, h => by
    rw [members]
    split
    · rename_i hd
      rcases mem_append.mp h with h | h
      · exact ⟨cur, by simp, h⟩
      · have hv : c ∈ v := (mem_cons.mp h).resolve_left fun he => hc (he.trans hd)
        obtain ⟨m, hm, hcm⟩ := mem_members hc .out [] v hv
        exact ⟨m, mem_cons_of_mem _ hm, hcm⟩
    · exact mem_members hc _ _ v (by simpa using h)
  | .text, cur, d :: v, h => by
    rw [members]
    exact mem_members hc _ _ v (by simpa using h)
  | .pair, cur, d :: v, h => by
    rw [members]
    exact mem_members hc _ _ v (by simpa using h)

theorem listMembers_append (vs ws : List Bytes) :
    listMembers (vs ++ ws) = listMembers vs ++ listMembers ws := by
  simp [listMembers]

theorem listMembers_printed : listMembers [printed 10 n] = [printed 10 n] := by
  have hcomma := not_mem_printed (c := COMMA) (by decide) n
  have hquote := not_mem_printed (c := DQUOTE) (by decide) n
  simp only [listMembers, flatMap_cons, flatMap_nil, append_nil,
    members_plain [] _ hcomma hquote, nil_append, map_cons, map_nil,
    trimOws_printed]

theorem announced_printed : announced [printed 10 n] = some n := by
  simp [announced, listMembers_printed, isNumber_printed, decimal_printed]

theorem announced_numbers {vs n} (h : announced vs = some n) :
    ∀ m ∈ listMembers vs, isNumber m := by
  intro m hm
  unfold announced at h
  split at h
  · cases h
  rename_i m₀ ms heq
  split at h
  · rename_i hall
    rw [heq] at hm
    exact all_eq_true.mp (Bool.and_eq_true_iff.mp hall).1 m hm
  · cases h

theorem no_colon_of_announced {vs n} (h : announced vs = some n) : ∀ v ∈ vs, COLON ∉ v := by
  intro v hv hc
  obtain ⟨m, hm, hcm⟩ := mem_members (c := COLON) (by decide) .out [] v hc
  have hmem : trimOws m ∈ listMembers vs :=
    mem_map.mpr ⟨m, mem_flatMap.mpr ⟨v, hv, hm⟩, rfl⟩
  have hnum := announced_numbers h _ hmem
  have hdigit := all_eq_true.mp (Bool.and_eq_true_iff.mp hnum).2 COLON
    (mem_trimOws hcm (by decide))
  exact absurd hdigit (by decide)

/-! ## Chunked bodies the server writes -/

def framesOf (ws : List Bytes) : ChunkedBody where
  chunks := ws.map fun s => ⟨⟨printed 16 s.length, []⟩, s⟩
  last := ⟨ascii "0", []⟩
  trailers := []

theorem framesOf_encode (ws : List Bytes) :
    (framesOf ws).encode = ws.flatMap chunkFrame ++ lastChunk := by
  have hchunks : encodeChunks (framesOf ws).chunks = ws.flatMap chunkFrame := by
    simp only [framesOf, encodeChunks, flatMap_map]
    congr 1
    funext s
    simp [Chunk.encode, SizeLine.encode, chunkFrame]
  rw [ChunkedBody.encode, hchunks]
  rfl

theorem framesOf_text {ws} (h : ∀ s ∈ ws, s ≠ []) : ChunkedText (framesOf ws) := by
  have hext : ChunkExt [] := .bws fun c hc => absurd hc (by simp)
  have hzero : ∀ c ∈ ascii "0", (hexVal c).isSome :=
    fun c hc => mem_singleton.mp hc ▸ rfl
  have hlast : SizeLine.Framed ⟨ascii "0", []⟩ 0 := ⟨hzero, by decide, by simp, by simp, rfl⟩
  refine ⟨⟨?_, hlast, fun l hl => absurd hl (by simp [framesOf])⟩, ?_,
    fun l hl => absurd hl (by simp [framesOf])⟩
  · intro c hc
    obtain ⟨s, hs, rfl⟩ := mem_map.mp hc
    exact ⟨⟨fun _ => hexVal_printed, printed_ne_nil 16 _, by simp, by simp, hexValue_printed _⟩,
      h s hs⟩
  intro l hl
  rcases mem_append.mp hl with hl | hl
  · obtain ⟨c, hc, rfl⟩ := mem_map.mp hl
    obtain ⟨s, -, rfl⟩ := mem_map.mp hc
    exact hext
  · rw [mem_singleton.mp hl]
    exact hext

end BoltApi.Http1.ResponseWire
