import BoltApi.Http1.ResponseWire

/-! # Responses are framed

Which responses leave the server as one message that ends where its body does.
For each way a response can take through the server there is a condition on the
headers and the body the handler has set (`FramesSafely`), and the bytes are
well framed exactly under it (`response_framed_iff`). -/
namespace BoltApi.Http1.ResponseFraming
open List
open Octets Lib.Numerals ChunkedGrammar ChunkedRfc
open Response ResponseWire

/-! ## Lines -/

variable {x : Exchange} (r : CoroHttpResponse) (es : List Entry)

def UnsplitHeaders : Prop := ∀ e ∈ es, Unbroken e.name ∧ Unbroken e.value

/-- No CR and no LF in what the handler has set for the head. -/
structure Unsplit (r : CoroHttpResponse) : Prop where
  message : Unbroken r.statusMessage
  headers : UnsplitHeaders r.headers.entries

def Line (l : Bytes) : Prop := l ≠ [] ∧ LF ∉ l

theorem Line.of_unbroken {l} (hne : l ≠ []) (h : Unbroken l) : Line l :=
  ⟨hne, fun hl => (h LF hl).2 rfl⟩

theorem unbroken_ascii {s} (h : CR ∉ ascii s ∧ LF ∉ ascii s) : Unbroken (ascii s) :=
  fun _ hc => ⟨fun he => h.1 (he ▸ hc), fun he => h.2 (he ▸ hc)⟩

theorem line_statusLine {r} (h : Unbroken r.statusMessage) : Line (statusLine r) := by
  refine .of_unbroken (by simp [statusLine]) ?_
  refine Unbroken.append (Unbroken.append (Unbroken.append ?_ (unbroken_printed _)) ?_) h
  · exact unbroken_ascii (by decide)
  · exact Unbroken.cons (by decide) fun c hc => absurd hc (by simp)

variable {e : Entry}

theorem line_fieldLine (hn : Unbroken e.name) (hv : Unbroken e.value) : Line (fieldLine e) := by
  refine .of_unbroken ?_ (Unbroken.append (hn.append (unbroken_ascii (by decide))) hv)
  rw [fieldLine, append_assoc]
  exact append_ne_nil_of_right_ne_nil _ (cons_ne_nil _ _)

theorem line_lengthLine (n : Nat) : Line (lengthLine n) := by
  have hname : Unbroken (ascii "Content-Length") := unbroken_ascii (by decide)
  rw [lengthLine_eq]
  exact line_fieldLine hname (unbroken_printed n)

theorem line_connectionLines (k : Bool) : ∀ l ∈ connectionLines k, Line l := by
  cases k with
  | true => exact fun l hl => absurd hl (by simp [connectionLines])
  | false =>
    intro l hl
    rw [mem_singleton.mp hl]
    exact ⟨by decide, by decide⟩

variable {ls ls' : List Bytes}

theorem lines_append (h : ∀ l ∈ ls, Line l) (h' : ∀ l ∈ ls', Line l) : ∀ l ∈ ls ++ ls', Line l :=
  forall_mem_append.mpr ⟨h, h'⟩

theorem statusCode_statusLine : statusCode (statusLine r) = r.status.toNat := by
  have hall : ∀ c ∈ printed 10 r.status.toNat, decide (c ≠ SP) :=
    fun c hc => decide_eq_true fun he => not_mem_printed (c := SP) (by decide) _ (he ▸ hc)
  have hcut : statusCode (statusLine r) =
      decimal ((printed 10 r.status.toNat ++ SP :: r.statusMessage).takeWhile (· ≠ SP)) := by
    simp only [statusCode, statusLine, append_assoc]
    rfl
  rw [hcut, takeWhile_append_of_pos hall, takeWhile_cons_of_neg (by simp),
    append_nil, decimal_printed]

/-! ## Reading an emission -/

variable {method : Bytes}

theorem wellFramed_iff {e : Emission} {status k} (he : e.lines = status :: (ls ++ ls' ++ connectionLines k))
    (hstatus : Line status) (hls : ∀ l ∈ ls, Line l) (hls' : ∀ l ∈ ls', Line l) :
    WellFramed method e ↔
      (transferEncodings ls ++ transferEncodings ls' = [] ∨
        contentLengths ls ++ contentLengths ls' = []) ∧
      (e.keepAlive →
        (messageLength method (statusCode status) (transferEncodings ls ++ transferEncodings ls')
          (contentLengths ls ++ contentLengths ls')).EndsWith e.body) := by
  have hte : transferEncodings (ls ++ ls' ++ connectionLines k) =
      transferEncodings ls ++ transferEncodings ls' := by
    rw [transferEncodings_append, transferEncodings_append, transferEncodings_connectionLines,
      append_nil]
  have hcl : contentLengths (ls ++ ls' ++ connectionLines k) =
      contentLengths ls ++ contentLengths ls' := by
    rw [contentLengths_append, contentLengths_append, contentLengths_connectionLines, append_nil]
  have hread : Reads e.bytes (status :: (ls ++ ls' ++ connectionLines k)) e.body := by
    refine ⟨by rw [← he]; rfl, forall_mem_cons.mpr ⟨hstatus, ?_⟩⟩
    exact lines_append (lines_append hls hls') (line_connectionLines k)
  rw [← hte, ← hcl]
  constructor
  · rintro ⟨status', fields', body', hread', hexcl, hends⟩
    obtain ⟨hlines, rfl⟩ := hread'.unique hread
    obtain ⟨rfl, rfl⟩ := List.cons.inj hlines
    exact ⟨hexcl, hends⟩
  · intro h
    exact ⟨status, _, e.body, hread, h⟩

/-- The end of a message that has content. -/
def Ends (te cl : List Bytes) (body : Bytes) : Prop :=
  if te = [] then announced cl = some body.length
  else finalChunked te = true ∧ ∃ t, ChunkedText t ∧ t.encode = body

theorem messageLength_endsWith_iff {status} (te cl : List Bytes) (body : Bytes)
    (hn : noContent method status = false) (hc : method ≠ ascii "CONNECT") :
    (messageLength method status te cl).EndsWith body ↔ Ends te cl body := by
  unfold messageLength Ends
  rw [if_neg (by simp [hn]), if_neg fun h => hc h.1]
  by_cases hte : te = []
  · rw [if_neg (not_not.mpr hte), if_pos hte]
    by_cases hcl : cl = []
    · subst hcl
      exact ⟨False.elim, fun h => by cases h⟩
    rw [if_pos hcl]
    cases announced cl with
    | none => exact ⟨False.elim, fun h => by cases h⟩
    | some n =>
      rw [Option.some.injEq]
      exact eq_comm
  rw [if_pos hte, if_neg hte]
  cases hf : finalChunked te with
  | true => exact ⟨fun h => ⟨rfl, h⟩, fun h => h.2⟩
  | false => exact ⟨False.elim, fun h => by cases h.1⟩

/-! ## Framing fields among the headers -/

def te : List Bytes := transferEncodings (es.map fieldLine)

def cl : List Bytes := contentLengths (es.map fieldLine)

def strays : List Entry :=
  es.filter fun e => !isContentLength e && !isTransferEncoding e

variable {name : Bytes}

theorem not_named {n} (h : ieq e.name n) (hn : COLON ∉ n) (hne : n ≠ name) :
    ieq (fieldName (fieldLine e)) name = false := by
  rw [fieldName_fieldLine (no_colon_of_ieq h hn), Bool.eq_false_iff]
  exact fun h' => hne (ieq_unique h h')

theorem cl_not_te (h : isContentLength e) :
    ieq (fieldName (fieldLine e)) (ascii "transfer-encoding") = false :=
  not_named h (by decide) (by decide)

theorem te_not_cl (h : isTransferEncoding e) :
    ieq (fieldName (fieldLine e)) (ascii "content-length") = false :=
  not_named h (by decide) (by decide)

theorem te_lengthless : te (es.filter fun e => !isContentLength e) = te es :=
  valuesOf_filter fun e _ h => cl_not_te (by simpa using h)

theorem strays_eq :
    strays es = (es.filter fun e => !isTransferEncoding e).filter fun e => !isContentLength e := by
  rw [filter_filter]
  rfl

theorem strays_eq' :
    strays es = (es.filter fun e => !isContentLength e).filter fun e => !isTransferEncoding e := by
  rw [filter_filter, strays]
  congr 1
  funext e
  exact Bool.and_comm _ _

theorem te_strays : te (es.filter fun e => !isTransferEncoding e) = te (strays es) := by
  rw [strays_eq, te_lengthless]

theorem cl_codingless : cl (es.filter fun e => !isTransferEncoding e) = cl es :=
  valuesOf_filter fun e _ h => te_not_cl (by simpa using h)

theorem cl_strays : cl (es.filter fun e => !isContentLength e) = cl (strays es) := by
  rw [strays_eq', cl_codingless]

theorem colon_mem_stray {es v} (h : v ∈ cl (strays es)) : COLON ∈ v := by
  obtain ⟨l, hl, rfl⟩ := mem_map.mp h
  obtain ⟨hmem, hname⟩ := mem_filter.mp hl
  obtain ⟨e, he, rfl⟩ := mem_map.mp hmem
  have hcl : isContentLength e = false := by
    have := (mem_filter.mp he).2
    simp only [Bool.and_eq_true, Bool.not_eq_true'] at this
    exact this.1
  by_cases hc : COLON ∈ e.name
  · -- the rest of the name and the colon behind it are part of the value
    obtain ⟨a, b, hab, ha⟩ := eq_append_cons_of_mem hc
    have hall : ∀ c ∈ a, decide (c ≠ COLON) :=
      fun c hc => decide_eq_true fun he => ha (he ▸ hc)
    have hrest : (fieldLine e).dropWhile (· ≠ COLON) =
        COLON :: (b ++ (ascii ": " ++ e.value)) := by
      rw [fieldLine, hab, append_assoc, append_assoc, dropWhile_append_of_pos hall]
      rfl
    rw [fieldValue, hrest]
    refine mem_trimOws ?_ (by decide)
    exact mem_append_right b (mem_append_left e.value (by decide))
  · rw [fieldName_fieldLine hc] at hname
    exact absurd hname (by rw [← isContentLength, hcl]; decide)

theorem announced_strays {es : List Entry} {vs : List Bytes} {n : Nat}
    (h : announced vs = some n) (hvs : ∀ v ∈ cl (strays es), v ∈ vs) : cl (strays es) = [] := by
  refine eq_nil_iff_forall_not_mem.mpr fun v hv => ?_
  exact no_colon_of_announced h v (hvs v hv) (colon_mem_stray hv)

/-! ## The header store -/

theorem find_eq (h : CoroResponseHeaders) {lower} (hl : name.map toLowerAscii = lower) :
    h.find name = h.entries.find? fun e => ieq e.name lower := by
  subst hl
  rfl

theorem find_transferEncoding (h : CoroResponseHeaders) :
    h.find (ascii "Transfer-Encoding") = h.entries.find? isTransferEncoding :=
  find_eq h (by decide)

theorem find?_isNone (p : Entry → Bool) : (es.find? p).isNone = !es.any p := by
  rw [Bool.eq_iff_iff, Option.isNone_iff_eq_none, List.find?_eq_none]
  simp

theorem find_contentLength (h : CoroResponseHeaders) :
    h.find (ascii "Content-Length") = h.entries.find? isContentLength :=
  find_eq h (by decide)

theorem valuesOf_found {es : List Entry}
    (h : es.find? (fun e => ieq e.name name) = some e) (hn : COLON ∉ name) :
    valuesOf name (es.map fieldLine) ≠ [] := by
  have hname : ieq e.name name := List.find?_some (p := fun e : Entry => ieq e.name name) h
  refine ne_nil_of_mem (mem_map.mpr ⟨fieldLine e, mem_filter.mpr ⟨?_, ?_⟩, rfl⟩)
  · exact mem_map.mpr ⟨e, mem_of_find?_eq_some h, rfl⟩
  · rw [fieldName_fieldLine (no_colon_of_ieq hname hn)]
    exact hname

theorem removeLoop_entries {name lower} (hl : name.map toLowerAscii = lower) :
    ∀ (n : Nat) (h : CoroResponseHeaders), h.entries.length ≤ n →
      (CoroResponseHeaders.removeLoop name n h).entries =
        h.entries.filter fun e => !ieq e.name lower
  | 0, h, hn => by
    have : h.entries = [] := eq_nil_of_length_eq_zero (Nat.le_zero.mp hn)
    rw [CoroResponseHeaders.removeLoop, this]
    rfl
  | n + 1, h, hn => by
    rw [CoroResponseHeaders.removeLoop, find_eq h hl]
    cases hf : h.entries.find? fun e => ieq e.name lower with
    | none =>
      rw [if_pos Option.isNone_none, filter_eq_self.mpr]
      intro e he
      simpa using List.find?_eq_none.mp hf e he
    | some e =>
      have hp : ieq e.name lower := List.find?_some (p := fun e : Entry => ieq e.name lower) hf
      obtain ⟨a, l₁, l₂, -, ha, hsplit, herase⟩ :=
        exists_of_eraseP (p := fun e => ieq e.name lower) (mem_of_find?_eq_some hf) hp
      have hrem : (h.remove name).entries = l₁ ++ l₂ := by
        rw [← herase, CoroResponseHeaders.remove]
        subst hl
        rfl
      have hlen : (h.remove name).entries.length ≤ n := by
        rw [hsplit] at hn
        rw [hrem]
        simp only [length_append, length_cons] at hn ⊢
        omega
      rw [if_neg (by simp), removeLoop_entries hl n _ hlen, hrem, hsplit]
      simp [ha]

theorem removeAllHeaders_entries (h : CoroResponseHeaders) (lower : Bytes)
    (hl : name.map toLowerAscii = lower) :
    (h.removeAllHeaders name).entries = h.entries.filter fun e => !ieq e.name lower :=
  removeLoop_entries hl _ h h.bounded

/-! ## The condition -/

def Stays (x : Exchange) : Prop := x.keepAlive ∧ x.delivered

/-- The buffered path: either the coding ends in chunked and no length is set,
or no coding is set and the length the head announces is the one of the bytes
that are written. -/
def BufferedSafe (x : Exchange) (r : CoroHttpResponse) : Prop :=
  let es := r.headers.entries
  if useChunked {} r then cl es = [] ∧ (Stays x → finalChunked (te es))
  else
    te es = [] ∧
      (Stays x →
        if es.any isContentLength then announced (cl es) = some (bufferedBody {} r).length
        else cl es = [] ∧ (bufferedBody {} r).length = r.bodyBytes.length)

def SilentSafe : Prop :=
  let es := r.headers.entries
  te (strays es) = [] ∨
    if r.status = 204 then cl (strays es) = []
    else r.isFixedStream = false ∧ r.streamProducer.isSome ∧ cl es = []

/-- **When a response is framed.** Framing fields that only the wire shows
(`strays`) apart, a response without content and a fixed stream that is not
refused are always framed, a stream in the clear needs a coding that ends in
chunked, and the rest is the buffered path's. -/
def FramesSafely (x : Exchange) (r : CoroHttpResponse) : Prop :=
  let es := r.headers.entries
  if suppressed (x.method == ascii "HEAD") r then SilentSafe r
  else if r.isFixedStream then
    if x.tls then
      (materializeFixed r x.maxFixedMaterializationBytes).isSome = true →
        te (strays es) = [] ∧ (Stays x → cl (strays es) = [])
    else if x.admitted then
      te (strays es) = [] ∧
        (Stays x → (fixedWrites r.declared r.writes).complete r.declared →
          cl (strays es) = [])
    else BufferedSafe x (refuseFixedStream r)
  else if r.streamProducer.isSome then
    if x.tls then BufferedSafe x (materializeStream r)
    else cl (strays es) = [] ∧
      (Stays x → es.any isTransferEncoding → finalChunked (te es))
  else BufferedSafe x r

/-! ## Each path -/

structure HasContent (method : Bytes) (status : UInt16) : Prop where
  head : method ≠ ascii "HEAD"
  connect : method ≠ ascii "CONNECT"
  final : 200 ≤ status
  not204 : status ≠ 204
  not304 : status ≠ 304

theorem HasContent.noContent_eq {status} (h : HasContent method status) :
    noContent method status.toNat = false := by
  have h200 : 200 ≤ status.toNat := UInt16.le_iff_toNat_le.mp h.final
  have h204 : status.toNat ≠ 204 := fun he => h.not204 (UInt16.toNat_inj.mp he)
  have h304 : status.toNat ≠ 304 := fun he => h.not304 (UInt16.toNat_inj.mp he)
  refine decide_eq_false ?_
  rintro (hm | h1 | h2 | h3)
  · exact h.head hm
  · omega
  · exact h204 h2
  · exact h304 h3

variable {r}

theorem content_framed_iff {e : Emission} {k} (hc : HasContent method r.status) (hm : Unbroken r.statusMessage)
    (he : e.lines = statusLine r :: (ls ++ ls' ++ connectionLines k)) (hls : ∀ l ∈ ls, Line l)
    (hls' : ∀ l ∈ ls', Line l) : WellFramed method e ↔
      (transferEncodings ls ++ transferEncodings ls' = [] ∨
        contentLengths ls ++ contentLengths ls' = []) ∧
        (e.keepAlive → Ends (transferEncodings ls ++ transferEncodings ls')
          (contentLengths ls ++ contentLengths ls') e.body) := by
  rw [wellFramed_iff he (line_statusLine hm) hls hls', statusCode_statusLine,
    messageLength_endsWith_iff _ _ _ hc.noContent_eq hc.connect]

theorem line_headers {r} (h : Unsplit r) {es} (hes : es ⊆ r.headers.entries) :
    ∀ l ∈ es.map fieldLine, Line l := by
  intro l hl
  obtain ⟨e, he, rfl⟩ := mem_map.mp hl
  obtain ⟨hn, hv⟩ := h.headers e (hes he)
  exact line_fieldLine hn hv

theorem stays_iff (x : Exchange) : (x.keepAlive && x.delivered) ↔ Stays x :=
  Bool.and_eq_true_iff

theorem streamFixedH1_framed_iff (hc : HasContent x.method r.status) (hu : Unsplit r) :
    WellFramed x.method (streamFixedH1 x r) ↔
      te (strays r.headers.entries) = [] ∧
        (Stays x → (fixedWrites r.declared r.writes).complete r.declared →
          cl (strays r.headers.entries) = []) := by
  have hlength : ∀ l ∈ [lengthLine r.declared], Line l :=
    fun l hl => mem_singleton.mp hl ▸ line_lengthLine _
  rw [content_framed_iff hc hu.message rfl (line_headers hu (filter_subset_self _)) hlength,
    transferEncodings_lengthLine, contentLengths_lengthLine, append_nil, ← te, ← cl, ← strays]
  have hkeep : (streamFixedH1 x r).keepAlive ↔
      Stays x ∧ (fixedWrites r.declared r.writes).complete r.declared := by
    rw [← stays_iff]
    exact Bool.and_eq_true_iff
  rw [hkeep]
  constructor
  · rintro ⟨hexcl, hends⟩
    have hnil := hexcl.resolve_right (by simp)
    refine ⟨hnil, fun hstays hcomplete => ?_⟩
    have hann := hends ⟨hstays, hcomplete⟩
    rw [Ends, if_pos hnil] at hann
    exact announced_strays hann fun v hv => mem_append_left _ hv
  rintro ⟨hnil, hcl⟩
  refine ⟨.inl hnil, fun ⟨hstays, hcomplete⟩ => ?_⟩
  rw [Ends, if_pos hnil, hcl hstays hcomplete, nil_append, announced_printed]
  have hlen := (Bool.and_eq_true_iff.mp hcomplete).2
  exact congrArg some (beq_iff_eq.mp hlen).symm

theorem finalChunked_append_chunked (vs : List Bytes) :
    finalChunked (vs ++ [ascii "chunked"]) := by
  have hlast : (listMembers [ascii "chunked"]).filter (· ≠ []) = [ascii "chunked"] := by decide
  simp only [finalChunked, listMembers_append, filter_append, hlast, List.getLast?_append,
    List.getLast?_singleton, Option.some_or]
  decide

theorem te_codingLines_ne_nil : te es ++ transferEncodings (codingLines es) ≠ [] := by
  cases hany : es.any isTransferEncoding with
  | true =>
    obtain ⟨e, he⟩ := Option.isSome_iff_exists.mp (List.find?_isSome.mpr (any_eq_true.mp hany))
    exact append_ne_nil_of_left_ne_nil (valuesOf_found he (by decide)) _
  | false =>
    refine append_ne_nil_of_right_ne_nil _ ?_
    rw [codingLines, hany]
    decide

theorem finalChunked_codingLines :
    finalChunked (te es ++ transferEncodings (codingLines es)) ↔
      (es.any isTransferEncoding → finalChunked (te es)) := by
  cases hany : es.any isTransferEncoding with
  | true =>
    have hnil : transferEncodings (codingLines es) = [] := by rw [codingLines, hany]; rfl
    rw [hnil, append_nil]
    exact ⟨fun h _ => h, fun h => h rfl⟩
  | false =>
    have hadd : transferEncodings (codingLines es) = [ascii "chunked"] := by
      rw [codingLines, hany]
      decide
    rw [hadd]
    exact ⟨fun _ h => (by cases h), fun _ => finalChunked_append_chunked _⟩

theorem contentLengths_codingLines : contentLengths (codingLines es) = [] := by
  unfold codingLines
  split <;> decide

theorem line_codingLines : ∀ l ∈ codingLines es, Line l := by
  intro l hl
  unfold codingLines at hl
  split at hl
  · cases hl
  · rw [mem_singleton.mp hl]
    exact ⟨by decide, by decide⟩

theorem streamChunkedH1_framed_iff (hc : HasContent x.method r.status) (hu : Unsplit r) :
    WellFramed x.method (streamChunkedH1 x r) ↔
      cl (strays r.headers.entries) = [] ∧
        (Stays x → r.headers.entries.any isTransferEncoding →
          finalChunked (te r.headers.entries)) := by
  have hbody : ∃ t, ChunkedText t ∧ t.encode = (streamChunkedH1 x r).body :=
    ⟨framesOf _, framesOf_text fun s hs => of_decide_eq_true (mem_filter.mp hs).2,
      framesOf_encode _⟩
  have hne := te_codingLines_ne_nil r.headers.entries
  rw [content_framed_iff hc hu.message rfl (line_headers hu (filter_subset_self _))
      (line_codingLines _), ← te, te_lengthless, ← cl, cl_strays, contentLengths_codingLines,
    append_nil, or_iff_right hne, Ends, if_neg hne, and_iff_left hbody, finalChunked_codingLines]
  exact Iff.and Iff.rfl (imp_congr_left (stays_iff x))

/-! ## The buffered path -/

theorem te_emitted : te (es.filter (emitted {} r)) = te es := by
  refine valuesOf_filter fun e _ h => ?_
  simp only [emitted, Bool.false_and, Bool.not_false, Bool.true_and, Bool.not_eq_false',
    Bool.and_eq_true] at h
  exact not_named h.1 (by decide) (by decide)

theorem cl_emitted : cl (es.filter (emitted {} r)) = cl es := by
  refine valuesOf_filter fun e _ h => ?_
  simp only [emitted, Bool.false_and, Bool.not_false, Bool.true_and, Bool.not_eq_false',
    Bool.and_eq_true] at h
  exact not_named h.1 (by decide) (by decide)

theorem line_implicitLines (policy : ResponseContentPolicy) (r : CoroHttpResponse) :
    ∀ l ∈ implicitLines policy r, Line l := by
  intro l hl
  unfold implicitLines at hl
  split at hl
  · rw [mem_singleton.mp hl]
    exact line_lengthLine _
  · cases hl

theorem te_implicitLines (policy : ResponseContentPolicy) (r : CoroHttpResponse) :
    transferEncodings (implicitLines policy r) = [] := by
  unfold implicitLines
  split
  · exact transferEncodings_lengthLine _
  · rfl

theorem sendBuffered_framed_iff' (hc : HasContent x.method r.status) (hu : Unsplit r) :
    WellFramed x.method (sendBuffered x {} r) ↔
      (te r.headers.entries = [] ∨
        contentLengths (implicitLines {} r) ++ cl r.headers.entries = []) ∧
      (Stays x → Ends (te r.headers.entries)
        (contentLengths (implicitLines {} r) ++ cl r.headers.entries) (bufferedBody {} r)) := by
  rw [content_framed_iff hc hu.message rfl (line_implicitLines {} r)
      (line_headers hu (filter_subset_self _)), te_implicitLines, nil_append, ← te, te_emitted,
    ← cl, cl_emitted]
  exact Iff.and Iff.rfl (imp_congr_left (stays_iff x))

theorem te_ne_nil_of_useChunked (h : useChunked {} r) : te r.headers.entries ≠ [] := by
  rw [useChunked, find_transferEncoding] at h
  cases hf : r.headers.entries.find? isTransferEncoding with
  | none => rw [hf] at h; cases h
  | some e => exact valuesOf_found hf (by decide)

theorem bufferedBody_chunked {r} (h : useChunked {} r) :
    ∃ t, ChunkedText t ∧ t.encode = bufferedBody {} r := by
  rw [bufferedBody, if_pos h]
  cases hb : r.bodyBytes with
  | nil => exact ⟨framesOf [], framesOf_text (by simp), framesOf_encode []⟩
  | cons c cs =>
    refine ⟨framesOf [c :: cs], framesOf_text (by simp), ?_⟩
    rw [framesOf_encode, flatMap_singleton]
    rfl

theorem implicitLines_eq (h : useChunked {} r = false) : implicitLines {} r =
      if r.headers.entries.any isContentLength then [] else [lengthLine r.bodyBytes.length] := by
  rw [implicitLines, find_contentLength, find?_isNone, h]
  cases r.headers.entries.any isContentLength <;> rfl

theorem strays_of_lengthless {es} (h : es.any isContentLength = false) :
    cl (strays es) = cl es := by
  rw [← cl_strays, filter_eq_self.mpr]
  intro e he
  simp [any_eq_false.mp h e he]

theorem sendBuffered_framed_iff {x : Exchange}
    (hc : HasContent x.method r.status) (hu : Unsplit r) :
    WellFramed x.method (sendBuffered x {} r) ↔ BufferedSafe x r := by
  rw [sendBuffered_framed_iff' hc hu]
  simp only [BufferedSafe]
  cases hch : useChunked {} r with
  | true =>
    have hne := te_ne_nil_of_useChunked hch
    have hnone : implicitLines {} r = [] := by rw [implicitLines, hch]; rfl
    rw [if_pos rfl, hnone, Ends, if_neg hne, and_iff_left (bufferedBody_chunked hch),
      or_iff_right hne]
    rfl
  | false =>
    rw [if_neg (by decide), implicitLines_eq hch]
    cases hany : r.headers.entries.any isContentLength with
    | true =>
      obtain ⟨e, he⟩ :=
        Option.isSome_iff_exists.mp (List.find?_isSome.mpr (any_eq_true.mp hany))
      have hne : cl r.headers.entries ≠ [] := valuesOf_found he (by decide)
      rw [if_pos rfl, if_pos rfl, contentLengths, valuesOf_nil, nil_append, or_iff_left hne]
      exact and_congr_right fun hnil => by rw [Ends, if_pos hnil]
    | false =>
      rw [if_neg (by decide), if_neg (by decide), contentLengths_lengthLine, or_iff_left (by simp)]
      refine and_congr_right fun hnil => imp_congr_right fun _ => ?_
      rw [Ends, if_pos hnil]
      constructor
      · intro hann
        have hcl : cl r.headers.entries = [] := by
          rw [← strays_of_lengthless hany]
          refine announced_strays hann fun v hv => mem_append_right _ ?_
          rw [← strays_of_lengthless hany]
          exact hv
        rw [hcl, append_nil, announced_printed] at hann
        exact ⟨hcl, (Option.some.inj hann).symm⟩
      · rintro ⟨hcl, hlen⟩
        rw [hcl, append_nil, announced_printed, hlen]

/-! ## Materialised streams -/

theorem strays_removeAll (h : CoroResponseHeaders) :
    ((h.removeAllHeaders (ascii "Transfer-Encoding")).removeAllHeaders
      (ascii "Content-Length")).entries = strays h.entries := by
  rw [removeAllHeaders_entries _ (ascii "content-length") (by decide),
    removeAllHeaders_entries _ (ascii "transfer-encoding") (by decide), strays_eq]
  rfl

theorem strays_any :
    (strays es).any isContentLength = false ∧ (strays es).any isTransferEncoding = false := by
  have hstray : ∀ e ∈ strays es, isContentLength e = false ∧ isTransferEncoding e = false := by
    intro e he
    have := (mem_filter.mp he).2
    simpa using this
  constructor
  · exact any_eq_false.mpr fun e he => by simp [(hstray e he).1]
  · exact any_eq_false.mpr fun e he => by simp [(hstray e he).2]

variable {h : CoroResponseHeaders}

theorem UnsplitHeaders.set (hh : UnsplitHeaders h.entries) {value} (hn : Unbroken name)
    (hv : Unbroken value) : UnsplitHeaders (h.set name value).entries := by
  have hassign : ∀ es, UnsplitHeaders es →
      UnsplitHeaders (CoroResponseHeaders.assign name value es) := by
    intro es hes
    induction es with
    | nil => exact hes
    | cons e es ih =>
      obtain ⟨he, htail⟩ := forall_mem_cons.mp hes
      simp only [CoroResponseHeaders.assign]
      split
      · exact forall_mem_cons.mpr ⟨⟨he.1, hv⟩, htail⟩
      · exact forall_mem_cons.mpr ⟨he, ih htail⟩
  unfold CoroResponseHeaders.set
  split
  · exact hassign _ hh
  unfold CoroResponseHeaders.append
  split
  · exact forall_mem_append.mpr ⟨hh, by simpa using ⟨hn, hv⟩⟩
  · exact hh

theorem UnsplitHeaders.remove (hh : UnsplitHeaders h.entries)
    (name : Bytes) : UnsplitHeaders (h.remove name).entries :=
  fun e he => hh e (mem_of_mem_eraseP he)

theorem set_length_entries {es} (hs : h.entries = strays es) (v : Bytes) :
    (h.set (ascii "Content-Length") v).entries = strays es ++ [⟨ascii "Content-Length", v⟩] ∨
      (h.set (ascii "Content-Length") v).entries = strays es := by
  have hnone : h.find (ascii "Content-Length") = none := by
    rw [find_contentLength, hs, List.find?_eq_none]
    exact fun e he => by simp [any_eq_false.mp (strays_any es).1 e he]
  rw [CoroResponseHeaders.set, hnone, if_neg (by simp), CoroResponseHeaders.append]
  split
  · exact .inl (congrArg (· ++ [_]) hs)
  · exact .inr hs

theorem bufferedBody_plain (hte : r.headers.entries.any isTransferEncoding = false)
    (hb : r.borrowed = none) : useChunked {} r = false ∧ bufferedBody {} r = r.body ∧
      r.bodyBytes = r.body := by
  have hch : useChunked {} r = false := by
    have hnone : r.headers.entries.find? isTransferEncoding = none :=
      List.find?_eq_none.mpr fun e he => by simp [any_eq_false.mp hte e he]
    rw [useChunked, find_transferEncoding, hnone]
    rfl
  have hbytes : r.bodyBytes = r.body := by rw [CoroHttpResponse.bodyBytes, hb]; rfl
  refine ⟨hch, ?_, hbytes⟩
  rw [bufferedBody, hch, if_neg (by decide), hbytes, ite_self]

variable {r' : CoroHttpResponse} {capacity : Nat}

theorem materializeFixed_some (h : materializeFixed r capacity = some r') :
    r'.status = r.status ∧ r'.statusMessage = r.statusMessage ∧ r'.borrowed = none ∧
      r'.headers = ((r.headers.removeAllHeaders (ascii "Transfer-Encoding")).removeAllHeaders
        (ascii "Content-Length")).set (ascii "Content-Length") (printed 10 r'.body.length) := by
  unfold materializeFixed at h
  split at h
  · cases h
  simp only at h
  split at h
  · cases h
    exact ⟨rfl, rfl, rfl, rfl⟩
  · cases h

theorem materializeFixed_unsplit {r} (h : materializeFixed r capacity = some r') (hu : Unsplit r) :
    Unsplit r' := by
  obtain ⟨-, hmsg, -, hhdr⟩ := materializeFixed_some h
  refine ⟨hmsg ▸ hu.message, ?_⟩
  have hname : Unbroken (ascii "Content-Length") := unbroken_ascii (by decide)
  rw [hhdr]
  refine UnsplitHeaders.set ?_ hname (unbroken_printed _)
  rw [strays_removeAll]
  exact fun e he => hu.headers e (filter_subset_self _ he)

theorem materializeFixed_safe_iff (h : materializeFixed r capacity = some r') :
    BufferedSafe x r' ↔
      te (strays r.headers.entries) = [] ∧ (Stays x → cl (strays r.headers.entries) = []) := by
  obtain ⟨-, -, hborrowed, hhdr⟩ := materializeFixed_some h
  have hstrays := strays_any r.headers.entries
  rcases set_length_entries (strays_removeAll r.headers) (printed 10 r'.body.length) with hes | hes
  · rw [← hhdr] at hes
    have hnoTe : r'.headers.entries.any isTransferEncoding = false := by
      rw [hes, any_append, hstrays.2]
      rfl
    have hany : r'.headers.entries.any isContentLength := by
      rw [hes, any_append, hstrays.1]
      rfl
    have hte : te r'.headers.entries = te (strays r.headers.entries) := by
      rw [hes, te, map_append, transferEncodings_append, map_singleton, ← lengthLine_eq,
        transferEncodings_lengthLine, append_nil, te]
    have hcl : cl r'.headers.entries =
        cl (strays r.headers.entries) ++ [printed 10 r'.body.length] := by
      rw [hes, cl, map_append, contentLengths_append, map_singleton, ← lengthLine_eq,
        contentLengths_lengthLine, cl]
    obtain ⟨hch, hbody, -⟩ := bufferedBody_plain hnoTe hborrowed
    simp only [BufferedSafe, hch, hany, hte, hcl, hbody, Bool.false_eq_true, if_false, if_true]
    refine and_congr_right fun _ => imp_congr_right fun _ => ⟨fun hann => ?_, fun hnil => ?_⟩
    · exact announced_strays hann fun v hv => mem_append_left _ hv
    · rw [hnil, nil_append, announced_printed]
  -- the store was full of strays: the length is the implicit one
  rw [← hhdr] at hes
  obtain ⟨hch, hbody, hbytes⟩ := bufferedBody_plain (hes ▸ hstrays.2) hborrowed
  simp only [BufferedSafe, hch, hes, hstrays.1, hbody, hbytes, Bool.false_eq_true, if_false,
    and_true]

/-! ## Responses without content -/

variable (r)

def silentPolicy : ResponseContentPolicy where
  suppressed := true
  implicitLength := r.status != 204 && (r.isFixedStream || r.streamProducer.isNone)
  fixedLength := r.isFixedStream
  representationLength := if r.isFixedStream then r.declared else r.bodyBytes.length

def silenced : CoroHttpResponse :=
  { r with
    streamProducer := none, fixedStreamLength := kNoFixedLength, body := []
    borrowed := none, bodySeparateWrite := false }

theorem prepareResponseContent_eq (head : Bool) :
    prepareResponseContent r head =
      if suppressed head r then (silentPolicy r, silenced r) else ({}, r) := rfl

theorem dropped_cases {policy r} (h : emitted policy r e = false)
    (ht : isTransferEncoding e = false) :
    (isContentLength e ∧ (r.status == 204 || policy.fixedLength)) ∨
      ieq e.name (ascii "content-encoding") := by
  simp only [emitted, ht, Bool.false_or, Bool.and_eq_false_iff, Bool.not_eq_false',
    Bool.and_eq_true] at h
  rcases h with ⟨-, hcl⟩ | ⟨hce, -⟩
  · exact .inl hcl
  · exact .inr hce

theorem filter_silent :
    es.filter (emitted (silentPolicy r) r) =
      (es.filter fun e => !isTransferEncoding e).filter (emitted (silentPolicy r) r) := by
  rw [filter_filter]
  congr 1
  funext e
  cases ht : isTransferEncoding e <;> simp [emitted, silentPolicy, ht]

theorem te_silent : te (es.filter (emitted (silentPolicy r) r)) = te (strays es) := by
  rw [filter_silent, ← te_strays]
  refine valuesOf_filter fun e he h => ?_
  have ht : isTransferEncoding e = false := by simpa using (mem_filter.mp he).2
  rcases dropped_cases h ht with ⟨hcl, -⟩ | hce
  · exact cl_not_te hcl
  · exact not_named hce (by decide) (by decide)

theorem cl_silent :
    cl (es.filter (emitted (silentPolicy r) r)) =
      if r.status == 204 || r.isFixedStream then cl (strays es) else cl es := by
  rw [filter_silent]
  split
  · rename_i hdrop
    -- the lengths are dropped too, so only strays are left to filter
    have hsub : (es.filter fun e => !isTransferEncoding e).filter (emitted (silentPolicy r) r) =
        (strays es).filter (emitted (silentPolicy r) r) := by
      rw [strays_eq, filter_filter, filter_filter, filter_filter]
      congr 1
      funext e
      cases hcl : isContentLength e <;> simp [emitted, silentPolicy, hcl, hdrop]
    rw [hsub]
    refine valuesOf_filter fun e he h => ?_
    obtain ⟨hcl, hte⟩ : isContentLength e = false ∧ isTransferEncoding e = false := by
      simpa using (mem_filter.mp he).2
    rcases dropped_cases h hte with ⟨hcl', -⟩ | hce
    · rw [hcl] at hcl'
      cases hcl'
    · exact not_named hce (by decide) (by decide)
  rename_i hkeep
  rw [← cl_codingless es]
  refine valuesOf_filter fun e he h => ?_
  have hte : isTransferEncoding e = false := by simpa using (mem_filter.mp he).2
  rcases dropped_cases h hte with ⟨-, hdrop⟩ | hce
  · exact absurd hdrop hkeep
  · exact not_named hce (by decide) (by decide)

theorem implicitLines_silent :
    implicitLines (silentPolicy r) (silenced r) =
      if r.status != 204 && (r.isFixedStream || r.streamProducer.isNone) &&
          (r.isFixedStream || !r.headers.entries.any isContentLength) then
        [lengthLine (silentPolicy r).representationLength]
      else [] := by
  have hfind : ((silenced r).headers.find (ascii "Content-Length")).isNone =
      !r.headers.entries.any isContentLength := by
    rw [find_contentLength, find?_isNone]
    rfl
  rw [implicitLines, hfind]
  rfl

theorem silent_lengthless_iff :
    contentLengths (implicitLines (silentPolicy r) (silenced r)) ++
        cl (r.headers.entries.filter (emitted (silentPolicy r) r)) = [] ↔
      if r.status = 204 then cl (strays r.headers.entries) = []
      else r.isFixedStream = false ∧ r.streamProducer.isSome ∧
        cl r.headers.entries = [] := by
  rw [implicitLines_silent, cl_silent]
  by_cases h204 : r.status = 204
  · simp [h204, contentLengths]
  cases hfix : r.isFixedStream with
  | true => simp [h204, contentLengths_lengthLine]
  | false =>
    cases hprod : r.streamProducer with
    | some ws => simp [h204, contentLengths]
    | none =>
      -- a length is there: the handler's, or the implicit one
      cases hany : r.headers.entries.any isContentLength with
      | true =>
        obtain ⟨e, he⟩ :=
          Option.isSome_iff_exists.mp (List.find?_isSome.mpr (any_eq_true.mp hany))
        have hne : cl r.headers.entries ≠ [] := valuesOf_found he (by decide)
        simp [h204, contentLengths, hne]
      | false => simp [h204, contentLengths_lengthLine]

theorem sendSilent_framed_iff {r} (hu : Unsplit r)
    (h : suppressed (x.method == ascii "HEAD") r) :
    WellFramed x.method (sendBuffered x (silentPolicy r) (silenced r)) ↔ SilentSafe r := by
  have hno : noContent x.method r.status.toNat := by
    simp only [suppressed, Bool.or_eq_true, beq_iff_eq] at h
    refine decide_eq_true ?_
    rcases h with (hm | h204) | h304
    · exact .inl hm
    · exact .inr (.inr (.inl (by rw [h204]; rfl)))
    · exact .inr (.inr (.inr (by rw [h304]; rfl)))
  have hbody : bufferedBody (silentPolicy r) (silenced r) = [] := rfl
  rw [wellFramed_iff rfl (line_statusLine (r := silenced r) hu.message)
      (line_implicitLines (silentPolicy r) (silenced r))
      (line_headers hu (filter_subset_self (p := emitted (silentPolicy r) r) _)),
    statusCode_statusLine, te_implicitLines, nil_append]
  rw [show (silenced r).status = r.status from rfl, messageLength, if_pos hno, ← te, te_silent,
    ← cl, silent_lengthless_iff]
  exact and_iff_left fun _ => hbody

/-! ## All paths -/

theorem refuseFixedStream_unsplit {r} (hu : Unsplit r) : Unsplit (refuseFixedStream r) := by
  refine ⟨unbroken_ascii (by decide), ?_⟩
  exact (((hu.headers.remove _).remove _).remove _).set (unbroken_ascii (by decide))
    (unbroken_ascii (by decide))

theorem refuseFixedMaterialization_safe (x : Exchange) :
    BufferedSafe x refuseFixedMaterialization :=
  ⟨rfl, fun _ => rfl⟩

theorem materializeStream_unsplit {r} (hu : Unsplit r) :
    Unsplit (materializeStream r) ∧ (materializeStream r).status = r.status := by
  unfold materializeStream
  split
  · exact ⟨hu, rfl⟩
  · exact ⟨⟨hu.message, hu.headers⟩, rfl⟩

variable {r}

theorem hasContent_of_not_suppressed (hs : 200 ≤ r.status) (hm : method ≠ ascii "CONNECT")
    (h : suppressed (method == ascii "HEAD") r = false) : HasContent method r.status := by
  simp only [suppressed, Bool.or_eq_false_iff, beq_eq_false_iff_ne] at h
  exact ⟨h.1.1, hm, hs, h.1.2, h.2⟩

theorem HasContent.withStatus {status status'} (h : HasContent method status)
    (hs : 200 ≤ status' ∧ status' ≠ 204 ∧ status' ≠ 304) : HasContent method status' :=
  ⟨h.head, h.connect, hs.1, hs.2.1, hs.2.2⟩

theorem emit_silent {r} (h : suppressed (x.method == ascii "HEAD") r) :
    emit x r = sendBuffered x (silentPolicy r) (silenced r) := by
  rw [emit, prepareResponseContent_eq, if_pos h]
  rfl

theorem emit_content (h : suppressed (x.method == ascii "HEAD") r = false) : emit x r =
      if r.isFixedStream then
        if !x.tls then
          if x.admitted then streamFixedH1 x r else sendBuffered x {} (refuseFixedStream r)
        else
          sendBuffered x {}
            ((materializeFixed r x.maxFixedMaterializationBytes).getD refuseFixedMaterialization)
      else if r.streamProducer.isSome then
        if !x.tls then streamChunkedH1 x r else sendBuffered x {} (materializeStream r)
      else sendBuffered x {} r := by
  rw [emit, prepareResponseContent_eq, if_neg (by simp [h])]

theorem sendMaterialized_framed_iff (capacity : Nat) (hc : HasContent x.method r.status)
    (hu : Unsplit r) : WellFramed x.method
        (sendBuffered x {} ((materializeFixed r capacity).getD refuseFixedMaterialization)) ↔
      ((materializeFixed r capacity).isSome →
        te (strays r.headers.entries) = [] ∧ (Stays x → cl (strays r.headers.entries) = [])) := by
  cases hmat : materializeFixed r capacity with
  | none =>
    have hun : Unsplit refuseFixedMaterialization :=
      ⟨unbroken_ascii (by decide), UnsplitHeaders.set (h := .ofList []) (fun _ h => by cases h)
        (unbroken_ascii (by decide)) (unbroken_ascii (by decide))⟩
    have hframed := (sendBuffered_framed_iff (hc.withStatus (by decide)) hun).mpr
      (refuseFixedMaterialization_safe x)
    exact ⟨fun _ h => (by cases h), fun _ => hframed⟩
  | some r' =>
    have hst := (materializeFixed_some hmat).1
    rw [Option.getD_some, sendBuffered_framed_iff (hst ▸ hc) (materializeFixed_unsplit hmat hu),
      materializeFixed_safe_iff hmat]
    exact ⟨fun h _ => h, fun h => h rfl⟩

/-- **Framing of responses.** What the server emits for a response is one
message that ends where its body does, with at most one of the two framing
fields, exactly when the response frames safely. -/
theorem response_framed_iff (x : Exchange) (r : CoroHttpResponse) (hs : 200 ≤ r.status)
    (hm : x.method ≠ ascii "CONNECT") (hu : Unsplit r) :
    WellFramed x.method (emit x r) ↔ FramesSafely x r := by
  unfold FramesSafely
  cases hsup : suppressed (x.method == ascii "HEAD") r with
  | true =>
    rw [emit_silent hsup]
    exact sendSilent_framed_iff hu hsup
  | false =>
    have hc := hasContent_of_not_suppressed hs hm hsup
    rw [emit_content hsup]
    cases r.isFixedStream with
    | true =>
      cases x.tls with
      | true => exact sendMaterialized_framed_iff _ hc hu
      | false =>
        cases x.admitted with
        | true => exact streamFixedH1_framed_iff hc hu
        | false =>
          have h503 : HasContent x.method 503 := hc.withStatus (by decide)
          exact sendBuffered_framed_iff h503 (refuseFixedStream_unsplit hu)
    | false =>
      cases r.streamProducer.isSome with
      | true =>
        cases x.tls with
        | true =>
          obtain ⟨hu', hst⟩ := materializeStream_unsplit hu
          exact sendBuffered_framed_iff (hst ▸ hc) hu'
        | false => exact streamChunkedH1_framed_iff hc hu
      | false => exact sendBuffered_framed_iff hc hu

def plainGet : Exchange :=
  { method := ascii "GET", keepAlive := true, tls := false, admitted := true
    maxFixedMaterializationBytes := 0, delivered := true }

/-- An owned body under the implicit length. -/
def plainHello : CoroHttpResponse := { body := ascii "hello", headers := .ofList [] CoroResponseHeaders.none_bounded }

theorem response_framed_hello : WellFramed plainGet.method (emit plainGet plainHello) :=
  (response_framed_iff plainGet plainHello (by decide) (by decide)
    ⟨unbroken_ascii (by decide), fun _ h => by cases h⟩).mpr
    ⟨rfl, fun _ => ⟨rfl, rfl⟩⟩

/-- The same body with both framing headers set, the length to the body's. -/
def bothHello : CoroHttpResponse :=
  { body := ascii "hello"
    headers := .ofList [⟨ascii "Transfer-Encoding", ascii "chunked"⟩,
      ⟨ascii "Content-Length", ascii "5"⟩] }

/-- The buffered path writes both headers out. -/
theorem both_headers_emitted :
    200 ≤ bothHello.status ∧ Unsplit bothHello ∧
      (∀ e ∈ bothHello.headers.entries, isContentLength e = true →
        e.value = printed 10 bothHello.bodyBytes.length) ∧
      ¬ WellFramed plainGet.method (emit plainGet bothHello) := by
  have hun : Unsplit bothHello := by
    refine ⟨unbroken_ascii (by decide), ?_⟩
    refine forall_mem_cons.mpr ⟨⟨unbroken_ascii (by decide), unbroken_ascii (by decide)⟩, ?_⟩
    refine forall_mem_cons.mpr ⟨⟨unbroken_ascii (by decide), unbroken_ascii (by decide)⟩, ?_⟩
    exact fun _ h => by cases h
  refine ⟨by decide, hun, by decide, ?_⟩
  have hc : HasContent plainGet.method bothHello.status :=
    ⟨by decide, by decide, by decide, by decide, by decide⟩
  have hemit : emit plainGet bothHello = sendBuffered plainGet {} bothHello := rfl
  rw [hemit, sendBuffered_framed_iff hc hun]
  intro h
  have hlengths : cl bothHello.headers.entries = [ascii "5"] := by decide
  have hchunked : useChunked {} bothHello := by decide
  simp only [BufferedSafe, hchunked, if_true, hlengths] at h
  exact absurd h.1 (by simp)

end BoltApi.Http1.ResponseFraming
