import Mathlib.Order.WellFounded
import BoltApi.Http1.Connection
import BoltApi.Http1.Framing
import BoltApi.Http1.Dechunk

/-! # The connection loop does not see where the reads fell

What the loop should hand to the handler is a function of the byte stream
alone: `requestsOf` parses it from the front again and again. A run of the loop
hands over just that, whatever segments the stream arrives in, as long as the
run stays `Tame`. The conditions are those the code does not take care of:

* a left-over that holds only part of a request is measured against the header
  limit, also when its head is complete;
* a left-over larger than the stack buffer is dropped with the arena buffer;
* the parser stores more fields than a `CoroHttpRequest` has room for;
* the raw form of a chunked body has its own limit. -/
namespace BoltApi.Http1.ConnectionSplit
open Octets Lib.Scanning Chunked ChunkedGrammar List
open Http1.Parser ParserStable ParserHead Framing
open Connection Dechunk

/-! ## What the stream holds -/

def decodedBody (r : ParseResult) : Bytes :=
  if r.req.chunked then
    let d := dechunkInPlace r.req.body r.req.body.length
    d.1.take d.2
  else r.req.body

def requestOf (r : ParseResult) : CoroHttpRequest :=
  { method := r.req.methodStr, path := r.req.path, query := r.req.query
    headers := r.req.headers, body := decodedBody r }

/-- How the parsing of a stream ends: it wants more bytes, it meets bytes that
are no request, or a request was the last one. -/
inductive Ending
  | waiting
  | malformed
  | finished
  deriving DecidableEq

variable (cfg : Config) (serve : Nat → CoroHttpRequest → Bool)

/-- The requests of a stream from the `k`-th on, at most `fuel` of them. -/
def requests : Nat → Nat → Bytes → List CoroHttpRequest × Ending
  | 0, _, _ => ([], .waiting)
  | fuel + 1, k, W =>
    let r := parse {} W
    match r.rc with
    | .more => ([], .waiting)
    | .bad => ([], .malformed)
    | .ok =>
      if r.req.keepAlive ∧ serve k (requestOf r) then
        let rest := requests fuel (k + 1) (W.drop r.consumed)
        (requestOf r :: rest.1, rest.2)
      else ([requestOf r], .finished)

/-- The requests obtained by parsing `W` from the front. Every request takes at
least one byte, so the bound is no restriction (`requestsOf_eq`). -/
def requestsOf (k : Nat) (W : Bytes) : List CoroHttpRequest × Ending :=
  requests serve (W.length + 1) k W

def Respects (r : ParseResult) : Prop :=
  headerBytes r ≤ cfg.maxHeaderSize ∧ r.req.contentLength ≤ cfg.maxBodySize ∧
    (decodedBody r).length ≤ cfg.maxBodySize

def RespectsFor : Nat → Nat → Bytes → Prop
  | 0, _, _ => True
  | fuel + 1, k, W =>
    match (parse {} W).rc with
    | .bad => True
    | .more => W = [] ∨ ∃ X, (parse {} (W ++ X)).rc = .ok ∧ Respects cfg (parse {} (W ++ X))
    | .ok => Respects cfg (parse {} W) ∧
      ((parse {} W).req.keepAlive → serve k (requestOf (parse {} W)) →
        RespectsFor fuel (k + 1) (W.drop (parse {} W).consumed))

def RespectsAll (k : Nat) (W : Bytes) : Prop := RespectsFor cfg serve (W.length + 1) k W

variable {cfg serve}

theorem consumed_pos {W} (h : (parse {} W).rc = .ok) : 0 < (parse {} W).consumed := by
  obtain ⟨head, body, rest, m⟩ := message_of_ok h
  have := length_pos_iff.mpr m.head_ne
  rw [m.consumed]
  omega

theorem drop_length_lt {W : Bytes} (h : (parse {} W).rc = .ok) :
    (W.drop (parse {} W).consumed).length < W.length := by
  have hpos := consumed_pos h
  have hne : W.length ≠ 0 := by
    intro h0
    rw [length_eq_zero_iff.mp h0] at h
    cases h
  rw [length_drop]
  omega

theorem requests_fuel : ∀ (f f' k : Nat) (W : Bytes), W.length < f → W.length < f' →
    requests serve f k W = requests serve f' k W
  | 0, _, _, _, h, _ => by omega
  | _, 0, _, _, _, h => by omega
  | f + 1, f' + 1, k, W, h, h' => by
    rw [requests, requests]
    cases hrc : (parse {} W).rc with
    | ok =>
      have hlt := drop_length_lt hrc
      simp only
      rw [requests_fuel f f' (k + 1) _ (by omega) (by omega)]
    | _ => rfl

theorem requestsOf_eq (k : Nat) (W : Bytes) :
    requestsOf serve k W =
      match (parse {} W).rc with
      | .more => ([], .waiting)
      | .bad => ([], .malformed)
      | .ok =>
        if (parse {} W).req.keepAlive ∧ serve k (requestOf (parse {} W)) then
          (requestOf (parse {} W) ::
              (requestsOf serve (k + 1) (W.drop (parse {} W).consumed)).1,
            (requestsOf serve (k + 1) (W.drop (parse {} W).consumed)).2)
        else ([requestOf (parse {} W)], .finished) := by
  rw [requestsOf, requests]
  cases hrc : (parse {} W).rc with
  | ok =>
    have hlt := drop_length_lt hrc
    simp only [requestsOf]
    rw [requests_fuel W.length _ (k + 1) _ hlt (Nat.lt_succ_self _)]
  | _ => rfl

theorem respectsFor_fuel : ∀ (f f' k : Nat) (W : Bytes), W.length < f → W.length < f' →
    (RespectsFor cfg serve f k W ↔ RespectsFor cfg serve f' k W)
  | 0, _, _, _, h, _ => by omega
  | _, 0, _, _, _, h => by omega
  | f + 1, f' + 1, k, W, h, h' => by
    rw [RespectsFor, RespectsFor]
    cases hrc : (parse {} W).rc with
    | ok =>
      have hlt := drop_length_lt hrc
      simp only
      rw [respectsFor_fuel f f' (k + 1) _ (by omega) (by omega)]
    | _ => exact Iff.rfl

variable {k : Nat}

theorem RespectsAll.ok {W} (h : RespectsAll cfg serve k W) (hrc : (parse {} W).rc = .ok) :
    Respects cfg (parse {} W) ∧
      ((parse {} W).req.keepAlive → serve k (requestOf (parse {} W)) →
        RespectsAll cfg serve (k + 1) (W.drop (parse {} W).consumed)) := by
  rw [RespectsAll, RespectsFor, hrc] at h
  obtain ⟨hr, hnext⟩ := h
  refine ⟨hr, fun hk hs => ?_⟩
  have hlt := drop_length_lt hrc
  exact (respectsFor_fuel _ _ _ _ hlt (Nat.lt_succ_self _)).mp (hnext hk hs)

theorem respectsAll_nil (k : Nat) : RespectsAll cfg serve k [] := Or.inl rfl

theorem respectsAll_ok {W} (hrc : (parse {} W).rc = .ok) (hr : Respects cfg (parse {} W))
    (hnext : RespectsAll cfg serve (k + 1) (W.drop (parse {} W).consumed)) :
    RespectsAll cfg serve k W := by
  have hlt := drop_length_lt hrc
  rw [RespectsAll, RespectsFor, hrc]
  exact ⟨hr, fun _ _ => (respectsFor_fuel _ _ _ _ (Nat.lt_succ_self _) hlt).mp hnext⟩

theorem RespectsAll.extends {W} (h : RespectsAll cfg serve k W) (hne : W ≠ [])
    (hbad : (parse {} W).rc ≠ .bad) :
    ∃ X, (parse {} (W ++ X)).rc = .ok ∧ Respects cfg (parse {} (W ++ X)) := by
  cases hrc : (parse {} W).rc with
  | bad => exact absurd hrc hbad
  | ok =>
    refine ⟨[], ?_⟩
    rw [append_nil]
    exact ⟨hrc, (h.ok hrc).1⟩
  | more =>
    rw [RespectsAll, RespectsFor, hrc] at h
    exact h.resolve_left hne

/-! ## A complete request -/

variable {i : Bytes}

theorem headerBytes_eq {head body rest} (m : Message i head body rest) :
    headerBytes (parse {} i) = head.length := by
  have hpos := length_pos_iff.mpr m.head_ne
  rw [headerBytes, m.parsed, m.consumed, if_pos (by omega), Nat.add_sub_cancel]

variable {buf : Bytes}

theorem decodeInBuffer_eq (h : (parse {} buf).rc = .ok) :
    (decodeInBuffer buf (parse {} buf)).2 = decodedBody (parse {} buf) ∧
      (decodeInBuffer buf (parse {} buf)).1.drop (parse {} buf).consumed =
        buf.drop (parse {} buf).consumed := by
  obtain ⟨head, body, rest, m⟩ := message_of_ok h
  unfold decodeInBuffer decodedBody
  by_cases hch : (parse {} buf).req.chunked = true
  · obtain ⟨t, ht, hbody⟩ := m.chunked hch
    obtain ⟨htake, -, hdrop⟩ := dechunkInPlace_spec ht rest
    obtain ⟨htake', -, -⟩ := dechunkInPlace_spec ht []
    rw [append_nil] at htake'
    have hoff : (parse {} buf).consumed - (parse {} buf).req.body.length = head.length := by
      rw [m.consumed, m.parsed, Nat.add_sub_cancel]
    have hbuf : buf.drop head.length = t.encode ++ rest := by
      rw [m.split, drop_left, hbody]
    have hhead : (buf.take head.length).length = head.length := by
      rw [m.split, take_left]
    simp only [hch, if_true, hoff]
    rw [hbuf, m.parsed, hbody]
    refine ⟨htake.trans htake'.symm, ?_⟩
    rw [m.consumed, ← drop_drop, ← drop_drop, drop_left' hhead, hbody, hdrop, hbuf, drop_left]
  · simp only [hch, Bool.false_eq_true, if_false, and_self]

theorem leadingDecimal_of_contentLength {v n} (h : parseContentLength v = some n) :
    leadingDecimal v = n := by
  unfold parseContentLength at h
  split at h
  · cases h
  split at h
  · rename_i hall
    split at h
    · cases h
    · cases h
      rw [leadingDecimal, takeWhile_eq_self_iff.mpr fun c hc => all_eq_true.mp hall c hc]
  · cases h

theorem contentLength_check (h : (parse {} i).rc = .ok) (req : CoroHttpRequest)
    (hreq : req.headers = (parse {} i).req.headers)
    (hle : (parse {} i).req.contentLength ≤ cfg.maxBodySize) :
    (req.findHeader (ascii "Content-Length")).any (cfg.maxBodySize < leadingDecimal ·) = false := by
  obtain ⟨head, body, rest, m⟩ := message_of_ok h
  obtain ⟨f, hf, hlen⟩ := m.fields
  unfold CoroHttpRequest.findHeader
  cases hfind : req.headers.find? fun a => strEqCi a.name (ascii "Content-Length") with
  | none => rfl
  | some a =>
    have hmem := mem_of_find?_eq_some hfind
    have hname : ieq a.name (ascii "content-length") := by
      have := List.find?_some hfind
      rw [strEqCi] at this
      rw [ieq]
      exact this
    rw [hreq] at hmem
    have hval := leadingDecimal_of_contentLength ((framingFields_collected hf).lengths a hmem hname)
    simp only [Option.map_some, Option.any_some, hval, decide_eq_false_iff_not]
    omega

/-! ## The HTTP/2 preface -/

theorem preface_unreached : ∀ n < 25, (parse {} (CONNECTION_PREFACE.take n)).rc ≠ .ok ∧
    (parse {} (CONNECTION_PREFACE.take n)).req.hasContentLength = false ∧
    (parse {} (CONNECTION_PREFACE.take n)).req.chunked = false := by
  decide

variable {c : Conn}

theorem looksLikeH2c_take (h : looksLikeH2c cfg c) :
    c.buf.take CONNECTION_PREFACE.length = CONNECTION_PREFACE.take c.buf.length := by
  simp only [looksLikeH2c, Bool.and_eq_true, beq_iff_eq] at h
  exact h.2

theorem preface_begun (hlt : buf.length < CONNECTION_PREFACE.length)
    (h : buf.take CONNECTION_PREFACE.length = CONNECTION_PREFACE.take buf.length) :
    (parse {} buf).rc ≠ .ok ∧ ¬ Reached (parse {} buf) := by
  rw [take_of_length_le (Nat.le_of_lt hlt)] at h
  have hlen : CONNECTION_PREFACE.length = 24 := by decide
  obtain ⟨hok, hcl, hch⟩ := preface_unreached buf.length (by omega)
  rw [← h] at hok hcl hch
  refine ⟨hok, ?_⟩
  rintro (h' | h' | h')
  · exact hok h'
  · rw [hcl] at h'
    cases h'
  · rw [hch] at h'
    cases h'

theorem preface_bad (hge : CONNECTION_PREFACE.length ≤ buf.length)
    (h : buf.take CONNECTION_PREFACE.length = CONNECTION_PREFACE.take buf.length) (x : Bytes) :
    (parse {} (buf ++ x)).rc = .bad := by
  have hbad : (parse {} CONNECTION_PREFACE).rc = .bad := by decide
  rw [take_of_length_le hge] at h
  have hbuf : buf = CONNECTION_PREFACE ++ buf.drop CONNECTION_PREFACE.length := by
    conv_rhs => rw [← h]
    rw [length_take, Nat.min_eq_left hge, take_append_drop]
  rw [hbuf, append_assoc, parse_append _ (by rw [hbad]; decide)]
  exact hbad

/-! ## The invariant -/

/-- What the loop has not parsed yet. -/
def unparsed (s : State) : Bytes := s.conn.buf ++ s.net.flatten

variable (cfg serve)

structure Open (W : Bytes) (s : State) : Prop where
  spec : requestsOf serve 0 W =
    (s.handed ++ (requestsOf serve s.handed.length (unparsed s)).1,
      (requestsOf serve s.handed.length (unparsed s)).2)
  respects : RespectsAll cfg serve s.handed.length (unparsed s)
  suffix : unparsed s <:+ W
  net : ∀ seg ∈ s.net, seg ≠ []

structure Idle (c : Conn) : Prop where
  cap : c.cap = STACK_BUF_SIZE
  arena : c.arena = false
  bodyDetected : c.bodyDetected = false
  chunkedBody : c.chunkedBody = false

structure Reading (c : Conn) : Prop where
  resume : ∀ x, parse c.req (c.buf ++ x) = parse {} (c.buf ++ x)
  notOk : (parse {} c.buf).rc ≠ .ok
  stack : c.arena = false → c.cap = STACK_BUF_SIZE
  quiet : c.bodyDetected = false → c.chunkedBody = false ∧ c.cap = STACK_BUF_SIZE ∧
    (¬ Reached (parse {} c.buf) ∨
      (c.buf.length ≤ cfg.maxHeaderSize ∧ c.buf.length < STACK_BUF_SIZE))
  body : c.bodyDetected → (parse {} c.buf).rc = .more ∧ Reached (parse {} c.buf) ∧
    (c.chunkedBody = false → (parse {} c.buf).req.hasContentLength ∧
      cfg.maxHeaderSize + (parse {} c.buf).req.contentLength ≤ c.cap)

def Inv (W : Bytes) (s : State) : Prop :=
  match s.phase with
  | .top => Open cfg serve W s ∧ Idle s.conn
  | .reading => Open cfg serve W s ∧ Reading cfg s.conn
  | .parsed r => Open cfg serve W s ∧ r = parse {} s.conn.buf ∧ r.rc ≠ .more ∧
    (s.conn.arena = false → s.conn.cap = STACK_BUF_SIZE)
  | .closed why => s.handed = (requestsOf serve 0 W).1 ∧
    (why = .headerFieldsTooLarge ∨ why = .payloadTooLarge →
      (requestsOf serve 0 W).2 = .malformed)

/-- A turn that takes no request off the stream, and may close the connection. -/
def Onward (W : Bytes) (s s' : State) : Prop :=
  Inv cfg serve W s' ∧
    ((∃ why, s'.phase = .closed why) ∨ unparsed s' = unparsed s ∧ s'.phase ≠ .top)

/-- What the code relies on and does not ensure. -/
def Tame (s : State) : Prop :=
  match s.phase with
  | .top => (parse {} s.conn.buf).rc = .more →
    s.conn.buf.length ≤ cfg.maxHeaderSize ∧ s.conn.buf.length < STACK_BUF_SIZE
  | .reading => s.conn.chunkedBody = true → s.conn.buf.length < chunkedBufferLimit cfg
  | .parsed r => r.rc = .ok → r.req.headers.length ≤ CoroHttpRequest.MAX_HEADERS ∧
    (s.conn.arena → s.conn.buf.length - r.consumed ≤ STACK_BUF_SIZE)
  | .closed _ => True

instance (s : State) : Decidable (Tame cfg s) := by
  unfold Tame
  split <;> infer_instance

variable {cfg serve} {W : Bytes} {s : State}

theorem Open.of_rem {s' : State} (h : Open cfg serve W s) (hhanded : s'.handed = s.handed)
    (hrem : unparsed s' = unparsed s) (hnet : ∀ seg ∈ s'.net, seg ≠ []) : Open cfg serve W s' := by
  obtain ⟨hspec, hresp, hsuffix, _⟩ := h
  refine ⟨?_, ?_, ?_, hnet⟩
  · rw [hhanded, hrem]
    exact hspec
  · rw [hhanded, hrem]
    exact hresp
  · rw [hrem]
    exact hsuffix

theorem Open.refused {net why} (h : Open cfg serve W s)
    (hbad : (parse {} (unparsed s)).rc = .bad) : Inv cfg serve W ⟨c, .closed why, net, s.handed⟩ := by
  have hrest : requestsOf serve s.handed.length (unparsed s) = ([], .malformed) := by
    rw [requestsOf_eq, hbad]
  unfold Inv
  rw [h.spec, hrest]
  exact ⟨(append_nil _).symm, fun _ => rfl⟩

section
variable (hresume : ∀ x, parse c.req (c.buf ++ x) = parse {} (c.buf ++ x))
include hresume

theorem Reading.of_quiet (hok : (parse {} c.buf).rc ≠ .ok) (hb : c.bodyDetected = false)
    (hch : c.chunkedBody = false) (hcap : c.cap = STACK_BUF_SIZE) (hsmall : ¬ Reached (parse {} c.buf) ∨
      (c.buf.length ≤ cfg.maxHeaderSize ∧ c.buf.length < STACK_BUF_SIZE)) : Reading cfg c :=
  ⟨hresume, hok, fun _ => hcap, fun _ => ⟨hch, hcap, hsmall⟩, fun h => nomatch hb.symm.trans h⟩

theorem Reading.of_body (hmore : (parse {} c.buf).rc = .more) (hb : c.bodyDetected)
    (hstack : c.arena = false → c.cap = STACK_BUF_SIZE) (hreach : Reached (parse {} c.buf))
    (hlen : c.chunkedBody = false → (parse {} c.buf).req.hasContentLength ∧
      cfg.maxHeaderSize + (parse {} c.buf).req.contentLength ≤ c.cap) : Reading cfg c :=
  ⟨hresume, by rw [hmore]; decide, hstack, fun h => (nomatch hb.symm.trans h),
    fun _ => ⟨hmore, hreach, hlen⟩⟩

end

theorem Reading.fits (hmax : cfg.maxHeaderSize ≤ STACK_BUF_SIZE) (ho : Open cfg serve W s)
    (hr : Reading cfg s.conn) (hbad : (parse {} (unparsed s)).rc ≠ .bad) :
    (s.conn.bodyDetected = false →
      s.conn.buf.length ≤ cfg.maxHeaderSize ∧ s.conn.buf.length < STACK_BUF_SIZE) ∧
    (s.conn.bodyDetected → s.conn.chunkedBody = false →
      s.conn.buf.length < s.conn.cap) := by
  by_cases hnil : s.conn.buf = []
  · refine ⟨fun _ => ?_, fun hb => ?_⟩
    · rw [hnil]
      exact ⟨Nat.zero_le _, by decide⟩
    obtain ⟨-, hreach, -⟩ := hr.body hb
    have hempty : ¬ Reached (parse {} []) := by
      unfold Reached
      decide
    rw [hnil] at hreach
    exact absurd hreach hempty
  obtain ⟨X, hok, hresp⟩ := ho.respects.extends (by simp [unparsed, hnil]) hbad
  rw [unparsed, append_assoc] at hok hresp
  have hmore : (parse {} s.conn.buf).rc = .more := by
    cases hrc : (parse {} s.conn.buf).rc with
    | more => rfl
    | ok => exact absurd hrc hr.notOk
    | bad =>
      rw [parse_append _ (by rw [hrc]; decide), hrc] at hok
      cases hok
  obtain ⟨head, body, rest, m⟩ := message_of_ok hok
  have hhead : head.length ≤ cfg.maxHeaderSize := by
    rw [← headerBytes_eq m]
    exact hresp.1
  refine ⟨fun hb => ?_, fun hb hch => ?_⟩
  · obtain ⟨-, -, hquiet⟩ := hr.quiet hb
    rcases hquiet with hun | hsmall
    · have := m.unframed_lt hmore hun
      exact ⟨by omega, by omega⟩
    · exact hsmall
  obtain ⟨-, hreach, hcl⟩ := hr.body hb
  obtain ⟨hhas, hcap⟩ := hcl hch
  obtain ⟨hhas', hlen', -⟩ := framing_resume hmore hreach (s.net.flatten ++ X)
  have hbody := m.length (hhas'.trans hhas)
  rw [hlen'] at hbody
  have := m.more_lt hmore
  omega

/-! ## One turn -/

theorem inv_begin (ho : Open cfg serve W s) (hi : Idle s.conn)
    (ht : (parse {} s.conn.buf).rc = .more →
      s.conn.buf.length ≤ cfg.maxHeaderSize ∧ s.conn.buf.length < STACK_BUF_SIZE) :
    Onward cfg serve W s
      { s with conn := (beginRequest s.conn).1, phase := (beginRequest s.conn).2 } := by
  unfold beginRequest
  by_cases hnil : s.conn.buf = []
  · rw [if_pos hnil]
    refine ⟨⟨ho.of_rem rfl rfl ho.net, .of_quiet (fun x => rfl) ?_ hi.bodyDetected hi.chunkedBody
      hi.cap (.inr ?_)⟩, .inr ⟨rfl, nofun⟩⟩
    · simp only [hnil]
      decide
    · simp only [hnil]
      exact ⟨Nat.zero_le _, by decide⟩
  rw [if_neg hnil]
  by_cases hmore : (parse {} s.conn.buf).rc = .more
  · simp only [hmore, if_true]
    exact ⟨⟨ho.of_rem rfl rfl ho.net, .of_quiet (parse_resume · hmore) (by simp [hmore])
      hi.bodyDetected hi.chunkedBody hi.cap (.inr (ht hmore))⟩, .inr ⟨rfl, nofun⟩⟩
  · simp only [hmore, if_false]
    exact ⟨⟨ho.of_rem rfl rfl ho.net, rfl, hmore, fun _ => hi.cap⟩, .inr ⟨rfl, nofun⟩⟩

theorem acquire_ge (free : List Nat) (needed : Nat) : needed ≤ acquire free needed := by
  unfold acquire
  cases h : (free.filter (needed ≤ ·)).min? with
  | none => exact Nat.le_refl _
  | some n =>
    have hmem := List.min?_mem h
    simpa using (mem_filter.mp hmem).2

theorem beforeRead_cases (cfg : Config) (free : List Nat) (c : Conn) :
    (∃ cap, c.cap < cap ∧ c.cap < chunkedBufferLimit cfg ∧ c.chunkedBody ∧
        beforeRead cfg free c = .grown { c with cap, arena := true }) ∨
      (∃ why, beforeRead cfg free c = .refuse why ∧
        (c.bodyDetected = false ∧ cfg.maxHeaderSize < c.buf.length ∨
          c.cap ≤ c.buf.length ∧ (c.chunkedBody → chunkedBufferLimit cfg ≤ c.cap))) ∨
      beforeRead cfg free c = .read ∧ c.buf.length < c.cap := by
  unfold beforeRead growChunkedBuffer
  by_cases hfull : c.cap ≤ c.buf.length
  · rw [if_pos hfull]
    by_cases hch : c.chunkedBody = true
    · by_cases hlim : chunkedBufferLimit cfg ≤ c.cap
      · simp only [if_pos hch, if_pos hlim]
        exact .inr (.inl ⟨_, rfl, .inr ⟨hfull, fun _ => hlim⟩⟩)
      · have := acquire_ge free (min (max (c.cap * 4) (64 * 1024)) (chunkedBufferLimit cfg))
        simp only [if_pos hch, if_neg hlim]
        exact .inl ⟨_, by omega, by omega, hch, rfl⟩
    · exact .inr (.inl ⟨_, if_neg hch, .inr ⟨hfull, fun h => absurd h hch⟩⟩)
  rw [if_neg hfull]
  by_cases hover : c.bodyDetected = false ∧ cfg.maxHeaderSize < c.buf.length
  · exact .inr (.inl ⟨_, if_pos hover, .inl hover⟩)
  · exact .inr (.inr ⟨if_neg hover, by omega⟩)

theorem Reading.grown (hr : Reading cfg c) (hch : c.chunkedBody) (cap : Nat) :
    Reading cfg { c with cap, arena := true } := by
  have hb : c.bodyDetected := by
    cases hb : c.bodyDetected with
    | true => rfl
    | false => exact (hr.quiet hb).1.symm.trans hch
  obtain ⟨hmore, hreach, -⟩ := hr.body hb
  exact .of_body hr.resume hmore hb nofun hreach fun h => nomatch hch.symm.trans h

theorem inv_refuse (hmax : cfg.maxHeaderSize ≤ STACK_BUF_SIZE) (ho : Open cfg serve W s)
    (hr : Reading cfg s.conn) (why : Close)
    (ht : s.conn.chunkedBody → s.conn.buf.length < chunkedBufferLimit cfg)
    (hover : s.conn.bodyDetected = false ∧ cfg.maxHeaderSize < s.conn.buf.length ∨
      s.conn.cap ≤ s.conn.buf.length ∧
        (s.conn.chunkedBody → chunkedBufferLimit cfg ≤ s.conn.cap)) :
    Inv cfg serve W { s with phase := .closed why } := by
  have hbad : (parse {} (unparsed s)).rc = .bad := by
    by_contra hgood
    obtain ⟨hquiet, hbody⟩ := hr.fits hmax ho hgood
    cases hb : s.conn.bodyDetected with
    | false =>
      obtain ⟨hle, hlt⟩ := hquiet hb
      obtain ⟨-, hcap, -⟩ := hr.quiet hb
      omega
    | true =>
      obtain ⟨hfull, hlim⟩ := hover.resolve_left fun h => nomatch hb.symm.trans h.1
      cases hch : s.conn.chunkedBody with
      | true => exact absurd (ht hch) (by have := hlim hch; omega)
      | false => exact absurd (hbody hb hch) (by omega)
  exact ho.refused hbad

variable {net : List Bytes}

theorem recv_some {room net' data} (hroom : 0 < room) (hnet : ∀ seg ∈ net, seg ≠ [])
    (h : recv room net = some (data, net')) :
    data ≠ [] ∧ data ++ net'.flatten = net.flatten ∧ ∀ seg ∈ net', seg ≠ [] := by
  cases net with
  | nil => cases h
  | cons seg segs =>
    have hseg := hnet seg (by simp)
    simp only [recv, Option.some.injEq, Prod.mk.injEq] at h
    obtain ⟨rfl, hnet'⟩ := h
    refine ⟨?_, ?_⟩
    · intro hnil
      rcases take_eq_nil_iff.mp hnil with h0 | h0
      · omega
      · exact hseg h0
    by_cases hle : seg.length ≤ room
    · rw [if_pos hle] at hnet'
      subst hnet'
      rw [take_of_length_le hle]
      exact ⟨rfl, fun b hb => hnet b (mem_cons_of_mem _ hb)⟩
    rw [if_neg hle] at hnet'
    subst hnet'
    refine ⟨?_, fun b hb => ?_⟩
    · rw [flatten_cons, flatten_cons, ← append_assoc, take_append_drop]
    rcases mem_cons.mp hb with rfl | hb
    · intro hnil
      rw [drop_eq_nil_iff] at hnil
      omega
    · exact hnet b (mem_cons_of_mem _ hb)

theorem sendContinue_reading (h : Reading cfg c) : Reading cfg (sendContinue c) := by
  unfold sendContinue
  split
  · exact ⟨h.resume, h.notOk, h.stack, h.quiet, h.body⟩
  · exact h

theorem sendContinue_buf (c : Conn) : (sendContinue c).buf = c.buf := by
  unfold sendContinue
  split <;> rfl

theorem detectChunked_buf (c : Conn) : (detectChunked c).buf = c.buf := by
  unfold detectChunked
  split <;> rfl

theorem detectChunked_detected (h : c.bodyDetected) : detectChunked c = c := by
  unfold detectChunked
  rw [if_neg (by simp [h])]

theorem inv_detect (free : List Nat) {handed} (ho : Open cfg serve W ⟨c, .reading, net, handed⟩)
    (hmore : (parse {} c.buf).rc = .more) (hreq : c.req = (parse {} c.buf).req)
    (hstack : c.arena = false → c.cap = STACK_BUF_SIZE)
    (hquiet : c.bodyDetected = false → c.chunkedBody = false ∧ c.cap = STACK_BUF_SIZE)
    (hbody : c.bodyDetected → Reached (parse {} c.buf) ∧ (c.chunkedBody = false →
      (parse {} c.buf).req.hasContentLength ∧
        cfg.maxHeaderSize + (parse {} c.buf).req.contentLength ≤ c.cap)) :
    Onward cfg serve W ⟨c, .reading, net, handed⟩
      ⟨(detectBody cfg free c).1, (detectBody cfg free c).2, net, handed⟩ := by
  have hresume : ∀ x, parse c.req (c.buf ++ x) = parse {} (c.buf ++ x) := by
    intro x
    rw [hreq]
    exact parse_resume x hmore
  have hopen : ∀ c' : Conn, c'.buf = c.buf → Reading cfg (detectChunked c') →
      Onward cfg serve W ⟨c, .reading, net, handed⟩
        ⟨sendContinue (detectChunked c'), .reading, net, handed⟩ := by
    intro c' hbuf hread
    have hrem : unparsed ⟨sendContinue (detectChunked c'), .reading, net, handed⟩ =
        unparsed ⟨c, .reading, net, handed⟩ := by
      simp only [unparsed, sendContinue_buf, detectChunked_buf, hbuf]
    exact ⟨⟨ho.of_rem rfl hrem ho.net, sendContinue_reading hread⟩, .inr ⟨hrem, nofun⟩⟩
  unfold detectBody
  by_cases hcl : c.bodyDetected = false ∧ c.req.hasContentLength = true
  · rw [if_pos hcl]
    obtain ⟨hb, hhas⟩ := hcl
    obtain ⟨hch, hcap⟩ := hquiet hb
    rw [hreq] at hhas
    have hreach : Reached (parse {} c.buf) := Or.inr (Or.inl hhas)
    by_cases hbig : cfg.maxBodySize < c.req.contentLength
    · rw [if_pos hbig]
      -- a declared length over the limit is not in a stream that respects it
      have hbad : (parse {} (c.buf ++ net.flatten)).rc = .bad := by
        by_contra hgood
        have hne : c.buf ≠ [] := by
          intro hnil
          rw [hnil] at hhas
          revert hhas
          decide
        obtain ⟨X, hok, hresp⟩ := ho.respects.extends (by simp [unparsed, hne]) hgood
        rw [unparsed, append_assoc] at hresp
        obtain ⟨-, hlen, -⟩ := framing_resume hmore hreach (net.flatten ++ X)
        have := hresp.2.1
        rw [hlen, ← hreq] at this
        omega
      exact ⟨ho.refused hbad, .inl ⟨_, rfl⟩⟩
    rw [if_neg hbig]
    by_cases hneed : STACK_BUF_SIZE < cfg.maxHeaderSize + c.req.contentLength
    · simp only [if_pos hneed]
      refine hopen _ rfl ?_
      rw [detectChunked_detected rfl]
      refine .of_body hresume hmore rfl nofun hreach fun _ => ⟨hhas, ?_⟩
      rw [← hreq]
      exact acquire_ge free _
    simp only [if_neg hneed]
    refine hopen _ rfl ?_
    rw [detectChunked_detected rfl]
    refine .of_body hresume hmore rfl hstack hreach fun _ => ⟨hhas, ?_⟩
    rw [← hreq]
    show _ ≤ c.cap
    omega
  rw [if_neg hcl]
  refine hopen c rfl ?_
  cases hb : c.bodyDetected with
  | true =>
    obtain ⟨hreach, hlen⟩ := hbody hb
    rw [detectChunked_detected hb]
    exact .of_body hresume hmore hb hstack hreach hlen
  | false =>
    obtain ⟨hch, hcap⟩ := hquiet hb
    unfold detectChunked
    by_cases hchunked : c.req.chunked = true
    · rw [if_pos ⟨hb, hchunked⟩]
      rw [hreq] at hchunked
      exact .of_body hresume hmore rfl hstack (Or.inr (Or.inr hchunked)) nofun
    rw [if_neg fun h => hchunked h.2]
    have hok : (parse {} c.buf).rc ≠ .ok := by simp [hmore]
    refine .of_quiet hresume hok hb hch hcap (.inl ?_)
    rintro (h | h | h)
    · exact hok h
    · exact hcl ⟨hb, hreq ▸ h⟩
    · exact hchunked (hreq ▸ h)

theorem inv_afterRead (free : List Nat) {data} (ho : Open cfg serve W s) (hr : Reading cfg s.conn)
    (hflat : data ++ net.flatten = s.net.flatten) (hnet : ∀ seg ∈ net, seg ≠ []) :
    Onward cfg serve W s { s with
      conn := (afterRead cfg free s.conn data).1
      phase := (afterRead cfg free s.conn data).2
      net } := by
  have hrem : s.conn.buf ++ data ++ net.flatten = unparsed s := by
    rw [append_assoc, hflat, unparsed]
  unfold afterRead
  by_cases hh2c : looksLikeH2c cfg { s.conn with buf := s.conn.buf ++ data } = true
  · simp only [hh2c, if_true]
    have htake := looksLikeH2c_take hh2c
    simp only at htake
    by_cases hlt : (s.conn.buf ++ data).length < CONNECTION_PREFACE.length
    · rw [if_pos hlt]
      obtain ⟨hok, hun⟩ := preface_begun hlt htake
      have hb : s.conn.bodyDetected = false := by
        cases hb : s.conn.bodyDetected with
        | false => rfl
        | true =>
          -- framing that is known would be known of the longer buffer too
          obtain ⟨hmore, hreach, -⟩ := hr.body hb
          obtain ⟨hhas, -, hch⟩ := framing_resume hmore hreach data
          refine absurd (Or.inr ?_) hun
          rw [hhas, hch]
          exact hreach.resolve_left (by rw [hmore]; decide)
      obtain ⟨hch, hcap, -⟩ := hr.quiet hb
      refine ⟨⟨ho.of_rem rfl hrem hnet, .of_quiet (fun x => ?_) hok hb hch hcap (.inl hun)⟩,
        .inr ⟨hrem, fun h => by cases h⟩⟩
      simp only [append_assoc]
      exact hr.resume (data ++ x)
    rw [if_neg hlt]
    have hbad := preface_bad (by omega) htake net.flatten
    rw [hrem] at hbad
    exact ⟨ho.refused hbad, .inl ⟨_, rfl⟩⟩
  simp only [hh2c, Bool.false_eq_true, if_false, hr.resume data]
  by_cases hmore : (parse {} (s.conn.buf ++ data)).rc = .more
  · simp only [hmore, if_true]
    have hrest : Onward cfg serve W ⟨{ s.conn with
        buf := s.conn.buf ++ data, req := (parse {} (s.conn.buf ++ data)).req },
        .reading, net, s.handed⟩ _ := inv_detect free (ho.of_rem rfl hrem hnet) hmore rfl hr.stack
      (fun hb => ?_) fun hb => ?_
    · exact ⟨hrest.1, hrest.2.imp_right fun h => ⟨h.1.trans hrem, h.2⟩⟩
    · obtain ⟨hch, hcap, -⟩ := hr.quiet hb
      exact ⟨hch, hcap⟩
    obtain ⟨hmore', hreach, hlen⟩ := hr.body hb
    obtain ⟨hhas, hcl, hch⟩ := framing_resume hmore' hreach data
    refine ⟨?_, fun hnc => ?_⟩
    · rw [Reached, hhas, hch]
      exact Or.inr (hreach.resolve_left (by rw [hmore']; decide))
    · simp only [hhas, hcl]
      exact hlen hnc
  · simp only [hmore, if_false]
    exact ⟨⟨ho.of_rem rfl hrem hnet, rfl, hmore, hr.stack⟩, .inr ⟨hrem, fun h => by cases h⟩⟩

theorem endRequest_buf {consumed} (h : c.arena → c.buf.length - consumed ≤ STACK_BUF_SIZE) :
    (endRequest c consumed).buf = c.buf.drop consumed := by
  have hrest : (if consumed < c.buf.length then c.buf.drop consumed else []) =
      c.buf.drop consumed := by
    by_cases hlt : consumed < c.buf.length
    · rw [if_pos hlt]
    · rw [if_neg hlt, drop_of_length_le (by omega)]
  unfold endRequest
  rw [hrest]
  cases ha : c.arena with
  | false => simp only [Bool.false_eq_true, if_false]
  | true =>
    have := h ha
    simp only [if_true]
    rw [if_neg (by rw [length_drop]; omega)]

theorem endRequest_idle {consumed} (h : c.arena = false → c.cap = STACK_BUF_SIZE) :
    Idle (endRequest c consumed) := by
  unfold endRequest
  cases ha : c.arena with
  | false =>
    simp only [Bool.false_eq_true, if_false]
    exact ⟨h ha, rfl, rfl, rfl⟩
  | true =>
    simp only [if_true]
    exact ⟨rfl, rfl, rfl, rfl⟩

theorem consumed_le (h : (parse {} i).rc = .ok) : (parse {} i).consumed ≤ i.length := by
  obtain ⟨head, body, rest, m⟩ := message_of_ok h
  have := congrArg List.length m.split
  simp only [length_append] at this
  rw [m.consumed]
  omega

section Dispatch
variable {r : ParseResult} (hr : r = parse {} s.conn.buf)
include hr

theorem dispatch_ok (hok : r.rc = .ok) (hresp : Respects cfg r)
    (hheaders : r.req.headers.length ≤ CoroHttpRequest.MAX_HEADERS) :
    ∃ buf, buf.drop r.consumed = s.conn.buf.drop r.consumed ∧
      dispatch cfg serve s r =
        { s with
          conn := endRequest { s.conn with isFirstRequest := false, buf } r.consumed
          phase := if r.req.keepAlive ∧ serve s.handed.length (requestOf r) then .top
            else .closed .done
          handed := s.handed ++ [requestOf r] } := by
  obtain ⟨hhead, hcl, hlen⟩ := hresp
  have hcheck : ((requestOf r).findHeader (ascii "Content-Length")).any
      (cfg.maxBodySize < leadingDecimal ·) = false := by
    subst hr
    exact contentLength_check hok _ rfl hcl
  obtain ⟨hbody, hdrop⟩ : (decodeInBuffer s.conn.buf r).2 = decodedBody r ∧
      (decodeInBuffer s.conn.buf r).1.drop r.consumed = s.conn.buf.drop r.consumed := by
    subst hr
    exact decodeInBuffer_eq hok
  have hreq : CoroHttpRequest.mk r.req.methodStr r.req.path r.req.query
      (r.req.headers.take CoroHttpRequest.MAX_HEADERS) (decodeInBuffer s.conn.buf r).2 =
        requestOf r := by
    rw [take_of_length_le hheaders, hbody]
    rfl
  refine ⟨(decodeInBuffer s.conn.buf r).1, hdrop, ?_⟩
  unfold dispatch
  rw [hok]
  simp only
  rw [if_neg (by omega), hreq, hcheck, if_neg (by decide), hbody, if_neg (by omega)]

theorem unparsed_endRequest (hok : r.rc = .ok)
    (harena : s.conn.arena → s.conn.buf.length - r.consumed ≤ STACK_BUF_SIZE)
    (hdrop : buf.drop r.consumed = s.conn.buf.drop r.consumed) (phase : Phase)
    (handed : List CoroHttpRequest) :
    unparsed ⟨endRequest { s.conn with isFirstRequest := false, buf } r.consumed, phase, s.net,
      handed⟩ = (unparsed s).drop r.consumed := by
  have hlen : buf.length - r.consumed = s.conn.buf.length - r.consumed := by
    have := congrArg List.length hdrop
    rwa [length_drop, length_drop] at this
  have hbuf : (endRequest { s.conn with isFirstRequest := false, buf } r.consumed).buf =
      buf.drop r.consumed := endRequest_buf (by rw [hlen]; exact harena)
  have hle : r.consumed ≤ s.conn.buf.length := by
    subst hr
    exact consumed_le hok
  rw [unparsed, unparsed, drop_append_of_le_length hle, ← hdrop, ← hbuf]

theorem inv_dispatch (ho : Open cfg serve W s) (hnm : r.rc ≠ .more)
    (hstack : s.conn.arena = false → s.conn.cap = STACK_BUF_SIZE)
    (ht : r.rc = .ok → r.req.headers.length ≤ CoroHttpRequest.MAX_HEADERS ∧
      (s.conn.arena → s.conn.buf.length - r.consumed ≤ STACK_BUF_SIZE)) :
    Inv cfg serve W (dispatch cfg serve s r) ∧
      ((∃ why, (dispatch cfg serve s r).phase = .closed why) ∨
        (unparsed (dispatch cfg serve s r)).length < (unparsed s).length) := by
  have hall : parse {} (unparsed s) = r := by
    rw [hr] at hnm ⊢
    exact parse_append _ hnm
  cases hrc : r.rc with
  | more => exact absurd hrc hnm
  | bad =>
    rw [dispatch, hrc]
    exact ⟨ho.refused (by rw [hall]; exact hrc), Or.inl ⟨_, rfl⟩⟩
  | ok =>
    obtain ⟨hheaders, harena⟩ := ht hrc
    have hok : (parse {} (unparsed s)).rc = .ok := by rw [hall]; exact hrc
    obtain ⟨hresp, hnext⟩ := ho.respects.ok hok
    have hspec := @requestsOf_eq serve s.handed.length (unparsed s)
    have hlt := drop_length_lt hok
    rw [hall] at hresp hnext hspec hlt
    obtain ⟨buf, hdrop, hdis⟩ := @dispatch_ok cfg serve s r hr hrc hresp hheaders
    have hnew := unparsed_endRequest hr hrc harena hdrop
    rw [hrc] at hspec
    simp only at hspec
    rw [hdis]
    by_cases hkeep : r.req.keepAlive ∧ serve s.handed.length (requestOf r) = true
    · rw [if_pos hkeep] at hspec
      simp only [if_pos hkeep]
      refine ⟨⟨⟨?_, ?_, ?_, ho.net⟩, endRequest_idle hstack⟩, Or.inr ?_⟩
      · rw [hnew, length_append, length_singleton, ho.spec, hspec]
        simp only [append_assoc, singleton_append]
      · rw [hnew, length_append, length_singleton]
        exact hnext hkeep.1 hkeep.2
      · rw [hnew]
        exact (drop_suffix _ _).trans ho.suffix
      · rw [hnew]
        exact hlt
    rw [if_neg hkeep] at hspec
    simp only [if_neg hkeep]
    refine ⟨⟨?_, fun h => ?_⟩, Or.inl ⟨_, rfl⟩⟩
    · rw [ho.spec, hspec]
    · rcases h with h | h <;> cases h

end Dispatch

/-! ## The run -/

def workLeft (cfg : Config) (s : State) : Nat × Nat × Nat × Nat :=
  ((unparsed s).length, s.net.flatten.length, if s.phase = .top then 1 else 0,
    chunkedBufferLimit cfg - s.conn.cap)

def Less : Nat × Nat × Nat × Nat → Nat × Nat × Nat × Nat → Prop :=
  Prod.Lex (· < ·) (Prod.Lex (· < ·) (Prod.Lex (· < ·) (· < ·)))

theorem less_wf : WellFounded Less :=
  (Prod.lex Nat.lt_wfRel (Prod.lex Nat.lt_wfRel (Prod.lex Nat.lt_wfRel Nat.lt_wfRel))).wf

variable {free : List Nat}

section
variable (hmax : cfg.maxHeaderSize ≤ STACK_BUF_SIZE)
include hmax

/-- **One turn keeps the invariant**, and unless it closes the connection it
uses something up. -/
theorem step_inv {s'} (hinv : Inv cfg serve W s)
    (ht : Tame cfg s) (h : step cfg serve free s = some s') : Inv cfg serve W s' ∧
      ((∃ why, s'.phase = .closed why) ∨ Less (workLeft cfg s') (workLeft cfg s)) := by
  cases hphase : s.phase with
  | closed why =>
    rw [step, hphase] at h
    cases h
  | top =>
    simp only [Inv, hphase] at hinv
    simp only [Tame, hphase] at ht
    rw [step, hphase] at h
    cases h
    obtain ⟨hi, hclosed | ⟨hrem, htop⟩⟩ := inv_begin hinv.1 hinv.2 ht
    · exact ⟨hi, .inl hclosed⟩
    refine ⟨hi, Or.inr ?_⟩
    simp only [Less, workLeft, hrem, hphase, htop, if_true, if_false]
    exact .right _ (.right _ (.left _ _ (by decide)))
  | parsed r =>
    simp only [Inv, hphase] at hinv
    obtain ⟨ho, hr, hnm, hstack⟩ := hinv
    simp only [Tame, hphase] at ht
    rw [step, hphase] at h
    cases h
    obtain ⟨hi, hless⟩ := inv_dispatch hr ho hnm hstack ht
    exact ⟨hi, hless.imp_right fun hlt => .left _ _ hlt⟩
  | reading =>
    simp only [Inv, hphase] at hinv
    obtain ⟨ho, hr⟩ := hinv
    simp only [Tame, hphase] at ht
    rcases beforeRead_cases cfg free s.conn with
      ⟨cap, hgrow, hlim, hch, hb⟩ | ⟨why, hb, hover⟩ | ⟨hb, hroom⟩ <;>
      simp only [step, hphase, hb] at h
    · cases h
      refine ⟨⟨ho.of_rem rfl rfl ho.net, hr.grown hch cap⟩, Or.inr ?_⟩
      simp only [Less, workLeft, unparsed, hphase]
      exact .right _ (.right _ (.right _ (by omega)))
    · cases h
      exact ⟨inv_refuse hmax ho hr why ht hover, Or.inl ⟨why, rfl⟩⟩
    cases hrecv : recv (s.conn.cap - s.conn.buf.length) s.net with
    | none => rw [hrecv] at h; cases h
    | some p =>
      obtain ⟨data, net⟩ := p
      obtain ⟨hne, hflat, hnet⟩ := recv_some (by omega) ho.net hrecv
      rw [hrecv] at h
      simp only [hne, if_false] at h
      cases h
      obtain ⟨hi, hclosed | ⟨hrem, -⟩⟩ := inv_afterRead free ho hr hflat hnet
      · exact ⟨hi, .inl hclosed⟩
      have hlen := congrArg List.length hflat
      have hpos := length_pos_iff.mpr hne
      rw [length_append] at hlen
      refine ⟨hi, Or.inr ?_⟩
      simp only [Less, workLeft, hrem]
      exact .right _ (.left _ _ (by omega))

variable {reads : List Bytes} {env : Nat → List Nat} (hreads : ∀ seg ∈ reads, seg ≠ [])
  (hresp : RespectsAll cfg serve 0 reads.flatten) (ht : ∀ n, Tame cfg (run cfg serve env reads n))
include hreads hresp ht

theorem inv_run : ∀ n, Inv cfg serve reads.flatten (run cfg serve env reads n)
  | 0 => ⟨⟨rfl, hresp, suffix_rfl, hreads⟩, ⟨rfl, rfl, rfl, rfl⟩⟩
  | n + 1 => by
    have ih := inv_run n
    rw [run]
    cases h : step cfg serve (env n) (run cfg serve env reads n) with
    | none => exact ih
    | some s' => exact (step_inv hmax ih (ht n) h).1

theorem run_ends : ∃ n, step cfg serve (env n) (run cfg serve env reads n) = none := by
  by_contra hforever
  have hsome : ∀ n, ∃ s', step cfg serve (env n) (run cfg serve env reads n) = some s' := by
    intro n
    exact Option.ne_none_iff_exists'.mp fun h => hforever ⟨n, h⟩
  have hnext : ∀ n, step cfg serve (env n) (run cfg serve env reads n) =
      some (run cfg serve env reads (n + 1)) := by
    intro n
    obtain ⟨s', h⟩ := hsome n
    rw [run, h, Option.getD_some]
  have hless : ∀ n, Less (workLeft cfg (run cfg serve env reads (n + 1)))
      (workLeft cfg (run cfg serve env reads n)) := by
    intro n
    have hinv := inv_run hmax hreads hresp ht n
    refine (step_inv hmax hinv (ht n) (hnext n)).2.resolve_left ?_
    rintro ⟨why, hclosed⟩
    obtain ⟨s', h⟩ := hsome (n + 1)
    rw [step, hclosed] at h
    cases h
  obtain ⟨_, ⟨n, rfl⟩, hmin⟩ := less_wf.has_min
    (Set.range fun n => workLeft cfg (run cfg serve env reads n)) ⟨_, 0, rfl⟩
  exact hmin _ ⟨n + 1, rfl⟩ (hless n)

end

theorem handed_of_rest (hinv : Inv cfg serve W s)
    (h : step cfg serve free s = none) : s.handed = (requestsOf serve 0 W).1 := by
  cases hphase : s.phase with
  | closed why =>
    simp only [Inv, hphase] at hinv
    exact hinv.1
  | reading =>
    simp only [Inv, hphase] at hinv
    obtain ⟨ho, hr⟩ := hinv
    have hnet : s.net = [] := by
      rw [step, hphase] at h
      simp only at h
      cases hn : s.net with
      | nil => rfl
      | cons seg segs =>
        rw [hn] at h
        cases hb : beforeRead cfg free s.conn with
        | read =>
          rw [hb] at h
          simp only [recv] at h
          split at h <;> cases h
        | _ => rw [hb] at h; cases h
    have hrest : (requestsOf serve s.handed.length (unparsed s)).1 = [] := by
      rw [unparsed, hnet, flatten_nil, append_nil, requestsOf_eq]
      cases hrc : (parse {} s.conn.buf).rc with
      | ok => exact absurd hrc hr.notOk
      | _ => rfl
    rw [ho.spec, hrest, append_nil]
  | _ =>
    rw [step, hphase] at h
    cases h

/-- **What a connection hands to the handler depends on the bytes it receives,
not on the reads they come in.** On a tame run the requests handed over are at
all times a beginning of those the stream holds, nothing of the stream is lost
between the ones done and the bytes still in the buffer and the socket, a 431
or 413 answers only bytes that are no request; and the run comes to rest with
all of them handed over. -/
theorem connection_split {cfg : Config} {serve : Nat → CoroHttpRequest → Bool}
    {env : Nat → List Nat} {reads : List Bytes} (hmax : cfg.maxHeaderSize ≤ STACK_BUF_SIZE)
    (hreads : ∀ seg ∈ reads, seg ≠ []) (hresp : RespectsAll cfg serve 0 reads.flatten)
    (ht : ∀ n, Tame cfg (run cfg serve env reads n)) :
    (∀ n, (run cfg serve env reads n).handed <+: (requestsOf serve 0 reads.flatten).1 ∧
      ((run cfg serve env reads n).phase = .closed .headerFieldsTooLarge ∨
          (run cfg serve env reads n).phase = .closed .payloadTooLarge →
        (requestsOf serve 0 reads.flatten).2 = .malformed) ∧
      ((∀ why, (run cfg serve env reads n).phase ≠ .closed why) →
        unparsed (run cfg serve env reads n) <:+ reads.flatten)) ∧
    ∃ n, step cfg serve (env n) (run cfg serve env reads n) = none ∧
      (run cfg serve env reads n).handed = (requestsOf serve 0 reads.flatten).1 := by
  have hinv := inv_run hmax hreads hresp ht
  refine ⟨fun n => ?_, ?_⟩
  · have h := hinv n
    generalize run cfg serve env reads n = s at h
    have hopen : ∀ ho : Open cfg serve reads.flatten s,
        s.handed <+: (requestsOf serve 0 reads.flatten).1 := by
      intro ho
      rw [ho.spec]
      exact prefix_append _ _
    cases hphase : s.phase with
    | closed why =>
      simp only [Inv, hphase] at h
      refine ⟨h.1 ▸ prefix_rfl, fun hwhy => h.2 ?_, fun hnot => absurd rfl (hnot why)⟩
      simpa using hwhy
    | _ =>
      simp only [Inv, hphase] at h
      exact ⟨hopen h.1, fun hwhy => (by simp at hwhy), fun _ => h.1.suffix⟩
  · obtain ⟨n, hn⟩ := run_ends hmax hreads hresp ht
    exact ⟨n, hn, handed_of_rest (hinv n) hn⟩

theorem run_rest {free reads k}
    (h : step cfg serve free (run cfg serve (fun _ => free) reads k) = none) :
    ∀ m, run cfg serve (fun _ => free) reads (k + m) = run cfg serve (fun _ => free) reads k
  | 0 => rfl
  | m + 1 => by
    rw [← Nat.add_assoc, run, run_rest h m, h, Option.getD_none]

theorem connection_split_get :
    ∃ n, (run {} (fun _ _ => true) (fun _ => [])
        [ascii "GET /a?b HT", ascii "TP/1.1\r\n\r\nGE"] n).handed =
      [⟨ascii "GET", ascii "/a", ascii "b", [], []⟩] := by
  have hrest : step {} (fun _ _ => true) [] (run {} (fun _ _ => true) (fun _ => [])
      [ascii "GET /a?b HT", ascii "TP/1.1\r\n\r\nGE"] 5) = none := by decide
  have htame : ∀ n, Tame {} (run {} (fun _ _ => true) (fun _ => [])
      [ascii "GET /a?b HT", ascii "TP/1.1\r\n\r\nGE"] n) := by
    intro n
    by_cases hn : n < 6
    · revert n
      decide
    · obtain ⟨m, rfl⟩ := Nat.exists_eq_add_of_le (show 5 ≤ n by omega)
      rw [run_rest hrest]
      decide
  have hresp : RespectsAll {} (fun _ _ => true) 0
      [ascii "GET /a?b HT", ascii "TP/1.1\r\n\r\nGE"].flatten := by
    refine respectsAll_ok (by decide) (by unfold Respects; decide) ?_
    refine Or.inr ⟨ascii "T / HTTP/1.1\r\n\r\n", by decide, by unfold Respects; decide⟩
  obtain ⟨-, n, -, hhanded⟩ := connection_split (by decide) (by decide) hresp htame
  exact ⟨n, hhanded.trans (by decide)⟩

/-- Two pipelined requests whose heads are within a limit of 40 bytes. The
first read ends in the body of the second one; what is left of it after the
first request, a complete head and ten bytes of body, is taken for a header
section of 49 bytes and answered with 431. In one read both are served. -/
theorem leftover_refused :
    let cfg : Config := { maxHeaderSize := 40 }
    let first := ascii "GET /a HTTP/1.1\r\n\r\nPOST / HTTP/1.1\r\nContent-Length: 30\r\n\r\n0123456789"
    let second := ascii "01234567890123456789"
    RespectsAll cfg (fun _ _ => true) 0 (first ++ second) ∧
      (requestsOf (fun _ _ => true) 0 (first ++ second)).1.length = 2 ∧
      (run cfg (fun _ _ => true) (fun _ => []) [first, second] 5).phase =
        .closed .headerFieldsTooLarge ∧
      (run cfg (fun _ _ => true) (fun _ => []) [first, second] 5).handed.length = 1 ∧
      (run cfg (fun _ _ => true) (fun _ => []) [first ++ second] 6).handed =
        (requestsOf (fun _ _ => true) 0 (first ++ second)).1 := by
  -- the kernel reads a list of characters much faster than a string
  unfold ascii
  rw [String.toList_ofList, String.toList_ofList]
  intro cfg first second
  refine ⟨?_, by decide, by decide, by decide, by decide⟩
  have hpost : (first ++ second).drop (parse {} (first ++ second)).consumed =
      ascii "POST / HTTP/1.1\r\nContent-Length: 30\r\n\r\n012345678901234567890123456789" := by
    unfold ascii
    rw [String.toList_ofList]
    decide
  refine respectsAll_ok (by decide) (by unfold Respects; decide) ?_
  rw [hpost, ascii, String.toList_ofList]
  refine respectsAll_ok (by decide) (by unfold Respects; decide) ?_
  generalize hrest : drop _ _ = rest
  have hnil : rest = [] := by
    rw [← hrest]
    decide
  rw [hnil]
  exact respectsAll_nil _

end BoltApi.Http1.ConnectionSplit
