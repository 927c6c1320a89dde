import BoltApi.Http1.ParserStable
import BoltApi.Http1.ChunkedGrammar

/-! # The head of a request decides what follows

Once the header section is in, the parser does the same with whatever comes
behind it: `parse` on the head and any continuation is `parseFramed` on the
continuation (`HeadOf`). From that one fact follow where a request ends, that
the bytes behind its end do not matter, and what a parse that still wants bytes
already knows about the body. -/
namespace BoltApi.Http1.ParserHead
open Octets Lib.Scanning Chunked ChunkedGrammar List
open Http1.Parser ParserStable

/-! ## The head -/

theorem exact_parseHeaders : ∀ (fuel : Nat) (acc hs : List Header) (i r : Bytes),
    parseHeaders fuel acc i = ⟨.ok, hs, r⟩ →
      ∃ c, i = c ++ r ∧ parseHeaders fuel acc c = ⟨.ok, hs, []⟩
  | 0, acc, hs, i, r, h => by cases h
  | fuel + 1, acc, hs, [], r, h => by cases h
  | fuel + 1, acc, hs, b :: rest, r, h => by
    rw [parseHeaders] at h
    by_cases hb : b = CR
    · rw [if_pos hb] at h
      cases he : expect LF rest with
      | ok u r' =>
        rw [he] at h
        cases h
        obtain ⟨c, rfl, hc⟩ := exact_expect LF _ _ _ he
        refine ⟨b :: c, rfl, ?_⟩
        rw [parseHeaders, if_pos hb, hc]
      | _ => rw [he] at h; cases h
    rw [if_neg hb] at h
    by_cases hm : MAX_HEADERS ≤ acc.length
    · rw [if_pos hm] at h
      cases h
    rw [if_neg hm] at h
    cases hp : parseHeader (b :: rest) with
    | ok f r' =>
      rw [hp] at h
      obtain ⟨c, hc, hpc⟩ := exact_parseHeader _ _ _ hp
      obtain ⟨d, rfl, hd⟩ := exact_parseHeaders fuel _ hs r' r h
      -- the field takes at least the byte that is not CR
      have hne : c ≠ [] := by
        rintro rfl
        cases hpc
      obtain ⟨b', c', rfl⟩ := exists_cons_of_ne_nil hne
      obtain ⟨rfl, htail⟩ := List.cons.inj hc
      refine ⟨b :: c' ++ d, by simp [htail], ?_⟩
      rw [cons_append, parseHeaders, if_neg hb, if_neg hm]
      have := stable_parseHeader.ok hpc d
      rw [cons_append, nil_append] at this
      rw [this]
      exact hd
    | _ => rw [hp] at h; cases h

/-- The header section is in: the request is complete, or its framing is known. -/
def Reached (r : ParseResult) : Prop :=
  r.rc = .ok ∨ r.req.hasContentLength ∨ r.req.chunked

theorem not_reached {r : ParseResult} (hrc : r.rc ≠ .ok) (hcl : r.req.hasContentLength = false)
    (hch : r.req.chunked = false) : ¬ Reached r := by
  rintro (h | h | h)
  · exact hrc h
  · rw [hcl] at h
    cases h
  · rw [hch] at h
    cases h

/-- The request line and the header section, in the parts the parser reads. -/
structure Head where
  (methodWord urlWord versionLine fieldLines methodStr url : Bytes)
  version : HTTP1Version
  headers : List Header
  method_ok : parseMethod methodWord = .ok methodStr []
  url_ok : parseUrl urlWord = .ok url []
  version_ok : parseVersion versionLine = .ok version []
  headers_ok : parseHeaders (MAX_HEADERS + 1) [] fieldLines = ⟨.ok, headers, []⟩

def Head.bytes (h : Head) : Bytes :=
  h.methodWord ++ (h.urlWord ++ (h.versionLine ++ h.fieldLines))

/-- What reading the head leaves in the request. -/
def Head.request (h : Head) (req : HTTP1Request) : HTTP1Request :=
  { req with methodStr := h.methodStr, method := methodOf h.methodStr, url := h.url
             version := h.version, headers := h.headers }

theorem Head.parseFromMethod_eq (h : Head) (len : Nat) (req : HTTP1Request) (z : Bytes) :
    parseFromMethod len req (h.bytes ++ z) = parseFramed len (h.request req) z := by
  have hmethod := (stable_word _).ok h.method_ok
  have hurl := (stable_word _).ok h.url_ok
  have hversion := stable_parseVersion.ok h.version_ok
  have hheaders := (parseHeaders_append z (MAX_HEADERS + 1) [] h.fieldLines).1 (by rw [h.headers_ok])
  rw [h.headers_ok] at hheaders
  simp only [bytes, append_assoc, parseFromMethod, parseMethod, hmethod, nil_append, parseFromUrl,
    parseUrl, hurl, parseFromVersion, hversion, parseFields, hheaders, request]

theorem Head.bytes_cons (h : Head) : ∃ c w, h.bytes = c :: w ∧ c ≠ CR := by
  have hm := h.method_ok
  unfold Head.bytes
  cases hw : h.methodWord with
  | nil =>
    rw [hw] at hm
    cases hm
  | cons c w =>
    refine ⟨c, _, rfl, ?_⟩
    rintro rfl
    rw [hw] at hm
    cases hm

theorem skipEmptyLines_emptyLines {c} (hc : c ≠ CR) (w : Bytes) :
    ∀ (fuel : Nat) {k : Nat}, k ≤ fuel →
    skipEmptyLines fuel (emptyLines k ++ c :: w) = .ok () (c :: w)
  | 0, 0, _ => rfl
  | _ + 1, 0, _ => if_neg hc
  | fuel + 1, _ + 1, hk => skipEmptyLines_emptyLines hc w fuel (Nat.le_of_succ_le_succ hk)

theorem parse_emptyLines (h : Head) (req : HTTP1Request) {k} (hk : k ≤ kMaxLeadingEmptyLines)
    (z : Bytes) : parse req (emptyLines k ++ h.bytes ++ z) =
      parseFramed (emptyLines k ++ h.bytes ++ z).length (h.request req.restart) z := by
  obtain ⟨c, w, hw, hc⟩ := h.bytes_cons
  have hskip := skipEmptyLines_emptyLines hc (w ++ z) _ hk
  rw [← cons_append, ← hw] at hskip
  rw [parse, if_neg (by simp [hw]), append_assoc, hskip]
  simp only
  rw [if_neg (by simp [hw]), h.parseFromMethod_eq]

variable {req : HTTP1Request} {i : Bytes} {len : Nat}

theorem reached_link {α : Type} {p : Bytes → Scan α UInt8} {note : α → HTTP1Request → HTTP1Request}
    {flag : Bytes → Bool} {g : Nat → HTTP1Request → Bytes → ParseResult}
    (h : Reached (link p note flag g len req i)) (hcl : req.hasContentLength = false)
    (hch : req.chunked = false) :
    ∃ a rest, p i = .ok a rest ∧ Reached (g len (note a req) rest) := by
  unfold link at h
  cases hp : p i with
  | ok a rest =>
    rw [hp] at h
    exact ⟨a, rest, rfl, h⟩
  | _ =>
    rw [hp] at h
    exact absurd h (not_reached (by nofun) hcl hch)

theorem Head.of_reached (hcl : req.hasContentLength = false) (hch : req.chunked = false)
    (h : Reached (parseFromMethod len req i)) : ∃ (hd : Head) (rest : Bytes), i = hd.bytes ++ rest := by
  rw [ParserStable.parseFromMethod_eq] at h
  obtain ⟨m, i₁, hm, h⟩ := reached_link h hcl hch
  rw [parseFromUrl_eq] at h
  obtain ⟨u, i₂, hu, h⟩ := reached_link h hcl hch
  rw [parseFromVersion_eq] at h
  obtain ⟨v, i₃, hv, h⟩ := reached_link h hcl hch
  cases hh : parseHeaders (MAX_HEADERS + 1) [] i₃ with
  | mk status hs rest =>
    simp only [parseFields, hh] at h
    cases status with
    | ok =>
      obtain ⟨a, rfl, ha⟩ := exact_word _ _ _ _ hm
      obtain ⟨b, rfl, hb⟩ := exact_word _ _ _ _ hu
      obtain ⟨c, rfl, hc⟩ := exact_parseVersion _ _ _ hv
      obtain ⟨d, rfl, hd⟩ := exact_parseHeaders _ _ _ _ _ hh
      exact ⟨⟨a, b, c, d, m, u, v, hs, ha, hb, hc, hd⟩, rest, by simp [Head.bytes]⟩
    | _ => exact absurd h (not_reached (by nofun) hcl hch)

/-- **A request has a head.** -/
theorem parse_head (hi : i ≠ []) (h : Reached (parse req i)) :
    ∃ k ≤ kMaxLeadingEmptyLines, ∃ (hd : Head) (rest : Bytes),
      i = emptyLines k ++ hd.bytes ++ rest := by
  rw [parse, if_neg hi] at h
  cases hs : skipEmptyLines kMaxLeadingEmptyLines i with
  | ok u r =>
    rw [hs] at h
    obtain ⟨k, hk, rfl⟩ := skipEmptyLines_ok hs
    by_cases hr : r = []
    · simp only [hr, if_true] at h
      exact absurd h (not_reached (by rintro ⟨⟩) rfl rfl)
    simp only [hr, if_false] at h
    obtain ⟨hd, rest, rfl⟩ := Head.of_reached rfl rfl h
    exact ⟨k, hk, hd, rest, (append_assoc _ _ _).symm⟩
  | _ =>
    rw [hs] at h
    exact absurd h (not_reached (by rintro ⟨⟩) rfl rfl)

/-! ## Where a request ends -/

/-- The body has the length the request's framing gives it. -/
structure Framed (req : HTTP1Request) (body : Bytes) : Prop where
  chunked : req.chunked → ∃ t : ChunkedBody, t.Scannable ∧ body = t.encode
  length : req.hasContentLength → ¬ req.chunked → body.length = req.contentLength
  empty : ¬ req.hasContentLength → ¬ req.chunked → body = []

theorem parseBody_ok (hlen : i.length ≤ len) (h : (parseBody len req i).rc = .ok) :
    ∃ b b' r, i = b ++ r ∧ parseBody len req i =
        { rc := .ok, req := { req with body := b' }, consumed := len - r.length } ∧
      (req.body = [] → b' = b) ∧ (∀ len', (parseBody len' req b).rc = .ok) ∧ Framed req b := by
  unfold parseBody at h ⊢
  by_cases hch : req.chunked = true
  · simp only [hch, if_true] at h ⊢
    cases hs : scanChunked i with
    | ok u r =>
      obtain ⟨t, ht, rfl⟩ := scanChunked_ok_iff.mp hs
      have hraw : (t.encode ++ r).take (rawLen (t.encode ++ r) r) = t.encode := by
        rw [rawLen, length_append, Nat.add_sub_cancel]
        exact take_left
      refine ⟨t.encode, t.encode, r, rfl, by simp only [hraw], fun _ => rfl, fun len' => ?_,
        fun _ => ⟨t, ht, rfl⟩, fun _ h' => absurd hch h', fun _ h' => absurd hch h'⟩
      rw [scanChunked_ok_iff.mpr ⟨t, ht, (append_nil _).symm⟩]
    | _ => rw [hs] at h; cases h
  simp only [if_neg hch] at h ⊢
  by_cases hcl : req.hasContentLength ∧ 0 < req.contentLength
  · rw [if_pos hcl] at h ⊢
    by_cases hlt : i.length < req.contentLength
    · rw [if_pos hlt] at h
      cases h
    have hb : (i.take req.contentLength).length = req.contentLength := by
      rw [length_take]
      omega
    refine ⟨i.take req.contentLength, i.take req.contentLength, i.drop req.contentLength,
      (take_append_drop _ _).symm, ?_, fun _ => rfl, fun len' => ?_, fun h' => absurd h' hch,
      fun _ _ => hb, fun h' => absurd hcl.1 h'⟩
    · rw [if_neg hlt, length_drop]
    · simp only [hcl, and_self, if_true, hb, Nat.lt_irrefl, if_false]
  rw [if_neg hcl]
  refine ⟨[], req.body, i, rfl, rfl, id, fun len' => ?_, fun h' => absurd h' hch,
    fun hhas _ => ?_, fun _ _ => rfl⟩
  · rw [if_neg hcl]
  · have : ¬ 0 < req.contentLength := fun h0 => hcl ⟨hhas, h0⟩
    rw [length_nil]
    omega

/-- A complete request at the front of `i`: its head, its raw body and what
follows. -/
structure Message (i head body rest : Bytes) : Prop where
  split : i = head ++ (body ++ rest)
  head_ne : head ≠ []
  consumed : (parse {} i).consumed = head.length + body.length
  parsed : (parse {} i).req.body = body
  whole : (parse {} (head ++ body)).rc = .ok
  known : ∀ z, (parse {} (head ++ z)).rc = .more → Reached (parse {} (head ++ z))
  length : (parse {} i).req.hasContentLength → body.length = (parse {} i).req.contentLength
  chunked : (parse {} i).req.chunked → ∃ t : ChunkedBody, t.Scannable ∧ body = t.encode
  fields : ∃ f, framingFields (parse {} i).req.version (parse {} i).req.headers {} = some f ∧
    (parse {} i).req.contentLength = f.contentLength

theorem parseBody_more_reached
    (h : (parseBody len req i).rc = .more) : Reached (parseBody len req i) := by
  obtain ⟨body, hreq, _⟩ := parseBody_keeps len req i
  have hframed : req.hasContentLength ∨ req.chunked := by
    unfold parseBody at h
    by_cases hch : req.chunked = true
    · exact Or.inr hch
    rw [if_neg hch] at h
    by_cases hcl : req.hasContentLength ∧ 0 < req.contentLength
    · exact Or.inl hcl.1
    · rw [if_neg hcl] at h
      cases h
  rw [Reached, hreq]
  exact Or.inr hframed

/-- What `extract_framing` makes of a request it accepts. -/
structure Extracted (req q : HTTP1Request) (f : Framing) : Prop where
  body : q.body = req.body
  headers : q.headers = req.headers
  version : q.version = req.version
  fields : framingFields q.version q.headers {} = some f
  framing : q.contentLength = f.contentLength ∧ q.hasContentLength = f.hasContentLength ∧
    q.chunked = f.chunked
  exclusive : ¬ (q.chunked ∧ q.hasContentLength)

theorem extractFraming_some {q} (h : extractFraming req = some q) : ∃ f, Extracted req q f := by
  unfold extractFraming at h
  split at h
  · cases h
  rename_i f hf
  split at h
  · cases h
  · rename_i hboth
    cases h
    exact ⟨f, rfl, rfl, rfl, hf, ⟨rfl, rfl, rfl⟩, hboth⟩

/-- **An accepted request**: empty lines, a head, and the body its framing says. -/
theorem parse_ok (h : (parse req i).rc = .ok) :
    ∃ k ≤ kMaxLeadingEmptyLines, ∃ (hd : Head) (q : HTTP1Request) (b b' r : Bytes),
      i = emptyLines k ++ hd.bytes ++ (b ++ r) ∧
      extractFraming (parseUrlComponents (hd.request req.restart)) = some q ∧
      parse req i = { rc := .ok, req := { q with body := b' }
                      consumed := (emptyLines k ++ hd.bytes).length + b.length } ∧
      (q.body = [] → b' = b) ∧ (∀ len, (parseBody len q b).rc = .ok) ∧ Framed q b := by
  have hi : i ≠ [] := by
    rintro rfl
    cases h
  obtain ⟨k, hk, hd, z, rfl⟩ := parse_head hi (Or.inl h)
  have hz := parse_emptyLines hd req hk z
  rw [hz] at h
  rw [parseFramed] at hz h
  cases hf : extractFraming (parseUrlComponents (hd.request req.restart)) with
  | none => rw [hf] at h; cases h
  | some q =>
    rw [hf] at hz h
    obtain ⟨b, b', r, rfl, hres, hsame, hwhole, hframed⟩ :=
      parseBody_ok (by simp only [length_append]; omega) h
    have hlen : (emptyLines k ++ hd.bytes ++ (b ++ r)).length - r.length =
        (emptyLines k ++ hd.bytes).length + b.length := by
      simp only [length_append]
      omega
    exact ⟨k, hk, hd, q, b, b', r, rfl, hf, hlen ▸ hz.trans hres, hsame, hwhole, hframed⟩

theorem message_of_ok (h : (parse {} i).rc = .ok) : ∃ head body rest, Message i head body rest := by
  obtain ⟨k, hk, hd, q, b, b', r, rfl, hf, hz, hsame, hwhole, hframed⟩ := parse_ok h
  obtain ⟨f, hex⟩ := extractFraming_some hf
  obtain ⟨c, w, hw, -⟩ := hd.bytes_cons
  have hhead := parse_emptyLines hd {} hk
  refine ⟨emptyLines k ++ hd.bytes, b, r, rfl, by simp [hw], by rw [hz], ?_, ?_, fun y hy => ?_,
    ?_, ?_, ?_⟩
  · rw [hz]
    exact hsame hex.body
  · rw [hhead b]
    simp only [parseFramed, hf]
    exact hwhole _
  · rw [hhead y] at hy ⊢
    simp only [parseFramed, hf] at hy ⊢
    exact parseBody_more_reached hy
  · rw [hz]
    exact fun hcl => hframed.length hcl fun hch => hex.exclusive ⟨hch, hcl⟩
  · rw [hz]
    exact hframed.chunked
  · rw [hz]
    exact ⟨f, hex.fields, hex.framing.1⟩

section More
variable {buf x : Bytes}

theorem Message.more_lt {head body rest} (m : Message (buf ++ x) head body rest)
    (hmore : (parse {} buf).rc = .more) : buf.length < head.length + body.length := by
  by_contra hge
  have hmsg : head ++ body <+: buf ++ x := ⟨rest, by rw [m.split, append_assoc]⟩
  have hpre : head ++ body <+: buf :=
    prefix_of_prefix_length_le hmsg ⟨x, rfl⟩ (by simp only [length_append]; omega)
  obtain ⟨y, rfl⟩ := hpre
  rw [parse_append y (by rw [m.whole]; decide), m.whole] at hmore
  cases hmore

theorem Message.unframed_lt {head body rest} (m : Message (buf ++ x) head body rest)
    (hmore : (parse {} buf).rc = .more) (hun : ¬ Reached (parse {} buf)) :
    buf.length < head.length := by
  by_contra hge
  have hmsg : head <+: buf ++ x := ⟨body ++ rest, m.split.symm⟩
  have hpre : head <+: buf := prefix_of_prefix_length_le hmsg ⟨x, rfl⟩ (by omega)
  obtain ⟨y, rfl⟩ := hpre
  exact hun (m.known y hmore)

theorem framing_resume (hmore : (parse {} buf).rc = .more) (hr : Reached (parse {} buf))
    (x : Bytes) :
    (parse {} (buf ++ x)).req.hasContentLength = (parse {} buf).req.hasContentLength ∧
      (parse {} (buf ++ x)).req.contentLength = (parse {} buf).req.contentLength ∧
      (parse {} (buf ++ x)).req.chunked = (parse {} buf).req.chunked := by
  have hi : buf ≠ [] := by
    rintro rfl
    exact not_reached (by nofun) rfl rfl hr
  obtain ⟨k, hk, hd, z, rfl⟩ := parse_head hi hr
  have hhead := parse_emptyLines hd {} hk
  rw [hhead] at hmore
  rw [append_assoc, hhead, hhead]
  simp only [parseFramed] at hmore ⊢
  cases hf : extractFraming (parseUrlComponents (hd.request ({} : HTTP1Request).restart)) with
  | none => rw [hf] at hmore; cases hmore
  | some q =>
    obtain ⟨b, hb, -⟩ := parseBody_keeps (emptyLines k ++ hd.bytes ++ (z ++ x)).length q (z ++ x)
    obtain ⟨b', hb', -⟩ := parseBody_keeps (emptyLines k ++ hd.bytes ++ z).length q z
    simp only [hb, hb', and_self]

end More

end BoltApi.Http1.ParserHead
