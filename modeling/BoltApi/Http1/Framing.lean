import BoltApi.Http1.ParserHead

/-! # One framing for each request

A request that two parsers cut at different places is how requests are
smuggled. The fields of an accepted request leave one way to cut it, and a
header section that leaves none or more is refused, whatever the order of its
fields and the case of their names. -/
namespace BoltApi.Http1.Framing
open Octets Lib.Scanning Http1.Parser ParserStable ParserHead List

def isLength (a : Header) : Bool := ieq a.name (ascii "content-length")

def isEncoding (a : Header) : Bool := ieq a.name (ascii "transfer-encoding")

variable {version : HTTP1Version} {a : Header} {hs : List Header} {f g : Framing}

theorem isEncoding_of_isLength (h : isLength a) : ¬ isEncoding a := by
  rw [isLength, ieq, beq_iff_eq] at h
  rw [isEncoding, ieq, h]
  decide

inductive Took (version : HTTP1Version) (a : Header) (f : Framing) : Framing → Prop
  | length {n : Nat} (hname : isLength a) (hn : parseContentLength a.value = some n)
      (hsame : f.hasContentLength → n = f.contentLength) :
      Took version a f { f with contentLength := n, hasContentLength := true }
  | encoding (hlength : ¬ isLength a) (hname : isEncoding a) (hfirst : f.teCount = 0)
      (hvalue : ieq a.value (ascii "chunked")) (hversion : version = .HTTP_1_1) :
      Took version a f { f with chunked := true, teCount := f.teCount + 1 }
  | other (hlength : ¬ isLength a) (hname : ¬ isEncoding a) : Took version a f f

theorem framingFields_cons (h : framingFields version (a :: hs) f = some g) :
    ∃ f', Took version a f f' ∧ framingFields version hs f' = some g := by
  rw [framingFields] at h
  split at h
  · rename_i hname
    cases hp : parseContentLength a.value with
    | none => rw [hp] at h; cases h
    | some n =>
      rw [hp] at h
      simp only at h
      split at h
      · cases h
      rename_i hdiffers
      exact ⟨_, .length hname hp fun hf => by_contra fun hne => hdiffers ⟨hf, hne⟩, h⟩
  rename_i hlength
  split at h
  · rename_i hname
    split at h
    · cases h
    rename_i hte
    rw [not_or, Bool.not_eq_false] at hte
    split at h
    · cases h
    rename_i hversion
    exact ⟨_, .encoding hlength hname (by omega) hte.2 (not_ne_iff.mp hversion), h⟩
  · rename_i hname
    exact ⟨_, .other hlength hname, h⟩

structure Collected (version : HTTP1Version) (hs : List Header) (f g : Framing) : Prop where
  keeps : f.hasContentLength → g.contentLength = f.contentLength
  lengths : ∀ a ∈ hs, isLength a → parseContentLength a.value = some g.contentLength
  hasLength : g.hasContentLength = (f.hasContentLength || hs.any isLength)
  chunked : g.chunked = (f.chunked || hs.any isEncoding)
  encodings : ∀ a ∈ hs, isEncoding a → ieq a.value (ascii "chunked") ∧ version = .HTTP_1_1
  count : hs.countP isEncoding ≤ 1 - f.teCount

theorem framingFields_collected : ∀ {hs : List Header} {f : Framing},
    framingFields version hs f = some g → Collected version hs f g
  | [], f, h => by
    cases h
    exact ⟨fun _ => rfl, nofun, (Bool.or_false _).symm, (Bool.or_false _).symm, nofun, Nat.zero_le _⟩
  | a :: hs, f, h => by
    obtain ⟨f', ht, h⟩ := framingFields_cons h
    obtain ⟨hkeeps, hlengths, hlength, hchunked, hencodings, hcount⟩ := framingFields_collected h
    cases ht with
    | length hname hn hsame =>
      have hne := isEncoding_of_isLength hname
      refine ⟨fun hf => (hkeeps rfl).trans (hsame hf), ?_, ?_, ?_, ?_, ?_⟩
      · exact forall_mem_cons.mpr ⟨fun _ => hn.trans (congrArg some (hkeeps rfl).symm), hlengths⟩
      · simp [hlength, hname]
      · simp [hchunked, hne]
      · exact forall_mem_cons.mpr ⟨fun h => absurd h hne, hencodings⟩
      · rw [countP_cons_of_neg hne]
        exact hcount
    | encoding hl hname hfirst hvalue hversion =>
      refine ⟨hkeeps, ?_, ?_, ?_, ?_, ?_⟩
      · exact forall_mem_cons.mpr ⟨fun h => absurd h hl, hlengths⟩
      · simp [hlength, hl]
      · simp [hchunked, hname]
      · exact forall_mem_cons.mpr ⟨fun _ => ⟨hvalue, hversion⟩, hencodings⟩
      · have hnone : hs.countP isEncoding ≤ 1 - (f.teCount + 1) := hcount
        rw [countP_cons_of_pos hname]
        omega
    | other hl hname =>
      refine ⟨hkeeps, ?_, ?_, ?_, ?_, ?_⟩
      · exact forall_mem_cons.mpr ⟨fun h => absurd h hl, hlengths⟩
      · simp [hlength, hl]
      · simp [hchunked, hname]
      · exact forall_mem_cons.mpr ⟨fun h => absurd h hname, hencodings⟩
      · rw [countP_cons_of_neg hname]
        exact hcount

/-- The framing the parser reports is the one way its fields leave to cut the
request. -/
structure OneFraming (r : HTTP1Request) : Prop where
  exclusive : ¬ (r.chunked ∧ r.hasContentLength)
  hasLength : r.hasContentLength = r.headers.any isLength
  lengths : ∀ a ∈ r.headers, isLength a → parseContentLength a.value = some r.contentLength
  chunked : r.chunked = r.headers.any isEncoding
  encoding : r.chunked → r.version = .HTTP_1_1 ∧ r.headers.countP isEncoding = 1
  codings : ∀ a ∈ r.headers, isEncoding a → ieq a.value (ascii "chunked")

theorem oneFraming {req q} (h : extractFraming req = some q) : OneFraming q := by
  obtain ⟨f, hex⟩ := extractFraming_some h
  obtain ⟨hlen, hhas, hch⟩ := hex.framing
  have hc := framingFields_collected hex.fields
  have hany : q.chunked = q.headers.any isEncoding := hch.trans hc.chunked
  refine ⟨hex.exclusive, hhas.trans hc.hasLength, hlen ▸ hc.lengths, hany, fun hchunked => ?_,
    fun a ha hname => (hc.encodings a ha hname).1⟩
  obtain ⟨a, ha, hname⟩ := any_eq_true.mp (hany ▸ hchunked)
  have hpos : 0 < q.headers.countP isEncoding := countP_pos_iff.mpr ⟨a, ha, hname⟩
  have hle : q.headers.countP isEncoding ≤ 1 := hc.count
  exact ⟨(hc.encodings a ha hname).2, by omega⟩

def NoLength (v : Bytes) : Prop :=
  v = [] ∨ (∃ c ∈ v, isDigit c = false) ∨ kMaxContentLength < decimal v

/-- The fields leave no way to cut the request, or several. -/
def Faulty (version : HTTP1Version) (hs : List Header) : Prop :=
  (∃ a ∈ hs, isLength a ∧ NoLength a.value) ∨
  (∃ a ∈ hs, ∃ b ∈ hs, isLength a ∧ isLength b ∧ decimal a.value ≠ decimal b.value) ∨
  (∃ a ∈ hs, ∃ b ∈ hs, isLength a ∧ isEncoding b) ∨
  (∃ a ∈ hs, isEncoding a ∧ (version = .HTTP_1_0 ∨ ieq a.value (ascii "chunked") = false)) ∨
  1 < hs.countP isEncoding

theorem parseContentLength_some {v n} (h : parseContentLength v = some n) :
    ¬ NoLength v ∧ decimal v = n := by
  unfold parseContentLength at h
  split at h
  · cases h
  rename_i hne
  split at h
  · rename_i hall
    split at h
    · cases h
    rename_i hle
    cases h
    refine ⟨?_, rfl⟩
    rintro (rfl | ⟨c, hc, hdigit⟩ | hlt)
    · exact hne (.inl rfl)
    · rw [all_eq_true.mp hall c hc] at hdigit
      cases hdigit
    · exact hle hlt
  · cases h

theorem OneFraming.not_faulty {r : HTTP1Request} (h : OneFraming r) : ¬ Faulty r.version r.headers := by
  rintro (⟨a, ha, hname, hno⟩ | ⟨a, ha, b, hb, hla, hlb, hne⟩ | ⟨a, ha, b, hb, hla, heb⟩ |
    ⟨a, ha, hname, hbad⟩ | hmany)
  · exact (parseContentLength_some (h.lengths a ha hname)).1 hno
  · exact hne ((parseContentLength_some (h.lengths a ha hla)).2.trans
      (parseContentLength_some (h.lengths b hb hlb)).2.symm)
  · exact h.exclusive ⟨h.chunked.trans (any_eq_true.mpr ⟨b, hb, heb⟩),
      h.hasLength.trans (any_eq_true.mpr ⟨a, ha, hla⟩)⟩
  · have hchunked : r.chunked := h.chunked.trans (any_eq_true.mpr ⟨a, ha, hname⟩)
    rcases hbad with hv | hv
    · rw [(h.encoding hchunked).1] at hv
      cases hv
    · rw [h.codings a ha hname] at hv
      cases hv
  · obtain ⟨b, hb, hname⟩ := countP_pos_iff.mp (Nat.zero_lt_of_lt hmany)
    have hone := (h.encoding (h.chunked.trans (any_eq_true.mpr ⟨b, hb, hname⟩))).2
    omega

/-- **One framing**: what `parse` accepts it cuts behind the empty lines, the head
and the body of its one framing, and it refuses every head whose fields are
faulty as soon as the head is in. -/
theorem framing_single (req : HTTP1Request) :
    (∀ data, (parse req data).rc = .ok → ∃ k ≤ kMaxLeadingEmptyLines, ∃ (h : Head) (body rest : Bytes),
      data = emptyLines k ++ h.bytes ++ (body ++ rest) ∧
      (parse req data).req.headers = h.headers ∧ (parse req data).req.version = h.version ∧
      (parse req data).consumed = (emptyLines k).length + h.bytes.length + body.length ∧
      OneFraming (parse req data).req ∧ Framed (parse req data).req body) ∧
    ∀ k ≤ kMaxLeadingEmptyLines, ∀ (h : Head) (rest : Bytes), Faulty h.version h.headers →
      (parse req (emptyLines k ++ h.bytes ++ rest)).rc = .bad := by
  constructor
  · intro data hok
    obtain ⟨k, hk, h, q, b, b', r, hdata, hf, hz, -, -, hframed⟩ := parse_ok hok
    obtain ⟨f, hex⟩ := extractFraming_some hf
    obtain ⟨hexclusive, hhas, hlengths, hchunked, hencoding, hcodings⟩ := oneFraming hf
    rw [hz]
    exact ⟨k, hk, h, b, r, hdata, hex.headers, hex.version, by simp only [length_append],
      ⟨hexclusive, hhas, hlengths, hchunked, hencoding, hcodings⟩,
      hframed.chunked, hframed.length, hframed.empty⟩
  intro k hk h rest hfaulty
  rw [parse_emptyLines h req hk, parseFramed]
  cases hf : extractFraming (parseUrlComponents (h.request req.restart)) with
  | none => rfl
  | some q =>
    obtain ⟨f, hex⟩ := extractFraming_some hf
    have hnot := (oneFraming hf).not_faulty
    rw [hex.version, hex.headers] at hnot
    exact absurd hfaulty hnot

def twoLengths : Head where
  methodWord := ascii "GET "
  urlWord := ascii "/ "
  versionLine := ascii "HTTP/1.1\r\n"
  fieldLines := ascii "Content-Length: 1\r\nContent-Length: 2\r\n\r\n"
  methodStr := ascii "GET"
  url := ascii "/"
  version := .HTTP_1_1
  headers := [⟨ascii "Content-Length", ascii "1"⟩, ⟨ascii "Content-Length", ascii "2"⟩]
  method_ok := by decide +kernel
  url_ok := by decide +kernel
  version_ok := by decide +kernel
  headers_ok := by decide +kernel

/-- A body of two octets in front of the next request, and the head with two lengths. -/
theorem framing_single_length :
    let data := ascii "POST / HTTP/1.1\r\nHost: a\r\nContent-Length: 2\r\n\r\nhiGET"
    OneFraming (parse {} data).req ∧ (parse {} data).consumed = data.length - 3 ∧
      (parse {} twoLengths.bytes).rc = .bad := by
  intro data
  obtain ⟨hok, hconsumed⟩ : (parse {} data).rc = .ok ∧ (parse {} data).consumed = data.length - 3 := by
    unfold data ascii
    rw [String.toList_ofList]
    decide +kernel
  obtain ⟨_, -, _, _, _, -, -, -, -, hone, -⟩ := (framing_single {}).1 data hok
  refine ⟨hone, hconsumed, ?_⟩
  have hbad := (framing_single {}).2 0 (Nat.zero_le _) twoLengths [] (.inr (.inl (by decide +kernel)))
  rwa [append_nil] at hbad

end BoltApi.Http1.Framing
