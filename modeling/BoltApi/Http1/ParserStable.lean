import BoltApi.Http1.Parser
import BoltApi.Http1.ChunkedScan

/-! # Re-parsing a growing buffer

The read loop calls `parse` again on the whole buffer after every read, with
the same request object, until the answer is no longer "more". Two facts make
that the same as one parse of everything: an answer other than "more" does not
change when bytes are appended (`parse_append`), and what an earlier call left in the request object is overwritten or left alone in
the same way by the next one (`parse_resume`). -/
namespace BoltApi.Http1.ParserStable
open Octets Lib.Scanning Chunked ChunkedScan List
open Http1.Parser

/-! ## The parts of the request -/

theorem skipEmptyLines_append (x : Bytes) : ∀ (fuel : Nat) (i : Bytes),
    (∀ u r, skipEmptyLines fuel i = .ok u r → r ≠ [] →
      skipEmptyLines fuel (i ++ x) = .ok u (r ++ x)) ∧
    (skipEmptyLines fuel i = .bad → skipEmptyLines fuel (i ++ x) = .bad)
  | 0, i => by
    refine ⟨?_, ?_⟩
    · intro u r h _
      simp only [skipEmptyLines, Scan.ok.injEq] at h ⊢
      exact ⟨h.1, by rw [h.2]⟩
    · intro h; cases h
  | fuel + 1, [] => by
    refine ⟨?_, ?_⟩
    · intro u r h hr
      simp only [skipEmptyLines, Scan.ok.injEq] at h
      exact absurd h.2.symm hr
    · intro h; cases h
  | fuel + 1, c :: rest => by
    by_cases hc : c = CR
    · have ih := fun r => skipEmptyLines_append x fuel r
      simp only [skipEmptyLines, cons_append, hc, if_true]
      cases he : expect LF rest with
      | ok u r =>
        rw [(stable_expect LF).ok he x]
        exact ih r
      | more => exact ⟨fun _ _ h => (by cases h), fun h => (by cases h)⟩
      | bad =>
        rw [(stable_expect LF).bad he x]
        exact ⟨fun _ _ h => (by cases h), fun _ => rfl⟩
    simp only [skipEmptyLines, cons_append, hc, if_false]
    refine ⟨?_, by intro h; cases h⟩
    intro u r h _
    cases h
    rfl

theorem stable_word (good : UInt8 → Bool) : Stable (word good) :=
  (stable_spanUntil SP good).andThen fun w => stable_check _ w

variable {i : Bytes}

theorem notHttp_append (h : notHttp i) (x : Bytes) : notHttp (i ++ x) := by
  simp only [notHttp, ne_eq, decide_eq_true_eq] at h ⊢
  intro he
  apply h
  have hlen : (ascii "HTTP/").length = 5 := by decide
  have := congrArg (List.take i.length) he
  rw [take_take, take_take, length_append] at this
  rw [Nat.min_eq_left (Nat.le_add_right _ _)] at this
  rw [this]
  by_cases h5 : i.length ≤ 5
  · rw [Nat.min_eq_left h5, take_append_of_le_length (Nat.le_refl _)]
    rw [take_of_length_le (Nat.le_refl i.length), take_of_length_le h5]
  · rw [Nat.min_eq_right (by omega), take_append_of_le_length (by omega)]

theorem notHttp_append_false (h : notHttp i = false) (h5 : 5 ≤ i.length)
    (x : Bytes) : notHttp (i ++ x) = false := by
  have hlen : (ascii "HTTP/").length = 5 := by decide
  simp only [notHttp, ne_eq, decide_eq_false_iff_not, not_not] at h ⊢
  rw [take_of_length_le (by omega)] at h
  rw [take_of_length_le (by simp only [length_append]; omega),
    take_append_of_le_length h5]
  exact h

theorem stable_parseVersion : Stable parseVersion := by
  refine Stable.of_push fun i x h => ?_
  unfold parseVersion at h ⊢
  cases hn : notHttp i with
  | true => rw [notHttp_append hn x]; rfl
  | false =>
    by_cases hlen : i.length < 10
    · simp [hn, hlen] at h
    have htake : (i ++ x).take 10 = i.take 10 := take_append_of_le_length (by omega)
    have hdrop : (i ++ x).drop 10 = i.drop 10 ++ x := drop_append_of_le_length (by omega)
    have hlen' : ¬ (i ++ x).length < 10 := by simp only [length_append]; omega
    simp only [notHttp_append_false hn (by omega) x, htake, hdrop, hlen, hlen',
      Bool.false_eq_true, if_false]
    split_ifs <;> rfl

theorem stable_parseHeaderField : Stable parseHeaderField :=
  (stable_spanUntil COLON _).andThen fun n => stable_check _ n

theorem stable_parseHeaderValue : Stable parseHeaderValue :=
  (stable_spanUntil CR _).andThen fun v =>
    (stable_expect LF).andThen fun _ => stable_accept (trimValue v)

theorem stable_parseHeader : Stable parseHeader := by
  refine stable_parseHeaderField.andThen fun n => ?_
  have hv := stable_parseHeaderValue.dropWhile rfl fun c => c = SP ∨ c = HTAB
  exact hv.andThen fun v => stable_accept _

theorem parseHeaders_append (x : Bytes) : ∀ (fuel : Nat) (acc : List Header) (i : Bytes),
    ((parseHeaders fuel acc i).status = .ok → parseHeaders fuel acc (i ++ x) =
      ⟨.ok, (parseHeaders fuel acc i).headers, (parseHeaders fuel acc i).rest ++ x⟩) ∧
    ((parseHeaders fuel acc i).status = .bad →
      parseHeaders fuel acc (i ++ x) = parseHeaders fuel acc i)
  | 0, acc, i => by simp [parseHeaders]
  | fuel + 1, acc, [] => by simp [parseHeaders]
  | fuel + 1, acc, c :: rest => by
    simp only [parseHeaders, cons_append]
    by_cases hc : c = CR
    · simp only [hc, if_true]
      cases he : expect LF rest with
      | ok u r => rw [(stable_expect LF).ok he x]; simp
      | more => simp
      | bad => rw [(stable_expect LF).bad he x]; simp
    simp only [hc, if_false]
    by_cases hm : MAX_HEADERS ≤ acc.length
    · simp [hm]
    simp only [hm, if_false]
    cases hp : parseHeader (c :: rest) with
    | ok h r =>
      have := stable_parseHeader.ok hp x
      rw [cons_append] at this
      rw [this]
      exact parseHeaders_append x fuel (acc ++ [h]) r
    | more => simp
    | bad =>
      have := stable_parseHeader.bad hp x
      rw [cons_append] at this
      rw [this]
      simp

variable {req : HTTP1Request}

theorem parseBody_append (x : Bytes) {len} (hi : i.length ≤ len)
    (h : (parseBody len req i).rc ≠ .more) :
    parseBody (len + x.length) req (i ++ x) = parseBody len req i := by
  unfold parseBody at *
  by_cases hch : req.chunked = true
  · simp only [hch, if_true] at h ⊢
    cases hs : scanChunked i with
    | more => rw [hs] at h; exact absurd rfl h
    | bad => rw [stable_scanChunked.bad hs x]
    | ok u r =>
      rw [stable_scanChunked.ok hs x]
      have hraw : rawLen (i ++ x) (r ++ x) = rawLen i r := by
        simp only [rawLen, length_append]; omega
      have htake : (i ++ x).take (rawLen i r) = i.take (rawLen i r) :=
        take_append_of_le_length (Nat.sub_le _ _)
      simp only [hraw, htake, length_append, Nat.add_sub_add_right]
  simp only [hch, Bool.false_eq_true, if_false] at h ⊢
  by_cases hcl : req.hasContentLength ∧ 0 < req.contentLength
  · rw [if_pos hcl] at h
    rw [if_pos hcl, if_pos hcl]
    by_cases hlen : i.length < req.contentLength
    · rw [if_pos hlen] at h
      exact absurd rfl h
    rw [if_neg hlen, if_neg (by simp only [length_append]; omega),
      take_append_of_le_length (by omega)]
    simp only [length_append, ParseResult.mk.injEq, true_and, and_true]
    omega
  · rw [if_neg hcl, if_neg hcl]
    simp only [length_append, Nat.add_sub_add_right]

theorem exact_parseHeader : Exact parseHeader := by
  have hname : Exact parseHeaderField :=
    (exact_spanUntil COLON _).andThen (stable_spanUntil COLON _) fun n => exact_check _ n
  have hval : Exact parseHeaderValue :=
    (exact_spanUntil CR _).andThen (stable_spanUntil CR _) fun v =>
      (exact_expect LF).andThen (stable_expect LF) fun _ => exact_accept (trimValue v)
  refine hname.andThen stable_parseHeaderField fun n => ?_
  exact (hval.dropWhile rfl _).andThen (stable_parseHeaderValue.dropWhile rfl _)
    fun v => exact_accept _

theorem parseHeaders_length : ∀ (fuel : Nat) (acc : List Header) (i : Bytes),
    (parseHeaders fuel acc i).rest.length ≤ i.length
  | 0, acc, i => Nat.zero_le _
  | fuel + 1, acc, [] => Nat.le_refl _
  | fuel + 1, acc, c :: rest => by
    rw [parseHeaders]
    by_cases hc : c = CR
    · rw [if_pos hc]
      cases he : expect LF rest with
      | ok u r =>
        have := (exact_expect LF).length_le he
        simp only [length_cons]
        omega
      | _ => simp
    rw [if_neg hc]
    by_cases hm : MAX_HEADERS ≤ acc.length
    · rw [if_pos hm]; simp
    rw [if_neg hm]
    cases hp : parseHeader (c :: rest) with
    | ok h r =>
      have := exact_parseHeader.length_le hp
      exact Nat.le_trans (parseHeaders_length fuel _ r) this
    | _ => simp

/-! ## The stages of `parse` -/

theorem parseBody_keeps (len : Nat) (req : HTTP1Request) (i : Bytes) :
    ∃ body, (parseBody len req i).req = { req with body } ∧
      ((parseBody len req i).rc = .more → body = req.body) := by
  unfold parseBody
  split
  · cases scanChunked i with
    | ok u r => exact ⟨_, rfl, fun h => (by cases h)⟩
    | _ => exact ⟨req.body, rfl, fun _ => rfl⟩
  split
  · split
    · exact ⟨req.body, rfl, fun _ => rfl⟩
    · exact ⟨_, rfl, fun h => (by cases h)⟩
  · exact ⟨req.body, rfl, fun _ => rfl⟩

structure SameLine (r s : HTTP1Request) : Prop where
  methodStr : r.methodStr = s.methodStr
  method : r.method = s.method
  url : r.url = s.url
  version : r.version = s.version

theorem extractFraming_keeps {r} (h : extractFraming req = some r) : SameLine r req := by
  unfold extractFraming at h
  split at h
  · cases h
  split at h
  · cases h
  · cases h
    exact ⟨rfl, rfl, rfl, rfl⟩

theorem parseFields_keeps (len : Nat) (req : HTTP1Request) (i : Bytes) :
    SameLine (parseFields len req i).req req := by
  unfold parseFields
  split
  · exact ⟨rfl, rfl, rfl, rfl⟩
  · exact ⟨rfl, rfl, rfl, rfl⟩
  rename_i hs rest _
  unfold parseFramed
  cases hf : extractFraming (parseUrlComponents { req with headers := hs }) with
  | none => exact ⟨rfl, rfl, rfl, rfl⟩
  | some r =>
    have hr := extractFraming_keeps hf
    obtain ⟨body, hbody, _⟩ := parseBody_keeps len r rest
    dsimp only
    rw [hbody]
    exact ⟨hr.methodStr, hr.method, hr.url, hr.version⟩

theorem extract_again {r} (h : extractFraming (parseUrlComponents req) = some r) :
    extractFraming (parseUrlComponents { r.restart with headers := req.headers }) = some r := by
  unfold extractFraming at h
  split at h
  · cases h
  rename_i f hf
  split at h
  · cases h
  rename_i hboth
  cases h
  have hf' : framingFields req.version req.headers {} = some f := hf
  unfold extractFraming
  have hget : ∀ (o : Option Bytes) (d : Bytes), o.getD (o.getD d) = o.getD d := by
    intro o d
    cases o <;> rfl
  have hup : ∀ u p : Bytes,
      (if u = [] then (if u = [] then p else u) else u) = if u = [] then p else u := by
    intro u p
    by_cases hu : u = [] <;> simp [hu]
  simp only [HTTP1Request.restart, parseUrlComponents, hf', if_neg hboth, Option.some.injEq,
    HTTP1Request.getHeader, HTTP1Request.mk.injEq, hget, true_and]
  exact ⟨rfl, hup _ _⟩

/-- What holds of a stage of `parse`: an answer other than "more" is final, and a
request object that an unfinished call left behind is as good as the one that
call started from. -/
structure Stage (f : Nat → HTTP1Request → Bytes → ParseResult) : Prop where
  final : ∀ x {len req i}, i.length ≤ len → (f len req i).rc ≠ .more →
    f (len + x.length) req (i ++ x) = f len req i
  resumes : ∀ len' x {len req i}, req.restart = req → (f len req i).rc = .more →
    f len' (f len req i).req.restart (i ++ x) = f len' req (i ++ x)

theorem stage_parseFields : Stage parseFields where
  final x len req i hi h := by
    obtain ⟨hok, hbad⟩ := parseHeaders_append x (MAX_HEADERS + 1) [] i
    have hlen := parseHeaders_length (MAX_HEADERS + 1) [] i
    unfold parseFields at *
    generalize parseHeaders (MAX_HEADERS + 1) [] i = hs at *
    obtain ⟨status, headers, rest⟩ := hs
    simp only at hok hbad hlen
    cases status with
    | more => exact absurd rfl h
    | bad => rw [hbad rfl]
    | ok =>
      rw [hok rfl]
      simp only [parseFramed] at h ⊢
      cases hf : extractFraming (parseUrlComponents { req with headers }) with
      | none => rfl
      | some req' =>
        rw [hf] at h
        exact parseBody_append x (by omega) h
  resumes len' x len req i hreq hmore := by
    obtain ⟨hok, _⟩ := parseHeaders_append x (MAX_HEADERS + 1) [] i
    unfold parseFields at *
    generalize parseHeaders (MAX_HEADERS + 1) [] i = h at *
    obtain ⟨status, headers, rest⟩ := h
    cases status with
    | bad => cases hmore
    | more =>
      have : ({ req with headers } : HTTP1Request).restart = req := hreq
      simp only [this]
    | ok =>
      simp only [hok rfl]
      simp only [parseFramed] at hmore ⊢
      cases hf : extractFraming (parseUrlComponents { req with headers }) with
      | none => rw [hf] at hmore; cases hmore
      | some r =>
        rw [hf] at hmore
        obtain ⟨body, hbody, hsame⟩ := parseBody_keeps len r rest
        rw [hsame hmore] at hbody
        simp only [hbody, extract_again hf]

section Link
variable {α : Type}

/-- A stage that scans a part of the request line, notes it and goes on; `flag`
is what a refusal says of `is_not_http()`. -/
def link (p : Bytes → Scan α UInt8) (note : α → HTTP1Request → HTTP1Request) (flag : Bytes → Bool)
    (g : Nat → HTTP1Request → Bytes → ParseResult) (len : Nat) (req : HTTP1Request) (i : Bytes) :
    ParseResult :=
  match p i with
  | .more => { rc := .more, req }
  | .bad => { rc := .bad, req, notHttp := flag i }
  | .ok a rest => g len (note a req) rest

variable {p : Bytes → Scan α UInt8} {note : α → HTTP1Request → HTTP1Request} {flag : Bytes → Bool}
  {f g : Nat → HTTP1Request → Bytes → ParseResult}

theorem link_req {P : HTTP1Request → Prop} {len : Nat} (hreq : P req)
    (hg : ∀ a rest, P (g len (note a req) rest).req) : P (link p note flag g len req i).req := by
  unfold link
  split
  · exact hreq
  · exact hreq
  · exact hg _ _

theorem Stage.link (hg : Stage g) (hf : f = link p note flag g) (hp : Stable p) (hc : Exact p)
    (hflag : ∀ {i}, p i = .bad → ∀ x, flag (i ++ x) = flag i)
    (hnote : ∀ a req, (note a req).restart = note a req.restart)
    (hkeep : ∀ a len req i, note a (g len (note a req) i).req = (g len (note a req) i).req) :
    Stage f := by
  subst hf
  constructor
  · intro x len req i hi h
    unfold ParserStable.link at *
    cases hpi : p i with
    | more => rw [hpi] at h; exact absurd rfl h
    | bad => rw [hp.bad hpi x, hflag hpi x]
    | ok a rest =>
      rw [hpi] at h
      have := hc.length_le hpi
      rw [hp.ok hpi x]
      exact hg.final x (by omega) h
  intro len' x len req i hreq hmore
  unfold ParserStable.link at *
  cases hpi : p i with
  | more => simp only [hreq]
  | bad => rw [hpi] at hmore; cases hmore
  | ok a rest =>
    rw [hpi] at hmore
    have hres := hg.resumes len' x (by rw [hnote, hreq]) hmore
    simp only [hp.ok hpi x]
    rw [← hnote, hkeep, hres]

end Link

theorem exact_word (good : UInt8 → Bool) : Exact (word good) :=
  (exact_spanUntil SP good).andThen (stable_spanUntil SP good) fun w => exact_check _ w

theorem exact_parseVersion : Exact parseVersion := by
  intro i v r h
  unfold parseVersion at h
  split at h
  · cases h
  split at h
  · cases h
  have hi := (take_append_drop 10 i).symm
  split at h
  · rename_i h11
    cases h
    exact ⟨_, hi, by rw [h11]; decide⟩
  split at h
  · rename_i h10
    cases h
    exact ⟨_, hi, by rw [h10]; decide⟩
  · cases h

theorem parseVersion_bad_notHttp (h : parseVersion i = .bad) (x : Bytes) :
    notHttp (i ++ x) = notHttp i := by
  cases hn : notHttp i with
  | true => exact notHttp_append hn x
  | false =>
    have hlen : ¬ i.length < 10 := by
      intro hlt
      rw [parseVersion, hn, if_neg (by decide), if_pos hlt] at h
      cases h
    exact notHttp_append_false hn (by omega) x

theorem parseFromVersion_eq : parseFromVersion =
    link parseVersion (fun v req => { req with version := v }) notHttp parseFields := by
  funext len req i
  rw [parseFromVersion, link]
  cases parseVersion i <;> rfl

theorem stage_parseFromVersion : Stage parseFromVersion := by
  refine stage_parseFields.link parseFromVersion_eq stable_parseVersion exact_parseVersion
    parseVersion_bad_notHttp (fun _ _ => rfl) fun v len req i => ?_
  have h := (parseFields_keeps len { req with version := v } i).version
  generalize (parseFields _ _ _).req = r at h ⊢
  cases h
  rfl

theorem parseFromVersion_keeps (len : Nat) (req : HTTP1Request) (i : Bytes) :
    (parseFromVersion len req i).req.methodStr = req.methodStr ∧
      (parseFromVersion len req i).req.method = req.method ∧
      (parseFromVersion len req i).req.url = req.url := by
  rw [parseFromVersion_eq]
  refine link_req (P := fun r => r.methodStr = req.methodStr ∧ r.method = req.method ∧
    r.url = req.url) ⟨rfl, rfl, rfl⟩ fun v rest => ?_
  have h := parseFields_keeps len { req with version := v } rest
  exact ⟨h.methodStr, h.method, h.url⟩

theorem parseFromUrl_eq : parseFromUrl =
    link parseUrl (fun u req => { req with url := u }) (fun _ => false) parseFromVersion := by
  funext len req i
  rw [parseFromUrl, link]
  cases parseUrl i <;> rfl

theorem stage_parseFromUrl : Stage parseFromUrl := by
  refine stage_parseFromVersion.link parseFromUrl_eq (stable_word _) (exact_word _)
    (fun _ _ => rfl) (fun _ _ => rfl) fun u len req i => ?_
  obtain ⟨-, -, h⟩ := parseFromVersion_keeps len { req with url := u } i
  generalize (parseFromVersion _ _ _).req = r at h ⊢
  cases h
  rfl

theorem parseFromMethod_eq : parseFromMethod =
    link parseMethod (fun m req => { req with methodStr := m, method := methodOf m })
      (fun _ => false) parseFromUrl := by
  funext len req i
  rw [parseFromMethod, link]
  cases parseMethod i <;> rfl

theorem stage_parseFromMethod : Stage parseFromMethod := by
  refine stage_parseFromUrl.link parseFromMethod_eq (stable_word _) (exact_word _)
    (fun _ _ => rfl) (fun _ _ => rfl) fun m len req i => ?_
  rw [parseFromUrl_eq]
  refine link_req (P := fun r => { r with methodStr := m, method := methodOf m } = r) rfl
    fun u rest => ?_
  obtain ⟨h, h', -⟩ := parseFromVersion_keeps len
    { req with methodStr := m, method := methodOf m, url := u } rest
  generalize (parseFromVersion _ _ _).req = r at h h' ⊢
  cases r
  cases h
  cases h'
  rfl

def emptyLines (k : Nat) : Bytes := (replicate k [CR, LF]).flatten

theorem skipEmptyLines_ok : ∀ {fuel : Nat} {i r : Bytes}, skipEmptyLines fuel i = .ok () r →
    ∃ k ≤ fuel, i = emptyLines k ++ r
  | 0, i, r, h => by
    cases h
    exact ⟨0, Nat.le_refl _, rfl⟩
  | fuel + 1, [], r, h => by
    cases h
    exact ⟨0, Nat.zero_le _, rfl⟩
  | fuel + 1, b :: rest, r, h => by
    rw [skipEmptyLines] at h
    split at h
    · rename_i hb
      cases rest with
      | nil => cases h
      | cons d rest =>
        rw [expect] at h
        split at h
        · rename_i hd
          obtain ⟨k, hk, rfl⟩ := skipEmptyLines_ok h
          exact ⟨k + 1, Nat.succ_le_succ hk, by rw [hb, hd]; rfl⟩
        · cases h
    · cases h
      exact ⟨0, Nat.zero_le _, rfl⟩

theorem parse_append (x : Bytes)
    (h : (parse req i).rc ≠ .more) : parse req (i ++ x) = parse req i := by
  unfold parse at *
  by_cases hi : i = []
  · rw [if_pos hi] at h
    exact absurd rfl h
  rw [if_neg hi] at h
  rw [if_neg hi, if_neg (by simp [hi])]
  obtain ⟨hok, hbad⟩ := skipEmptyLines_append x kMaxLeadingEmptyLines i
  cases hs : skipEmptyLines kMaxLeadingEmptyLines i with
  | more => rw [hs] at h; exact absurd rfl h
  | bad => rw [hbad hs]
  | ok u rest =>
    rw [hs] at h
    by_cases hr : rest = []
    · simp only [hr, if_true] at h
      exact absurd rfl h
    have hlen : rest.length ≤ i.length := by
      obtain ⟨k, -, rfl⟩ := skipEmptyLines_ok hs
      simp
    rw [hok u rest hs hr]
    simp only [append_eq_nil_iff, hr, false_and, if_false, length_append] at h ⊢
    exact stage_parseFromMethod.final x hlen h

theorem parse_resume (x : Bytes)
    (h : (parse req i).rc = .more) : parse (parse req i).req (i ++ x) = parse req (i ++ x) := by
  by_cases hi : i = []
  · simp only [hi, parse, if_true, nil_append]
  have hix : i ++ x ≠ [] := by simp [hi]
  obtain ⟨hok, _⟩ := skipEmptyLines_append x kMaxLeadingEmptyLines i
  unfold parse at *
  simp only [hi, hix, if_false] at h ⊢
  cases hs : skipEmptyLines kMaxLeadingEmptyLines i with
  | bad => rw [hs] at h; cases h
  | more => rfl
  | ok u rest =>
    rw [hs] at h
    by_cases hr : rest = []
    · simp only [hr, if_true]
      rfl
    simp only [hr, if_false] at h ⊢
    rw [hok u rest hs hr]
    have hrx : rest ++ x ≠ [] := by simp [hr]
    simp only [hrx, if_false]
    exact stage_parseFromMethod.resumes (i ++ x).length x rfl h

/-! ## The read loop -/

/-- Parsing again after every read, with the same request object, until an
answer other than "more" comes. `last` is the answer on `buf`. -/
def reparse (last : ParseResult) (buf : Bytes) : List Bytes → ParseResult
  | [] => last
  | read :: reads =>
    if last.rc = .more then reparse (parse last.req (buf ++ read)) (buf ++ read) reads
    else last

theorem reparse_parse (req : HTTP1Request) : ∀ (reads : List Bytes) (buf : Bytes),
    reparse (parse req buf) buf reads = parse req (buf ++ reads.flatten)
  | [], buf => by rw [reparse, flatten_nil, append_nil]
  | read :: reads, buf => by
    rw [reparse]
    by_cases hm : (parse req buf).rc = .more
    · rw [if_pos hm, parse_resume read hm, reparse_parse req reads, flatten_cons, append_assoc]
    · rw [if_neg hm, parse_append _ hm]

/-- **The answer of the parser does not depend on when it is asked.** Once it
is "complete" or "malformed" it stays what it is, request object and consumed
count included, and re-parsing a growing buffer with one request object ends in
the answer of a single parse of everything read. -/
theorem parse_stable :
    (∀ (req : HTTP1Request) (B X : Bytes), (parse req B).rc = .ok →
      parse req (B ++ X) = parse req B) ∧
    (∀ (req : HTTP1Request) (B X : Bytes), (parse req B).rc = .bad →
      (parse req (B ++ X)).rc = .bad) ∧
    ∀ (req : HTTP1Request) (reads : List Bytes),
      reparse { rc := .more, req } [] reads = parse req reads.flatten := by
  refine ⟨fun req B X h => ?_, fun req B X h => ?_, fun req reads => ?_⟩
  · exact parse_append X (by rw [h]; decide)
  · rw [parse_append X (by rw [h]; decide)]
    exact h
  · exact reparse_parse req reads []

theorem parse_stable_get :
    (parse {} (ascii "GET / HTTP/1.1\r\n\r\n")).rc = .ok ∧
      parse {} (ascii "GET / HTTP/1.1\r\n\r\n" ++ ascii "GET") =
        parse {} (ascii "GET / HTTP/1.1\r\n\r\n") ∧
      (parse {} (ascii "GET / HTTP/2.0\r\n")).rc = .bad ∧
      (parse {} (ascii "GET / HTTP/2.0\r\n" ++ ascii "\r\n")).rc = .bad := by
  have hok : (parse {} (ascii "GET / HTTP/1.1\r\n\r\n")).rc = .ok := by decide
  have hbad : (parse {} (ascii "GET / HTTP/2.0\r\n")).rc = .bad := by decide
  obtain ⟨keepsOk, keepsBad, _⟩ := parse_stable
  exact ⟨hok, keepsOk _ _ _ hok, hbad, keepsBad _ _ _ hbad⟩

end BoltApi.Http1.ParserStable
