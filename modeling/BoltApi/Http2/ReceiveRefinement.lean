import BoltApi.Http2.Refinement

/-! # The connection speaks the protocol: receive path

The handlers of `http/http2_connection_recv.cpp` as runs of the protocol, from
the completion of messages up to `process_input`, and with that every run of a
connection. -/
namespace BoltApi.Http2.ReceiveRefinement
open Octets Hpack.Tables Wire Fields List
open Hpack.Codec (DecodeStatus)
open Connection Connection.Http2Connection Receive
open Protocol Refinement Lib

variable {X : Type} {w : World X} {c d : Http2Connection X} {s t : Http2Stream} {id : Nat}
variable {p : Prop} {h k : Option Held} {x y : Option Nat} {f : Frame}

structure Begun (c : Http2Connection X) : Prop where
  live : c.state ≠ .closed
  preface : c.isServer → c.state ≠ .prefacePending

theorem Begun.steps (hc : Begun c) (hs : Steps p (view h c) (view k d)) (hd : d.state ≠ .closed) :
    Begun d := by
  refine ⟨hd, fun hserver => ?_⟩
  have hserver : c.isServer := hs.isServer.symm.trans hserver
  exact hs.not_prefacePending (hc.preface hserver)

theorem free_none : (view none c).Free id := fun _ hg => by cases hg

/-! ## Completion -/

theorem all_of_not_any {o : Option Nat} {n : Nat} (ho : ¬ o.any (· != n)) :
    o.all (· = n) := by
  cases o with
  | none => rfl
  | some m => simpa using ho

theorem completeRequest_sim (hc : Tidy none c) (hserver : c.isServer)
    (hst : Begun c) (hs : c.getStream s.id = some s)
    (hcomplete : s.requestComplete = false) (hrecv : s.state.canReceive = false) :
    Rests p c (completeRequest w c s) := by
  simp only [completeRequest]
  split
  · exact streamError_sim hc (.inl rfl) _
  rename_i hlen
  have hput : Rests p c
      ((c.putStream { s with requestComplete := true }).log
        (.request { s with requestComplete := true })) :=
    sim_put_server hc hserver hs
      (.request hserver hst.live hcomplete hrecv (all_of_not_any hlen) free_none) rfl rfl
  generalize (c.putStream { s with requestComplete := true }).log
    (.request { s with requestComplete := true }) = d at hput ⊢
  have hworld : ∀ x, Rests p d { d with world := x } :=
    fun x => .silent hput.tidy rfl rfl
  have hpre := hput.steps.not_prefacePending (hst.preface hserver)
  exact (hput.trans (hworld _)).trans (calls_sim _ _ (hworld _).tidy hpre)

theorem completeResponse_sim (hc : Tidy (some s.id) c) (hclient : c.isServer = false)
    (hst : c.state ≠ .closed) (hs : c.getStream s.id = some s)
    (hrecv : s.state.canReceive = false) (hstatus : s.responseStatus ≠ 0) :
    Rests p c (completeResponse w c s) := by
  simp only [completeResponse]
  split
  · exact streamError_sim hc (.inr rfl) _
  rename_i hlen
  have hlen := all_of_not_any hlen
  split
  · rename_i hclosed
    exact sim_finish_put (t := { s with sendPending := false }) hc (.inr rfl) hclient hs rfl
      (.complete hst hrecv hstatus hlen free_none (.inl hclosed))
  have hrst : Sim p none none (some s.id) c (c.queueFrame (rstFrame s.id NO_ERROR)) :=
    sim_control hc (.inr (.inr (.inl rfl)))
  have hreset : WasReset (view none (c.queueFrame (rstFrame s.id NO_ERROR))).trace s.id :=
    ⟨rstFrame s.id NO_ERROR, .inl (by simp [view, queueFrame]), rfl, rfl⟩
  exact hrst.trans (sim_finish_put (t := { s with sendPending := false }) hrst.tidy (.inr rfl)
    hclient hs rfl (.complete hst hrecv hstatus hlen free_none (.inr hreset)))

/-! ## Frames that are dealt with -/

abbrev Handles (p : Prop) (f : Frame) (c d : Http2Connection X) : Prop := Sim p (held f) none none c d

theorem sim_done {g} (hc : Tidy x c) (hdone : c.state = .closed ∨ (view (some g) c).Settled g.frame) :
    Sim p (some g) none x c c := by
  refine .of_same_streams hc (.single (.done ?_)) rfl rfl fun _ hst => hst
  refine hdone.imp id fun hset g hg => ?_
  cases hg
  exact hset

theorem sim_done_other (hc : Tidy x c) (hdata : f.type ≠ .data) (hset : f.type ≠ .settings) :
    Sim p (held f) none x c c :=
  sim_done hc (.inr ⟨fun hf => absurd hf hdata, fun hf => absurd hf hset⟩)

theorem connectionError_done (hc : Tidy x c) (code : ErrorCode) :
    Handles p f c (c.connectionError w code) := by
  have herr : Sim p (held f) (held f) none c (c.connectionError w code) :=
    connectionError_sim hc code
  exact herr.trans (sim_done herr.tidy (.inl (connectionError_closed c code)))

theorem dataRefused_sim {b} (hc : Tidy none c) (hset : f.type ≠ .settings)
    (hidle : isIdle c f.streamId = false) (code : ErrorCode) :
    Sim p (some ⟨f, b⟩) none none c (c.streamError w f.streamId code) := by
  have herr : Sim p (some ⟨f, b⟩) (some ⟨f, b⟩) none c (c.streamError w f.streamId code) :=
    streamError_sim hc (.inl rfl) code
  refine herr.trans (sim_done herr.tidy ?_)
  rcases streamError_gone (w := w) c hc.nodup f.streamId code with hcl | ⟨hnone, hlast⟩
  · exact .inl hcl
  simp only [isIdle, Bool.or_eq_false_iff, decide_eq_false_iff_not, Nat.not_lt] at hidle
  have hodd : f.streamId % 2 = 1 := by omega
  refine .inr ⟨fun _ => ⟨hnone, hodd, ?_⟩, fun hf => absurd hf hset⟩
  exact Nat.le_trans hidle.2 (Nat.le_of_eq hlast.symm)

/-! ## Responses -/

theorem headersReceived_false {st : StreamState} (hr : st.canReceive) :
    st.headersReceived false = st := by
  cases st <;> first | rfl | cases hr

variable (st : StreamState)

theorem canReceive_headersReceived : (st.headersReceived true).canReceive = false := by
  cases st <;> rfl

theorem dataReceived_false : st.dataReceived false = st := by
  cases st <;> rfl

theorem canReceive_dataReceived : (st.dataReceived true).canReceive = false := by
  cases st <;> rfl

section Client
variable (hclient : c.isServer = false) (hst : c.state ≠ .closed)
  (hs : c.getStream s.id = some s) (hrecv : s.state.canReceive)
include hclient hst hs hrecv

theorem responseHeaders_sim (hc : Tidy none c) {st : HeaderBlockState} (hid : st.streamId = s.id)
    (hstatus : s.responseStatus = 0) {fields : List HPACKHeader} {facts : Facts}
    (hfields : validateFields .response fields = some facts) :
    Rests p c (responseHeaders w c st s facts fields) := by
  simp only [responseHeaders]
  split
  · rw [hid]
    exact streamError_sim hc (.inl rfl) _
  rename_i hok
  simp only [Bool.or_eq_true, Bool.and_eq_true, decide_eq_true_eq, not_or, not_and,
    Bool.not_eq_true] at hok
  split
  · rename_i hlt
    obtain ⟨⟨-, hend⟩, hlen⟩ := hok.1 hlt
    have hnone : facts.contentLength = none := by simpa using hlen
    have heq : ({ s with responseStatus := 0
                         contentLength := if s.isHead || facts.status = 304 then none
                           else facts.contentLength } : Http2Stream) =
        { s with contentLength := none } := by
      rw [hnone, ite_self, ← hstatus]
    rw [heq, hend]
    exact sim_put hc hs (.interim hclient hrecv hstatus hfields hlt hnone) rfl rfl
      (fun _ _ => hrecv) fun _ => .inl rfl
  rename_i hge
  have hfinal : ∀ b, Transition (view none c) s
      { s with responseStatus := facts.status
               contentLength := if s.isHead || facts.status = 304 then none
                 else facts.contentLength
               state := s.state.headersReceived b }
      [.response (sectionEvent .headers s.id facts.status fields b)] none :=
    fun b => .final hclient hrecv hstatus hfields (Nat.not_lt.mp hge)
  cases hend : st.endStream with
  | false =>
    exact sim_put hc hs (hfinal false) rfl rfl
      (fun _ _ => by rw [headersReceived_false hrecv]; exact hrecv) fun _ => .inl rfl
  | true =>
    have hput : Sim p none none (some s.id) c _ := sim_put hc hs (hfinal true)
      (d := (c.notifyResponse (sectionEvent .headers s.id facts.status fields true)).putStream _)
      rfl rfl (fun _ hne => absurd rfl hne) fun _ => .inl rfl
    refine hput.trans (completeResponse_sim hput.tidy hclient hst
      (getStream_put hput.tidy hs rfl rfl) (canReceive_headersReceived _) ?_)
    simp only
    omega

theorem responseTrailers_sim (hc : Tidy none c) {st} (hid : st.streamId = s.id)
    (hstatus : s.responseStatus ≠ 0) (fields : List HPACKHeader) (facts : Facts) :
    Rests p c (responseTrailers w c st s facts fields) := by
  simp only [responseTrailers]
  split
  · rw [hid]
    exact streamError_sim hc (.inl rfl) _
  have hput : Sim p none none (some s.id) c _ :=
    sim_put hc hs (.responseTrailers hclient hrecv hstatus)
      (d := (c.notifyResponse
        (sectionEvent .trailers s.id s.responseStatus fields true)).putStream _)
      rfl rfl (fun _ hne => absurd rfl hne) fun _ => .inl rfl
  exact hput.trans (completeResponse_sim hput.tidy hclient hst
    (getStream_put hput.tidy hs rfl rfl) (canReceive_headersReceived _) hstatus)

end Client

theorem finishResponseHeaders_sim (hc : Tidy none c) (hclient : c.isServer = false)
    (hst : c.state ≠ .closed) (st : HeaderBlockState) (decoded : DecodeStatus) (fields : List HPACKHeader) :
    Rests p c (finishResponseHeaders w c st decoded fields) := by
  simp only [finishResponseHeaders]
  split
  · exact connectionError_sim hc _
  cases hget : c.getStream st.streamId with
  | none => exact streamError_sim hc (.inl rfl) _
  | some s =>
    have hid := getStream_id hget
    have hs : c.getStream s.id = some s := hid ▸ hget
    simp only
    split
    · exact streamError_sim hc (.inl rfl) _
    rename_i hrecv
    have hrecv : s.state.canReceive := by simpa using hrecv
    split
    · exact streamError_sim hc (.inl rfl) _
    by_cases hstatus : s.responseStatus = 0
    · simp only [hstatus, ne_eq, not_true_eq_false, if_false]
      split
      · exact streamError_sim hc (.inl rfl) _
      · rename_i facts hfields
        exact responseHeaders_sim hclient hst hs hrecv hc hid.symm hstatus hfields
    simp only [hstatus, ne_eq, not_false_eq_true, if_true]
    split
    · exact streamError_sim hc (.inl rfl) _
    · rename_i facts _
      exact responseTrailers_sim hclient hst hs hrecv hc hid.symm hstatus fields facts

/-! ## Requests -/

section Server
variable (hserver : c.isServer)
include hserver

theorem seen_sim (hc : Tidy none c) (hlt : c.lastStreamId < id) :
    Sim p h h none c { c with lastStreamId := id } :=
  .of_same_streams hc (.single (.seen id hserver hlt)) rfl rfl fun _ hst => hst

theorem openStream_sim (hc : Tidy none c) (hact : c.state = .active) (hlt : c.lastStreamId < id)
    (hodd : id % 2 = 1) (hid : id < 2 ^ 31) (hfree : c.getStream id = none)
    (hsmall : c.streams.length < kMaxConcurrentStreams) (endStream : Bool)
    (fields : List HPACKHeader) :
    Rests p c (openStream w { c with lastStreamId := id } id endStream fields) := by
  have hseen : Rests p c { c with lastStreamId := id } := seen_sim hserver hc hlt
  simp only [openStream]
  cases hfields : validateFields .request fields with
  | none => exact hseen.trans (streamError_sim hseen.tidy (.inl rfl) _)
  | some facts =>
    simp only
    split
    · rename_i x _
      have hworld : Rests p { c with lastStreamId := id }
          { c with lastStreamId := id, world := x } := .silent hseen.tidy rfl rfl
      exact (hseen.trans hworld).trans (connectionError_sim hworld.tidy _)
    rename_i x _
    have hne : c.state ≠ .closed := by simp [hact]
    obtain ⟨htidy, hstep⟩ := hc.opened (p := p) (h := none) (k := none)
      (s := serverStream id c.remote.initialWindowSize endStream fields facts)
      (d := { c with
        lastStreamId := id, world := x, acceptedPeerStreamId := id
        streams := c.streams ++
          [serverStream id c.remote.initialWindowSize endStream fields facts]
        trace := c.trace ++ [.opened id fields] })
      hsmall hfree hne (by simp [hserver]) rfl rfl
      (.openServer id endStream fields facts hserver hact hlt hodd hid hfields)
    have hopen : Rests p c _ := ⟨htidy, .single hstep⟩
    cases endStream with
    | false => exact hopen
    | true =>
      have hbegun : c.state ≠ .prefacePending := by simp [hact]
      refine hopen.trans (completeRequest_sim htidy hserver ⟨hne, fun _ => hbegun⟩ ?_ rfl rfl)
      refine (Keyed.find_eq_some_iff htidy.nodup).mpr ⟨?_, rfl⟩
      exact mem_append_right _ (mem_singleton.mpr rfl)

theorem finishNewStream_sim (hc : Tidy none c) (st : HeaderBlockState) (hid : st.streamId < 2 ^ 31)
    (hfree : c.getStream st.streamId = none) (decoded : DecodeStatus) (fields : List HPACKHeader) :
    Rests p c (finishNewStream w c st decoded fields) := by
  simp only [finishNewStream]
  split
  · exact connectionError_sim hc _
  rename_i hodd
  split
  · exact connectionError_sim hc _
  rename_i hlt
  have hlt : c.lastStreamId < st.streamId := Nat.not_le.mp hlt
  have hseen : Rests p c { c with lastStreamId := st.streamId } :=
    seen_sim hserver hc hlt
  have herr : ∀ code, Rests p c
      (streamError w { c with lastStreamId := st.streamId } st.streamId code) :=
    fun code => hseen.trans (streamError_sim hseen.tidy (.inl rfl) code)
  split
  · exact herr _
  rename_i hact
  split
  · exact herr _
  split
  · exact herr _
  split
  · exact herr _
  · rename_i hsmall
    exact openStream_sim hserver hc (by simpa using hact) hlt (by omega) hid hfree
      (Nat.not_le.mp hsmall) st.endStream fields

theorem finishTrailers_sim (hc : Tidy none c) (hst : Begun c)
    (hs : c.getStream s.id = some s) (st : HeaderBlockState) (decoded : DecodeStatus)
    (fields : List HPACKHeader) :
    Rests p c (finishTrailers w c st decoded fields s) := by
  simp only [finishTrailers]
  split
  · exact streamError_sim hc (.inl rfl) _
  split
  · exact streamError_sim hc (.inl rfl) _
  rename_i hrecv
  have hrecv : s.state.canReceive := by simpa using hrecv
  split
  · exact streamError_sim hc (.inl rfl) _
  have hput : Rests p c
      (c.putStream { s with state := s.state.headersReceived true }) :=
    sim_put_server hc hserver hs (.requestTrailers hserver hrecv) rfl
      (by simp [view, putStream])
  refine hput.trans (completeRequest_sim hput.tidy hserver ⟨hst.live, hst.preface⟩
    (getStream_put hput.tidy hs rfl rfl) ?_ (canReceive_headersReceived _))
  cases hcomplete : s.requestComplete with
  | false => rfl
  | true =>
    have := (hc.sound.stream hs).2.complete hcomplete
    rw [hrecv] at this
    cases this

end Server

section
variable (hc : Tidy none c)
include hc

theorem finishDecoded_sim (hst : Begun c) (st : HeaderBlockState)
    (hsid : st.streamId < 2 ^ 31) (decoded : DecodeStatus) (fields : List HPACKHeader) :
    Rests p c (finishDecoded w c st decoded fields) := by
  unfold finishDecoded
  split
  · exact connectionError_sim hc _
  split
  · rename_i hclient
    exact finishResponseHeaders_sim hc (by simpa using hclient) hst.live st _ _
  rename_i hserver
  have hserver : c.isServer := by simpa using hserver
  split
  · rename_i hfree
    exact finishNewStream_sim hserver hc st hsid hfree _ _
  · rename_i s hget
    have hid := getStream_id hget
    exact finishTrailers_sim hserver hc hst (hid ▸ hget) st _ _

theorem finishHeaderBlock_sim (hst : Begun c) (st : HeaderBlockState)
    (hsid : st.streamId < 2 ^ 31) (block : Bytes) :
    Rests p c (finishHeaderBlock w c st block) := by
  have hworld : ∀ x, Rests p c { c with world := x } :=
    fun x => .silent hc rfl rfl
  unfold finishHeaderBlock
  split
  rename_i x _
  exact (hworld x).trans
    (finishDecoded_sim (hworld x).tidy ⟨hst.live, hst.preface⟩ st hsid _ _)

/-! ## Handlers -/

omit hc in
theorem headerFragment_ok {st frag} (hf : headerFragment f = .ok (st, frag)) :
    st.streamId = f.streamId := by
  simp only [headerFragment] at hf
  repeat' split at hf
  all_goals cases hf
  all_goals rfl

theorem handleHeaders_sim (hst : Begun c) (hsid : f.streamId < 2 ^ 31) :
    Rests p c (handleHeaders w c f) := by
  unfold handleHeaders
  split
  · exact connectionError_sim hc _
  rename_i st frag hf
  split
  · exact finishHeaderBlock_sim hc hst st (headerFragment_ok hf ▸ hsid) frag
  · exact .silent hc rfl rfl

theorem handleContinuation_sim (hst : Begun c) (hsid : f.streamId < 2 ^ 31) :
    Rests p c (handleContinuation w c f) := by
  simp only [handleContinuation]
  split
  · exact connectionError_sim hc _
  rename_i hblock
  simp only [Bool.or_eq_true, decide_eq_true_eq, not_or, not_not] at hblock
  split
  · exact connectionError_sim hc _
  split
  · exact .silent hc rfl rfl
  have hopen : Rests p c
      { c with headerBlock := c.headerBlock ++ f.payload, block := {} } :=
    .silent hc rfl rfl
  have hfinish := hopen.trans (finishHeaderBlock_sim (w := w) hopen.tidy
    ⟨hst.live, hst.preface⟩ c.block (hblock.2 ▸ hsid) (c.headerBlock ++ f.payload))
  exact hfinish.trans (.silent hfinish.tidy rfl rfl)

theorem handlePing_sim : Rests p c (handlePing w c f) := by
  unfold handlePing
  split
  · exact connectionError_sim hc _
  split
  · exact connectionError_sim hc _
  split
  · exact .refl hc
  · split
    · exact connectionError_sim hc _
    · exact sim_control hc (.inr (.inl rfl))

theorem handlePriority_sim : Rests p c (handlePriority w c f) := by
  unfold handlePriority
  split
  · exact connectionError_sim hc _
  split
  · exact streamError_sim hc (.inl rfl) _
  · split
    · exact streamError_sim hc (.inl rfl) _
    · exact .refl hc

theorem handleRstStream_sim (hreset : f.type = .rstStream)
    (htrace : .received f ∈ c.trace) : Rests p c (handleRstStream w c f) := by
  unfold handleRstStream
  split
  · exact connectionError_sim hc _
  split
  · exact connectionError_sim hc _
  split
  · exact connectionError_sim hc _
  cases hget : c.getStream f.streamId with
  | none => exact .refl hc
  | some s =>
    have hid := getStream_id hget
    simp only
    rw [← hid] at hget ⊢
    cases hserver : c.isServer with
    | true =>
      exact sim_close hc hserver hget (.inr ⟨f, .inr htrace, hreset, hid.symm⟩)
    | false => exact sim_finish hc (.inl rfl) hserver hget (.reset _)

omit hc in
theorem resetAbove_sim (ids : List Nat) :
    ∀ c : Http2Connection X, c.isServer = false → Tidy none c →
      Rests p c (resetAbove w ids c) := by
  induction ids with
  | nil => exact fun c _ hc => .refl hc
  | cons id ids ih =>
    intro c hclient hc
    simp only [resetAbove]
    split
    · exact ih c hclient hc
    cases hget : c.getStream id with
    | none => exact ih c hclient hc
    | some s =>
      have hid := getStream_id hget
      subst hid
      have hfinish : Rests p c ((c.notifyReset s NO_ERROR).closeStream w s.id) :=
        sim_finish hc (.inl rfl) hclient hget (.reset NO_ERROR)
      exact hfinish.trans (ih _ hclient hfinish.tidy)

theorem handleGoaway_sim : Rests p c (handleGoaway w c f) := by
  simp only [handleGoaway]
  split
  · exact connectionError_sim hc _
  split
  · exact connectionError_sim hc _
  have hstate : Rests p c
      (if c.state = .active then { c with state := .goawayReceived } else c) := by
    split
    · rename_i hact
      exact .of_same_streams hc (.single (.goawayReceived hact)) rfl rfl nofun
    · exact .refl hc
  generalize (if c.state = .active then { c with state := .goawayReceived } else c) = d
    at hstate ⊢
  refine hstate.trans ?_
  split
  · exact .refl hstate.tidy
  rename_i hclient
  have hclient : d.isServer = false := by simpa using hclient
  split
  · simp only [resetClientStreams, hclient, Bool.false_eq_true, if_false]
    obtain ⟨hsteps, hnil⟩ := resetLoop_steps (p := p) (h := none) (w := w)
      (getU32 (f.payload.drop 4)) kMaxConcurrentStreams d hclient hstate.tidy.nodup
      hstate.tidy.small
    exact .of_no_streams hstate.tidy hsteps hnil
  have hlast : Rests p d
      { d with goawayLastStreamId := min d.goawayLastStreamId (getU31 f.payload) } :=
    .silent hstate.tidy rfl rfl
  exact hlast.trans (resetAbove_sim _ _ hclient hlast.tidy)

end

/-! ## DATA -/

theorem replenishConnection_sim (hc : Tidy x c) : Sim p h h x c (replenishConnection c) := by
  unfold replenishConnection
  split
  · have hq : Sim p h h x c (c.queueFrame (windowUpdate 0 c.connectionRecvWindow)) :=
      sim_control hc (.inr (.inr (.inr rfl)))
    exact hq.trans (.of_same_streams hq.tidy (.single (.window kLocalWindow recvRange_full)) rfl rfl fun _ hst => hst)
  · exact .refl hc

theorem replenishConnection_state (c : Http2Connection X) :
    (replenishConnection c).state = c.state := by
  unfold replenishConnection
  split <;> rfl

theorem replenish_sim (hc : Tidy none c) (hs : c.getStream s.id = some s)
    (hlive : c.isServer = false → s.state.canReceive) :
    Sim p h h none c (replenish c s) := by
  have hconn : Sim p h h none c (replenishConnection c) := replenishConnection_sim hc
  have hget : (replenishConnection c).getStream = c.getStream := by
    unfold replenishConnection
    split <;> rfl
  have hserver : (replenishConnection c).isServer = c.isServer := hconn.steps.isServer
  simp only [replenish]
  split
  · have hq : Sim p h h none (replenishConnection c)
        ((replenishConnection c).queueFrame (windowUpdate s.id s.recvWindow)) :=
      sim_control hconn.tidy (.inr (.inr (.inr rfl)))
    refine (hconn.trans hq).trans (sim_put hq.tidy ?_ .refill rfl (by simp [view, putStream])
      (fun hcl _ => hlive (hserver ▸ hcl)) fun _ => .inl rfl)
    exact (congrFun hget s.id).trans hs
  · exact hconn

theorem putStream_putStream (hid : s.id = t.id) : (c.putStream s).putStream t = c.putStream t := by
  simp only [putStream, Keyed.put_put hid]

theorem notifyData_eq (c : Http2Connection X) (f : Frame) (s : Http2Stream) :
    notifyData c f s = { c with trace := c.trace ++ dataEvents s.id s.responseStatus f } := by
  unfold notifyData dataEvents
  split
  · rw [append_nil]
  · rfl

section Data
variable (hdata : f.type = .data) (hs : c.getStream s.id = some s) (hid : f.streamId = s.id)
  (hrecv : s.state.canReceive)
include hdata hs hid hrecv

theorem dataSpoiled_sim (hc : Tidy none c) (hidle : isIdle c f.streamId = false) {r}
    (hr : RecvRange r) (n : Nat) (code : ErrorCode) : Handles p f c
      ((c.putStream { s with recvWindow := r, bodyReceived := n }).streamError w s.id code) := by
  have hput : Sim p (held f) (refused f) none c
      (c.putStream { s with recvWindow := r, bodyReceived := n }) :=
    sim_put hc hs (.spoil ⟨rfl, hdata, hid⟩ hr) rfl (by simp [view, putStream])
      (fun _ _ => hrecv) fun _ => .inl rfl
  have hrefused : Sim p (refused f) none none _ _ :=
    dataRefused_sim (w := w) hput.tidy (by simp [hdata]) hidle code
  rw [hid] at hrefused
  exact hput.trans hrefused

theorem requestData_sim (hc : Tidy none c) (hst : Begun c) (hserver : c.isServer) {r}
    (hr : RecvRange r) : Handles p f c
      (requestData w (c.putStream { s with recvWindow := r
                                           bodyReceived := s.bodyReceived + (unpadded f).length }) f
        { s with recvWindow := r, bodyReceived := s.bodyReceived + (unpadded f).length }) := by
  simp only [requestData, putStream_putStream]
  have hput : Handles p f c (c.putStream _) :=
    sim_put_server hc hserver hs (.requestData hserver ⟨rfl, hdata, hid⟩ hrecv hr) rfl
      (by simp [view, putStream])
  have hget := getStream_put hput.tidy hs rfl rfl
  split
  · rename_i hend
    rw [hend] at hput hget ⊢
    refine hput.trans (completeRequest_sim hput.tidy hserver ⟨hst.live, hst.preface⟩ hget ?_
      (canReceive_dataReceived _))
    cases hcomplete : s.requestComplete with
    | false => rfl
    | true =>
      have := (hc.sound.stream hs).2.complete hcomplete
      rw [hrecv] at this
      cases this
  · exact hput.trans (replenish_sim hput.tidy hget (by simp [putStream, hserver]))

theorem responseData_sim (hc : Tidy none c) (hclient : c.isServer = false) (hst : c.state ≠ .closed)
    (hidle : isIdle c f.streamId = false) {r} (hr : RecvRange r) : Handles p f c
      (responseData w (c.putStream { s with recvWindow := r
                                            bodyReceived := s.bodyReceived + (unpadded f).length }) f
        { s with recvWindow := r, bodyReceived := s.bodyReceived + (unpadded f).length }) := by
  simp only [responseData]
  split
  · exact dataSpoiled_sim hdata hs hid hrecv hc hidle hr _ _
  rename_i hok
  simp only [Bool.or_eq_true, decide_eq_true_eq, not_or] at hok
  have hstep := Transition.responseData (e := view (held f) c) hclient ⟨rfl, hdata, hid⟩ hrecv
    hok.1 hr
  generalize ht : ({ s with
      recvWindow := r, bodyReceived := s.bodyReceived + (unpadded f).length
      state := s.state.dataReceived (f.has END_STREAM) } : Http2Stream) = t at hstep ⊢
  have hts : t.id = s.id ∧ t.state = s.state.dataReceived (f.has END_STREAM) ∧
      t.responseStatus = s.responseStatus := by
    rw [← ht]
    exact ⟨rfl, rfl, rfl⟩
  rw [notifyData_eq]
  generalize hd : putStream _ t = d
  have hstreams : d.streams = Keyed.put (·.id) t c.streams := by
    rw [← hd]
    exact Keyed.put_put hts.1.symm
  have hst' : d.state ≠ .closed := by
    rw [← hd]
    exact hst
  have hput : Sim p (held f) none (if f.has END_STREAM then some s.id else none) c d := by
    refine sim_put hc hs hstep hstreams (by rw [← hd]; rfl) (fun _ hne => ?_) fun _ => .inl rfl
    cases hend : f.has END_STREAM with
    | true => simp [hend] at hne
    | false =>
      rw [hts.2.1, hend, dataReceived_false]
      exact hrecv
  have hget := getStream_put hput.tidy hs hstreams hts.1
  cases hend : f.has END_STREAM with
  | true =>
    rw [hend, if_pos rfl, ← hts.1] at hput
    refine hput.trans (completeResponse_sim hput.tidy (hput.steps.isServer.trans hclient) hst'
      hget ?_ ?_)
    · rw [hts.2.1, hend]
      exact canReceive_dataReceived _
    · rw [hts.2.2]
      exact hok.1
  | false =>
    rw [hend, if_neg Bool.false_ne_true] at hput
    refine hput.trans (replenish_sim hput.tidy hget fun _ => ?_)
    rw [hts.2.1, hend, dataReceived_false]
    exact hrecv

end Data

theorem streamData_sim (hdata : f.type = .data) (hs : c.getStream s.id = some s)
    (hid : f.streamId = s.id) (hrecv : s.state.canReceive) (hc : Tidy none c)
    (hst : Begun c) (hidle : isIdle c f.streamId = false) :
    Handles p f c (streamData w c f s) := by
  simp only [streamData]
  split
  · rw [← hid]
    exact dataRefused_sim hc (by simp [hdata]) hidle _
  rename_i hwindow
  have hr : RecvRange (s.recvWindow - f.length) := by
    obtain ⟨-, hmax⟩ := (hc.sound.stream hs).2.recv
    constructor <;> omega
  generalize s.recvWindow - f.length = r at hr ⊢
  have hspoil := dataSpoiled_sim (p := p) (w := w) hdata hs hid hrecv hc hidle hr
  split
  · exact hspoil s.bodyReceived _
  simp only [putStream_putStream]
  split
  · exact hspoil _ _
  split
  · exact hspoil _ _
  split
  · rename_i hserver
    exact requestData_sim hdata hs hid hrecv hc hst hserver hr
  · rename_i hclient
    exact responseData_sim hdata hs hid hrecv hc (Bool.eq_false_iff.mpr hclient) hst.live
      hidle hr

theorem handleData_sim (hc : Tidy none c) (hdata : f.type = .data)
    (hst : Begun c) : Handles p f c (handleData w c f) := by
  simp only [handleData]
  split
  · exact connectionError_done hc _
  split
  · exact connectionError_done hc _
  rename_i hwindow
  have hr : RecvRange (c.connectionRecvWindow - f.length) := by
    obtain ⟨-, hmax⟩ := hc.sound.recv
    have hmax : c.connectionRecvWindow ≤ kLocalWindow := hmax
    constructor <;> omega
  have hcount : Sim p (held f) (held f) none c
      { c with connectionRecvWindow := c.connectionRecvWindow - f.length } :=
    .of_same_streams hc (.single (.window _ hr)) rfl rfl fun _ hst => hst
  have hopen := hcount.trans (replenishConnection_sim hcount.tidy)
  have hst' := hst.steps hopen.steps (by rw [replenishConnection_state]; exact hst.live)
  generalize replenishConnection
    { c with connectionRecvWindow := c.connectionRecvWindow - f.length } = d at hopen hst' ⊢
  refine hopen.trans ?_
  split
  · exact connectionError_done hopen.tidy _
  split
  · exact connectionError_done hopen.tidy _
  split
  · exact connectionError_done hopen.tidy _
  rename_i hidle
  have hidle : isIdle d f.streamId = false := by simpa using hidle
  split
  · exact dataRefused_sim hopen.tidy (by simp [hdata]) hidle _
  rename_i s hget
  have hid := getStream_id hget
  split
  · rename_i hrecv
    exact streamData_sim hdata (hid ▸ hget) hid.symm hrecv hopen.tidy hst' hidle
  · exact dataRefused_sim hopen.tidy (by simp [hdata]) hidle _

/-! ## Credit -/

theorem handleWindowUpdate_sim (hc : Tidy none c) (htype : f.type = .windowUpdate)
    (hst : c.state ≠ .closed) : Handles p f c (handleWindowUpdate w c f) := by
  have hother : ∀ {d : Http2Connection X}, Tidy none d → Handles p f d d :=
    fun hd => sim_done_other hd (by simp [htype]) (by simp [htype])
  have hrefused : ∀ code, Handles p f c (c.streamError w f.streamId code) := by
    intro code
    have herr : Sim p (held f) (held f) none c (c.streamError w f.streamId code) :=
      streamError_sim hc (.inl rfl) code
    exact herr.trans (hother herr.tidy)
  simp only [handleWindowUpdate]
  split
  · exact connectionError_done hc _
  split
  · rename_i hzero
    split
    · exact connectionError_done hc _
    split
    · exact connectionError_done hc _
    rename_i hmax
    have hgrant : Handles p f c
        { c with connectionSendWindow := c.connectionSendWindow + getU31 f.payload } :=
      .of_same_streams hc (.single (.grant f rfl htype hzero (Int.not_lt.mp hmax))) rfl rfl fun _ hcl => hcl
    exact hgrant.trans (pumpData_sim hgrant.tidy hst)
  split
  · exact connectionError_done hc _
  split
  · exact hother hc
  rename_i s hget
  have hid := getStream_id hget
  split
  · exact hrefused _
  split
  · exact hrefused _
  rename_i hmax
  have hs : c.getStream s.id = some s := hid ▸ hget
  have hgrant : Handles p f c
      (c.putStream { s with sendWindow := s.sendWindow + getU31 f.payload }) :=
    sim_put hc hs (.grant rfl htype hid.symm (Int.not_lt.mp hmax)) rfl
      (by simp [view, putStream])
      (fun hcl _ => hc.live hcl s (Keyed.find_mem hget).1 (by simp))
      fun _ => .inl rfl
  exact hgrant.trans (pumpData_sim hgrant.tidy hst)

/-! ## SETTINGS -/

structure Tuned (c d : Http2Connection X) : Prop where
  eq : d = { c with remote := d.remote, streams := d.streams, world := d.world }
  streams : List.Forall₂ Retuned c.streams d.streams

structure Adjustable (c : Http2Connection X) : Prop where
  initial : (c.remote.initialWindowSize : Int) ≤ kMaxWindow
  windows : ∀ s ∈ c.streams,
    (c.remote.initialWindowSize : Int) - kMaxWindow ≤ s.sendWindow ∧ s.sendWindow ≤ kMaxWindow

structure Applied (ps : List (SettingsId × Nat)) (c d : Http2Connection X) : Prop where
  eq : d = { c with remote := d.remote, streams := d.streams, world := d.world }
  streams : d.streams =
    c.streams.map (shift (d.remote.initialWindowSize - c.remote.initialWindowSize))
  initial : d.remote.initialWindowSize =
    lastSetting .initialWindowSize ps c.remote.initialWindowSize
  frame : d.remote.maxFrameSize = lastSetting .maxFrameSize ps c.remote.maxFrameSize
  frame_ok : d.remote.maxFrameSize = c.remote.maxFrameSize ∨
    kLocalMaxFrameSize ≤ d.remote.maxFrameSize
  adjustable : Adjustable d

theorem shift_zero (s : Http2Stream) : shift 0 s = s := by
  simp [shift]

theorem Applied.of_settings (hc : Adjustable c) {r : ConnectionSettings} {ps x}
    (hi : r.initialWindowSize = c.remote.initialWindowSize)
    (hinit : lastSetting .initialWindowSize ps c.remote.initialWindowSize = c.remote.initialWindowSize)
    (hf : r.maxFrameSize = lastSetting .maxFrameSize ps c.remote.maxFrameSize)
    (hfok : r.maxFrameSize = c.remote.maxFrameSize ∨ kLocalMaxFrameSize ≤ r.maxFrameSize) :
    Applied ps c { c with remote := r, world := x } := by
  refine ⟨rfl, ?_, hi.trans hinit.symm, hf, hfok, ⟨?_, ?_⟩⟩
  · simp only [hi, Int.sub_self]
    rw [show shift 0 = id from funext shift_zero, map_id]
  · simp only [hi]
    exact hc.initial
  · simp only [hi]
    exact hc.windows

theorem adjustWindows_true {delta ss ss'} (h : adjustWindows delta ss = (ss', true)) :
    ss' = ss.map (shift delta) ∧ ∀ s ∈ ss', s.sendWindow ≤ kMaxWindow := by
  induction ss generalizing ss' with
  | nil => cases h; simp
  | cons s ss ih =>
    simp only [adjustWindows] at h
    split at h
    · cases h
    rename_i hmax
    cases hrest : adjustWindows delta ss with
    | mk rest ok =>
      rw [hrest] at h
      simp only [Prod.mk.injEq] at h
      obtain ⟨rfl, rfl⟩ := h
      obtain ⟨rfl, hle⟩ := ih hrest
      refine ⟨rfl, ?_⟩
      intro t ht
      rcases mem_cons.mp ht with rfl | ht
      · exact Int.not_lt.mp hmax
      · exact hle t ht

theorem adjustWindows_partial (delta : Int) (ss : List Http2Stream) :
    List.Forall₂ (fun s t => t = s ∨ t = shift delta s ∧ t.sendWindow ≤ kMaxWindow) ss
      (adjustWindows delta ss).1 := by
  induction ss with
  | nil => exact .nil
  | cons s ss ih =>
    simp only [adjustWindows]
    split
    · exact forall₂_same.mpr fun _ _ => .inl rfl
    · rename_i hmax
      exact .cons (.inr ⟨rfl, Int.not_lt.mp hmax⟩) ih

theorem Adjustable.range (hc : Adjustable c) (hs : s ∈ c.streams) : WindowRange s.sendWindow := by
  obtain ⟨hlow, hhigh⟩ := hc.windows s hs
  exact ⟨by omega, hhigh⟩

theorem Tuned.refl (hc : Adjustable c) : Tuned c c :=
  ⟨rfl, forall₂_same.mpr fun _ hs => ⟨rfl, hc.range hs⟩⟩

theorem applyInitial_spec (hc : Adjustable c) (v : Nat) :
    Applied [(.initialWindowSize, v)] c (applySetting w c (.initialWindowSize, v)) ∨
      ∃ d code, Tuned c d ∧
        applySetting w c (.initialWindowSize, v) = d.connectionError w code := by
  simp only [applySetting]
  split
  · exact .inr ⟨c, _, .refl hc, rfl⟩
  rename_i hmax
  cases hadj : adjustWindows (v - c.remote.initialWindowSize) c.streams with
  | mk ss ok =>
    cases ok with
    | true =>
      left
      obtain ⟨rfl, hle⟩ := adjustWindows_true hadj
      simp only [Bool.not_true, Bool.false_eq_true, if_false]
      refine ⟨rfl, rfl, rfl, rfl, .inl rfl, ⟨Int.not_lt.mp hmax, ?_⟩⟩
      intro t ht
      refine ⟨?_, hle t ht⟩
      obtain ⟨s, hs, rfl⟩ := mem_map.mp ht
      have := (hc.windows s hs).1
      simp only [shift]
      omega
    | false =>
      refine .inr ⟨{ c with streams := ss }, _, ⟨rfl, ?_⟩, rfl⟩
      have hpart := adjustWindows_partial (v - c.remote.initialWindowSize) c.streams
      rw [hadj] at hpart
      refine ((forall₂_and_left _ _).mpr ⟨fun s hs => hs, hpart⟩).imp ?_
      rintro s t ⟨hs, rfl | ⟨rfl, hle⟩⟩
      · exact ⟨rfl, hc.range hs⟩
      refine ⟨rfl, ?_, hle⟩
      have := (hc.windows s hs).1
      simp only [shift]
      omega

theorem applySetting_spec (hc : Adjustable c) (q : SettingsId × Nat) :
    Applied [q] c (applySetting w c q) ∨
      ∃ d code, Tuned c d ∧ applySetting w c q = d.connectionError w code := by
  obtain ⟨k, v⟩ := q
  cases k with
  | initialWindowSize => exact applyInitial_spec hc v
  | enablePush =>
    simp only [applySetting]
    split
    · exact .inr ⟨c, _, .refl hc, rfl⟩
    · exact .inl (.of_settings hc rfl rfl rfl (.inl rfl))
  | maxFrameSize =>
    simp only [applySetting]
    split
    · exact .inr ⟨c, _, .refl hc, rfl⟩
    · rename_i hv
      simp only [Bool.or_eq_true, decide_eq_true_eq, not_or, Nat.not_lt] at hv
      exact .inl (.of_settings hc rfl rfl rfl (.inr hv.1))
  | _ => exact .inl (.of_settings hc rfl rfl rfl (.inl rfl))

theorem Applied.cons {q qs e} (h1 : Applied [q] c d) (h2 : Applied qs d e) :
    Applied (q :: qs) c e := by
  refine ⟨?_, ?_, ?_, ?_, ?_, h2.adjustable⟩
  · rw [h2.eq, h1.eq]
  · rw [h2.streams, h1.streams, map_map]
    refine map_congr_left fun s _ => ?_
    simp only [Function.comp_apply, shift]
    congr 1
    omega
  · rw [h2.initial, h1.initial]
    rfl
  · rw [h2.frame, h1.frame]
    rfl
  rcases h2.frame_ok with heq | hle
  · rw [heq]
    exact h1.frame_ok
  · exact .inr hle

theorem Applied.tuned {qs e} (h1 : Applied qs c d) (h2 : Tuned d e) : Tuned c e := by
  refine ⟨by rw [h2.eq, h1.eq], ?_⟩
  have hst := h2.streams
  rw [h1.streams, forall₂_map_left_iff] at hst
  exact hst.imp fun s t ht => ⟨ht.1, ht.2⟩

theorem applySettings_spec (ps : List (SettingsId × Nat)) :
    ∀ c : Http2Connection X, Adjustable c → c.state ≠ .closed →
      Applied ps c (applySettings w ps c) ∨
        ∃ d code, Tuned c d ∧ applySettings w ps c = d.connectionError w code := by
  induction ps with
  | nil => exact fun c hc _ => .inl (.of_settings hc rfl rfl rfl (.inl rfl))
  | cons q ps ih =>
    intro c hc hst
    simp only [applySettings]
    rcases applySetting_spec (w := w) hc q with happ | ⟨d, code, htuned, heq⟩
    · have hst' : (applySetting w c q).state ≠ .closed := by
        rw [happ.eq]
        exact hst
      rw [if_neg hst']
      rcases ih _ happ.adjustable hst' with hrest | ⟨d, code, htuned, heq⟩
      · exact .inl (happ.cons hrest)
      · exact .inr ⟨d, code, happ.tuned htuned, heq⟩
    have hclosed : (applySetting w c q).state = .closed := by
      rw [heq]
      exact connectionError_closed d code
    rw [if_pos hclosed]
    exact .inr ⟨d, code, htuned, heq⟩

theorem tidy_adjustable (hc : Tidy x c) (hst : c.state ≠ .closed) : Adjustable c := by
  refine ⟨hc.sound.initial hst, ?_⟩
  intro s hs
  have hss := (hc.sound.stream ((Keyed.find_eq_some_iff hc.nodup).mpr ⟨hs, rfl⟩)).2
  exact ⟨hss.low hst, hss.window.2⟩

section
variable (hc : Tidy none c)
include hc

theorem tuned_sim (hst : c.state ≠ .closed) (hd : Tuned c d)
    (code : ErrorCode) : Handles p f c (d.connectionError w code) := by
  obtain ⟨r, ss, x, rfl, hss⟩ : ∃ r ss x, d = { c with remote := r, streams := ss, world := x } ∧
      List.Forall₂ Retuned c.streams ss := ⟨_, _, _, hd.eq, hd.streams⟩
  have hid : ∀ s t : Http2Stream, Retuned s t → t.id = s.id := fun s t ht => by rw [ht.1]
  obtain ⟨hkeys, hfind⟩ := Keyed.find_forall₂ hid hss
  have hfatal : Sim p (held f) (held f) none c
      (connectionError w { c with remote := r, streams := ss, world := x } code) := by
    unfold connectionError
    rw [if_neg hst]
    exact sim_fatal hc
      (e := { queueGoaway { c with remote := r, streams := ss, world := x } code [] with
        lastError := code, state := .closed })
      (.fatalSettings _ r.initialWindowSize r.maxFrameSize code hst hfind) hkeys code
  exact hfatal.trans (sim_done hfatal.tidy (.inl (connectionError_closed _ code)))

theorem applied_sim (hst : c.state ≠ .closed) (htype : f.type = .settings)
    (hack : f.has ACK = false) (hd : Applied (settingsParams f.payload) c d) :
    Handles p f c d := by
  have hget : ∀ i, d.getStream i = (c.getStream i).map
      (shift (d.remote.initialWindowSize - c.remote.initialWindowSize)) := by
    intro i
    simp only [getStream, hd.streams]
    exact Keyed.find_map (f := shift _) (fun _ => rfl) c.streams i
  have hmax : ∀ i s, d.getStream i = some s → s.sendWindow ≤ kMaxWindow :=
    fun i s hs => (hd.adjustable.windows s (Keyed.find_mem hs).1).2
  obtain ⟨r, ss, x, rfl, hss⟩ : ∃ r ss x, d = { c with remote := r, streams := ss, world := x } ∧
      ss = c.streams.map (shift (r.initialWindowSize - c.remote.initialWindowSize)) :=
    ⟨_, _, _, hd.eq, hd.streams⟩
  have hstep : Step p (view (held f) c)
      (view none { c with remote := r, streams := ss, world := x }) :=
    .settings f _ _ _ rfl hst htype hack hd.initial hd.frame hd.adjustable.initial hd.frame_ok
      hget hmax
  have hkeys : ss.map (·.id) = c.streams.map (·.id) := by
    rw [hss, map_map]
    rfl
  refine ⟨⟨?_, ?_, fun _ hcl => absurd hcl hst, ?_, ?_⟩, .single hstep⟩
  · exact hkeys ▸ hc.nodup
  · have hlen : ss.length = c.streams.length := by rw [hss, length_map]
    exact hlen ▸ hc.small
  · intro hcl t ht _
    have ht : t ∈ ss := ht
    rw [hss] at ht
    obtain ⟨s, hs, rfl⟩ := mem_map.mp ht
    exact hc.live hcl s hs (by simp)
  · exact (sound_hand hc.sound).step hstep

theorem handleSettings_sim (htype : f.type = .settings)
    (hst : c.state ≠ .closed) : Handles p f c (handleSettings w c f) := by
  simp only [handleSettings]
  split
  · exact connectionError_done hc _
  split
  · rename_i hack
    split
    · exact connectionError_done hc _
    · have hdone : Handles p f c c :=
        sim_done hc (.inr ⟨fun hf => absurd (htype.symm.trans hf) (by simp), fun _ => hack⟩)
      exact hdone.trans (.silent hc rfl rfl)
  rename_i hack
  have hack : f.has ACK = false := Bool.eq_false_iff.mpr hack
  split
  · exact connectionError_done hc _
  rcases applySettings_spec (w := w) (settingsParams f.payload) c (tidy_adjustable hc hst) hst
    with happ | ⟨d, code, htuned, heq⟩
  · generalize applySettings w (settingsParams f.payload) c = d at happ ⊢
    have hsim : Handles p f c d := applied_sim hc hst htype hack happ
    have hst' : d.state ≠ .closed := by
      rw [happ.eq]
      exact hst
    rw [if_neg hst']
    refine hsim.trans ?_
    split
    · exact connectionError_sim hsim.tidy _
    have hq : Rests p d
        (d.queueFrame { type := .settings, flags := ACK, streamId := 0, payload := [] }) :=
      sim_control hsim.tidy (.inl rfl)
    exact hq.trans (pumpData_sim hq.tidy hst')
  · rw [heq, if_pos (connectionError_closed d code)]
    exact tuned_sim hc hst htuned code

/-! ## Frames and input -/

theorem dispatch_sim (hst : Begun c)
    (hsid : f.streamId < 2 ^ 31) (htrace : .received f ∈ c.trace) :
    Handles p f c (dispatch w c f) := by
  have hother : ∀ {d : Http2Connection X}, f.type ≠ .data ∧ f.type ≠ .settings → Rests p c d →
      Handles p f c d :=
    fun hf hd => (sim_done_other hc hf.1 hf.2).trans hd
  unfold dispatch
  split <;> rename_i htype
  · exact handleData_sim hc htype hst
  · exact hother (by simp [htype]) (handleHeaders_sim hc hst hsid)
  · exact hother (by simp [htype]) (handlePriority_sim hc)
  · exact hother (by simp [htype]) (handleRstStream_sim hc htype htrace)
  · exact handleSettings_sim hc htype hst.live
  · exact connectionError_done hc _
  · exact hother (by simp [htype]) (handlePing_sim hc)
  · exact hother (by simp [htype]) (handleGoaway_sim hc)
  · exact handleWindowUpdate_sim hc htype hst.live
  · exact hother (by simp [htype]) (handleContinuation_sim hc hst hsid)
  · exact sim_done_other hc (by simp [htype]) (by simp [htype])

/-- **Every frame is handled as the protocol says.** -/
theorem handleFrame_sim (hst : Begun c)
    (f : Frame) (hsid : f.streamId < 2 ^ 31) : Rests p c (handleFrame w c f) := by
  have hlog : Sim p none (held f) none c (c.log (.received f)) :=
    .of_same_streams hc (.single (.receive f rfl hst.live)) rfl rfl fun _ hcl => hcl
  refine hlog.trans ?_
  simp only [handleFrame]
  split
  · exact connectionError_done hlog.tidy _
  have hseen : Sim p (held f) (held f) none (c.log (.received f))
      { c.log (.received f) with firstFrameSeen := true } :=
    .silent hlog.tidy rfl rfl
  refine hseen.trans ?_
  split
  · exact connectionError_done hseen.tidy _
  · split
    · exact connectionError_done hseen.tidy _
    · exact dispatch_sim hseen.tidy ⟨hst.live, hst.preface⟩ hsid (by simp [log])

end

theorem parseFrameHeader_streamId (b : Bytes) : (parseFrameHeader b).streamId < 2 ^ 31 :=
  Nat.mod_lt _ (by decide)

theorem takeFrame_streamId {buf data rest} (h : takeFrame buf data = .frame f rest) :
    f.streamId < 2 ^ 31 := by
  have hre : ∀ {buf data rest}, reassemble buf data = .frame f rest → f.streamId < 2 ^ 31 := by
    intro buf data rest h
    simp only [reassemble] at h
    split at h
    · cases h
    split at h
    · cases h
    split at h
    · cases h
    · cases h
      exact parseFrameHeader_streamId _
  simp only [takeFrame] at h
  split at h
  · split at h
    · cases h
    split at h
    · cases h
      exact parseFrameHeader_streamId _
    · exact hre h
  · exact hre h

theorem inputLoop_sim (n : Nat) : ∀ (c : Http2Connection X) (data : Bytes), Tidy none c → Begun c →
    Rests p c (inputLoop w n c data) := by
  induction n with
  | zero => exact fun c _ hc _ => .refl hc
  | succ n ih =>
    intro c data hc hst
    have hkeep : ∀ b, Rests p c { c with inputBuffer := b } := fun b => .silent hc rfl rfl
    simp only [inputLoop]
    split
    · exact .refl hc
    split
    · exact hkeep _
    · exact (hkeep _).trans (connectionError_sim (hkeep _).tidy _)
    rename_i f rest htake
    have hframe : Rests p c (handleFrame w { c with inputBuffer := [] } f) :=
      (hkeep []).trans (handleFrame_sim (hkeep []).tidy ⟨hst.live, hst.preface⟩ f
        (takeFrame_streamId htake))
    split
    · exact hframe
    · rename_i hst'
      exact hframe.trans (ih _ rest hframe.tidy (hst.steps hframe.steps hst'))

/-- **Input is a run of the protocol.** -/
theorem processInput_sim (hc : Tidy none c) (data : Bytes) : Rests p c (processInput w c data) := by
  simp only [processInput]
  split
  · exact .refl hc
  rename_i hst
  split
  · rename_i hpre
    simp only [Bool.and_eq_true, decide_eq_true_eq] at hpre
    split
    · exact connectionError_sim hc _
    split
    · exact .silent hc rfl rfl
    generalize c.prefaceBytesValidated + _ = n
    have hact : Rests p c { c with state := .active, prefaceBytesValidated := n } :=
      .of_same_streams hc (.single (.preface hpre.1 hpre.2)) rfl rfl nofun
    exact hact.trans (inputLoop_sim _ _ _ hact.tidy ⟨by simp, fun _ => by simp⟩)
  · rename_i hpre
    simp only [Bool.and_eq_true, decide_eq_true_eq, not_and] at hpre
    exact inputLoop_sim _ _ _ hc ⟨hst, hpre⟩

/-! ## Runs -/

/-- No graceful GOAWAY is sent before the client's preface is there. -/
def Timely (w : World X) : Http2Connection X → List Op → Prop
  | _, [] => True
  | c, op :: ops =>
    (∀ debugData, op = .call (.sendGoaway NO_ERROR debugData) → c.state ≠ .prefacePending) ∧
      Timely w (apply w c op) ops

theorem apply_sim (hc : Tidy none c) (op : Op)
    (hearly : ∀ debugData, op = .call (.sendGoaway NO_ERROR debugData) →
      c.state = .prefacePending → p) : Rests p c (apply w c op) := by
  cases op with
  | input data => exact processInput_sim hc data
  | call a => exact call_sim hc a fun debugData ha => hearly debugData (ha ▸ rfl)
  | request fields body => exact (sendRequest_sim hc fields body).1

theorem ops_sim (ops : List Op) :
    ∀ c : Http2Connection X, Tidy none c → (p ∨ Timely w c ops) →
      Rests p c (ops.foldl (apply w) c) := by
  induction ops with
  | nil => exact fun c hc _ => .refl hc
  | cons op ops ih =>
    intro c hc hearly
    have hop : Rests p c (apply w c op) := by
      refine apply_sim hc op fun debugData heq hst => ?_
      rcases hearly with hp | ht
      · exact hp
      · exact absurd hst (ht.1 debugData heq)
    exact hop.trans (ih _ hop.tidy (hearly.imp id fun ht => ht.2))

theorem create_tidy (isServer : Bool) (x : X) : Tidy none (create isServer x) := by
  have hnone : ∀ i, (create isServer x).getStream i = none := fun _ => rfl
  refine ⟨.nil, Nat.zero_le _, fun _ _ => rfl, fun _ s hs => absurd hs not_mem_nil, ?_⟩
  refine ⟨?_, fun _ => ?_, fun _ => Nat.le_refl _, ?_⟩
  · intro id s hs
    cases (hnone id).symm.trans hs
  · show ((65535 : Nat) : Int) ≤ kMaxWindow
    decide
  · exact recvRange_full

/-- **Every run of a connection is a run of the protocol.** -/
theorem run_steps (w : World X) (isServer : Bool) (x : X) (ops : List Op)
    (h : p ∨ Timely w (create isServer x) ops) :
    Rests p (create isServer x) (run w isServer x ops) :=
  ops_sim ops _ (create_tidy isServer x) h

end BoltApi.Http2.ReceiveRefinement
