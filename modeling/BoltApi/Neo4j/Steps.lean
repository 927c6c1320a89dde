import BoltApi.Lib.History
import BoltApi.Neo4j.Server

/-! # What a message can do

`Moves` lists what `dispatch` can do to the state, to the transaction flag and on the
host; the rule for whole connections follows from it. -/
namespace BoltApi.Neo4j
open Octets Lib.History PackStream List

variable {cfg : Config} {h : Host} {c : Connection} {m : PackValue} {sent : Bool}
  {items : List PackValue} {calls : List Event}

/-! ## Replies change nothing else -/

structure Quiet (c : Connection) (t : Turn) : Prop where
  calls : t.calls = []
  state : t.conn.state = c.state
  txOpen : t.conn.txOpen = c.txOpen
  version : t.conn.version = c.version

theorem flush_quiet (w : Except PackError PackWriter) : Quiet c (flush sent c w) := by
  unfold flush
  split
  · split <;> exact ⟨rfl, rfl, rfl, rfl⟩
  · exact ⟨rfl, rfl, rfl, rfl⟩

theorem sendFailure_quiet (f : QueryFailure) :
    Quiet { c with state := .failed } (sendFailure cfg sent c f) := flush_quiet _

theorem emit_keeps (cfg : Config) (t : Turn) (row : Row) :
    (emit cfg t row).calls = t.calls ∧ Quiet t.conn { emit cfg t row with calls := [] } := by
  unfold emit
  split
  · exact ⟨rfl, rfl, rfl, rfl, rfl⟩
  split
  · exact ⟨rfl, rfl, rfl, rfl, rfl⟩
  rename_i values _
  have hquiet : Quiet t.conn (flush row.sent t.conn _) :=
    flush_quiet (putValue (outBuffer cfg) (.struct Signature.record.octet [.list values]))
  exact ⟨rfl, rfl, hquiet.state, hquiet.txOpen, hquiet.version⟩

theorem emits_keep (cfg : Config) (t : Turn) (rows : List Row) :
    (rows.foldl (emit cfg) t).calls = t.calls ∧
      Quiet t.conn { rows.foldl (emit cfg) t with calls := [] } := by
  induction rows generalizing t with
  | nil => exact ⟨rfl, rfl, rfl, rfl, rfl⟩
  | cons row rows ih =>
    obtain ⟨hcalls, hquiet⟩ := emit_keeps cfg t row
    obtain ⟨hcalls', hquiet'⟩ := ih (emit cfg t row)
    exact ⟨hcalls'.trans hcalls, rfl, hquiet'.state.trans hquiet.state,
      hquiet'.txOpen.trans hquiet.txOpen, hquiet'.version.trans hquiet.version⟩

/-! ## The moves -/

def bareHello : PackValue → Bool
  | .struct octet items => Signature.ofOctet octet = some .hello ∧ items[0]?.all (·.isNull)
  | _ => false

inductive Moves (c : Connection) (m : PackValue) : State → Bool → List Event → Prop
  | still (s : State) (hs : (s = c.state ∧ (signatureOf m = some .logoff → c.state = .failed)) ∨
      s = .failed ∨ s = .defunct) : Moves c m s c.txOpen []
  | hello (hc : c.state = .authentication) (hm : bareHello m)
      (hv : c.version.hasLogon = false) : Moves c m .ready c.txOpen []
  | granted (hc : c.state = .authentication) (scheme principal credentials : Bytes) :
      Moves c m .ready c.txOpen [.authenticate scheme principal credentials true]
  | denied (hc : c.state = .authentication) (scheme principal credentials : Bytes) :
      Moves c m .failed c.txOpen [.authenticate scheme principal credentials false]
  | logoff (hm : signatureOf m = some .logoff) : Moves c m .authentication c.txOpen []
  | run (hm : signatureOf m = some .run) (s : State) (hs : (c.state = .ready ∧ s = .streaming) ∨
      (c.state = .txReady ∧ s = .txStreaming) ∨ ((c.state = .ready ∨ c.state = .txReady) ∧ s = .failed))
      (timeout : BitVec 64) (db cypher : Bytes) (params : PackValue) :
      Moves c m s c.txOpen [.statementContext timeout db, .beginQuery cypher params]
  | result (hm : signatureOf m = some .pull ∨ signatureOf m = some .discard) (s : State)
      (hs : (c.state = .streaming ∧ s = .ready) ∨
      (c.state = .txStreaming ∧ s = .txReady) ∨
      ((c.state = .streaming ∨ c.state = .txStreaming) ∧ (s = c.state ∨ s = .failed)))
      (e : Event) (he : e = .discard ∨ ∃ n, e = .pull n) : Moves c m s c.txOpen [e]
  | begun (hm : signatureOf m = some .begin) (hc : c.state = .ready) (timeout : BitVec 64)
      (db : Bytes) :
      Moves c m .txReady true [.statementContext timeout db, .beginTx true]
  | notBegun (hm : signatureOf m = some .begin) (hc : c.state = .ready) (timeout : BitVec 64)
      (db : Bytes) :
      Moves c m .failed c.txOpen [.statementContext timeout db, .beginTx false]
  | ended (hm : signatureOf m = some .commit ∨ signatureOf m = some .rollback)
      (hc : c.state = .txReady) (s : State) (hs : s = .ready ∨ s = .failed) (e : Event)
      (he : e = .rollbackTx ∨ ∃ ok, e = .commitTx ok) : Moves c m s false [e]
  | reset (hm : signatureOf m = some .reset) :
      Moves c m .ready false (.discard :: if c.txOpen then [.rollbackTx] else [])

structure Moved (c : Connection) (m : PackValue) (t : Turn) : Prop where
  moves : Moves c m t.conn.state t.conn.txOpen t.calls
  version : t.conn.version = c.version

theorem Moved.of_quiet {c' : Connection} {t} (hq : Quiet c' t) (hv : c'.version = c.version)
    (hm : Moves c m c'.state c'.txOpen calls) : Moved c m (t.after calls) where
  moves := by
    rw [Turn.after, hq.calls, append_nil, hq.state, hq.txOpen]
    exact hm
  version := hq.version.trans hv

theorem Moved.of_quiet_nil {c' : Connection} {t} (hq : Quiet c' t) (hv : c'.version = c.version)
    (hm : Moves c m c'.state c'.txOpen []) : Moved c m t where
  moves := by
    rw [hq.calls, hq.state, hq.txOpen]
    exact hm
  version := hq.version.trans hv

theorem refused_moved (f : QueryFailure) : Moved c m (sendFailure cfg sent c f) :=
  .of_quiet_nil (sendFailure_quiet f) rfl (.still _ (.inr (.inl rfl)))

theorem authCall_eq (h : Host) (extra : Option PackValue) :
    ∃ scheme principal credentials, authCall h extra =
      .authenticate scheme principal credentials (authCall h extra).granted := ⟨_, _, _, rfl⟩

theorem contextCall_eq (extra : Option PackValue) :
    ∃ timeout db, contextCall extra = .statementContext timeout db := by
  unfold contextCall
  split
  · exact ⟨_, _, rfl⟩
  · exact ⟨_, _, rfl⟩

theorem onHello_moved {octet} (hc : c.state = .authentication)
    (hm : Signature.ofOctet octet = some .hello) :
    Moved c (.struct octet items) (onHello cfg h c items) := by
  unfold onHello
  split
  · exact refused_moved _
  split
  · rename_i hdict
    obtain ⟨scheme, principal, credentials, hcall⟩ := authCall_eq h (extraDict items 0)
    simp only
    split
    · rename_i hgranted
      rw [hgranted] at hcall
      rw [hcall]
      refine .of_quiet (flush_quiet _) rfl ?_
      rw [if_neg hdict.1]
      exact .granted hc _ _ _
    rename_i hdenied
    rw [Bool.not_eq_true] at hdenied
    rw [hdenied] at hcall
    rw [hcall]
    exact .of_quiet (sendFailure_quiet _) rfl (.denied hc _ _ _)
  rename_i hextra hbare
  refine .of_quiet_nil (flush_quiet _) rfl ?_
  cases hv : c.version.hasLogon with
  | true =>
    have hlogoff : signatureOf (.struct octet items) ≠ some .logoff := by simp [signatureOf, hm]
    exact .still _ (.inl ⟨hc.symm, fun h => absurd h hlogoff⟩)
  | false =>
    refine .hello hc ?_ hv
    cases hitem : items[0]? with
    | none => simp [bareHello, hm, hitem]
    | some extra => simp_all [bareHello, extraDict]

theorem onLogon_moved (hc : c.state = .authentication) : Moved c m (onLogon cfg h c items) := by
  unfold onLogon
  obtain ⟨scheme, principal, credentials, hcall⟩ := authCall_eq h (extraDict items 0)
  simp only
  split
  · rename_i hgranted
    rw [hgranted] at hcall
    rw [hcall]
    exact .of_quiet (flush_quiet _) rfl (.granted hc _ _ _)
  rename_i hdenied
  rw [Bool.not_eq_true] at hdenied
  rw [hdenied] at hcall
  rw [hcall]
  exact .of_quiet (sendFailure_quiet _) rfl (.denied hc _ _ _)

theorem onRun_moved (hm : signatureOf m = some .run) (hc : c.state ∈ [State.ready, .txReady]) :
    Moved c m (onRun cfg h c items) := by
  have hc' : c.state = .ready ∨ c.state = .txReady := by simpa using hc
  unfold onRun
  split
  · rename_i cypher params tail
    obtain ⟨timeout, db, hcontext⟩ := contextCall_eq (extraDict (.string cypher :: params :: tail) 2)
    simp only [hcontext]
    have hfailed := Moves.run hm State.failed (.inr (.inr ⟨hc', rfl⟩)) timeout db cypher params
    split
    · exact .of_quiet (sendFailure_quiet _) rfl hfailed
    split
    · exact .of_quiet (sendFailure_quiet _) rfl hfailed
    refine .of_quiet (flush_quiet _) rfl (.run hm _ ?_ timeout db cypher params)
    rcases hc' with hready | htx
    · exact .inl ⟨hready, by simp [hready]⟩
    · exact .inr (.inl ⟨htx, by simp [htx]⟩)
  · exact refused_moved _

theorem summary_moved (hm : signatureOf m = some .pull ∨ signatureOf m = some .discard)
    (hc : c.state ∈ [State.streaming, .txStreaming]) (e : Event)
    (he : e = .discard ∨ ∃ n, e = .pull n) {c' : Connection} (hstate : c'.state = c.state)
    (htx : c'.txOpen = c.txOpen) (hv : c'.version = c.version) :
    Moved c m ((summary cfg h c').after [e]) := by
  refine .of_quiet (flush_quiet _) hv ?_
  simp only [hstate, htx]
  have hc' : c.state = .streaming ∨ c.state = .txStreaming := by simpa using hc
  refine .result hm _ ?_ e he
  rcases hc' with hs | hs
  · exact .inl ⟨hs, by simp [hs]⟩
  · exact .inr (.inl ⟨hs, by simp [hs]⟩)

theorem onDiscard_moved (hm : signatureOf m = some .discard)
    (hc : c.state ∈ [State.streaming, .txStreaming]) : Moved c m (onDiscard cfg h c) := by
  unfold onDiscard
  split
  · exact ⟨.result (.inr hm) _ (.inr (.inr ⟨by simpa using hc, .inl rfl⟩)) _ (.inl rfl), rfl⟩
  · exact summary_moved (.inr hm) hc _ (.inl rfl) rfl rfl rfl

theorem onPull_moved (hm : signatureOf m = some .pull)
    (hc : c.state ∈ [State.streaming, .txStreaming]) : Moved c m (onPull cfg h c items) := by
  have hc' : c.state = .streaming ∨ c.state = .txStreaming := by simpa using hc
  unfold onPull
  generalize hn : ((extraDict items 0).map fun d => d.findInt (ascii "n") kPullAll).getD kPullAll = n
  obtain ⟨hcalls, hquiet⟩ :=
    emits_keep cfg { conn := c, calls := [.pull n], ok := false } (h.pull n).rows
  simp only at hcalls hquiet ⊢
  generalize (h.pull n).rows.foldl (emit cfg) { conn := c, calls := [.pull n], ok := false } = t
    at hcalls hquiet
  have hmoves : ∀ s, (s = c.state ∨ s = .failed) → Moves c m s c.txOpen [.pull n] := fun s hs =>
    .result (.inl hm) s (.inr (.inr ⟨hc', hs⟩)) _ (.inr ⟨n, rfl⟩)
  have hstate : t.conn.state = c.state := hquiet.state
  have htx : t.conn.txOpen = c.txOpen := hquiet.txOpen
  have hversion : t.conn.version = c.version := hquiet.version
  -- every branch below replies once more behind the rows
  have hreply : ∀ rest : Turn, Moved c m (rest.after [.pull n]) →
      Moved c m { rest with calls := t.calls ++ rest.calls, replies := t.replies ++ rest.replies } :=
    fun rest hrest => ⟨by rw [hcalls]; exact hrest.moves, hrest.version⟩
  split
  · refine ⟨?_, hversion⟩
    rw [hstate, htx, hcalls]
    exact hmoves _ (.inl rfl)
  refine hreply _ ?_
  split
  · refine .of_quiet (sendFailure_quiet _) hversion ?_
    simp only [htx]
    exact hmoves _ (.inr rfl)
  · refine .of_quiet (flush_quiet _) hversion ?_
    rw [hstate, htx]
    exact hmoves _ (.inl rfl)
  · exact summary_moved (.inl hm) hc _ (.inr ⟨n, rfl⟩) hstate htx hversion

theorem onBegin_moved (hm : signatureOf m = some .begin) (hc : c.state = .ready) :
    Moved c m (onBegin cfg h c items) := by
  obtain ⟨timeout, db, hcontext⟩ := contextCall_eq (extraDict items 0)
  unfold onBegin
  rw [hcontext]
  split
  · exact .of_quiet (sendFailure_quiet _) rfl (.notBegun hm hc timeout db)
  · exact .of_quiet (flush_quiet _) rfl (.begun hm hc timeout db)

theorem onCommit_moved (hm : signatureOf m = some .commit) (hc : c.state = .txReady) :
    Moved c m (onCommit cfg h c) := by
  unfold onCommit
  simp only
  split
  · exact .of_quiet (sendFailure_quiet _) rfl (.ended (.inl hm) hc _ (.inr rfl) _ (.inr ⟨_, rfl⟩))
  · exact .of_quiet (flush_quiet _) rfl (.ended (.inl hm) hc _ (.inl rfl) _ (.inr ⟨_, rfl⟩))

theorem onRollback_moved (hm : signatureOf m = some .rollback) (hc : c.state = .txReady) :
    Moved c m (onRollback cfg h c) :=
  .of_quiet (flush_quiet _) rfl (.ended (.inr hm) hc _ (.inl rfl) _ (.inl rfl))

theorem inStates_moved {states refusal t} (ht : c.state ∈ states → Moved c m t) :
    Moved c m (inStates cfg h c states refusal t) := by
  unfold inStates
  split
  · rename_i hc
    exact ht hc
  · exact refused_moved _

theorem dispatch_moved (cfg : Config) (h : Host) (c : Connection) (m : PackValue) :
    Moved c m (dispatch cfg h c m) := by
  unfold dispatch
  split
  swap
  · exact refused_moved _
  rename_i octet items
  have hsig : signatureOf (.struct octet items) = Signature.ofOctet octet := rfl
  split
  · rename_i hfailed
    exact .of_quiet_nil (flush_quiet _) rfl (.still _ (.inl ⟨rfl, fun _ => hfailed.1⟩))
  unfold dispatchStruct
  split <;> rename_i hm
  · exact inStates_moved fun hc => onHello_moved (by simpa using hc) hm
  · exact inStates_moved fun hc => onLogon_moved (by simpa using hc)
  · exact .of_quiet_nil (flush_quiet _) rfl (.logoff hm)
  · exact inStates_moved (onRun_moved hm)
  · exact inStates_moved (onPull_moved hm)
  · exact inStates_moved (onDiscard_moved hm)
  · exact inStates_moved fun hc => onBegin_moved hm (by simpa using hc)
  · exact inStates_moved fun hc => onCommit_moved hm (by simpa using hc)
  · exact inStates_moved fun hc => onRollback_moved hm (by simpa using hc)
  · exact .of_quiet (flush_quiet _) rfl (.reset hm)
  · refine .of_quiet_nil (flush_quiet _) rfl (.still _ (.inl ⟨rfl, fun hlogoff => ?_⟩))
    rw [hsig, hm] at hlogoff
    cases hlogoff
  · exact refused_moved _
  · exact ⟨.still _ (.inr (.inr rfl)), rfl⟩
  · exact refused_moved _

/-! ## Whole connections -/

variable {P Q : List Event → Event → Prop} {I : Connection → List Event → Prop}

theorem serveLoop_run {v}
    (hstep : ∀ c m s tx calls before, I c before → c.version = v → Q before (.message m) →
      Moves c m s tx calls → Each P before → Each P (before ++ .message m :: calls) ∧
        ∀ c', c'.version = v → c'.state = s → c'.txOpen = tx → I c' (before ++ .message m :: calls))
    (hfail : ∀ c c' before, I c before → c'.version = v → c'.state = .failed →
      c'.txOpen = c.txOpen → I c' before)
    {hosts stream before} (hc : I c before) (hv : c.version = v) (hP : Each P before)
    (hQ : Each Q (before ++ (serveLoop cfg hosts stream c).log)) :
    Each P (before ++ (serveLoop cfg hosts stream c).log) ∧
      I (serveLoop cfg hosts stream c).conn (before ++ (serveLoop cfg hosts stream c).log) := by
  have hrefuse : ∀ (sent : Bool) (f : QueryFailure) (before : List Event) (c : Connection),
      I c before → c.version = v → Each P before →
      Each P (before ++ ((sendFailure cfg sent c f).session false).log) ∧
        I ((sendFailure cfg sent c f).session false).conn
          (before ++ ((sendFailure cfg sent c f).session false).log) := by
    intro sent f before c hc hv hP
    have hq : Quiet { c with state := .failed } (sendFailure cfg sent c f) := sendFailure_quiet f
    simp only [Turn.session, hq.calls, append_nil]
    exact ⟨hP, hfail c _ before hc (hq.version.trans hv) hq.state hq.txOpen⟩
  induction hosts generalizing stream c before with
  | nil =>
    simp only [serveLoop, append_nil]
    exact ⟨hP, hc⟩
  | cons h hosts ih =>
    unfold serveLoop at hQ ⊢
    split
    · simp only [append_nil]
      exact ⟨hP, hc⟩
    rename_i hdefunct
    rw [if_neg hdefunct] at hQ
    split
    · simp only [append_nil]
      exact ⟨hP, hc⟩
    · exact hrefuse _ _ _ _ hc hv hP
    rename_i payload rest hread
    simp only [hread] at hQ
    split
    · exact hrefuse _ _ _ _ hc hv hP
    rename_i m r hvalue
    simp only [hvalue] at hQ
    have hmoved := dispatch_moved cfg h c m
    simp only
    split
    · rename_i hend
      simp only [if_pos hend] at hQ
      have hm : Q before (.message m) := hQ before _ _ rfl
      obtain ⟨hP', hInv⟩ := hstep c m _ _ _ before hc hv hm hmoved.moves hP
      exact ⟨hP', hInv _ (hmoved.version.trans hv) rfl rfl⟩
    rename_i hgoes
    simp only [if_neg hgoes, Session.after] at hQ
    have hm : Q before (.message m) := hQ before _ _ rfl
    obtain ⟨hP', hInv⟩ := hstep c m _ _ _ before hc hv hm hmoved.moves hP
    have hversion := hmoved.version.trans hv
    simp only [Session.after]
    rw [← append_assoc] at hQ ⊢
    exact ih (hInv _ hversion rfl rfl) hversion hP' hQ

end BoltApi.Neo4j
