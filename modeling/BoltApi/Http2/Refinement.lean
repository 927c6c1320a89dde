import BoltApi.Http2.Protocol

/-! # The connection speaks the protocol: send path

Every function of `Http2Connection` is a sequence of protocol steps of the
endpoint it is a `view` of. `Sim` is that statement for a piece of code; pieces
compose by `Sim.trans`. -/
namespace BoltApi.Http2.Refinement
open Octets Hpack.Tables Wire Fields List Function
open Connection Connection.Http2Connection Receive
open Protocol Lib

variable {X : Type}

def view (hand : Option Held) (c : Http2Connection X) : Endpoint where
  isServer := c.isServer
  state := c.state
  initialWindow := c.remote.initialWindowSize
  maxFrame := c.remote.maxFrameSize
  sendWindow := c.connectionSendWindow
  recvWindow := c.connectionRecvWindow
  streams := c.getStream
  lastStreamId := c.lastStreamId
  accepted := c.acceptedPeerStreamId
  sentGoaway := c.sentGoawayLastStreamId
  hand := hand
  trace := c.trace

/-- The connection's bookkeeping. A client has no streams once it is closed, and
its streams can receive, but for the one whose message just ended. -/
structure Tidy (ending : Option Nat) (c : Http2Connection X) : Prop where
  nodup : (c.streams.map (·.id)).Nodup
  small : c.streams.length ≤ kMaxConcurrentStreams
  emptied : c.isServer = false → c.state = .closed → c.streams = []
  live : c.isServer = false → ∀ s ∈ c.streams, some s.id ≠ ending → s.state.canReceive = true
  sound : Sound (view none c)

/-- From `c` to `d` the connection takes protocol steps, and is tidy again. -/
structure Sim (p : Prop) (hand hand' : Option Held) (ending : Option Nat)
    (c d : Http2Connection X) : Prop where
  tidy : Tidy ending d
  steps : Steps p (view hand c) (view hand' d)

abbrev Rests (p : Prop) (c d : Http2Connection X) : Prop := Sim p none none none c d

variable {w : World X} {c d : Http2Connection X} {s t : Http2Stream} {id : Nat}
variable {p : Prop} {h k : Option Held} {x y : Option Nat} {es : List Event}

/-! ## Composition -/

theorem sound_hand (hs : Sound (view h c)) : Sound (view k c) :=
  ⟨fun ht => ⟨(hs.stream ht).1, (hs.stream ht).2.le_last, (hs.stream ht).2.complete,
    (hs.stream ht).2.window, (hs.stream ht).2.recv, (hs.stream ht).2.low⟩,
    hs.initial, hs.maxFrame, hs.recv⟩

theorem Sim.trans {l e} (h1 : Sim p h k x c d) (h2 : Sim p k l y d e) : Sim p h l y c e :=
  ⟨h2.tidy, h1.steps.trans h2.steps⟩

theorem Tidy.sound_steps (hc : Tidy x c) (hs : Steps p (view h c) (view k d)) :
    Sound (view none d) :=
  sound_hand ((sound_hand hc.sound).steps hs)

theorem Sim.of_no_streams (hc : Tidy x c) (hsteps : Steps p (view h c) (view k d))
    (hd : d.streams = []) : Sim p h k y c d :=
  ⟨⟨by simp [hd], by simp [hd], fun _ _ => hd, by simp [hd], hc.sound_steps hsteps⟩, hsteps⟩

theorem Sim.of_same_streams (hc : Tidy x c) (hsteps : Steps p (view h c) (view k d))
    (hd : d.streams = c.streams) (hi : d.isServer = c.isServer)
    (ho : c.isServer = false → d.state = .closed → c.state = .closed) : Sim p h k x c d := by
  refine ⟨⟨by rw [hd]; exact hc.nodup, by rw [hd]; exact hc.small, ?_, ?_,
    hc.sound_steps hsteps⟩, hsteps⟩
  · intro hcl hst
    rw [hi] at hcl
    rw [hd]
    exact hc.emptied hcl (ho hcl hst)
  · rw [hi, hd]
    exact hc.live

theorem Sim.silent (hc : Tidy x c) (hv : view h d = view h c) (hd : d.streams = c.streams) :
    Sim p h h x c d :=
  .of_same_streams hc (hv ▸ .refl) hd (congrArg Endpoint.isServer hv)
    fun _ hst => (congrArg Endpoint.state hv).symm.trans hst

theorem Sim.refl (hc : Tidy x c) : Sim p h h x c c := .silent hc rfl rfl

/-! ## Steps of streams -/

theorem sim_control (hc : Tidy x c) {f} (hf : IsControl f) : Sim p h h x c (c.queueFrame f) :=
  .of_same_streams hc (.single (.control f hf)) rfl rfl fun _ hst => hst

theorem getStream_id (hs : c.getStream id = some s) : s.id = id := (Keyed.find_mem hs).2

theorem sim_put_step (hc : Tidy x c) (hs : c.getStream s.id = some s) (hid : t.id = s.id)
    (hd : d.streams = Keyed.put (·.id) t c.streams) (hstep : Step p (view h c)
      { view k d with streams := update c.getStream t.id (some t) })
    (hi : d.isServer = c.isServer) (hst : d.state = c.state)
    (hlive : c.isServer = false → some s.id ≠ y → t.state.canReceive)
    (hxy : c.isServer = false → x = none ∨ x = y) : Sim p h k y c d := by
  have hget : d.getStream = update c.getStream t.id (some t) := by
    unfold getStream
    rw [hd]
    exact Keyed.find_put hc.nodup (hid ▸ hs)
  rw [← hget] at hstep
  have hmem : ∀ r ∈ d.streams, r = t ∨ r ∈ c.streams ∧ r.id ≠ s.id := by
    intro r' hr'
    rw [hd] at hr'
    obtain ⟨r, hr, hrt⟩ := mem_map.mp hr'
    split at hrt
    · exact .inl hrt.symm
    · rename_i hne
      exact .inr ⟨hrt ▸ hr, hrt ▸ hid ▸ hne⟩
  refine ⟨⟨?_, ?_, ?_, ?_, hc.sound_steps (.single hstep)⟩, .single hstep⟩
  · rw [hd, Keyed.keys_put]
    exact hc.nodup
  · rw [hd, Keyed.put, length_map]
    exact hc.small
  · intro hcl hclosed
    have hnil := hc.emptied (hi ▸ hcl) (hst ▸ hclosed)
    rw [hd, hnil]
    rfl
  · intro hcl r hr hry
    rw [hi] at hcl
    rcases hmem r hr with rfl | ⟨hrc, hne⟩
    · exact hlive hcl (hid ▸ hry)
    · rcases hxy hcl with rfl | rfl
      · exact hc.live hcl r hrc (by simp)
      · exact hc.live hcl r hrc hry

theorem sim_put (hc : Tidy x c) (hs : c.getStream s.id = some s)
    (ht : Transition (view h c) s t es k) (hd : d.streams = Keyed.put (·.id) t c.streams)
    (hv : view k d = { view h c with streams := d.getStream, hand := k, trace := c.trace ++ es })
    (hlive : c.isServer = false → some s.id ≠ y → t.state.canReceive)
    (hxy : c.isServer = false → x = none ∨ x = y) : Sim p h k y c d := by
  refine sim_put_step hc hs ht.id_eq hd ?_ (congrArg Endpoint.isServer hv)
    (congrArg Endpoint.state hv) hlive hxy
  rw [hv]
  exact .stream s t es k hs ht

theorem closeStream_streams (hn : (c.streams.map (·.id)).Nodup) (hs : c.getStream id = some s) :
    ((c.closeStream w id).streams.map (·.id)).Nodup ∧
      (c.closeStream w id).getStream = update c.getStream id none ∧
      (c.closeStream w id).streams.length + 1 = c.streams.length := by
  obtain ⟨hnd, hfind⟩ := Keyed.find_swapRemove hn hs
  exact ⟨hnd, hfind, Keyed.length_swapRemove hs⟩

theorem sim_close (hc : Tidy x c) (hserver : c.isServer) (hs : c.getStream s.id = some s)
    (hwhy : (s.state = .closed ∧ s.sendPending = false) ∨ WasReset c.trace s.id) :
    Sim p h h y c (c.closeStream w s.id) := by
  obtain ⟨hnd, hfind, hlen⟩ := closeStream_streams (w := w) hc.nodup hs
  have hstep : Step p (view h c) (view h (c.closeStream w s.id)) := by
    have hv : view h (c.closeStream w s.id) = (view h c).remove s.id := by
      rw [view, hfind]
      rfl
    rw [hv]
    exact .close s hserver hs hwhy
  have hsmall := hc.small
  have hcl : ¬(c.closeStream w s.id).isServer = false := fun hcl => nomatch hserver.symm.trans hcl
  exact ⟨⟨hnd, by omega, (absurd · hcl), (absurd · hcl), hc.sound_steps (.single hstep)⟩,
    .single hstep⟩

theorem step_finish (hn : (c.streams.map (·.id)).Nodup) (hclient : c.isServer = false)
    (hs : c.getStream s.id = some s) (hid : t.id = s.id) {ev} (hev : Terminal (view h c) s ev) :
    (((c.putStream t).notifyResponse ev).closeStream w s.id).streams.length + 1 =
        c.streams.length ∧
      ((((c.putStream t).notifyResponse ev).closeStream w s.id).streams.map (·.id)).Nodup ∧
      (((c.putStream t).notifyResponse ev).closeStream w s.id).getStream =
        update c.getStream s.id none ∧
      Step p (view h c) (view h (((c.putStream t).notifyResponse ev).closeStream w s.id)) := by
  have hput : ((c.putStream t).notifyResponse ev).getStream =
      update c.getStream s.id (some t) := by
    rw [← hid]
    exact Keyed.find_put hn (hid ▸ hs)
  have hget : ((c.putStream t).notifyResponse ev).getStream s.id = some t := by
    rw [hput, update_self]
  have hkeys : ((c.putStream t).notifyResponse ev).streams.map (·.id) = c.streams.map (·.id) :=
    Keyed.keys_put
  obtain ⟨hnd, hfind, hlen⟩ := closeStream_streams (w := w) (hkeys ▸ hn) hget
  rw [hput, update_idem] at hfind
  have hlen' : ((c.putStream t).notifyResponse ev).streams.length = c.streams.length := by
    simpa using congrArg List.length hkeys
  refine ⟨by omega, hnd, hfind, ?_⟩
  have hv : view h (((c.putStream t).notifyResponse ev).closeStream w s.id) =
      ((view h c).remove s.id).log [.response ev] := by
    rw [view, hfind]
    rfl
  rw [hv]
  exact .finish s ev hclient hs hev

theorem sim_finish_put (hc : Tidy x c) (hx : x = none ∨ x = some s.id)
    (hclient : c.isServer = false) (hs : c.getStream s.id = some s) (hid : t.id = s.id) {ev}
    (hev : Terminal (view h c) s ev) :
    Sim p h h none c (((c.putStream t).notifyResponse ev).closeStream w s.id) := by
  obtain ⟨hlen, hnd, hfind, hstep⟩ :=
    step_finish (p := p) (w := w) hc.nodup hclient hs hid hev
  have hsmall := hc.small
  refine ⟨⟨hnd, by omega, ?_, ?_, hc.sound_steps (.single hstep)⟩, .single hstep⟩
  · intro _ hst
    have hnil := hc.emptied hclient hst
    rw [hnil] at hlen
    simp at hlen
  intro _ t ht _
  -- what is left was there before, under another id
  have hget := (Keyed.find_eq_some_iff hnd).mpr ⟨ht, rfl⟩
  have hget' : update c.getStream s.id none t.id = some t := by
    rw [← hget]
    exact (congrFun hfind t.id).symm
  by_cases hts : t.id = s.id
  · rw [hts, update_self] at hget'
    cases hget'
  rw [update_of_ne hts] at hget'
  refine hc.live hclient t (Keyed.find_mem hget').1 ?_
  rcases hx with rfl | rfl
  · simp
  · simpa using hts

theorem putStream_self (hn : (c.streams.map (·.id)).Nodup) (hs : c.getStream s.id = some s) :
    c.putStream s = c := by
  simp only [putStream, Keyed.put_self hn hs]

theorem sim_finish (hc : Tidy x c) (hx : x = none ∨ x = some s.id) (hclient : c.isServer = false)
    (hs : c.getStream s.id = some s) {ev} (hev : Terminal (view h c) s ev) :
    Sim p h h none c ((c.notifyResponse ev).closeStream w s.id) := by
  have hput : Sim p h h none c (((c.putStream s).notifyResponse ev).closeStream w s.id) :=
    sim_finish_put hc hx hclient hs rfl hev
  rwa [putStream_self hc.nodup hs] at hput

/-! ## Errors -/

theorem resetLoop_steps (error : ErrorCode) (n : Nat) :
    ∀ c : Http2Connection X, c.isServer = false → (c.streams.map (·.id)).Nodup →
      c.streams.length ≤ n →
      Steps p (view h c) (view h (resetLoop w error n c)) ∧
        (resetLoop w error n c).streams = [] := by
  induction n with
  | zero =>
    intro c _ _ hn
    exact ⟨.refl, length_eq_zero_iff.mp (Nat.le_zero.mp hn)⟩
  | succ n ih =>
    intro c hcl hnd hn
    simp only [resetLoop]
    cases hlast : c.streams.getLast? with
    | none => exact ⟨.refl, List.getLast?_eq_none_iff.mp hlast⟩
    | some s =>
      have hs : c.getStream s.id = some s :=
        (Keyed.find_eq_some_iff hnd).mpr ⟨mem_of_getLast? hlast, rfl⟩
      obtain ⟨hlen, hnd', -, hstep⟩ := step_finish (p := p) (w := w) (h := h) hnd hcl hs rfl
        (Terminal.reset error)
      rw [putStream_self hnd hs] at hlen hnd' hstep
      obtain ⟨hsteps, hnil⟩ :=
        ih ((c.notifyReset s error).closeStream w s.id) hcl hnd' (by simp only [notifyReset]; omega)
      exact ⟨.head hstep hsteps, hnil⟩

theorem sim_fatal (hc : Tidy x c) {e : Http2Connection X} (hstep : Step p (view h c) (view h e))
    (he : e.streams.map (·.id) = c.streams.map (·.id)) (error : ErrorCode) :
    Sim p h h y c (e.resetClientStreams w error) := by
  have hlen : e.streams.length = c.streams.length := by
    simpa using congrArg List.length he
  cases hserver : e.isServer with
  | true =>
    simp only [resetClientStreams, hserver, if_true]
    exact ⟨⟨by rw [he]; exact hc.nodup, by rw [hlen]; exact hc.small, by simp [hserver],
      by simp [hserver], hc.sound_steps (.single hstep)⟩, .single hstep⟩
  | false =>
    simp only [resetClientStreams, hserver, Bool.false_eq_true, if_false]
    obtain ⟨hsteps, hnil⟩ := resetLoop_steps (p := p) (h := h) (w := w) error
      kMaxConcurrentStreams e hserver (by rw [he]; exact hc.nodup) (by rw [hlen]; exact hc.small)
    exact .of_no_streams hc (.head hstep hsteps) hnil

theorem Tidy.of_closed (hc : Tidy x c) (hst : c.state = .closed) : Tidy y c := by
  refine ⟨hc.nodup, hc.small, hc.emptied, ?_, hc.sound⟩
  intro hcl s hs
  rw [hc.emptied hcl hst] at hs
  cases hs

theorem connectionError_sim (hc : Tidy x c) (code : ErrorCode) :
    Sim p h h y c (c.connectionError w code) := by
  unfold connectionError
  split
  · rename_i hst
    exact .refl (hc.of_closed hst)
  · rename_i hst
    exact sim_fatal hc (e := { c.queueGoaway code [] with lastError := code, state := .closed })
      (.fatal code [] hst) rfl code

theorem resetClientStreams_state (c : Http2Connection X) (error : ErrorCode) :
    (c.resetClientStreams w error).state = c.state := by
  have hloop : ∀ (n : Nat) (c : Http2Connection X), (resetLoop w error n c).state = c.state := by
    intro n
    induction n with
    | zero => exact fun _ => rfl
    | succ n ih =>
      intro c
      simp only [resetLoop]
      split
      · rfl
      · exact ih _
  unfold resetClientStreams
  split
  · rfl
  · exact hloop _ c

theorem connectionError_closed (c : Http2Connection X) (code : ErrorCode) :
    (c.connectionError w code).state = .closed := by
  unfold connectionError
  split
  · assumption
  · rw [resetClientStreams_state]

theorem streamError_sim (hc : Tidy x c) (hx : x = none ∨ x = some id) (code : ErrorCode) :
    Sim p h h none c (c.streamError w id code) := by
  simp only [streamError]
  split
  · exact connectionError_sim hc _
  have hq : Sim p h h x c (c.queueFrame (rstFrame id code)) :=
    sim_control hc (.inr (.inr (.inl rfl)))
  refine hq.trans ?_
  generalize hd : c.queueFrame (rstFrame id code) = d at hq ⊢
  have hreset : WasReset d.trace id :=
    ⟨rstFrame id code, .inl (by rw [← hd]; simp [queueFrame]), rfl, rfl⟩
  cases hget : d.getStream id with
  | some s =>
    have hid := getStream_id hget
    subst hid
    cases hserver : d.isServer with
    | true =>
      simp only [if_true]
      exact sim_close hq.tidy hserver hget (.inr hreset)
    | false =>
      simp only [Bool.false_eq_true, if_false]
      exact sim_finish hq.tidy hx hserver hget (.reset code)
  | none =>
    -- no stream with this id: nothing ends
    have htidy : Tidy none d := by
      refine ⟨hq.tidy.nodup, hq.tidy.small, hq.tidy.emptied, ?_, hq.tidy.sound⟩
      intro hcl s hs _
      refine hq.tidy.live hcl s hs ?_
      rcases hx with rfl | rfl
      · simp
      · intro heq
        rw [Option.some.injEq] at heq
        exact Keyed.find_eq_none_iff.mp hget (heq ▸ mem_map_of_mem hs)
    simp only
    split
    · exact .refl htidy
    · exact .silent htidy rfl rfl

theorem streamError_gone (c : Http2Connection X) (hn : (c.streams.map (·.id)).Nodup) (id : Nat)
    (code : ErrorCode) :
    (c.streamError w id code).state = .closed ∨
      (c.streamError w id code).getStream id = none ∧
        (c.streamError w id code).lastStreamId = c.lastStreamId := by
  simp only [streamError]
  split
  · exact .inl (connectionError_closed c _)
  right
  cases hget : (c.queueFrame (rstFrame id code)).getStream id with
  | some s =>
    have hn' : ∀ e : Http2Connection X, e.streams = c.streams →
        (e.closeStream w id).getStream id = none := by
      intro e he
      have hge : e.getStream id = some s := by
        rw [← hget]
        simp only [getStream, he]
        rfl
      rw [(closeStream_streams (by rw [he]; exact hn) hge).2.1, update_self]
    simp only
    split
    · exact ⟨hn' _ rfl, rfl⟩
    · exact ⟨hn' _ rfl, rfl⟩
  | none =>
    simp only
    split
    · exact ⟨hget, rfl⟩
    · exact ⟨hget, rfl⟩

/-! ## DATA -/

theorem pumpLength_le (hp : c.pumpable s)
    (hmax : kLocalMaxFrameSize ≤ c.remote.maxFrameSize) :
    c.pumpLength s ≤ s.sendBuf.length - s.sendOff ∧ c.pumpLength s ≤ c.remote.maxFrameSize ∧
      (c.pumpLength s : Int) ≤ c.connectionSendWindow ∧ (c.pumpLength s : Int) ≤ s.sendWindow := by
  simp only [pumpable, Bool.and_eq_true, decide_eq_true_eq] at hp
  obtain ⟨⟨-, hpos⟩, -⟩ := hp
  have hframe : (if c.isServer then c.remote.maxFrameSize else kLocalMaxFrameSize) ≤
      c.remote.maxFrameSize := by
    split
    · exact Nat.le_refl _
    · exact hmax
  simp only [pumpLength]
  omega

theorem pumpStream_sim (hc : Tidy none c) (hs : c.getStream s.id = some s)
    (hst : c.state ≠ .closed) (hd : c.pumpStream w s = some d) :
    Rests p c d ∧ d.state = c.state := by
  simp only [pumpStream] at hd
  split at hd
  · rename_i hp
    obtain ⟨hrem, hframe, hconn, hstream⟩ := pumpLength_le hp (hc.sound.maxFrame hst)
    have hpending : s.sendPending := by
      simp only [pumpable, Bool.and_eq_true] at hp
      exact hp.1.1
    obtain ⟨hmem, -⟩ := Keyed.find_mem hs
    have hlive : c.isServer = false → some s.id ≠ none →
        (s.pumped (c.pumpLength s) c.isServer).state.canReceive := by
      intro hcl _
      rw [(pumped_complete s _ _).2]
      exact hc.live hcl s hmem (by simp)
    have hpump : Rests p c
        (Http2Connection.putStream
          { c.queueFrame (dataFrame s (c.pumpLength s)) with
            connectionSendWindow := c.connectionSendWindow - c.pumpLength s }
          (s.pumped (c.pumpLength s) c.isServer)) := by
      refine sim_put_step hc hs (pumped_id _ _ _) rfl ?_ rfl rfl hlive fun _ => .inl rfl
      exact .pump s (c.pumpLength s) hs hst rfl hpending hrem hframe hconn hstream
    have hput := hpump.tidy
    cases hd
    split
    · exact ⟨hpump, rfl⟩
    rename_i hdone
    unfold maybeClose
    split
    · rename_i hclosed
      cases hserver : c.isServer with
      | false =>
        -- a client's stream that can receive is not closed
        have := hlive hserver (by simp)
        rw [show (s.pumped (c.pumpLength s) c.isServer).state = .closed from hclosed.1] at this
        cases this
      | true =>
        refine ⟨hpump.trans (sim_close hput hserver ?_ (.inl ⟨hclosed.1, by simpa using hdone⟩)),
          rfl⟩
        refine (Keyed.find_eq_some_iff hput.nodup).mpr ⟨?_, rfl⟩
        exact mem_map.mpr ⟨s, hmem, if_pos (pumped_id _ _ _).symm⟩
    · exact ⟨hpump, rfl⟩
  · cases hd

theorem pumpPass_sim (ids : List Nat) :
    ∀ (b : Bool) (c : Http2Connection X), Tidy none c → c.state ≠ .closed →
      Rests p c (pumpPass w ids b c).2 ∧ (pumpPass w ids b c).2.state = c.state := by
  induction ids with
  | nil => exact fun b c hc _ => ⟨.refl hc, rfl⟩
  | cons id ids ih =>
    intro b c hc hst
    simp only [pumpPass]
    cases hget : c.getStream id with
    | none => exact ih b c hc hst
    | some s =>
      have hid := getStream_id hget
      subst hid
      rw [Option.bind_some]
      cases hp : c.pumpStream w s with
      | none => exact ih b c hc hst
      | some d =>
        obtain ⟨hsim, hd⟩ := pumpStream_sim (p := p) hc hget hst hp
        obtain ⟨hsim', hd'⟩ := ih true d hsim.tidy (by rw [hd]; exact hst)
        exact ⟨hsim.trans hsim', hd'.trans hd⟩

theorem pumpPasses_sim (n : Nat) :
    ∀ c : Http2Connection X, Tidy none c → c.state ≠ .closed →
      Rests p c (pumpPasses w n c) ∧ (pumpPasses w n c).state = c.state := by
  induction n with
  | zero => exact fun c hc _ => ⟨.refl hc, rfl⟩
  | succ n ih =>
    intro c hc hst
    simp only [pumpPasses]
    split
    · exact ⟨.refl hc, rfl⟩
    obtain ⟨hsim, hd⟩ :=
      pumpPass_sim (p := p) (w := w) (c.streams.map (·.id)) false c hc hst
    split
    · rename_i d hpass
      rw [hpass] at hsim hd
      obtain ⟨hsim', hd'⟩ := ih d hsim.tidy (by rw [hd]; exact hst)
      exact ⟨hsim.trans hsim', hd'.trans hd⟩
    · rename_i d hpass
      rw [hpass] at hsim hd
      exact ⟨hsim, hd⟩

theorem pumpData_sim (hc : Tidy none c) (hst : c.state ≠ .closed) :
    Rests p c (c.pumpData w) :=
  (pumpPasses_sim kMaxPasses c hc hst).1

/-! ## Header blocks -/

theorem foldl_queueFrame (fs : List Frame) :
    ∀ c : Http2Connection X, fs.foldl queueFrame c =
      { c with output := c.output ++ (fs.map Frame.encode).flatten
               trace := c.trace ++ fs.map .queued } := by
  induction fs with
  | nil => intro c; simp
  | cons f fs ih => intro c; rw [foldl_cons, ih]; simp [queueFrame]

theorem headerFrames_rest (id max : Nat) (endStream : Bool) (n : Nat) :
    ∀ block : Bytes, ∀ f ∈ headerFrames id max endStream n false block,
      f.type = .continuation ∧ f.streamId = id := by
  induction n with
  | zero => intro block f hf; cases hf
  | succ n ih =>
    intro block f hf
    simp only [headerFrames] at hf
    rcases mem_cons.mp hf with rfl | hf
    · exact ⟨rfl, rfl⟩
    · split at hf
      · cases hf
      · exact ih _ f hf

theorem headerFrames_block (id max : Nat) (endStream : Bool) (block : Bytes) :
    IsHeaderBlock id endStream (headerFrames id max endStream (block.length + 1) true block) := by
  simp only [headerFrames]
  refine ⟨_, _, rfl, rfl, rfl, ?_, ?_⟩
  · simp only [Frame.has, Bool.true_and]
    split <;> cases endStream <;> rfl
  intro g hg
  split at hg
  · cases hg
  · exact headerFrames_rest _ _ _ _ _ g hg

theorem queueHeaderBlock_eq (c : Http2Connection X) (es : List Event) (id : Nat) (block : Bytes)
    (endStream : Bool) : ∃ fs out, IsHeaderBlock id endStream fs ∧
      queueHeaderBlock { c with trace := c.trace ++ es } id block endStream =
        { c with output := out, trace := c.trace ++ (es ++ fs.map .queued) } := by
  have hfold := foldl_queueFrame
    (headerFrames id c.remote.maxFrameSize endStream (block.length + 1) true block)
    { c with trace := c.trace ++ es }
  rw [append_assoc] at hfold
  exact ⟨_, _, headerFrames_block id c.remote.maxFrameSize endStream block, hfold⟩

/-! ## Calls -/

theorem sim_put_server (hc : Tidy x c) (hserver : c.isServer)
    (hs : c.getStream s.id = some s) (ht : Transition (view h c) s t es k)
    (hd : d.streams = Keyed.put (·.id) t c.streams)
    (hv : view k d = { view h c with streams := d.getStream, hand := k, trace := c.trace ++ es }) :
    Sim p h k y c d :=
  sim_put hc hs ht hd hv (by simp [hserver]) (by simp [hserver])

theorem getStream_put (hd : Tidy x d) (hs : c.getStream s.id = some s)
    (hstreams : d.streams = Keyed.put (·.id) t c.streams) (hid : t.id = s.id) :
    d.getStream t.id = some t := by
  refine (Keyed.find_eq_some_iff hd.nodup).mpr ⟨?_, rfl⟩
  rw [hstreams]
  exact mem_map.mpr ⟨s, (Keyed.find_mem hs).1, if_pos hid.symm⟩

section
variable (hc : Tidy none c)
include hc

theorem maybeClose_sim (hserver : c.isServer)
    (hs : c.getStream s.id = some s) : Sim p h h none c (c.maybeClose w s) := by
  unfold maybeClose
  split
  · rename_i hclosed
    exact sim_close hc hserver hs (.inl ⟨hclosed.1, by simpa using hclosed.2⟩)
  · exact .refl hc

theorem respond_sim (hserver : c.isServer)
    (hs : c.getStream s.id = some s) (hst : c.state ≠ .closed) (hsend : s.state.canSend)
    (hpending : s.sendPending = false) (block content : Bytes) :
    Rests p c (c.respond w s block content) := by
  obtain ⟨fs, out, hfs, heq⟩ := queueHeaderBlock_eq c [.sending s.id content] s.id block
    content.isEmpty
  have hresp := Transition.respond (e := view none c) hserver hst hsend hpending hfs
  simp only [respond, log, heq]
  split
  · rename_i hempty
    rw [if_pos hempty] at hresp
    have hput : Rests p c (putStream { c with output := out, trace := _ } _) :=
      sim_put_server hc hserver hs hresp rfl rfl
    exact hput.trans (maybeClose_sim hput.tidy hserver (getStream_put hput.tidy hs rfl rfl))
  rename_i hne
  rw [if_neg hne] at hresp
  have hput : Rests p c (putStream { c with output := out, trace := _ } _) :=
    sim_put_server hc hserver hs hresp rfl rfl
  exact hput.trans (pumpData_sim hput.tidy hst)

theorem sendResponse_sim (id status : Nat) (headers : List Http1.Response.Entry)
    (body : Bytes) : Rests p c (c.sendResponse w id status headers body) := by
  simp only [sendResponse]
  split
  · exact .refl hc
  rename_i hserver
  simp only [Bool.not_eq_true', Bool.not_eq_false] at hserver
  cases hget : c.getStream id with
  | none => exact .refl hc
  | some s =>
    have hid := getStream_id hget
    subst hid
    simp only
    split
    · exact .refl hc
    rename_i hok
    simp only [Bool.or_eq_true, decide_eq_true_eq, Bool.not_eq_true', not_or,
      Bool.not_eq_false, Bool.not_eq_true] at hok
    obtain ⟨⟨hst, hsend⟩, hpending⟩ := hok
    have hworld : ∀ x, Rests p c { c with world := x } :=
      fun x => .silent hc rfl rfl
    split
    · rename_i x _
      exact (hworld x).trans (streamError_sim (hworld x).tidy (.inl rfl) _)
    · rename_i block x _
      exact (hworld x).trans
        (respond_sim (hworld x).tidy hserver hget hst hsend hpending block _)

theorem sendRstStream_sim (id : Nat) (error : ErrorCode) :
    Rests p c (c.sendRstStream w id error) := by
  unfold sendRstStream
  split
  · exact .refl hc
  · split
    · exact .refl hc
    · exact streamError_sim hc (.inl rfl) _

theorem sendGoaway_sim (error : ErrorCode) (debugData : Bytes)
    (hearly : error = NO_ERROR → c.state = .prefacePending → p) :
    Rests p c (c.sendGoaway w error debugData) := by
  simp only [sendGoaway]
  split
  · exact .refl hc
  rename_i hst
  split
  · exact connectionError_sim hc _
  generalize debugData.take (kLocalMaxFrameSize - 8) = debugData
  split
  · exact sim_fatal hc
      (e := { c.queueGoaway error debugData with lastError := error, state := .closed })
      (.fatal error debugData hst) rfl error
  rename_i herr
  have herr : error = NO_ERROR := by simpa using herr
  subst herr
  have hstep := Step.graceful (e := view none c) debugData hst (hearly rfl)
  split
  · rename_i hact
    have hact' : (view none c).state = .active := hact
    rw [if_pos hact'] at hstep
    exact .of_same_streams hc (.single hstep) rfl rfl nofun
  rename_i hact
  have hact' : ¬ (view none c).state = .active := hact
  rw [if_neg hact'] at hstep
  exact .of_same_streams hc (.single hstep) rfl rfl fun _ hcl => hcl

theorem commitOutput_sim (len : Nat) :
    Rests p c (c.commitOutput w len) := by
  simp only [commitOutput]
  have hout : Rests p c { c with output := c.output.drop len } :=
    .silent hc rfl rfl
  split
  · rename_i hok
    simp only [Bool.and_eq_true, decide_eq_true_eq] at hok
    exact hout.trans (pumpData_sim hout.tidy hok.2)
  · exact hout

/-- **Every call is a run of the protocol.** -/
theorem call_sim (a : Call)
    (hearly : ∀ debugData, a = .sendGoaway NO_ERROR debugData → c.state = .prefacePending → p) :
    Rests p c (c.call w a) := by
  cases a with
  | sendResponse id status headers body => exact sendResponse_sim hc id status headers body
  | sendRstStream id error => exact sendRstStream_sim hc id error
  | sendGoaway error debugData =>
    exact sendGoaway_sim hc error debugData fun herr => hearly debugData (herr ▸ rfl)
  | commitOutput len => exact commitOutput_sim hc len
  | setMaxRequestBody bytes => exact .silent hc rfl rfl

end

theorem calls_sim (as : List Call) :
    ∀ c : Http2Connection X, Tidy none c → c.state ≠ .prefacePending →
      Rests p c (as.foldl (call w) c) := by
  induction as with
  | nil => exact fun c hc _ => .refl hc
  | cons a as ih =>
    intro c hc hst
    have hcall : Rests p c (c.call w a) := call_sim hc a fun _ _ hp => absurd hp hst
    exact hcall.trans (ih _ hcall.tidy (hcall.steps.not_prefacePending hst))

theorem Tidy.opened (hc : Tidy x c) (hsmall : c.streams.length < kMaxConcurrentStreams)
    (hfree : c.getStream s.id = none) (hact : d.state ≠ .closed)
    (hlive : c.isServer = false → s.state.canReceive)
    (hd : d.streams = c.streams ++ [s]) (hi : d.isServer = c.isServer) (hstep : Step p (view h c)
      { view k d with streams := update c.getStream s.id (some s) }) :
    Tidy x d ∧ Step p (view h c) (view k d) := by
  obtain ⟨hnd, hfind⟩ := Keyed.find_append hc.nodup hfree
  have hget : d.getStream = update c.getStream s.id (some s) := by
    unfold getStream
    rw [hd]
    exact hfind
  rw [← hget] at hstep
  refine ⟨⟨by rw [hd]; exact hnd, by rw [hd, length_append]; exact hsmall,
    fun _ hst => absurd hst hact, ?_, hc.sound_steps (.single hstep)⟩, hstep⟩
  intro hcl t ht htx
  rw [hi] at hcl
  rw [hd, mem_append, mem_singleton] at ht
  rcases ht with ht | rfl
  · exact hc.live hcl t ht htx
  · exact hlive hcl

theorem openRequest_sim (hc : Tidy none c) (hclient : c.isServer = false) (hact : c.state = .active)
    (hsmall : c.streams.length < kMaxConcurrentStreams) {facts : Facts} {fields}
    (hfields : validateFields .request fields = some facts) (body block : Bytes) :
    Rests p c (c.openRequest w fields body block facts.isHead).2 ∧
      .opened (c.openRequest w fields body block facts.isHead).1 fields ∈
        (c.openRequest w fields body block facts.isHead).2.trace := by
  simp only [openRequest, log, acquireClientStream]
  generalize hid : (if c.lastStreamId = 0 then 1 else c.lastStreamId + 2) = id
  have hlt : c.lastStreamId < id := by
    rw [← hid]
    split <;> omega
  have hfree : c.getStream id = none := by
    cases hget : c.getStream id with
    | none => rfl
    | some s =>
      have hle := (hc.sound.stream hget).2.le_last
      rw [getStream_id hget] at hle
      exact absurd hlt (Nat.not_lt.mpr hle)
  have hne : c.state ≠ .closed := by simp [hact]
  have hlive : (clientStream id c.remote.initialWindowSize body facts.isHead).state.canReceive := by
    cases body <;> rfl
  obtain ⟨fs, out, hfs, heq⟩ := queueHeaderBlock_eq
    { c with
      streams := c.streams ++ [clientStream id c.remote.initialWindowSize body facts.isHead]
      lastStreamId := id } [.opened id fields, .sending id body] id block body.isEmpty
  obtain ⟨htidy, hstep⟩ := hc.opened (p := p) (h := none) (k := none)
    (s := clientStream id c.remote.initialWindowSize body facts.isHead)
    (d := { c with
      streams := c.streams ++ [clientStream id c.remote.initialWindowSize body facts.isHead]
      lastStreamId := id, output := out
      trace := c.trace ++ ([.opened id fields, .sending id body] ++ fs.map .queued) })
    hsmall hfree hne (fun _ => hlive) rfl rfl
    (.openClient id fields facts body fs hclient hact hlt hfields hfs)
  have hopen : Rests p c _ := ⟨htidy, .single hstep⟩
  have hpump : Rests p _ _ := pumpData_sim (w := w) hopen.tidy hne
  have hopened := hpump.steps.trace_prefix.mem (mem_append_right c.trace mem_cons_self)
  rw [append_assoc]
  exact heq ▸ ⟨hopen.trans hpump, hopened⟩

theorem validateRequest_some {fields bodySize maxSize isHead}
    (hv : validateRequest fields bodySize maxSize = some isHead) :
    ∃ facts, validateFields .request fields = some facts ∧ facts.isHead = isHead := by
  simp only [validateRequest] at hv
  split at hv
  · cases hv
  cases hf : validateFields .request fields with
  | none => rw [hf] at hv; cases hv
  | some facts =>
    rw [hf] at hv
    simp only at hv
    split at hv
    · cases hv
    split at hv
    · cases hv
    · split at hv
      · cases hv
      · exact ⟨facts, rfl, Option.some.inj hv⟩

/-- **A request is a run of the protocol**, which opens the stream whose id is
returned. -/
theorem sendRequest_sim (hc : Tidy none c) (fields : List HPACKHeader) (body : Bytes) :
    Rests p c (c.sendRequest w fields body).2 ∧
      ∀ id, (c.sendRequest w fields body).1 = some id →
        .opened id fields ∈ (c.sendRequest w fields body).2.trace := by
  simp only [sendRequest]
  split
  · exact ⟨.refl hc, nofun⟩
  rename_i hstate
  simp only [Bool.or_eq_true, decide_eq_true_eq, not_or, Bool.not_eq_true, not_not] at hstate
  split
  · exact ⟨.refl hc, nofun⟩
  rename_i hroom
  simp only [Bool.or_eq_true, decide_eq_true_eq, not_or, Nat.not_le] at hroom
  cases hv : validateRequest fields body.length c.remote.maxHeaderListSize with
  | none => exact ⟨.refl hc, nofun⟩
  | some isHead =>
    obtain ⟨facts, hfields, rfl⟩ := validateRequest_some hv
    have hworld : ∀ x, Rests p c { c with world := x } :=
      fun x => .silent hc rfl rfl
    simp only
    split
    · rename_i x _
      exact ⟨hworld x, nofun⟩
    rename_i block x _
    have hsmall : c.streams.length < kMaxConcurrentStreams := by omega
    obtain ⟨hsim, hopened⟩ := openRequest_sim (w := w) (p := p) (hworld x).tidy hstate.1
      hstate.2 hsmall hfields body block
    refine ⟨(hworld x).trans hsim, fun id hid => ?_⟩
    cases hid
    exact hopened

end BoltApi.Http2.Refinement
