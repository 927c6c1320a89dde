import Mathlib.Logic.Relation
import BoltApi.Http2.Receive

/-! # The protocol an HTTP/2 connection speaks

An `Endpoint` is what the protocol knows of a connection: its state, the
windows, the streams by their ids and what has happened so far. `Step` says once
what an endpoint can do, each step with the condition under which the
implementation takes it; every property of whole runs is an invariant of `Step`.
`hand` is the frame of the peer that has arrived and is not yet accounted for. -/
namespace BoltApi.Http2.Protocol
open Octets Hpack.Tables Wire Fields Function
open Connection Receive

structure Held where
  frame : Frame
  refused : Bool

abbrev held (f : Frame) : Option Held := some ⟨f, false⟩
abbrev refused (f : Frame) : Option Held := some ⟨f, true⟩

structure Endpoint where
  isServer : Bool
  state : ConnectionState
  initialWindow : Nat
  maxFrame : Nat
  sendWindow : Int
  recvWindow : Int
  streams : Nat → Option Http2Stream
  lastStreamId : Nat
  accepted : Nat
  sentGoaway : Nat
  hand : Option Held
  trace : List Event

namespace Endpoint

def put (e : Endpoint) (s : Http2Stream) : Endpoint :=
  { e with streams := update e.streams s.id (some s) }

def remove (e : Endpoint) (id : Nat) : Endpoint :=
  { e with streams := update e.streams id none }

def log (e : Endpoint) (es : List Event) : Endpoint := { e with trace := e.trace ++ es }

def cutoff (e : Endpoint) : Nat := min e.sentGoaway (if e.isServer then e.accepted else 0)

@[simp] theorem log_nil (e : Endpoint) : e.log [] = e := by simp [log]

theorem put_eq_some {e : Endpoint} {s t : Http2Stream} {i : Nat}
    (h : (e.put s).streams i = some t) : i = s.id ∧ t = s ∨ i ≠ s.id ∧ e.streams i = some t := by
  by_cases hi : i = s.id
  · subst hi
    simp only [put, update_self, Option.some.injEq] at h
    exact .inl ⟨rfl, h.symm⟩
  · exact .inr ⟨hi, by simpa only [put, update_of_ne hi] using h⟩

theorem put_dom {e : Endpoint} {s : Http2Stream} {i : Nat} (h : (e.put s).streams i ≠ none) :
    i = s.id ∨ e.streams i ≠ none := by
  obtain ⟨t, ht⟩ := Option.ne_none_iff_exists'.mp h
  rcases put_eq_some ht with ⟨hi, -⟩ | ⟨-, hold⟩
  · exact .inl hi
  · exact .inr (by simp [hold])

theorem remove_eq_some {e : Endpoint} {id i : Nat} {t : Http2Stream}
    (h : (e.remove id).streams i = some t) : i ≠ id ∧ e.streams i = some t := by
  by_cases hi : i = id
  · subst hi
    simp [remove] at h
  · exact ⟨hi, by simpa only [remove, update_of_ne hi] using h⟩

theorem remove_dom {e : Endpoint} {id i : Nat} (h : (e.remove id).streams i ≠ none) :
    e.streams i ≠ none := by
  obtain ⟨t, ht⟩ := Option.ne_none_iff_exists'.mp h
  simp [(remove_eq_some ht).2]

end Endpoint

/-! ## What streams do -/

def IsControl (f : Frame) : Prop :=
  f.type = .settings ∨ f.type = .ping ∨ f.type = .rstStream ∨ f.type = .windowUpdate

def IsHeaderBlock (id : Nat) (endStream : Bool) (fs : List Frame) : Prop :=
  ∃ f rest, fs = f :: rest ∧ f.type = .headers ∧ f.streamId = id ∧ f.has END_STREAM = endStream ∧
    ∀ g ∈ rest, g.type = .continuation ∧ g.streamId = id

/-- A receive window stays between nothing and the full window. -/
def RecvRange (r : Int) : Prop := 0 ≤ r ∧ r ≤ kLocalWindow

theorem recvRange_full : RecvRange kLocalWindow := ⟨by decide, Int.le_refl _⟩

def Endpoint.HoldsData (e : Endpoint) (id : Nat) (f : Frame) : Prop :=
  e.hand = held f ∧ f.type = .data ∧ f.streamId = id

def Endpoint.Free (e : Endpoint) (id : Nat) : Prop :=
  ∀ g, e.hand = some g → g.frame.type = .data → g.frame.streamId ≠ id

def Endpoint.Spoiled (e : Endpoint) (id : Nat) : Prop :=
  ∃ g, e.hand = some g ∧ g.refused ∧ g.frame.streamId = id

def Endpoint.RefusesData (e : Endpoint) : Prop :=
  ∀ g, e.hand = some g → g.refused → g.frame.type = .data

def sectionEvent (kind : ResponseEventKind) (id status : Nat) (fields : List HPACKHeader)
    (endStream : Bool) : ResponseEvent :=
  { kind := kind, streamId := id, status := status, headers := fields, endStream := endStream }

def dataEvents (id status : Nat) (f : Frame) : List Event :=
  if unpadded f = [] then []
  else [.response { kind := .data, streamId := id, status := status, data := unpadded f
                    endStream := f.has END_STREAM }]

inductive Transition (e : Endpoint) (s : Http2Stream) :
    Http2Stream → List Event → Option Held → Prop
  | grant {f : Frame} : e.hand = held f → f.type = .windowUpdate → f.streamId = s.id →
      s.sendWindow + getU31 f.payload ≤ kMaxWindow →
      Transition e s { s with sendWindow := s.sendWindow + getU31 f.payload } [] none
  | refill : Transition e s { s with recvWindow := kLocalWindow } [] e.hand
  | respond {content : Bytes} {fs : List Frame} : e.isServer → e.state ≠ .closed →
      s.state.canSend → s.sendPending = false → IsHeaderBlock s.id content.isEmpty fs →
      Transition e s
        (if content.isEmpty then { s with state := s.state.headersSent true }
          else { s with state := s.state.headersSent false, sendBuf := content, sendOff := 0
                        sendPending := true })
        (.sending s.id content :: fs.map .queued) e.hand
  | spoil {f : Frame} {r : Int} {n : Nat} : e.HoldsData s.id f → RecvRange r →
      Transition e s { s with recvWindow := r, bodyReceived := n } [] (refused f)
  | requestData {f : Frame} {r : Int} : e.isServer → e.HoldsData s.id f →
      s.state.canReceive → RecvRange r →
      Transition e s
        { s with recvWindow := r, bodyReceived := s.bodyReceived + (unpadded f).length
                 requestBody := s.requestBody ++ unpadded f
                 state := s.state.dataReceived (f.has END_STREAM) } [] none
  | requestTrailers : e.isServer → s.state.canReceive →
      Transition e s { s with state := s.state.headersReceived true } [] e.hand
  | request : e.isServer → e.state ≠ .closed → s.requestComplete = false →
      s.state.canReceive = false → s.contentLength.all (· = s.bodyReceived) → e.Free s.id →
      Transition e s { s with requestComplete := true } [.request { s with requestComplete := true }]
        e.hand
  | interim {fields : List HPACKHeader} {facts : Facts} : e.isServer = false →
      s.state.canReceive → s.responseStatus = 0 →
      validateFields .response fields = some facts → facts.status < 200 →
      facts.contentLength = none →
      Transition e s { s with contentLength := none }
        [.response (sectionEvent .headers s.id facts.status fields false)] e.hand
  | final {fields : List HPACKHeader} {facts : Facts} {endStream : Bool} : e.isServer = false →
      s.state.canReceive → s.responseStatus = 0 →
      validateFields .response fields = some facts → 200 ≤ facts.status →
      Transition e s
        { s with responseStatus := facts.status
                 contentLength :=
                   if s.isHead || facts.status = 304 then none else facts.contentLength
                 state := s.state.headersReceived endStream }
        [.response (sectionEvent .headers s.id facts.status fields endStream)] e.hand
  | responseData {f : Frame} {r : Int} : e.isServer = false → e.HoldsData s.id f →
      s.state.canReceive → s.responseStatus ≠ 0 → RecvRange r →
      Transition e s
        { s with recvWindow := r, bodyReceived := s.bodyReceived + (unpadded f).length
                 state := s.state.dataReceived (f.has END_STREAM) }
        (dataEvents s.id s.responseStatus f) none
  | responseTrailers {fields : List HPACKHeader} : e.isServer = false →
      s.state.canReceive → s.responseStatus ≠ 0 →
      Transition e s { s with state := s.state.headersReceived true }
        [.response (sectionEvent .trailers s.id s.responseStatus fields true)] e.hand

/-! ## What endpoints do -/

def WasReset (trace : List Event) (id : Nat) : Prop :=
  ∃ f : Frame, (.queued f ∈ trace ∨ .received f ∈ trace) ∧ f.type = .rstStream ∧ f.streamId = id

def Endpoint.Settled (e : Endpoint) (f : Frame) : Prop :=
  (f.type = .data → e.streams f.streamId = none ∧ f.streamId % 2 = 1 ∧
    f.streamId ≤ e.lastStreamId) ∧
  (f.type = .settings → f.has ACK)

def lastSetting (id : SettingsId) (params : List (SettingsId × Nat)) (old : Nat) : Nat :=
  params.foldl (fun v p => if p.1 = id then p.2 else v) old

def shift (delta : Int) (s : Http2Stream) : Http2Stream :=
  { s with sendWindow := s.sendWindow + delta }

/-- The values of a window: 32 bits, signed, without the least of them. -/
def WindowRange (w : Int) : Prop := -kMaxWindow ≤ w ∧ w ≤ kMaxWindow

def Retuned (s t : Http2Stream) : Prop :=
  t = { s with sendWindow := t.sendWindow } ∧ WindowRange t.sendWindow

def goawayFrame (last : Nat) (error : ErrorCode) (debugData : Bytes) : Frame :=
  { type := .goaway, flags := 0, streamId := 0
    payload := putU32 last ++ putU32 error ++ debugData }

def serverStream (id initialWindow : Nat) (endStream : Bool) (fields : List HPACKHeader)
    (facts : Facts) : Http2Stream :=
  { id := id, state := StreamState.idle.headersReceived endStream, sendWindow := initialWindow
    isHead := facts.isHead, contentLength := facts.contentLength
    requestHeaders := fields.foldl addField [] }

def clientStream (id initialWindow : Nat) (body : Bytes) (isHead : Bool) : Http2Stream :=
  { id := id, state := StreamState.idle.headersSent body.isEmpty, sendWindow := initialWindow
    sendBuf := body, sendPending := !body.isEmpty, isHead := isHead, responseStatus := 0 }

inductive Terminal (e : Endpoint) (s : Http2Stream) : ResponseEvent → Prop
  | complete : e.state ≠ .closed → s.state.canReceive = false → s.responseStatus ≠ 0 →
      s.contentLength.all (· = s.bodyReceived) → e.Free s.id →
      s.state = .closed ∨ WasReset e.trace s.id →
      Terminal e s { kind := .complete, streamId := s.id, status := s.responseStatus
                     endStream := true }
  | reset (error : ErrorCode) :
      Terminal e s { kind := .reset, streamId := s.id, status := s.responseStatus, error := error }

/-- One step of an endpoint. With `early`, a graceful GOAWAY may be sent before
the preface of the client has arrived. -/
inductive Step (early : Prop) (e : Endpoint) : Endpoint → Prop
  | receive (f : Frame) : e.hand = none → e.state ≠ .closed →
      Step early e ({ e with hand := held f }.log [.received f])
  | done : e.state = .closed ∨ (∀ g, e.hand = some g → e.Settled g.frame) →
      Step early e { e with hand := none }
  | window (r : Int) : RecvRange r → Step early e { e with recvWindow := r }
  | control (f : Frame) : IsControl f → Step early e (e.log [.queued f])
  | fatal (error : ErrorCode) (debugData : Bytes) : e.state ≠ .closed →
      Step early e
        ({ e with state := .closed, sentGoaway := e.cutoff }.log
          [.queued (goawayFrame e.cutoff error debugData)])
  | fatalSettings (streams : Nat → Option Http2Stream) (initialWindow maxFrame : Nat)
      (error : ErrorCode) : e.state ≠ .closed → (∀ id, Option.Rel Retuned (e.streams id) (streams id)) →
      Step early e
        ({ e with state := .closed, sentGoaway := e.cutoff, streams := streams
                  initialWindow := initialWindow, maxFrame := maxFrame }.log
          [.queued (goawayFrame e.cutoff error [])])
  | graceful (debugData : Bytes) : e.state ≠ .closed → (e.state = .prefacePending → early) →
      Step early e
        ({ e with state := if e.state = ConnectionState.active then .goawaySent else e.state
                  sentGoaway := e.cutoff }.log
          [.queued (goawayFrame e.cutoff NO_ERROR debugData)])
  | goawayReceived : e.state = .active → Step early e { e with state := .goawayReceived }
  | preface : e.isServer → e.state = .prefacePending →
      Step early e { e with state := .active }
  | seen (id : Nat) : e.isServer → e.lastStreamId < id →
      Step early e { e with lastStreamId := id }
  | grant (f : Frame) : e.hand = held f → f.type = .windowUpdate → f.streamId = 0 →
      e.sendWindow + getU31 f.payload ≤ kMaxWindow →
      Step early e { e with sendWindow := e.sendWindow + getU31 f.payload, hand := none }
  | settings (f : Frame) (initialWindow maxFrame : Nat) (streams : Nat → Option Http2Stream) :
      e.hand = held f → e.state ≠ .closed → f.type = .settings → f.has ACK = false →
      initialWindow = lastSetting .initialWindowSize (settingsParams f.payload) e.initialWindow →
      maxFrame = lastSetting .maxFrameSize (settingsParams f.payload) e.maxFrame →
      (initialWindow : Int) ≤ kMaxWindow →
      maxFrame = e.maxFrame ∨ kLocalMaxFrameSize ≤ maxFrame →
      (∀ id, streams id = (e.streams id).map (shift (initialWindow - e.initialWindow))) →
      (∀ id s, streams id = some s → s.sendWindow ≤ kMaxWindow) →
      Step early e
        { e with initialWindow := initialWindow, maxFrame := maxFrame, streams := streams
                 hand := none }
  | stream (s s' : Http2Stream) (es : List Event) (hand : Option Held) :
      e.streams s.id = some s → Transition e s s' es hand →
      Step early e ({ e.put s' with hand := hand }.log es)
  | pump (s : Http2Stream) (n : Nat) : e.streams s.id = some s → e.state ≠ .closed →
      e.hand = none → s.sendPending → n ≤ s.sendBuf.length - s.sendOff → n ≤ e.maxFrame →
      (n : Int) ≤ e.sendWindow → (n : Int) ≤ s.sendWindow →
      Step early e
        ({ e.put (s.pumped n e.isServer) with sendWindow := e.sendWindow - n }.log
          [.queued (Http2Connection.dataFrame s n)])
  | openServer (id : Nat) (endStream : Bool) (fields : List HPACKHeader) (facts : Facts) :
      e.isServer → e.state = .active → e.lastStreamId < id → id % 2 = 1 → id < 2 ^ 31 →
      validateFields .request fields = some facts →
      Step early e
        ({ e.put (serverStream id e.initialWindow endStream fields facts) with
            lastStreamId := id, accepted := id }.log [.opened id fields])
  | openClient (id : Nat) (fields : List HPACKHeader) (facts : Facts) (body : Bytes)
      (fs : List Frame) : e.isServer = false → e.state = .active → e.lastStreamId < id →
      validateFields .request fields = some facts → IsHeaderBlock id body.isEmpty fs →
      Step early e
        ({ e.put (clientStream id e.initialWindow body facts.isHead) with
            lastStreamId := id }.log (.opened id fields :: .sending id body :: fs.map .queued))
  | close (s : Http2Stream) : e.isServer → e.streams s.id = some s →
      (s.state = .closed ∧ s.sendPending = false) ∨ WasReset e.trace s.id →
      Step early e (e.remove s.id)
  | finish (s : Http2Stream) (ev : ResponseEvent) : e.isServer = false →
      e.streams s.id = some s → Terminal e s ev →
      Step early e ((e.remove s.id).log [.response ev])

abbrev Steps (early : Prop) : Endpoint → Endpoint → Prop := Relation.ReflTransGen (Step early)

theorem Steps.keeps {early : Prop} {I : Endpoint → Prop}
    (hstep : ∀ e e', I e → Step early e e' → I e') {e e' : Endpoint} (h : Steps early e e')
    (he : I e) : I e' := by
  induction h with
  | refl => exact he
  | tail _ hs ih => exact hstep _ _ ih hs

theorem retuned_some {o o' t} (h : Option.Rel Retuned o o') (ht : o' = some t) :
    ∃ s, o = some s ∧ Retuned s t := by
  subst ht
  cases h with
  | some hr => exact ⟨_, rfl, hr⟩

theorem retuned_none {o o'} (h : Option.Rel Retuned o o') (ho : o' = none) : o = none := by
  subst ho
  cases h with
  | none => rfl

/-! ## What never changes and what never comes back -/

variable {early : Prop} {e e' : Endpoint}

theorem Step.isServer (h : Step early e e') : e'.isServer = e.isServer := by
  cases h <;> rfl

theorem Steps.isServer (h : Steps early e e') : e'.isServer = e.isServer :=
  h.keeps (I := fun x => x.isServer = e.isServer) (fun _ _ hx hs => hs.isServer.trans hx) rfl

theorem Step.live (h : Step early e e') (hne : e'.state ≠ .closed) : e.state ≠ .closed := by
  cases h with
  | goawayReceived hst => simp [hst]
  | preface _ hst => simp [hst]
  | graceful _ hst => exact hst
  | fatal | fatalSettings => exact absurd rfl hne
  | _ => exact hne

theorem Steps.not_prefacePending (h : Steps early e e') (he : e.state ≠ .prefacePending) :
    e'.state ≠ .prefacePending := by
  refine h.keeps (I := fun x => x.state ≠ .prefacePending) ?_ he
  intro x y hx hs
  cases hs with
  | graceful =>
    intro hy
    simp only [Endpoint.log] at hy
    split at hy
    · cases hy
    · exact hx hy
  | _ => first | exact hx | (intro hy; cases hy)

theorem Step.trace_prefix (h : Step early e e') : e.trace <+: e'.trace := by
  cases h with
  | receive | control | fatal | fatalSettings | graceful | stream | pump | openServer | openClient
  | finish => exact List.prefix_append _ _
  | _ => exact List.prefix_rfl

theorem Steps.trace_prefix (h : Steps early e e') : e.trace <+: e'.trace :=
  h.keeps (I := fun x => e.trace <+: x.trace) (fun _ _ hx hs => hx.trans hs.trace_prefix)
    List.prefix_rfl

theorem Endpoint.RefusesData.step (h : e.RefusesData) (hs : Step early e e') : e'.RefusesData := by
  cases hs with
  | receive =>
    intro g hg hrefused
    cases hg
    cases hrefused
  | done | grant | settings => exact fun _ hg => by cases hg
  | stream s s' es hand _ ht =>
    cases ht with
    | spoil hf =>
      intro g hg _
      cases hg
      exact hf.2.1
    | grant | requestData | responseData => exact fun _ hg => by cases hg
    | _ => exact h
  | _ => exact h

theorem Endpoint.RefusesData.not_spoiled (h : e.RefusesData) {id} (hf : e.Free id) :
    ¬ e.Spoiled id := by
  rintro ⟨g, hg, hrefused, hid⟩
  exact hf g hg (h g hg hrefused) hid

/-- What holds of every stream: its id was used; its request completes when
nothing more can be received; and its window, which SETTINGS can push below zero
by what was sent under the old initial value. -/
structure StreamSound (e : Endpoint) (s : Http2Stream) : Prop where
  le_last : s.id ≤ e.lastStreamId
  complete : s.requestComplete → s.state.canReceive = false
  window : WindowRange s.sendWindow
  recv : RecvRange s.recvWindow
  low : e.state ≠ .closed → (e.initialWindow : Int) - kMaxWindow ≤ s.sendWindow

structure Sound (e : Endpoint) : Prop where
  stream : ∀ {id s}, e.streams id = some s → s.id = id ∧ StreamSound e s
  initial : e.state ≠ .closed → (e.initialWindow : Int) ≤ kMaxWindow
  maxFrame : e.state ≠ .closed → kLocalMaxFrameSize ≤ e.maxFrame
  recv : RecvRange e.recvWindow

theorem Sound.same (h : Sound e) (hr : RecvRange e'.recvWindow) (hs : e'.streams = e.streams)
    (hi : e'.initialWindow = e.initialWindow) (hm : e'.maxFrame = e.maxFrame)
    (hl : e.lastStreamId ≤ e'.lastStreamId) (hc : e'.state ≠ .closed → e.state ≠ .closed) :
    Sound e' := by
  refine ⟨?_, ?_, ?_, hr⟩
  · intro id s hid
    obtain ⟨heq, hss⟩ := h.stream (hs ▸ hid)
    exact ⟨heq, Nat.le_trans hss.le_last hl, hss.complete, hss.window, hss.recv,
      fun hne => hi ▸ hss.low (hc hne)⟩
  · exact fun hne => hi ▸ h.initial (hc hne)
  · exact fun hne => hm ▸ h.maxFrame (hc hne)

theorem Sound.put (h : Sound e) {s : Http2Stream} (hs : StreamSound e s) : Sound (e.put s) := by
  refine ⟨?_, h.initial, h.maxFrame, h.recv⟩
  intro id t ht
  rcases Endpoint.put_eq_some ht with ⟨rfl, rfl⟩ | ⟨-, ht⟩
  · exact ⟨rfl, hs.le_last, hs.complete, hs.window, hs.recv, hs.low⟩
  · obtain ⟨heq, hss⟩ := h.stream ht
    exact ⟨heq, hss.le_last, hss.complete, hss.window, hss.recv, hss.low⟩

theorem Sound.remove (h : Sound e) (id : Nat) : Sound (e.remove id) := by
  refine ⟨?_, h.initial, h.maxFrame, h.recv⟩
  intro i t ht
  obtain ⟨heq, hss⟩ := h.stream (Endpoint.remove_eq_some ht).2
  exact ⟨heq, hss.le_last, hss.complete, hss.window, hss.recv, hss.low⟩

theorem canReceive_dataSent (st : StreamState) : st.dataSent.canReceive = st.canReceive := by
  cases st <;> rfl

theorem canReceive_headersSent {st : StreamState} (h : st.canSend) (b : Bool) :
    (st.headersSent b).canReceive = st.canReceive := by
  cases st <;> cases b <;> first | rfl | cases h

theorem pumped_id (s : Http2Stream) (n : Nat) (b : Bool) : (s.pumped n b).id = s.id := by
  simp only [Http2Stream.pumped]
  split <;> rfl

theorem pumped_complete (s : Http2Stream) (n : Nat) (b : Bool) :
    (s.pumped n b).requestComplete = s.requestComplete ∧
      (s.pumped n b).state.canReceive = s.state.canReceive := by
  simp only [Http2Stream.pumped]
  split
  · exact ⟨rfl, canReceive_dataSent _⟩
  · exact ⟨rfl, rfl⟩

variable {s s' : Http2Stream} {es : List Event} {hand : Option Held}

section
variable (h : Transition e s s' es hand)
include h

theorem Transition.id_eq : s'.id = s.id := by
  cases h with
  | respond => split <;> rfl
  | _ => rfl

theorem Transition.complete
    (hs : s.requestComplete → s.state.canReceive = false)
    (hc : s'.requestComplete) : s'.state.canReceive = false := by
  -- where the stream may still receive, its request is not complete
  have hopen : s.state.canReceive → ¬ s.requestComplete :=
    fun h1 h2 => absurd (hs h2) (by simp [h1])
  cases h with
  | respond _ _ hsend =>
    split at hc <;> rename_i hb
    · simpa only [hb, if_true, canReceive_headersSent hsend] using hs hc
    · simpa only [hb, if_false, Bool.false_eq_true, canReceive_headersSent hsend] using hs hc
  | requestData _ _ hr => exact absurd hc (hopen hr)
  | requestTrailers _ hr => exact absurd hc (hopen hr)
  | request _ _ _ hr => exact hr
  | final _ hr => exact absurd hc (hopen hr)
  | responseData _ _ hr => exact absurd hc (hopen hr)
  | responseTrailers _ hr => exact absurd hc (hopen hr)
  | _ => exact hs hc

theorem Transition.window :
    s.sendWindow ≤ s'.sendWindow ∧ (s.sendWindow ≤ kMaxWindow → s'.sendWindow ≤ kMaxWindow) := by
  cases h with
  | grant _ _ _ hmax => exact ⟨by simp only; omega, fun _ => hmax⟩
  | respond => split <;> exact ⟨Int.le_refl _, id⟩
  | _ => exact ⟨Int.le_refl _, id⟩

theorem Transition.recv (hs : RecvRange s.recvWindow) :
    RecvRange s'.recvWindow := by
  cases h with
  | refill => exact recvRange_full
  | spoil _ hr => exact hr
  | requestData _ _ _ hr => exact hr
  | responseData _ _ _ _ hr => exact hr
  | respond => split <;> exact hs
  | _ => exact hs

theorem Transition.sound (hs : StreamSound e s) :
    StreamSound e s' := by
  obtain ⟨hle, hmax⟩ := h.window
  refine ⟨by rw [h.id_eq]; exact hs.le_last, h.complete hs.complete, ?_, h.recv hs.recv, ?_⟩
  · exact ⟨Int.le_trans hs.window.1 hle, hmax hs.window.2⟩
  · exact fun hne => Int.le_trans (hs.low hne) hle

end

theorem pumped_sound {n : Nat} {b : Bool} (hs : StreamSound e s)
    (hi : e.state ≠ .closed → (e.initialWindow : Int) ≤ kMaxWindow) (hn : (n : Int) ≤ s.sendWindow) :
    StreamSound e (s.pumped n b) := by
  obtain ⟨hc, hr⟩ := pumped_complete s n b
  have hw : (s.pumped n b).sendWindow = s.sendWindow - n ∧
      (s.pumped n b).recvWindow = s.recvWindow := by
    simp only [Http2Stream.pumped]
    split <;> exact ⟨rfl, rfl⟩
  refine ⟨by rw [pumped_id]; exact hs.le_last, by rw [hc, hr]; exact hs.complete, ?_,
    by rw [hw.2]; exact hs.recv, ?_⟩
  · rw [hw.1]
    obtain ⟨hlow, hhigh⟩ := hs.window
    simp only [kMaxWindow] at hlow hhigh
    constructor <;> simp only [kMaxWindow] <;> omega
  intro hne
  have := hi hne
  rw [hw.1]
  omega

theorem Sound.opened (h : Sound e) {id} (hact : e.state = .active) (hlt : e.lastStreamId < id)
    (hid : s.id = id) (hw : s.sendWindow = e.initialWindow) (hr : s.recvWindow = kLocalWindow)
    (hc : s.requestComplete = false) : Sound ({ e with lastStreamId := id }.put s) := by
  have hne : e.state ≠ .closed := by simp [hact]
  have hi := h.initial hne
  have hseen : Sound { e with lastStreamId := id } :=
    h.same h.recv rfl rfl rfl (Nat.le_of_lt hlt) fun _ => hne
  refine hseen.put ⟨Nat.le_of_eq hid, ?_, ?_, ?_, ?_⟩
  · simp [hc]
  · rw [hw]
    simp only [kMaxWindow] at hi
    constructor <;> simp only [kMaxWindow] <;> omega
  · rw [hr]
    exact recvRange_full
  · intro _
    simp only [hw, kMaxWindow]
    omega

theorem Sound.step (h : Sound e) (hs : Step early e e') : Sound e' := by
  cases hs with
  | window r hr => exact h.same hr rfl rfl rfl (Nat.le_refl _) id
  | receive | done | control | graceful | grant =>
    refine h.same h.recv rfl rfl rfl (Nat.le_refl _) ?_
    first
      | exact id
      | exact fun _ => ‹_›
  | goawayReceived ha => exact h.same h.recv rfl rfl rfl (Nat.le_refl _) fun _ => by simp [ha]
  | preface _ hp => exact h.same h.recv rfl rfl rfl (Nat.le_refl _) fun _ => by simp [hp]
  | fatal => exact h.same h.recv rfl rfl rfl (Nat.le_refl _) fun hc => absurd rfl hc
  | fatalSettings streams i m error hne hsame =>
    refine ⟨?_, fun hc => absurd rfl hc, fun hc => absurd rfl hc, h.recv⟩
    intro id t ht
    obtain ⟨s', hs', heq, hrange⟩ := retuned_some (hsame id) ht
    obtain ⟨hid, hss⟩ := h.stream hs'
    rw [heq]
    exact ⟨hid, hss.le_last, hss.complete, hrange, hss.recv, fun hc => absurd rfl hc⟩
  | seen id _ hlt => exact h.same h.recv rfl rfl rfl (Nat.le_of_lt hlt) fun hc => hc
  | settings f i m streams _ hne _ _ _ _ hi hm hstreams hmax =>
    refine ⟨?_, fun _ => hi, ?_, h.recv⟩
    · intro id t ht
      have hle := hmax id t ht
      obtain ⟨s, hs, rfl⟩ := Option.map_eq_some_iff.mp ((hstreams id).symm.trans ht)
      obtain ⟨hid, hss⟩ := h.stream hs
      -- the window and the initial value move together
      have hlow : (i : Int) - kMaxWindow ≤ (shift (i - e.initialWindow) s).sendWindow := by
        have := hss.low hne
        simp only [shift]
        omega
      exact ⟨hid, hss.le_last, hss.complete, ⟨by omega, hle⟩, hss.recv, fun _ => hlow⟩
    intro hne
    rcases hm with rfl | hm
    · exact h.maxFrame hne
    · exact hm
  | stream s s' es hand hs ht =>
    have hput := h.put (ht.sound (h.stream hs).2)
    exact hput.same h.recv rfl rfl rfl (Nat.le_refl _) id
  | pump s n hs _ _ _ _ _ _ hn =>
    have hput := h.put (pumped_sound (b := e.isServer) (h.stream hs).2 h.initial hn)
    exact hput.same h.recv rfl rfl rfl (Nat.le_refl _) id
  | openServer id endStream fields facts _ hact hlt =>
    exact (h.opened hact hlt (s := serverStream id e.initialWindow endStream fields facts) rfl
      rfl rfl rfl).same h.recv rfl rfl rfl (Nat.le_refl _) fun hc => hc
  | openClient id fields facts body fs _ hact hlt =>
    exact (h.opened hact hlt (s := clientStream id e.initialWindow body facts.isHead) rfl
      rfl rfl rfl).same h.recv rfl rfl rfl (Nat.le_refl _) fun hc => hc
  | close s => exact h.remove s.id
  | finish s ev => exact (h.remove s.id).same h.recv rfl rfl rfl (Nat.le_refl _) id

theorem Sound.steps (h : Sound e) (hs : Steps early e e') : Sound e' :=
  hs.keeps (fun _ _ => Sound.step) h

end BoltApi.Http2.Protocol
