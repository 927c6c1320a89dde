import BoltApi.Lib.History
import BoltApi.Quic.Extents
import BoltApi.Quic.Recovery
import Mathlib.Order.Nat

/-! # Control frames

`flush_app_control` of `quic/connection.h` frames what its flags and queues call for and
clears them; `requeue_lost_control` sets them again when a packet is lost. Streams are
kept as long as they receive, and the blocked frames that are due are an input. -/
namespace BoltApi.Quic
open Lib.History List Function

def kMaxPayloadSize : Nat := 1400
def kConnFlowChunk : Nat := 65536
/-- The receive window of a new stream, and of the connection. -/
def kStreamRecvWindow : Nat := kStreamBufferSize
def kConnRecvWindow : Nat := 2 ^ 20

def varintSize (v : Nat) : Nat :=
  if v < 2 ^ 6 then 1 else if v < 2 ^ 14 then 2 else if v < 2 ^ 30 then 4 else 8

def ControlFrame.size : ControlFrame → Nat
  | .handshakeDone => 1
  | .maxData v | .dataBlocked v | .maxStreams _ v => 1 + varintSize v
  | .maxStreamData id v | .streamDataBlocked id v => 1 + varintSize id + varintSize v
  | .resetStream id err n => 1 + varintSize id + varintSize err + varintSize n

def ControlFrame.isReset : ControlFrame → Bool
  | .resetStream _ _ _ => true
  | _ => false

def framedBytes (out : List ControlFrame) : Nat := (out.map ControlFrame.size).sum

def room (out : List ControlFrame) (need : Nat) : Bool := framedBytes out + need ≤ kMaxPayloadSize

structure Window where
  id : Nat
  recvMax : Nat := kStreamRecvWindow
  dirty : Bool := false

structure Control where
  server : Bool
  tlsComplete : Bool := false
  handshakeDoneSent : Bool := false
  connRecvMax : Nat := kConnRecvWindow
  connWindowDirty : Bool := false
  windows : List Window := []
  streamWindowDirty : Bool := false
  granted : Bool → Nat
  limit : Bool → Nat := granted
  sentLimit : Bool → Nat := granted
  resets : List (Nat × Nat × Nat) := []
  everReset : List (Nat × Nat × Nat) := []

namespace Control

def reset (r : Nat × Nat × Nat) : ControlFrame := .resetStream r.1 r.2.1 r.2.2

variable (c : Control) (out : List ControlFrame)

def frameHandshakeDone : Control × List ControlFrame :=
  if c.server && c.tlsComplete && !c.handshakeDoneSent then
    ({ c with handshakeDoneSent := true }, out ++ [.handshakeDone])
  else (c, out)

def frameMaxData : Control × List ControlFrame :=
  if c.connWindowDirty && room out 9 then
    ({ c with connWindowDirty := false }, out ++ [.maxData c.connRecvMax])
  else (c, out)

def frameWindows : List Window → List ControlFrame → List Window × List ControlFrame × Bool
  | [], out => ([], out, false)
  | w :: ws, out =>
    if w.dirty then
      if room out 18 then
        let r := frameWindows ws (out ++ [.maxStreamData w.id w.recvMax])
        ({ w with dirty := false } :: r.1, r.2)
      else (w :: ws, out, true)
    else
      let r := frameWindows ws out
      (w :: r.1, r.2)

def frameStreamData : Control × List ControlFrame :=
  if c.streamWindowDirty then
    let r := frameWindows c.windows out
    ({ c with windows := r.1, streamWindowDirty := r.2.2 }, r.2.1)
  else (c, out)

def frameBlocked (conn : Option Nat) (streams : List (Nat × Nat)) (c : Control)
    (out : List ControlFrame) : Control × List ControlFrame :=
  let out := match conn with
    | some v => if room out 9 then out ++ [.dataBlocked v] else out
    | none => out
  (c, streams.foldl (fun out s => if room out 18 then out ++ [.streamDataBlocked s.1 s.2] else out) out)

def frameCredit (uni : Bool) (c : Control) (out : List ControlFrame) : Control × List ControlFrame :=
  if c.sentLimit uni < c.limit uni && room out 9 then
    ({ c with sentLimit := update c.sentLimit uni (c.limit uni) },
      out ++ [.maxStreams uni (c.limit uni)])
  else (c, out)

def frameResetLoop : List (Nat × Nat × Nat) → List ControlFrame →
    List (Nat × Nat × Nat) × List ControlFrame
  | [], out => ([], out)
  | r :: rs, out => if room out 25 then frameResetLoop rs (out ++ [reset r]) else (r :: rs, out)

def frameResets : Control × List ControlFrame :=
  let r := frameResetLoop c.resets out
  ({ c with resets := r.1 }, r.2)

def frames (conn : Option Nat) (streams : List (Nat × Nat)) (c : Control) :
    Control × List ControlFrame :=
  let (c, out) := c.frameHandshakeDone []
  let (c, out) := c.frameMaxData out
  let (c, out) := c.frameStreamData out
  let (c, out) := c.frameBlocked conn streams out
  let (c, out) := c.frameCredit false out
  let (c, out) := c.frameCredit true out
  c.frameResets out

def isFlow : ControlFrame → Bool
  | .maxData _ | .maxStreamData _ _ | .dataBlocked _ | .streamDataBlocked _ _ => true
  | _ => false

def isStreams : ControlFrame → Bool
  | .maxStreams _ _ | .resetStream _ _ _ => true
  | _ => false

/-- `requeue_lost_control`, by the frames that the flags stand for. -/
def requeueLost (lost : List ControlFrame) : Control :=
  let flow := lost.any isFlow
  let streams := lost.any isStreams
  { c with
    handshakeDoneSent := c.handshakeDoneSent && !lost.contains .handshakeDone
    connWindowDirty := c.connWindowDirty || flow
    streamWindowDirty := c.streamWindowDirty || flow
    windows := if flow then c.windows.map fun w => { w with dirty := true } else c.windows
    sentLimit := if streams then fun _ => 0 else c.sentLimit }

/-! ## Obligations -/

/-- What the peer has to be told: the end of the handshake, the limits that were raised
above the transport parameters, and each reset. -/
def Owed : ControlFrame → Prop
  | .handshakeDone => c.server = true ∧ c.tlsComplete = true
  | .maxData v => v = c.connRecvMax ∧ kConnRecvWindow < v
  | .maxStreamData id v => kStreamRecvWindow < v ∧ ∃ w ∈ c.windows, w.id = id ∧ w.recvMax = v
  | .maxStreams uni v => v = c.limit uni ∧ c.granted uni < v
  | .resetStream id err n => (id, err, n) ∈ c.everReset
  | _ => False

def Pending : ControlFrame → Prop
  | .handshakeDone => c.server = true ∧ c.tlsComplete ∧ c.handshakeDoneSent = false
  | .maxData v => c.connWindowDirty = true ∧ v = c.connRecvMax
  | .maxStreamData id v =>
    c.streamWindowDirty = true ∧ ∃ w ∈ c.windows, w.id = id ∧ w.recvMax = v ∧ w.dirty = true
  | .maxStreams uni v => c.sentLimit uni < c.limit uni ∧ v = c.limit uni
  | .resetStream id err n => (id, err, n) ∈ c.resets
  | _ => False

instance (c : Control) (f : ControlFrame) : Decidable (c.Owed f) := by
  cases f <;> unfold Owed <;> infer_instance

instance (c : Control) (f : ControlFrame) : Decidable (c.Pending f) := by
  cases f <;> unfold Pending <;> infer_instance

/-- Nothing is taken as sent that was not due. -/
structure Ready (c : Control) : Prop where
  credit : ∀ uni, c.sentLimit uni ≤ c.limit uni
  done : c.handshakeDoneSent → c.tlsComplete

/-! ## Framing -/

structure Frames (c : Control) (out : List ControlFrame) (r : Control × List ControlFrame) :
    Prop where
  grows : out ⊆ r.2
  pending : ∀ f, c.Pending f → r.1.Pending f ∨ f ∈ r.2
  owed : ∀ f, r.1.Owed f → c.Owed f
  fits : framedBytes out ≤ kMaxPayloadSize → framedBytes r.2 ≤ kMaxPayloadSize
  ready : c.Ready → r.1.Ready

theorem Frames.refl (c : Control) (out : List ControlFrame) : Frames c out (c, out) :=
  ⟨fun _ => id, fun _ h => .inl h, fun _ h => h, id, id⟩

theorem Frames.trans {c out r r'} (h : Frames c out r) (h' : Frames r.1 r.2 r') :
    Frames c out r' where
  grows := List.Subset.trans h.grows h'.grows
  pending f hf := (h.pending f hf).elim (h'.pending f) fun hout => .inr (h'.grows hout)
  owed f hf := h.owed f (h'.owed f hf)
  fits hout := h'.fits (h.fits hout)
  ready hc := h'.ready (h.ready hc)

theorem varintSize_le (v : Nat) : varintSize v ≤ 8 := by
  unfold varintSize
  split_ifs <;> decide

theorem framedBytes_snoc {out f need} (hroom : room out need) (hsize : f.size ≤ need) :
    framedBytes (out ++ [f]) ≤ kMaxPayloadSize := by
  have hle : framedBytes out + need ≤ kMaxPayloadSize := of_decide_eq_true hroom
  have hsum : framedBytes (out ++ [f]) = framedBytes out + f.size := by simp [framedBytes]
  omega

theorem Frames.emit {c : Control} {c' : Control} {out f need} (hroom : room out need) (hsize : f.size ≤ need)
    (hpending : ∀ g, c.Pending g → c'.Pending g ∨ g = f) (howed : ∀ g, c'.Owed g → c.Owed g)
    (hready : c.Ready → c'.Ready) : Frames c out (c', out ++ [f]) := by
  refine ⟨subset_append_left _ _, fun g hg => (hpending g hg).imp_right fun h => ?_, howed,
    fun _ => framedBytes_snoc hroom hsize, hready⟩
  exact mem_append_right _ (mem_singleton.mpr h)

theorem frames_handshakeDone : Frames c [] (c.frameHandshakeDone []) := by
  unfold frameHandshakeDone
  split
  · rename_i h
    simp only [Bool.and_eq_true] at h
    refine @Frames.emit c _ [] .handshakeDone 1 (by decide) le_rfl (fun g hg => ?_) (fun g hg => hg)
      fun hc => ⟨hc.credit, fun _ => h.1.2⟩
    cases g <;> first | exact .inr rfl | exact .inl hg
  · exact .refl c []

theorem frames_maxData : Frames c out (c.frameMaxData out) := by
  unfold frameMaxData
  split
  · rename_i h
    have hle := varintSize_le c.connRecvMax
    refine Frames.emit (Bool.and_eq_true_iff.mp h).2 (by simp only [ControlFrame.size]; omega)
      (fun g hg => ?_) (fun g hg => hg) fun hc => ⟨hc.credit, hc.done⟩
    cases g with
    | maxData v => exact .inr (by rw [hg.2])
    | _ => exact .inl hg
  · exact .refl c out

theorem frames_credit (uni : Bool) (c : Control) (out : List ControlFrame) :
    Frames c out (c.frameCredit uni out) := by
  unfold frameCredit
  split
  · rename_i h
    have hle := varintSize_le (c.limit uni)
    refine Frames.emit (Bool.and_eq_true_iff.mp h).2 (by simp only [ControlFrame.size]; omega)
      (fun g hg => ?_) (fun g hg => hg) fun hc => ⟨fun other => ?_, hc.done⟩
    · cases g with
      | maxStreams other v =>
        by_cases heq : other = uni
        · exact .inr (by rw [hg.2, heq])
        · exact .inl (by simpa [Pending, update_of_ne heq] using hg)
      | _ => exact .inl hg
    · by_cases heq : other = uni
      · simp [heq]
      · simpa [update_of_ne heq] using hc.credit other
  · exact .refl c out

theorem frameWindows_spec (ws : List Window) (out : List ControlFrame) :
    out ⊆ (frameWindows ws out).2.1 ∧
      (∀ w ∈ ws, w.dirty → ((frameWindows ws out).2.2 ∧ w ∈ (frameWindows ws out).1) ∨
        .maxStreamData w.id w.recvMax ∈ (frameWindows ws out).2.1) ∧
      (∀ w ∈ (frameWindows ws out).1, ∃ v ∈ ws, v.id = w.id ∧ v.recvMax = w.recvMax) ∧
      (framedBytes out ≤ kMaxPayloadSize →
        framedBytes (frameWindows ws out).2.1 ≤ kMaxPayloadSize) := by
  induction ws generalizing out with
  | nil => exact ⟨fun _ => id, by simp, by simp [frameWindows], id⟩
  | cons w ws ih =>
    unfold frameWindows
    split
    · split
      · have hsize : (ControlFrame.maxStreamData w.id w.recvMax).size ≤ 18 := by
          have hid := varintSize_le w.id
          have hmax := varintSize_le w.recvMax
          simp only [ControlFrame.size]
          omega
        obtain ⟨hgrow, hdirty, hold, hfits⟩ := ih (out ++ [.maxStreamData w.id w.recvMax])
        refine ⟨fun f hf => hgrow (mem_append_left _ hf), fun v hv hd => ?_, fun v hv => ?_,
          fun _ => hfits (framedBytes_snoc ‹_› hsize)⟩
        · rcases mem_cons.mp hv with rfl | hv
          · exact .inr (hgrow (mem_append_right _ mem_cons_self))
          · exact (hdirty v hv hd).imp_left fun h => ⟨h.1, mem_cons_of_mem _ h.2⟩
        · rcases mem_cons.mp hv with rfl | hv
          · exact ⟨w, mem_cons_self, rfl, rfl⟩
          · exact (hold v hv).imp fun u hu => ⟨mem_cons_of_mem _ hu.1, hu.2⟩
      · exact ⟨fun _ => id, fun v hv _ => .inl ⟨rfl, hv⟩, fun v hv => ⟨v, hv, rfl, rfl⟩, id⟩
    next hclean =>
    obtain ⟨hgrow, hdirty, hold, hfits⟩ := ih out
    refine ⟨hgrow, fun v hv hd => ?_, fun v hv => ?_, hfits⟩
    · rcases mem_cons.mp hv with rfl | hv
      · exact absurd hd hclean
      · exact (hdirty v hv hd).imp_left fun h => ⟨h.1, mem_cons_of_mem _ h.2⟩
    · rcases mem_cons.mp hv with rfl | hv
      · exact ⟨_, mem_cons_self, rfl, rfl⟩
      · exact (hold v hv).imp fun u hu => ⟨mem_cons_of_mem _ hu.1, hu.2⟩

theorem frames_streamData : Frames c out (c.frameStreamData out) := by
  unfold frameStreamData
  split
  · obtain ⟨hgrow, hdirty, hold, hfits⟩ := frameWindows_spec c.windows out
    refine ⟨hgrow, fun g hg => ?_, fun g hg => ?_, hfits, fun hc => ⟨hc.credit, hc.done⟩⟩
    · cases g with
      | maxStreamData id v =>
        obtain ⟨-, w, hw, rfl, rfl, hd⟩ := hg
        exact (hdirty w hw hd).imp_left fun h => ⟨h.1, w, h.2, rfl, rfl, hd⟩
      | _ => exact .inl hg
    cases g with
    | maxStreamData id v =>
      obtain ⟨hlt, w, hw, rfl, rfl⟩ := hg
      obtain ⟨u, hu, heq⟩ := hold w hw
      exact ⟨hlt, u, hu, heq⟩
    | _ => exact hg
  · exact .refl c out

theorem frames_blocked (conn : Option Nat) (streams : List (Nat × Nat)) (c : Control)
    (out : List ControlFrame) : Frames c out (c.frameBlocked conn streams out) := by
  have hloop : ∀ out, Frames c out (c, streams.foldl (fun out s =>
      if room out 18 then out ++ [.streamDataBlocked s.1 s.2] else out) out) := by
    induction streams with
    | nil => exact .refl c
    | cons s streams ih =>
      intro out
      refine Frames.trans (r := (c, if room out 18 then out ++ [.streamDataBlocked s.1 s.2] else out))
        ?_ (ih _)
      split
      · have h1 := varintSize_le s.1
        have h2 := varintSize_le s.2
        exact Frames.emit ‹_› (by simp only [ControlFrame.size]; omega) (fun _ h => .inl h)
          (fun _ h => h) id
      · exact .refl c out
  refine Frames.trans (r := (c, _)) ?_ (hloop _)
  cases conn with
  | none => exact .refl c out
  | some v =>
    dsimp only
    split
    · have hle := varintSize_le v
      exact Frames.emit ‹_› (by simp only [ControlFrame.size]; omega) (fun _ h => .inl h)
        (fun _ h => h) id
    · exact .refl c out

theorem frames_resets : Frames c out (c.frameResets out) := by
  have hloop : ∀ (rs : List (Nat × Nat × Nat)) (out : List ControlFrame),
      Frames { c with resets := rs } out
        ({ c with resets := (frameResetLoop rs out).1 }, (frameResetLoop rs out).2) := by
    intro rs
    induction rs with
    | nil => exact fun out => .refl _ out
    | cons r rs ih =>
      intro out
      unfold frameResetLoop
      split
      · have h1 := varintSize_le r.1
        have h2 := varintSize_le r.2.1
        have h3 := varintSize_le r.2.2
        refine Frames.trans (r := ({ c with resets := rs }, out ++ [reset r]))
          (Frames.emit ‹_› (by simp only [ControlFrame.size, reset]; omega) (fun g hg => ?_)
            (fun g hg => hg) fun hc => ⟨hc.credit, hc.done⟩) (ih _)
        cases g with
        | resetStream id err n =>
          rcases mem_cons.mp hg with rfl | hg
          · exact .inr rfl
          · exact .inl hg
        | _ => exact .inl hg
      · exact .refl _ out
  exact hloop c.resets out

theorem frames_spec (conn : Option Nat) (streams : List (Nat × Nat)) (c : Control) :
    Frames c [] (c.frames conn streams) :=
  (((((c.frames_handshakeDone.trans (frames_maxData _ _)).trans (frames_streamData _ _)).trans
    (frames_blocked conn streams _ _)).trans (frames_credit false _ _)).trans
    (frames_credit true _ _)).trans (frames_resets _ _)

/-! ## Losses -/

theorem requeueLost_owed {c : Control} {lost : List ControlFrame} {f : ControlFrame} :
    (c.requeueLost lost).Owed f ↔ c.Owed f := by
  cases f with
  | maxStreamData id v =>
    simp only [Owed, requeueLost]
    split <;> simp
  | _ => exact Iff.rfl

theorem Pending.requeueLost {c : Control} {f : ControlFrame} (h : c.Pending f)
    (lost : List ControlFrame) : (c.requeueLost lost).Pending f := by
  cases f with
  | handshakeDone => exact ⟨h.1, h.2.1, by simp [Control.requeueLost, h.2.2]⟩
  | maxData v => exact ⟨by simp [Control.requeueLost, h.1], h.2⟩
  | maxStreamData id v =>
    obtain ⟨hflag, w, hw, hid, hmax, hd⟩ := h
    refine ⟨by simp [Control.requeueLost, hflag], ?_⟩
    simp only [Control.requeueLost]
    split
    · exact ⟨_, mem_map_of_mem hw, hid, hmax, rfl⟩
    · exact ⟨w, hw, hid, hmax, hd⟩
  | maxStreams uni v =>
    refine ⟨?_, h.2⟩
    simp only [Control.requeueLost]
    split
    · exact Nat.zero_lt_of_lt h.1
    · exact h.1
  | _ => exact h

theorem pending_requeueLost {c : Control} {lost : List ControlFrame} {f : ControlFrame}
    (hf : f ∈ lost) (howed : c.Owed f) (hreset : f.isReset = false) :
    (c.requeueLost lost).Pending f := by
  cases f with
  | handshakeDone => exact ⟨howed.1, howed.2, by simp [Control.requeueLost, hf]⟩
  | maxData v =>
    exact ⟨by simp only [Control.requeueLost, Bool.or_eq_true, any_eq_true]; exact .inr ⟨_, hf, rfl⟩,
      howed.1⟩
  | maxStreamData id v =>
    obtain ⟨-, w, hw, hid, hmax⟩ := howed
    have hflow : lost.any isFlow := any_eq_true.mpr ⟨_, hf, rfl⟩
    refine ⟨by simp [Control.requeueLost, hflow], ?_⟩
    simp only [Control.requeueLost, hflow, if_true]
    exact ⟨_, mem_map_of_mem hw, hid, hmax, rfl⟩
  | maxStreams uni v =>
    have hstreams : lost.any isStreams := any_eq_true.mpr ⟨_, hf, rfl⟩
    refine ⟨?_, howed.1⟩
    simp only [Control.requeueLost, hstreams, if_true]
    exact howed.1 ▸ Nat.zero_lt_of_lt howed.2
  | resetStream id err n => cases hreset
  | _ => exact howed.elim

end Control

/-! ## Connections -/

/-- The control frames of a connection over its sent packets, with those that were
acknowledged. -/
structure Issuing where
  control : Control
  recovery : Recovery := {}
  acked : List ControlFrame := []

namespace Issuing

inductive Act where
  | completeTls
  | growConn
  | growStream (id readCursor : Nat)
  | open (id : Nat)
  | finish (id : Nat)
  | raise (uni : Bool) (limit : Nat)
  | reset (id err finalSize : Nat)
  | flush (now wire : Nat) (conn : Option Nat) (streams : List (Nat × Nat)) (ack : Bool)
  | transport (ev : Recovery.Event)

def settle (s : Issuing) : Issuing where
  control := s.recovery.requeued.foldl Control.requeueLost s.control
  recovery := { s.recovery with requeued := [] }
  acked := s.acked ++
    ((s.recovery.sent .application).filter SentPacket.acked).flatMap SentPacket.carried

def small (id readCursor : Nat) (w : Window) : Bool :=
  w.id = id ∧ w.recvMax - readCursor < kConnFlowChunk / 2

def change (c : Control) : Act → Control
  | .completeTls => { c with tlsComplete := true }
  | .growConn => { c with connRecvMax := c.connRecvMax + kConnFlowChunk, connWindowDirty := true }
  | .growStream id readCursor =>
    { c with
      windows := c.windows.map fun w =>
        if small id readCursor w then
          -- `grow_recv_window`
          { w with recvMax := max (readCursor + min kConnFlowChunk kStreamBufferSize) w.recvMax, dirty := true }
        else w
      streamWindowDirty := c.streamWindowDirty || c.windows.any (small id readCursor) }
  | .open id => { c with windows := c.windows ++ [{ id }] }
  | .finish id => { c with windows := c.windows.filter fun w => w.id != id }
  | .raise uni limit => { c with limit := update c.limit uni (max (c.limit uni) limit) }
  | .reset id err n =>
    { c with
      resets := if c.resets.length < kMaxStreams then c.resets ++ [(id, err, n)] else c.resets
      everReset := c.everReset ++ [(id, err, n)] }
  | _ => c

def step (s : Issuing) : Act → Issuing
  | .flush now wire conn streams ack =>
    let r := s.control.frames conn streams
    if r.2.isEmpty && !ack then { s with control := r.1 }
    else settle
      { s with
        control := r.1
        recovery := s.recovery.send .application now wire (!r.2.isEmpty) r.2 }
  | .transport ev => settle { s with recovery := s.recovery.step ev }
  | a => { s with control := change s.control a }

def run (server : Bool) (granted : Bool → Nat) (acts : List Act) : Issuing :=
  acts.foldl step { control := { server, granted } }

def Carried (s : Issuing) (f : ControlFrame) : Prop :=
  ∃ p ∈ s.recovery.sent .application, p.unresolved ∧ f ∈ p.carried

def Kept (s : Issuing) (f : ControlFrame) : Prop :=
  s.control.Pending f ∨ s.Carried f ∨ f ∈ s.acked

def NoReset (r : Recovery) : Prop :=
  ∀ lost ∈ r.requeued, ∀ f ∈ lost, f.isReset = false

/-- The reset queue has room, a packet of control frames goes out, and no packet with a
RESET_STREAM frame is taken as lost. Control frames travel in no other packet, the
application space is not discarded, and a restart comes before its first packet. -/
def Meets (s : Issuing) : Act → Prop
  | .reset _ _ _ => s.control.resets.length < kMaxStreams
  | .flush now wire conn streams _ =>
    let out := (s.control.frames conn streams).2
    (wire ≠ 0 ∨ out = []) ∧ NoReset (s.recovery.send .application now wire (!out.isEmpty) out)
  | .transport ev =>
    NoReset (s.recovery.step ev) ∧
      match ev with
      | .send _ _ _ _ carried => carried = []
      | .discard sp => sp ≠ .application
      | .restart => s.recovery.sent .application = []
      | _ => True
  | _ => True

/-! ## Packets -/

def Tracked (r : Recovery) (f : ControlFrame) : Prop :=
  (∃ lost ∈ r.requeued, f ∈ lost) ∨
    ∃ p ∈ r.sent .application, (p.acked ∨ p.unresolved) ∧ f ∈ p.carried

variable {r : Recovery} {f : ControlFrame}

section
variable (h : Tracked r f)
include h

theorem Tracked.of_eq {r' : Recovery} (hsent : r'.sent .application = r.sent .application)
    (hlost : r.requeued ⊆ r'.requeued) : Tracked r' f := by
  rcases h with ⟨lost, hl, hf⟩ | ⟨p, hp, h⟩
  · exact .inl ⟨lost, hlost hl, hf⟩
  · exact .inr ⟨p, hsent ▸ hp, h⟩

theorem Tracked.loop {r' : Recovery} (sp : Space) (picks : SentPacket → Bool)
    (mark : SentPacket → SentPacket) (hmark : ∀ p, (mark p).carried = p.carried)
    (hsent : r'.sent = (r.resolve sp picks mark).sent) (hlost : r.requeued ⊆ r'.requeued)
    (hpick : ∀ p ∈ r.sent sp, picks p → (mark p).acked ∨ p.carried ∈ r'.requeued) :
    Tracked r' f := by
  rcases h with ⟨lost, hl, hf⟩ | ⟨p, hp, hlive, hf⟩
  · exact .inl ⟨lost, hlost hl, hf⟩
  by_cases hsp : sp = .application
  · subst hsp
    have hmem : (if picks p then mark p else p) ∈ r'.sent .application := by
      rw [hsent]
      simpa [Recovery.resolve] using ⟨p, hp, rfl⟩
    by_cases hpk : picks p = true
    · rw [if_pos hpk] at hmem
      rcases hpick p hp hpk with hack | hreq
      · exact .inr ⟨_, hmem, .inl hack, (hmark p).symm ▸ hf⟩
      · exact .inl ⟨_, hreq, hf⟩
    · rw [if_neg hpk] at hmem
      exact .inr ⟨p, hmem, hlive, hf⟩
  · refine .inr ⟨p, ?_, hlive, hf⟩
    rw [hsent]
    simpa [Recovery.resolve, update_of_ne (Ne.symm hsp)] using hp

theorem Tracked.acknowledged (sp : Space) (picks : SentPacket → Bool) :
    Tracked (r.resolve sp picks SentPacket.markAcked) f :=
  h.loop sp picks SentPacket.markAcked (fun _ => rfl) rfl (fun _ => id) fun _ _ _ => .inl rfl

theorem Tracked.lose (sp : Space) (picks : SentPacket → Bool) :
    Tracked (r.lose sp picks) f :=
  h.loop sp picks SentPacket.markLost (fun _ => rfl) rfl (subset_append_left _ _) fun _ hp hpk =>
    .inr (mem_append_right _ (mem_map_of_mem (mem_filter.mpr ⟨hp, hpk⟩)))

theorem Tracked.discardSpace (sp : Space) : Tracked (r.discardSpace sp) f := by
  unfold Recovery.discardSpace
  split
  · exact h
  · exact (h.acknowledged sp fun _ => true).of_eq rfl (fun _ => id)

theorem Tracked.handleAck (sp : Space) (a : AckFrame) (now : Nat) :
    Tracked (r.handleAck sp a now) f := by
  unfold Recovery.handleAck
  split
  · refine Tracked.lose ?_ sp _
    have hranges : ∀ (bounds : List (Nat × Nat)) (q : Recovery × Option Nat), Tracked q.1 f →
        Tracked (bounds.foldl (Recovery.ackRange sp a.largestAcked now) q).1 f := by
      intro bounds
      induction bounds with
      | nil => exact fun _ h => h
      | cons b bounds ih =>
        refine fun q hq => ih _ ?_
        have hnext := hq.acknowledged sp (Recovery.inRange b.1 b.2)
        unfold Recovery.ackRange
        split
        · exact hnext.of_eq rfl (fun _ => id)
        · exact hnext
    have hall := hranges a.bounds (r.raise sp a.largestAcked, none)
      (h.of_eq rfl (fun _ => id))
    unfold Recovery.beforeLoss Recovery.acknowledge
    generalize a.bounds.foldl _ _ = q at hall
    obtain ⟨q, sample⟩ := q
    dsimp only at hall ⊢
    split
    · split
      · exact hall.of_eq rfl (fun _ => id)
      · exact hall
    · exact hall
  · exact h

end

theorem tracked_send {p : SentPacket} (hp : p ∈ r.sent .application) (hun : p.unresolved)
    (hf : f ∈ p.carried) (sp : Space) (now wire : Nat) (eliciting : Bool)
    (carried : List ControlFrame) : Tracked (r.send sp now wire eliciting carried) f := by
  have hkept : Tracked r f := .inr ⟨p, hp, .inr hun, hf⟩
  unfold Recovery.send Recovery.recordSent
  split
  · exact hkept.of_eq rfl (subset_append_left _ _)
  have hev : Tracked ((r.advance sp).evict sp) f := by
    unfold Recovery.evict
    split
    · exact hkept
    rename_i old rest hold
    split
    · by_cases hsp : sp = .application
      · subst hsp
        change r.sent .application = old :: rest at hold
        rw [hold] at hp
        rcases mem_cons.mp hp with rfl | hp
        · exact .inl ⟨p.carried, by simp [hun], hf⟩
        · exact .inr ⟨p, by simpa using hp, .inr hun, hf⟩
      · refine .inr ⟨p, ?_, .inr hun, hf⟩
        simpa [Recovery.advance, update_of_ne (Ne.symm hsp)] using hp
    · exact hkept
  rcases hev with hlost | ⟨q, hq, hlive⟩
  · exact .inl hlost
  refine .inr ⟨q, ?_, hlive⟩
  by_cases hsp : sp = .application
  · subst hsp
    simpa [Recovery.track] using .inl hq
  · simpa [Recovery.track, update_of_ne (Ne.symm hsp)] using hq

/-! ## Runs -/

structure Sound (s : Issuing) : Prop where
  ready : s.control.Ready
  kept : ∀ f, s.control.Owed f → s.Kept f

theorem requeue_all (losses : List (List ControlFrame)) (c : Control) :
    (∀ f, (losses.foldl Control.requeueLost c).Owed f → c.Owed f) ∧
      (c.Ready → (losses.foldl Control.requeueLost c).Ready) ∧
      (∀ f, c.Pending f → (losses.foldl Control.requeueLost c).Pending f) ∧
      ∀ lost ∈ losses, ∀ f ∈ lost, c.Owed f → f.isReset = false →
        (losses.foldl Control.requeueLost c).Pending f := by
  induction losses generalizing c with
  | nil => exact ⟨fun _ h => h, id, fun _ h => h, by simp⟩
  | cons first losses ih =>
    obtain ⟨howed, hready, hpending, hlost⟩ := ih (c.requeueLost first)
    refine ⟨fun f h => Control.requeueLost_owed.mp (howed f h), fun h => hready ⟨fun uni => ?_, ?_⟩,
      fun f h => hpending f (h.requeueLost first), fun lost hl f hf ho hr => ?_⟩
    · simp only [Control.requeueLost]
      split
      · exact Nat.zero_le _
      · exact h.credit uni
    · intro hdone
      exact h.done (Bool.and_eq_true_iff.mp hdone).1
    · rcases mem_cons.mp hl with rfl | hl
      · exact hpending f (Control.pending_requeueLost hf ho hr)
      · exact hlost lost hl f hf (Control.requeueLost_owed.mpr ho) hr

theorem sound_settle {s : Issuing} (hready : s.control.Ready) (hreset : NoReset s.recovery)
    (h : ∀ f, s.control.Owed f → s.control.Pending f ∨ Tracked s.recovery f ∨ f ∈ s.acked) :
    s.settle.Sound := by
  obtain ⟨howed, hready', hpending, hlost⟩ := requeue_all s.recovery.requeued s.control
  refine ⟨hready' hready, fun f hf => ?_⟩
  rcases h f (howed f hf) with hp | (⟨lost, hl, hfl⟩ | ⟨p, hp, hlive, hfp⟩) | hack
  · exact .inl (hpending f hp)
  · exact .inl (hlost lost hl f hfl (howed f hf) (hreset lost hl f hfl))
  · rcases hlive with hacked | hun
    · refine .inr (.inr (mem_append_right _ (mem_flatMap.mpr ⟨p, ?_, hfp⟩)))
      exact mem_filter.mpr ⟨hp, hacked⟩
    · exact .inr (.inl ⟨p, hp, hun, hfp⟩)
  · exact .inr (.inr (mem_append_left _ hack))

theorem change_owed {c : Control} (hc : c.Ready) {a}
    (ha : ∀ id err n, a = .reset id err n → c.resets.length < kMaxStreams) (h : (change c a).Owed f) :
    (change c a).Pending f ∨ c.Owed f ∧ (c.Pending f → (change c a).Pending f) := by
  -- most frames are not about what the act changes
  cases a <;> cases f <;> first | exact .inr ⟨h, id⟩ | skip
  case completeTls.handshakeDone =>
    cases hs : c.handshakeDoneSent with
    | false => exact .inl ⟨h.1, rfl, hs⟩
    | true => exact .inr ⟨⟨h.1, hc.done hs⟩, fun hp => ⟨hp.1, rfl, hp.2.2⟩⟩
  case growConn.maxData => exact .inl ⟨rfl, h.1⟩
  case growStream.maxStreamData sid cursor id' v =>
    obtain ⟨hlt, w, hw, rfl, rfl⟩ := h
    obtain ⟨u, hu, rfl⟩ := mem_map.mp hw
    cases hsmall : small sid cursor u with
    | true =>
      refine .inl ⟨?_, _, hw, by rw [hsmall], by rw [hsmall], by simp [hsmall]⟩
      exact Bool.or_eq_true_iff.mpr (.inr (any_eq_true.mpr ⟨u, hu, hsmall⟩))
    | false =>
      simp only [hsmall, Bool.false_eq_true, if_false] at hlt ⊢
      refine .inr ⟨⟨hlt, u, hu, rfl, rfl⟩, ?_⟩
      rintro ⟨hflag, v, hv, hvid, hmax, hd⟩
      have hsame : small sid cursor v = false := by rwa [small, hvid, hmax, ← small]
      refine ⟨Bool.or_eq_true_iff.mpr (.inl hflag), v, mem_map.mpr ⟨v, hv, ?_⟩, hvid, hmax, hd⟩
      rw [hsame]
      rfl
  case open.maxStreamData =>
    obtain ⟨hlt, w, hw, hid, hmax⟩ := h
    rcases mem_append.mp hw with hw | hw
    · refine .inr ⟨⟨hlt, w, hw, hid, hmax⟩, ?_⟩
      rintro ⟨hflag, v, hv, hrest⟩
      exact ⟨hflag, v, mem_append_left _ hv, hrest⟩
    · rw [mem_singleton.mp hw] at hmax
      exact absurd hlt (by rw [← hmax]; exact Nat.lt_irrefl _)
  case finish.maxStreamData =>
    obtain ⟨hlt, w, hw, rfl, rfl⟩ := h
    obtain ⟨hw, hid⟩ := mem_filter.mp hw
    refine .inr ⟨⟨hlt, w, hw, rfl, rfl⟩, ?_⟩
    rintro ⟨hflag, v, hv, hvid, hrest⟩
    exact ⟨hflag, v, mem_filter.mpr ⟨hv, hvid ▸ hid⟩, hvid, hrest⟩
  case raise.maxStreams uni limit uni' v =>
    by_cases heq : uni' = uni
    · subst heq
      obtain ⟨hv, hlt⟩ := h
      have hle := hc.credit uni'
      simp only [change, update_self] at hv hlt
      by_cases hsame : limit ≤ c.limit uni'
      · rw [max_eq_left hsame] at hv
        exact .inr ⟨⟨hv, hlt⟩, fun hp => by simpa [change, Control.Pending, hsame] using hp⟩
      · refine .inl ⟨?_, by simpa [change] using hv⟩
        simp only [change, update_self]
        omega
    · exact .inr (by simpa [change, Control.Owed, Control.Pending, update_of_ne heq] using h)
  case reset.resetStream id err n _ _ _ =>
    have hroom := ha id err n rfl
    simp only [change, Control.Pending, hroom, if_true]
    rcases mem_append.mp h with h | h
    · exact .inr ⟨h, mem_append_left _⟩
    · exact .inl (mem_append_right _ h)

theorem change_ready {c} (hc : c.Ready) (a : Act) : (change c a).Ready := by
  cases a with
  | completeTls => exact ⟨hc.credit, fun _ => rfl⟩
  | raise uni limit =>
    refine ⟨fun other => (hc.credit other).trans ?_, hc.done⟩
    by_cases heq : other = uni
    · simpa [change, heq] using Nat.le_max_left _ _
    · simp [change, update_of_ne heq]
  | _ => exact ⟨hc.credit, hc.done⟩

theorem Sound.change {s : Issuing} (h : s.Sound) {a : Act}
    (ha : ∀ id err n, a = .reset id err n → s.control.resets.length < kMaxStreams) :
    Sound { s with control := change s.control a } := by
  refine ⟨change_ready h.ready a, fun f hf => ?_⟩
  rcases change_owed h.ready ha hf with hnew | ⟨howed, hkeep⟩
  · exact .inl hnew
  · exact (h.kept f howed).imp_left hkeep

theorem Sound.flush {s : Issuing} (h : s.Sound) {now wire : Nat} {conn : Option Nat}
    {streams : List (Nat × Nat)} {ack : Bool} (ha : s.Meets (.flush now wire conn streams ack)) :
    (s.step (.flush now wire conn streams ack)).Sound := by
  have hspec := s.control.frames_spec conn streams
  obtain ⟨hwire, hreset⟩ := ha
  dsimp only [step]
  generalize s.control.frames conn streams = out at hspec hwire hreset ⊢
  have hkept : ∀ f, out.1.Owed f → out.1.Pending f ∨ f ∈ out.2 ∨ s.Carried f ∨ f ∈ s.acked := by
    intro f hf
    rcases h.kept f (hspec.owed f hf) with hp | hrest
    · exact (hspec.pending f hp).imp_right .inl
    · exact .inr (.inr hrest)
  split
  · rename_i hnone
    have hout : out.2 = [] := List.isEmpty_iff.mp (Bool.and_eq_true_iff.mp hnone).1
    refine ⟨hspec.ready h.ready, fun f hf => ?_⟩
    rcases hkept f hf with hp | hf | hrest
    · exact .inl hp
    · rw [hout] at hf
      cases hf
    · exact .inr hrest
  refine sound_settle (hspec.ready h.ready) hreset fun f hf => ?_
  rcases hkept f hf with hp | hf | ⟨p, hp, hun, hfp⟩ | hack
  · exact .inl hp
  · -- framed now, so the packet went out and is the last one tracked
    have hne : out.2 ≠ [] := ne_nil_of_mem hf
    refine .inr (.inl (.inr ⟨s.recovery.packet .application now wire true out.2, ?_, .inr rfl, hf⟩))
    have hsize : wire ≠ 0 := hwire.resolve_right hne
    simp [Recovery.send, Recovery.recordSent, Recovery.track, Recovery.packet, hsize, hne]
  · exact .inr (.inl (tracked_send hp hun hfp ..))
  · exact .inr (.inr hack)

theorem Sound.transport {s : Issuing} (h : s.Sound) {ev : Recovery.Event}
    (ha : s.Meets (.transport ev)) : (s.step (.transport ev)).Sound := by
  refine sound_settle h.ready ha.1 fun f hf => ?_
  rcases h.kept f hf with hp | ⟨p, hp, hun, hfp⟩ | hack
  · exact .inl hp
  · refine .inr (.inl ?_)
    have ht : Tracked s.recovery f := .inr ⟨p, hp, .inr hun, hfp⟩
    cases ev with
    | send => exact tracked_send hp hun hfp ..
    | ack sp a now => exact ht.handleAck sp a now
    | pto sp =>
      dsimp only [Recovery.step]
      unfold Recovery.expire
      split
      · exact ht.lose sp _
      · exact ht
    | speedUp => exact (ht.lose _ _).lose _ _
    | discard sp => exact ht.discardSpace sp
    | establish =>
      have hzero : Tracked { s.recovery with bytesInFlight := 0 } f := ht
      exact hzero.discardSpace .handshake
    | restart =>
      rw [ha.2] at hp
      cases hp
  · exact .inr (.inr hack)

theorem Sound.step {s : Issuing} (h : s.Sound) {a : Act} (ha : s.Meets a) : (s.step a).Sound := by
  cases a with
  | flush => exact h.flush ha
  | transport => exact h.transport ha
  | reset => exact h.change fun _ _ _ _ => ha
  | _ => exact h.change fun _ _ _ hreset => by cases hreset

/-- **Control frames are not lost.** As long as control packets go out and no
RESET_STREAM frame is taken as lost, what the peer has to be told is pending, in a packet
that may still be acknowledged, or acknowledged. -/
theorem obligations_kept {server : Bool} {granted : Bool → Nat} {acts : List Act}
    (h : Each (fun before a => (run server granted before).Meets a) acts) :
    ∀ f, (run server granted acts).control.Owed f → (run server granted acts).Kept f := by
  have hsound : (run server granted acts).Sound := by
    refine h.invariant (fun acts => (run server granted acts).Sound) ?_ fun before a hs ha => ?_
    · refine ⟨⟨fun _ => le_rfl, nofun⟩, fun f hf => ?_⟩
      -- a fresh connection owes nothing
      cases f <;> simp [run, Control.Owed] at hf <;> omega
    · simpa [run] using hs.step ha
  exact hsound.kept

instance (s : Issuing) (a : Act) : Decidable (s.Meets a) := by
  rcases a with _ | _ | _ | _ | _ | _ | _ | _ | ev
  case transport => cases ev <;> unfold Meets NoReset <;> infer_instance
  all_goals
    unfold Meets
    dsimp only [NoReset]
    infer_instance

instance (s : Issuing) (f : ControlFrame) : Decidable (s.Kept f) := by
  unfold Kept Carried
  infer_instance

theorem obligations_kept_probe :
    let acts : List Act := [.completeTls, .growConn, .open 4, .growStream 4 250000, .raise true 70,
      .flush 0 100 none [] false,
      .transport (.pto .application), .flush 9 100 none [] false,
      .transport (.ack .application ⟨1, 0, [], 0⟩ 12), .reset 4 0 0, .flush 15 100 none [] true]
    let s := run true (fun _ => 64) acts
    Each (fun before a => (run true (fun _ => 64) before).Meets a) acts ∧
      s.control.Owed (.resetStream 4 0 0) ∧ s.Kept (.resetStream 4 0 0) ∧
      s.control.Owed (.maxStreamData 4 315536) ∧ s.Kept (.maxStreamData 4 315536) ∧
      s.control.Owed .handshakeDone ∧ s.Kept .handshakeDone := by
  intro acts s
  have hmeets : Each (fun before a => (run true (fun _ => 64) before).Meets a) acts := by
    decide +kernel
  have hreset : s.control.Owed (.resetStream 4 0 0) := by decide +kernel
  have hwindow : s.control.Owed (.maxStreamData 4 315536) := by decide +kernel
  have hdone : s.control.Owed .handshakeDone := by decide +kernel
  exact ⟨hmeets, hreset, obligations_kept hmeets _ hreset, hwindow, obligations_kept hmeets _ hwindow,
    hdone, obligations_kept hmeets _ hdone⟩

/-- A RESET_STREAM frame in a packet whose probe timeout ends is not queued again, and a
control packet that could not be sealed leaves no flag behind. -/
theorem reset_and_handshakeDone_vanish :
    let probed := run true (fun _ => 64)
      [.reset 4 0 0, .flush 0 100 none [] false, .transport (.pto .application)]
    let unsealed := run true (fun _ => 64) [.completeTls, .flush 0 0 none [] false]
    (probed.control.Owed (.resetStream 4 0 0) ∧ ¬ probed.Kept (.resetStream 4 0 0)) ∧
      unsealed.control.Owed .handshakeDone ∧ ¬ unsealed.Kept .handshakeDone := by
  decide +kernel

end Issuing
end BoltApi.Quic
