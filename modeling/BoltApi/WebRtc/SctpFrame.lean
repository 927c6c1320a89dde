import BoltApi.WebRtc.Sctp

/-! # What the handlers leave alone

The receive path and the send path of an association work on different fields.
`Receiving` and `Sending` say what a call of either keeps and what it can append to
the log. -/
namespace BoltApi.WebRtc.Sctp
open Octets Lib Wire List

variable {env : Env} {a b c : Assoc}

/-! ## Sequence numbers -/

theorem tsnLt_iff {t u} : tsnLt t u ↔ 2 ^ 31 ≤ tsnSub t u := decide_eq_true_iff

theorem tsnLe_iff {t u} : tsnLe t u ↔ t = u ∨ 2 ^ 31 ≤ tsnSub t u := by
  simp only [tsnLe, Bool.or_eq_true, beq_iff_eq, tsnLt_iff]

theorem tsnAdd_lt (t n : Nat) : tsnAdd t n < 2 ^ 32 := Nat.mod_lt _ (by decide)

theorem tsnSub_lt (t n : Nat) : tsnSub t n < 2 ^ 32 := Nat.mod_lt _ (by decide)

/-! ## Packets -/

theorem framePacket_drop (env : Env) (tag : Nat) (chunk : Bytes) :
    (framePacket env tag chunk).drop kHdrLen = chunk := drop_left' rfl

inductive Ships (p : Bytes) (a : Assoc) : Assoc → Prop
  | nothing : Ships p a a
  | shipped : Ships p a (a.note (.shipped p))

theorem emit_ships (a : Assoc) (p : Bytes) : Ships p a (emit env a p).2 := by
  unfold emit
  split
  · exact .shipped
  · exact .nothing

theorem shipPacket_ships (a : Assoc) (tag : Nat) (chunk : Bytes) :
    Ships (framePacket env tag chunk) a (shipPacket env a tag chunk).2 := by
  unfold shipPacket
  split
  · exact .nothing
  · exact emit_ships a _

theorem sendSack_ships (a : Assoc) :
    Ships (framePacket env a.peerTag (sackChunk a.cumAckIn (gapBlocks a))) a (sendSack env a) := by
  unfold sendSack
  split
  · exact .nothing
  · exact shipPacket_ships a a.peerTag _

/-! ## The receive path -/

inductive ReceiverEvent (env : Env) : Event → Prop
  | delivered (m : Message) : ReceiverEvent env (.delivered m)
  | control {t : ChunkType} (h : t ≠ .forwardTsn) (tag : Nat) (value : Bytes) :
      ReceiverEvent env (.shipped (framePacket env tag (chunkOf t 0 value)))

def Assoc.sendSide (a : Assoc) : Bool × Nat × Nat × List (Option OutChunk) :=
  (a.haveCumAck, a.nextTsn, a.advAckPoint, a.outRing)

def Assoc.tsnSide (a : Assoc) : Nat × BitVec kRecvWindow := (a.cumAckIn, a.recvBitmap)

structure Receiving (env : Env) (a b : Assoc) : Prop where
  side : b.sendSide = a.sendSide
  state : b.state = a.state ∨ b.state = .failed
  log : ∃ l, b.log = a.log ++ l ∧ ∀ ev ∈ l, ReceiverEvent env ev

/-- Behind `record_received` the receive path leaves the TSNs alone. -/
structure Delivering (env : Env) (a b : Assoc) : Prop extends Receiving env a b where
  tsns : b.tsnSide = a.tsnSide

theorem Receiving.of_side (hside : b.sendSide = a.sendSide) (hstate : b.state = a.state)
    (hlog : b.log = a.log) : Receiving env a b :=
  ⟨hside, .inl hstate, [], by simp [hlog], by simp⟩

theorem Receiving.refl (a : Assoc) : Receiving env a a := .of_side rfl rfl rfl

theorem Receiving.trans (h : Receiving env a b) (h' : Receiving env b c) : Receiving env a c where
  side := h'.side.trans h.side
  state := by
    rcases h'.state with hs | hs
    · exact hs ▸ h.state
    · exact .inr hs
  log := by
    obtain ⟨l, hl, hev⟩ := h.log
    obtain ⟨l', hl', hev'⟩ := h'.log
    exact ⟨l ++ l', by rw [hl', hl, append_assoc], forall_mem_append.mpr ⟨hev, hev'⟩⟩

theorem Delivering.refl (a : Assoc) : Delivering env a a := ⟨.refl a, rfl⟩

theorem Delivering.trans (h : Delivering env a b) (h' : Delivering env b c) : Delivering env a c :=
  ⟨h.toReceiving.trans h'.toReceiving, h'.tsns.trans h.tsns⟩

theorem Delivering.delivered (m : Message) (hside : b.sendSide = a.sendSide)
    (hstate : b.state = a.state) (htsns : b.tsnSide = a.tsnSide)
    (hlog : b.log = a.log ++ [.delivered m]) : Delivering env a b :=
  ⟨⟨hside, .inl hstate, _, hlog, forall_mem_singleton.mpr (.delivered m)⟩, htsns⟩

theorem handOver_delivering (a : Assoc) (m : Message) : Delivering env a (a.handOver m) :=
  .delivered m rfl rfl rfl rfl

theorem Delivering.of_ships {t tag value} (ht : t ≠ .forwardTsn)
    (h : Ships (framePacket env tag (chunkOf t 0 value)) a b) : Delivering env a b := by
  cases h with
  | nothing => exact .refl a
  | shipped =>
    exact ⟨⟨rfl, .inl rfl, _, rfl, forall_mem_singleton.mpr (.control ht tag value)⟩, rfl⟩

theorem sendSack_delivering (a : Assoc) : Delivering env a (sendSack env a) :=
  .of_ships (t := .sack) (by decide) (sendSack_ships a)

theorem abortAssoc_delivering (a : Assoc) : Delivering env a (abortAssoc env a) := by
  have hsent : Delivering env a (sendAbort env a) :=
    .of_ships (t := .abort) (by decide) (shipPacket_ships a a.peerTag _)
  exact hsent.trans ⟨⟨rfl, .inr rfl, [], by simp [abortAssoc, Assoc.become], by simp⟩, rfl⟩

theorem setFrags_receiving (a : Assoc) (frags : List (Option InFrag)) :
    Receiving env a (a.setFrags frags) := .of_side rfl rfl rfl

theorem setTsns_receiving (a : Assoc) (cum : Nat) (bits : BitVec kRecvWindow) :
    Receiving env a (a.setTsns cum bits) := .of_side rfl rfl rfl

theorem recordReceived_eq_some {tsn} : recordReceived a tsn = some b ↔
    a.haveCumAck ∧ tsnLe tsn a.cumAckIn = false ∧
      tsnSub (tsnSub tsn a.cumAckIn) 1 < kRecvWindow ∧
      a.recvBitmap.getLsbD (tsnSub (tsnSub tsn a.cumAckIn) 1) = false ∧
      b = a.setTsns a.cumAckIn
        (a.recvBitmap ||| BitVec.twoPow kRecvWindow (tsnSub (tsnSub tsn a.cumAckIn) 1)) := by
  simp only [recordReceived, Option.ite_none_left_eq_some, Option.some.injEq, Bool.not_eq_true,
    Bool.not_eq_false', Nat.not_le, eq_comm (a := b)]

theorem recordReceived_receiving {tsn} (h : recordReceived a tsn = some b) : Receiving env a b := by
  obtain ⟨-, -, -, -, rfl⟩ := recordReceived_eq_some.mp h
  exact setTsns_receiving a _ _

theorem advanceCumAck_eq (h : a.haveCumAck) : advanceCumAck a =
    a.setTsns (tsnAdd a.cumAckIn (frontRun a.recvBitmap.getLsbD kRecvWindow 0))
      (a.recvBitmap >>> frontRun a.recvBitmap.getLsbD kRecvWindow 0) := by
  simp only [advanceCumAck, h, Bool.not_true, Bool.false_eq_true, if_false]

theorem advanceCumAck_receiving (a : Assoc) : Receiving env a (advanceCumAck a) := by
  unfold advanceCumAck
  split
  · exact .refl a
  · exact setTsns_receiving a _ _

section Skipping
variable {I : Assoc → Prop} {sid : Nat}
  (hstep : ∀ b m ready, I b →
    I ((b.handOver m).freeSlab.setPending (Slots.freeFirst ready b.inPending)))
include hstep

theorem deliverLoop_induction (fuel : Nat) (h : I a) : I (deliverLoop sid fuel a) := by
  induction fuel generalizing a with
  | zero => exact h
  | succ fuel ih =>
    rw [deliverLoop]
    split
    · exact h
    · exact ih (hstep _ _ _ h)

variable (hnext : ∀ b sid n, I b → I (b.setNextSsn sid n))
include hnext

theorem skipSsn_induction (ssn : Nat) (h : I a) : I (skipSsn a sid ssn) := by
  simp only [skipSsn]
  split
  · refine deliverLoop_induction hstep _ ?_
    split
    · exact hnext _ _ _ h
    · exact h
  · exact h

theorem skipLoop_induction {chunk len} (fuel off : Nat) (h : I a) :
    I (skipLoop chunk len fuel off a) := by
  induction fuel generalizing off a with
  | zero => exact h
  | succ fuel ih =>
    rw [skipLoop]
    split
    · exact ih _ (skipSsn_induction hstep hnext _ h)
    · exact h

end Skipping

theorem deliver_delivering (b : Assoc) (m : Message) (slots : List (Option InPending)) :
    Delivering env b ((b.handOver m).freeSlab.setPending slots) := by
  have hfreed : ∀ c : Assoc, Delivering env c (c.freeSlab.setPending slots) :=
    fun _ => ⟨.of_side rfl rfl rfl, rfl⟩
  exact (handOver_delivering b m).trans (hfreed _)

theorem deliverLoop_delivering (sid fuel : Nat) (a : Assoc) :
    Delivering env a (deliverLoop sid fuel a) :=
  deliverLoop_induction (fun b m _ h => h.trans (deliver_delivering b m _)) fuel (.refl a)

variable (a)

theorem onFullMessage_delivering (m : Message) (ssn : Nat) :
    Delivering env a (onFullMessage env a m ssn) := by
  simp only [onFullMessage]
  split
  · exact .delivered m rfl rfl rfl rfl
  split
  · exact (handOver_delivering a m).trans (deliverLoop_delivering _ _ _)
  split
  · split
    · exact .refl a
    split
    · exact abortAssoc_delivering a
    · exact ⟨.of_side rfl rfl rfl, rfl⟩
  · exact .refl a

theorem ingestFragment_delivering (f : InFrag) : Delivering env a (ingestFragment env a f) := by
  unfold ingestFragment
  split
  · exact abortAssoc_delivering a
  split
  · exact .refl a
  split
  · exact abortAssoc_delivering a
  · exact ⟨.of_side rfl rfl rfl, rfl⟩

theorem drainLoop_delivering (fuel : Nat) (a : Assoc) :
    Delivering env a (drainLoop env fuel a) := by
  induction fuel generalizing a with
  | zero => exact .refl a
  | succ fuel ih =>
    rw [drainLoop]
    split
    · exact .refl a
    · exact abortAssoc_delivering a
    · exact .refl a
    rename_i f run _
    split
    · exact abortAssoc_delivering a
    have htaken : Delivering env a (a.takeSlab.setFrags (dropRun (f :: run) a.infrag)) :=
      ⟨.of_side rfl rfl rfl, rfl⟩
    have hfreed : ∀ c : Assoc, Delivering env c c.freeSlab :=
      fun _ => ⟨.of_side rfl rfl rfl, rfl⟩
    exact ((htaken.trans (onFullMessage_delivering _ _ _)).trans (hfreed _)).trans (ih _)

theorem drainSack_delivering : Delivering env a (sendSack env (drainFragments env a)) :=
  (drainLoop_delivering _ a).trans (sendSack_delivering _)

theorem acceptData_receiving (f : InFrag) : Receiving env a (acceptData env a f) := by
  simp only [acceptData]
  split
  · exact (advanceCumAck_receiving a).trans
      ((onFullMessage_delivering _ _ _).trans (drainSack_delivering _)).toReceiving
  split
  · exact (ingestFragment_delivering a f).toReceiving
  · exact ((ingestFragment_delivering a f).toReceiving.trans (advanceCumAck_receiving _)).trans
      (drainSack_delivering _).toReceiving

theorem handleData_receiving (chunk : Bytes) : Receiving env a (handleData env a chunk) := by
  unfold handleData
  split
  · exact .refl a
  split
  · exact (sendSack_delivering a).toReceiving
  · rename_i h
    exact (recordReceived_receiving h).trans (acceptData_receiving _ _)

theorem recordRange_receiving (steps k : Nat) (a : Assoc) :
    Receiving env a (recordRange steps k a) := by
  induction steps generalizing k a with
  | zero => exact .refl a
  | succ steps ih =>
    rw [recordRange]
    refine Receiving.trans ?_ (ih _ _)
    cases h : recordReceived a (tsnAdd a.cumAckIn k) with
    | none => exact .refl a
    | some b => exact recordReceived_receiving h

theorem skipLoop_receiving (chunk : Bytes) (len fuel off : Nat) (a : Assoc) :
    Receiving env a (skipLoop chunk len fuel off a) :=
  skipLoop_induction (fun b m _ h => h.trans (deliver_delivering b m _).toReceiving)
    (fun _ _ _ h => h.trans (.of_side rfl rfl rfl)) fuel off (.refl a)

theorem handleForwardTsn_cases (env : Env) (a : Assoc) (chunk : Bytes) :
    handleForwardTsn env a chunk = a ∨ a.haveCumAck ∧ handleForwardTsn env a chunk =
      sendSack env (skipLoop chunk (rd16 chunk 2) (rd16 chunk 2) 8 (skipTsn a (rd32 chunk 4))) := by
  simp only [handleForwardTsn]
  split
  · exact .inl rfl
  split
  · exact .inl rfl
  cases hcum : a.haveCumAck with
  | false => exact .inl rfl
  | true => exact .inr ⟨rfl, rfl⟩

theorem handleForwardTsn_receiving (chunk : Bytes) :
    Receiving env a (handleForwardTsn env a chunk) := by
  obtain h | ⟨-, h⟩ := handleForwardTsn_cases env a chunk
  · exact h.symm ▸ .refl a
  rw [h]
  refine Receiving.trans ?_ ((skipLoop_receiving _ _ _ _ _).trans (sendSack_delivering _).toReceiving)
  simp only [skipTsn]
  split
  · exact ((recordRange_receiving _ _ _).trans (advanceCumAck_receiving _)).trans
      (setFrags_receiving _ _)
  · exact .refl a

variable {a}

/-! ## The send path -/

/-- The receive path's fields and the counters of `send`. -/
structure ReceiveSide where
  peerTag : Nat
  peerInitTsn : Nat
  localInitTsn : Nat
  nextTsn : Nat
  outSsn : List Nat
  haveCumAck : Bool
  cumAckIn : Nat
  recvBitmap : BitVec kRecvWindow
  inNextSsn : List Nat
  inPending : List (Option InPending)
  infrag : List (Option InFrag)

def Assoc.receiveSide (a : Assoc) : ReceiveSide :=
  ⟨a.peerTag, a.peerInitTsn, a.localInitTsn, a.nextTsn, a.outSsn, a.haveCumAck, a.cumAckIn,
    a.recvBitmap, a.inNextSsn, a.inPending, a.infrag⟩

structure Sending (a b : Assoc) : Prop where
  side : b.receiveSide = a.receiveSide
  state : b.state = a.state ∨ b.state = .failed
  log : a.log <+: b.log

theorem Sending.of_side (hside : b.receiveSide = a.receiveSide) (hstate : b.state = a.state)
    (hlog : b.log = a.log) : Sending a b :=
  ⟨hside, .inl hstate, hlog ▸ prefix_rfl⟩

theorem Sending.refl (a : Assoc) : Sending a a := .of_side rfl rfl rfl

theorem Sending.trans (h : Sending a b) (h' : Sending b c) : Sending a c where
  side := h'.side.trans h.side
  state := by
    rcases h'.state with hs | hs
    · exact hs ▸ h.state
    · exact .inr hs
  log := h.log.trans h'.log

theorem Sending.note (a : Assoc) (ev : Event) : Sending a (a.note ev) :=
  ⟨rfl, .inl rfl, (List.prefix_append _ _)⟩

theorem Sending.of_ships {p} (h : Ships p a b) : Sending a b := by
  cases h with
  | nothing => exact .refl a
  | shipped => exact .note a _

theorem abortAssoc_sending (a : Assoc) : Sending a (abortAssoc env a) := by
  have hsent : Sending a (sendAbort env a) := .of_ships (shipPacket_ships a a.peerTag _)
  exact hsent.trans ⟨rfl, .inr rfl, prefix_rfl⟩

/-! ### Chunks of the ring -/

def SctpReliability.limited (rel : SctpReliability) : Bool := rel.rexmitLimited || rel.timeLimited

def OutChunk.limited (o : OutChunk) : Bool := o.relRexmit || o.relTimed

def SameChunk (o o' : OutChunk) : Prop :=
  o'.tsn = o.tsn ∧ o'.packet = o.packet ∧ o'.limited = o.limited

theorem SameChunk.refl (o : OutChunk) : SameChunk o o := ⟨rfl, rfl, rfl⟩

theorem SameChunk.trans {o o' o''} (h : SameChunk o o') (h' : SameChunk o' o'') : SameChunk o o'' :=
  ⟨h'.1.trans h.1, h'.2.1.trans h.2.1, h'.2.2.trans h.2.2⟩

theorem emit_ring (a : Assoc) (p : Bytes) : (emit env a p).2.outRing = a.outRing := by
  unfold emit
  split <;> rfl

theorem lowestSlot_mem {p ring i o} (h : lowestSlot p ring = some (i, o)) :
    ring[i]? = some (some o) ∧ p o := by
  refine foldlRecOn (motive := fun best => ∀ j b, best = some (j, b) → ring[j]? = some (some b) ∧
    p b) ring.zipIdx _ (by simp) ?_ i o h
  rintro best hbest ⟨o, i⟩ hx j b hb
  have hx := mem_zipIdx_iff_getElem?.mp hx
  cases o with
  | none => exact hbest j b hb
  | some o =>
    cases best with
    | none =>
      simp only [Option.ite_none_right_eq_some, Option.some.injEq, Prod.mk.injEq] at hb
      obtain ⟨hp, rfl, rfl⟩ := hb
      exact ⟨hx, hp⟩
    | some jb =>
      obtain ⟨j', b'⟩ := jb
      simp only at hb
      split at hb
      · rename_i hp
        obtain ⟨rfl, rfl⟩ := Prod.mk.inj (Option.some.inj hb)
        exact ⟨hx, (Bool.and_eq_true_iff.mp hp).1⟩
      · exact hbest j b hb

theorem flushSend_induction {now : Nat} {I : Assoc → Prop}
    (hemit : ∀ b o, some o ∈ b.outRing → I b → I (emit env b o.packet).2)
    (hlaunch : ∀ b i o, b.outRing[i]? = some (some o) → I b → I (b.launch now i o)) (h : I a) :
    I (flushSend env now a) := by
  have hloop : ∀ (fuel : Nat) (a : Assoc), I a → I (flushLoop env now fuel a) := by
    intro fuel
    induction fuel with
    | zero => exact fun a h => h
    | succ fuel ih =>
      intro a h
      rw [flushLoop]
      split
      · exact h
      rename_i i o hlow
      have hget := (lowestSlot_mem hlow).1
      have hsent := hemit a o (mem_of_getElem? hget) h
      simp only
      split
      · exact h
      split
      · exact h
      split
      · exact h
      split
      · exact hsent
      · exact ih _ (hlaunch _ i o (by rwa [emit_ring]) hsent)
  unfold flushSend
  split
  · exact h
  · exact hloop _ a h

/-! ### The handlers of the send path -/

theorem setRing_sending (a : Assoc) (ring : List (Option OutChunk)) :
    Sending a (a.setRing ring) := .of_side rfl rfl rfl

theorem startT3_sending (a : Assoc) (now : Nat) : Sending a (a.startT3 now) := .of_side rfl rfl rfl

theorem land_sending (a : Assoc) (n : Nat) : Sending a (a.land n) := by
  unfold Assoc.land
  split
  · exact .of_side rfl rfl rfl
  · exact .refl a

theorem skipTo_sending (a : Assoc) (tsn : Nat) : Sending a (a.skipTo tsn) := by
  unfold Assoc.skipTo
  split
  · exact .of_side rfl rfl rfl
  · exact .refl a

variable (now : Nat)

theorem onDataAcked_sending (a : Assoc) (o : OutChunk) : Sending a (onDataAcked now a o) := by
  simp only [onDataAcked]
  split
  · exact (land_sending a _).trans (.of_side rfl rfl rfl)
  · exact land_sending a _

theorem ackWhere_sending (a : Assoc) (p : OutChunk → Bool) : Sending a (ackWhere now a p).2 := by
  have hfold : ∀ os : List OutChunk, Sending a (os.foldl (onDataAcked now) a) := fun os =>
    foldlRecOn os _ (.refl a) fun b hb o _ => hb.trans (onDataAcked_sending now b o)
  exact (hfold _).trans (setRing_sending _ _)

theorem ackAll_sending (a : Assoc) (tests : List (OutChunk → Bool)) :
    Sending a (ackAll now a tests).2 :=
  foldlRecOn (motive := fun r : List OutChunk × Assoc => Sending a r.2) tests _ (.refl a)
    fun r hr p _ => hr.trans (ackWhere_sending now r.2 p)

theorem growCwnd_sending (now acked : Nat) (a : Assoc) : Sending a (growCwnd now acked a) := by
  simp only [growCwnd]
  split <;> exact .of_side rfl rfl rfl

theorem giveUp_sending (a : Assoc) (o : OutChunk) : Sending a (giveUp a o).1 := by
  refine Sending.trans ?_ (.note _ _)
  refine Sending.trans ?_ (skipTo_sending _ _)
  split
  · exact land_sending a _
  · exact .refl a

theorem resend_sending (a : Assoc) (o : OutChunk) : Sending a (resend env a o).1 := by
  unfold resend
  split
  · exact (Sending.of_ships (emit_ships a _)).trans (.of_side rfl rfl rfl)
  · exact .refl a

theorem sweepRing_sending {f} (hf : ∀ b o, Sending b (f b o).1) (a : Assoc) :
    Sending a (sweepRing f a) := by
  have hsweep := Slots.sweep_induction (f := f) (s := a) (l := a.outRing) (d := [])
    (I := fun _ b => Sending a b) (Q := fun _ _ => True)
    (fun _ b o _ h => ⟨h.trans (hf b o), trivial⟩) (.refl a)
  exact hsweep.1.trans (setRing_sending _ _)

theorem announceSkip_sending (a : Assoc) : Sending a (announceSkip env a) := by
  have hneed : Sending a ((a.needForward true).needForward false) := .of_side rfl rfl rfl
  have hfwd : Sending a (sendForwardTsn env (a.needForward true)) :=
    hneed.trans (.of_ships (shipPacket_ships _ _ _))
  exact hfwd.trans (setRing_sending _ _)

theorem fastRetransmit_sending (a : Assoc) : Sending a (fastRetransmit env a) := by
  have hwin : Sending a (a.setWindow a.halfWindow a.halfWindow) := .of_side rfl rfl rfl
  have hsweep := hwin.trans (sweepRing_sending (f := fastStep env) (fun b o => by
    unfold fastStep
    split
    · exact .refl b
    split
    · exact giveUp_sending b o
    · exact resend_sending b o) _)
  simp only [fastRetransmit]
  split
  · exact hsweep.trans (announceSkip_sending _)
  · exact hsweep

theorem flushSend_sending (a : Assoc) : Sending a (flushSend env now a) := by
  refine flushSend_induction (fun b o _ h => h.trans (.of_ships (emit_ships b _)))
    (fun b i o _ h => h.trans ?_) (.refl a)
  simp only [Assoc.launch]
  split <;> exact .of_side rfl rfl rfl

theorem takeSack_noted (a : Assoc) (chunk : Bytes) :
    Sending ((setRwnd a (rd32 chunk 8)).note (.sacked (rd32 chunk 4) (sackRanges chunk)))
      (takeSack now a chunk).2 := by
  have hmissed : ∀ highest b, Sending b (countMisses highest b).2 :=
    fun _ _ => .of_side rfl rfl rfl
  simp only [takeSack]
  split
  · exact (ackAll_sending now _ _).trans (hmissed _ _)
  · exact ((ackAll_sending now _ _).trans (hmissed _ _)).trans (growCwnd_sending _ _ _)

theorem takeSack_sending (a : Assoc) (chunk : Bytes) : Sending a (takeSack now a chunk).2 := by
  have hrwnd : Sending a (setRwnd a (rd32 chunk 8)) := .of_side rfl rfl rfl
  exact (hrwnd.trans (.note _ _)).trans (takeSack_noted now a chunk)

theorem handleSack_sending (a : Assoc) (chunk : Bytes) :
    Sending a (handleSack env now a chunk) := by
  simp only [handleSack]
  split
  · exact .refl a
  refine (Sending.trans ?_ (skipTo_sending _ _)).trans (flushSend_sending _ _)
  split
  · exact (takeSack_sending now a chunk).trans (fastRetransmit_sending _)
  · exact takeSack_sending now a chunk

theorem resendLowest_sending {now} (a : Assoc) (low : Option (Nat × OutChunk)) :
    Sending a (resendLowest env now a low) := by
  cases low with
  | none => exact .of_side rfl rfl rfl
  | some io =>
    exact ((resend_sending a io.2).trans (setRing_sending _ _)).trans (startT3_sending _ _)

theorem onT3Timeout_sending (a : Assoc) : Sending a (onT3Timeout env now a) := by
  have hback : Sending a (backOff a) := .of_side rfl rfl rfl
  have hneed : ∀ b : Assoc, Sending b (b.needForward true) := fun _ => .of_side rfl rfl rfl
  have hsweep := hback.trans (sweepRing_sending (f := t3Step) (fun b o => by
    unfold t3Step
    split
    · exact (hneed b).trans (giveUp_sending _ o)
    · exact .refl b) _)
  simp only [onT3Timeout]
  split
  · exact hback.trans (abortAssoc_sending _)
  refine Sending.trans ?_ (resendLowest_sending _ _)
  split
  · exact hsweep.trans (announceSkip_sending _)
  · exact hsweep

theorem abandonExpired_sending (a : Assoc) : Sending a (abandonExpired env now a) := by
  have hsweep := sweepRing_sending (f := expireStep now) (fun b o => by
    unfold expireStep
    split
    · exact giveUp_sending b o
    · exact .refl b) a
  simp only [abandonExpired]
  split
  · exact hsweep.trans (announceSkip_sending _)
  · exact hsweep

theorem tick_sending (a : Assoc) : Sending a (tick env now a).2 := by
  have hdriven : Sending a (tickT3 env now (abandonExpired env now a)) := by
    refine Sending.trans (b := abandonExpired env now a) (abandonExpired_sending now a) ?_
    unfold tickT3
    split
    · split
      · exact onT3Timeout_sending _ _
      · exact .of_side rfl rfl rfl
    · exact .refl _
  simp only [tick]
  split
  · exact .refl a
  split
  · exact hdriven
  · exact hdriven.trans (flushSend_sending _ _)

end BoltApi.WebRtc.Sctp
