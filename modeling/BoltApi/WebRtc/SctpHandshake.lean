import BoltApi.WebRtc.SctpFrame

/-! # Foreign and repeated packets

`feed` checks the length and the checksum of a packet, not its verification tag,
and the handshake handlers assign the transfer state again. Here is what a chunk
must be for the association to come out of it as it went in. -/
namespace BoltApi.WebRtc.Sctp
open Octets Lib Wire List

variable {env : Env} {a b c : Assoc} {chunk p : Bytes} {now : Nat}

/-! ## Runs -/

inductive Call
  | connect
  | feed (now : Nat) (p : Bytes)
  | send (now sid ppid : Nat) (data : Bytes) (rel : SctpReliability)
  | tick (now : Nat)

def call (env : Env) (a : Assoc) : Call → Assoc
  | .connect => (connect env a).2
  | .feed now p => (feed env now a p).2
  | .send now sid ppid data rel => (send env now a sid ppid data rel).2
  | .tick now => (tick env now a).2

/-- The associations that calls lead to; the sink may change from call to
call. -/
inductive Reach : Assoc → Prop
  | init (role : Role) (tag tsn : Nat) : Reach (init role tag tsn)
  | call (env : Env) (c : Call) {a : Assoc} (h : Reach a) : Reach (call env a c)

def Knows (a : Assoc) : Prop :=
  a.state = .cookieEchoed ∨ a.state = .established → a.haveCumAck

theorem Knows.of_state (h : Knows a) (hstate : b.state = a.state ∨ b.state = .failed)
    (hhave : b.haveCumAck = a.haveCumAck) : Knows b := by
  intro hb
  rcases hstate with hs | hs
  · rw [hhave]
    exact h (hs ▸ hb)
  · rw [hs] at hb
    rcases hb with hb | hb <;> cases hb

theorem Knows.receiving (h : Knows a) (hr : Receiving env a b) : Knows b :=
  h.of_state hr.state (congrArg Prod.fst hr.side)

theorem Knows.sending (h : Knows a) (hs : Sending a b) : Knows b :=
  h.of_state hs.state (congrArg ReceiveSide.haveCumAck hs.side)

theorem become_failed_knows (a : Assoc) : Knows (a.become .failed) := by
  rintro (h | h) <;> cases h

theorem Ships.keeps {q} (h : Ships q a b) : b.state = a.state ∧ b.haveCumAck = a.haveCumAck := by
  cases h <;> exact ⟨rfl, rfl⟩

theorem sendCookieEcho_have (a : Assoc) (cookie : Bytes) :
    (sendCookieEcho env a cookie).haveCumAck = a.haveCumAck := by
  have hships : ∀ chunk, (shipPacket env a a.peerTag chunk).2.haveCumAck = a.haveCumAck :=
    fun _ => (shipPacket_ships _ _ _).keeps.2
  simp only [sendCookieEcho]
  split <;> exact hships _

theorem sendInitAck_have (a : Assoc) (tag tsn rwnd : Nat) :
    (sendInitAck env a tag tsn rwnd).haveCumAck := by
  have hships : Ships _ (a.setPeer tag tsn rwnd) (sendInitAck env a tag tsn rwnd) :=
    shipPacket_ships _ _ _
  exact hships.keeps.2

theorem handleInit_knows (h : Knows a) : Knows (handleInit env a chunk) := by
  unfold handleInit
  split
  · exact h
  split
  · exact become_failed_knows a
  · exact fun _ => sendInitAck_have a _ _ _

theorem handleInitAck_knows (h : Knows a) : Knows (handleInitAck env a chunk) := by
  unfold handleInitAck
  split
  · exact h
  split
  · exact h
  simp only
  split
  · exact become_failed_knows _
  split
  · exact become_failed_knows _
  · exact become_failed_knows _
  · intro _
    rw [sendCookieEcho_have]
    rfl

theorem handleCookieEcho_knows : Knows (handleCookieEcho env a chunk) := by
  unfold handleCookieEcho
  split
  · exact become_failed_knows a
  split
  · exact become_failed_knows a
  · have hships : ∀ c : Assoc, (sendCookieAck env c).haveCumAck = c.haveCumAck :=
      fun _ => (shipPacket_ships _ _ _).keeps.2
    exact fun _ => hships _

theorem handleCookieAck_knows (h : Knows a) : Knows (handleCookieAck a) := by
  unfold handleCookieAck
  split
  · rename_i hst
    exact fun _ => h (.inl hst.2)
  · exact h

theorem handleChunk_knows (h : Knows a) : Knows (handleChunk env now a chunk) := by
  unfold handleChunk
  split
  · exact handleInit_knows h
  · exact handleInitAck_knows h
  · exact handleCookieEcho_knows
  · exact handleCookieAck_knows h
  · exact h.receiving (handleData_receiving a chunk)
  · exact h.sending (handleSack_sending now a chunk)
  · exact h.receiving (handleForwardTsn_receiving a chunk)
  · exact become_failed_knows a
  · exact h

theorem feed_induction {L : Nat → Assoc → Bytes → Prop} {Q : Assoc → Bytes → Prop}
    {I : Assoc → Prop} (hL : ∀ fuel a rest, L (fuel + 1) a rest →
      rest.length < 4 ∨ rd16 rest 2 < 4 ∨ rest.length < rd16 rest 2 ∨ Q a rest ∧
        L fuel (handleChunk env now a rest) (rest.drop (pad4 (rd16 rest 2))))
    (hstep : ∀ a chunk, Q a chunk → I a → I (handleChunk env now a chunk)) (h : I a)
    (hl : L p.length a (p.drop kHdrLen)) : I (feed env now a p).2 := by
  have hloop : ∀ (fuel : Nat) (a : Assoc) (rest : Bytes), L fuel a rest → I a →
      I (feedLoop env now fuel a rest).2 := by
    intro fuel
    induction fuel with
    | zero => exact fun a rest _ h => h
    | succ fuel ih =>
      intro a rest hl h
      simp only [feedLoop]
      split
      · exact h
      rename_i h4
      split
      · exact h
      rename_i hc4
      split
      · exact h
      rename_i hlong
      obtain ⟨hq, hrest⟩ := (((hL fuel a rest hl).resolve_left h4).resolve_left hc4).resolve_left hlong
      split
      · exact hstep a rest hq h
      · exact ih _ _ hrest (hstep a rest hq h)
  unfold feed
  split
  · exact h
  split
  · exact h
  split
  · exact h
  · exact hloop _ _ _ hl h

theorem feed_knows (p : Bytes) (h : Knows a) : Knows (feed env now a p).2 :=
  feed_induction (L := fun _ _ _ => True) (Q := fun _ _ => True)
    (fun _ _ _ _ => .inr (.inr (.inr ⟨trivial, trivial⟩))) (fun _ _ _ h => handleChunk_knows h) h
    trivial

theorem send_cases (env : Env) (now : Nat) (a : Assoc) (sid ppid : Nat) (data : Bytes)
    (rel : SctpReliability) :
    send env now a sid ppid data rel = (false, a) ∨
      ∃ q, enqueueLoop env now rel
          { streamId := sid, ppid := ppid, unordered := rel.unordered, data := data }
          (if rel.unordered then 0 else a.outSsn.getD sid 0) a.nextTsn (fragCount data) 0 a = some q ∧
        send env now a sid ppid data rel = (true, flushSend env now
          ((if rel.unordered then q else q.bumpSsn sid (a.outSsn.getD sid 0)).note
            (.accepted a.nextTsn (fragCount data) rel
              { streamId := sid, ppid := ppid, unordered := rel.unordered, data := data }))) := by
  simp only [send]
  iterate 5
    split
    · exact .inl rfl
  · rename_i q hq
    refine .inr ⟨q, hq, ?_⟩
    cases rel.unordered <;> rfl

theorem enqueueLoop_keeps {rel m ssn tsn n i} (h : enqueueLoop env now rel m ssn tsn n i a = some b) :
    b.state = a.state ∧ b.haveCumAck = a.haveCumAck := by
  induction n generalizing i a with
  | zero =>
    cases h
    exact ⟨rfl, rfl⟩
  | succ n ih =>
    obtain ⟨q, hq, hrest⟩ := Option.bind_eq_some_iff.mp h
    obtain ⟨ring, -, rfl⟩ := Option.map_eq_some_iff.mp hq
    exact (ih hrest :)

theorem Reach.knows (h : Reach a) : Knows a := by
  induction h with
  | init role tag tsn => rintro (h | h) <;> cases h
  | @call env c a _ ih =>
    cases c with
    | connect =>
      simp only [Sctp.call, connect]
      split
      · exact ih
      simp only [sendInit]
      split
      · rintro (h | h) <;> cases h
      · have hships : Ships _ a (shipPacket env a 0
          (chunkOf .init 0 (initValue a ++ forwardTsnSupported))).2 := shipPacket_ships _ _ _
        exact ih.of_state (.inl hships.keeps.1) hships.keeps.2
    | feed now p => exact feed_knows p ih
    | send now sid ppid data rel =>
      rcases send_cases env now a sid ppid data rel with h | ⟨q, hq, h⟩
      · rw [Sctp.call, h]
        exact ih
      rw [Sctp.call, h]
      obtain ⟨hst, hhave⟩ := enqueueLoop_keeps hq
      refine Knows.sending (ih.of_state (.inl ?_) ?_) (flushSend_sending now _)
      · cases rel.unordered <;> exact hst
      · cases rel.unordered <;> exact hhave
    | tick now => exact ih.sending (tick_sending now a)

/-! ## Associations that are as before -/

def OutChunk.content (o : OutChunk) : Nat × Bytes := (o.tsn, o.packet)

def Assoc.queue (a : Assoc) : List (Option (Nat × Bytes)) := a.outRing.map (Option.map OutChunk.content)

structure Transfer extends ReceiveSide where
  state : State
  peerRwnd : Nat
  advAckPoint : Nat
  queue : List (Option (Nat × Bytes))

def Assoc.transfer (a : Assoc) : Transfer :=
  ⟨a.receiveSide, a.state, a.peerRwnd, a.advAckPoint, a.queue⟩

def Kept (a b : Assoc) : Prop := b.transfer = a.transfer

theorem Kept.refl (a : Assoc) : Kept a a := rfl

theorem Kept.trans (h : Kept a b) (h' : Kept b c) : Kept a c := Eq.trans h' h

theorem Kept.state (h : Kept a b) : b.state = a.state := congrArg Transfer.state h

theorem Kept.side (h : Kept a b) : b.receiveSide = a.receiveSide := congrArg Transfer.toReceiveSide h

theorem Kept.of_ships {q} (h : Ships q a b) : Kept a b := by
  cases h <;> rfl

theorem Kept.before {q} (h : Kept a c) (hships : Ships q b c) : Kept a b :=
  Eq.trans (Kept.of_ships hships).symm h

def SkipsNothing (a : Assoc) (sid ssn : Nat) : Prop :=
  kSctpMaxStreams ≤ sid ∨
    (ssnAhead ((ssn + 1) % 2 ^ 16) (a.nextSsn sid) → a.setNextSsn sid ((ssn + 1) % 2 ^ 16) = a) ∧
      ∀ p, some p ∈ a.inPending → ¬(p.streamId = sid ∧ p.ssn = a.nextSsn sid)

def RepeatsInit (a : Assoc) (chunk : Bytes) : Prop :=
  chunk.length < 4 + 16 ∨
    rd32 chunk 4 ≠ 0 ∧ rd32 chunk 4 = a.peerTag ∧ rd32 chunk 8 = a.peerRwnd ∧
      rd32 chunk 16 = a.peerInitTsn ∧ tsnSub (rd32 chunk 16) 1 = a.cumAckIn

def RepeatsCookie (a : Assoc) (chunk : Bytes) : Prop :=
  ¬(rd16 chunk 2 < 4 + 16 ∨ chunk.length < 4 + 16) ∧ rd32 chunk 4 = a.localTag ∧
    rd32 chunk 8 = a.peerTag ∧ rd32 chunk 12 = a.peerInitTsn ∧ tsnSub (rd32 chunk 12) 1 = a.cumAckIn ∧
    rd32 chunk 16 = a.localInitTsn ∧ rd32 chunk 16 = a.nextTsn ∧ tsnSub (rd32 chunk 16) 1 = a.advAckPoint

def AcksNothing (a : Assoc) (chunk : Bytes) : Prop :=
  ∀ o, some o ∈ a.outRing → o.sent →
    ∀ t ∈ ackTests (rd32 chunk 4) (sackRanges chunk), t o = false

def NoEntrySkips (a : Assoc) (chunk : Bytes) : Prop :=
  ∀ k, 8 + 4 * k + 4 ≤ rd16 chunk 2 →
    SkipsNothing a (rd16 chunk (8 + 4 * k)) (rd16 chunk (8 + 4 * k + 2))

def SkipsNone (a : Assoc) (chunk : Bytes) : Prop :=
  chunk.length < 8 ∨ rd16 chunk 2 < 8 ∨ chunk.length < rd16 chunk 2 ∨
    tsnGt (rd32 chunk 4) a.cumAckIn = false ∧ NoEntrySkips a chunk

def NamesOnce (chunk : Bytes) : Prop :=
  ∀ i j, 8 + 4 * i + 4 ≤ rd16 chunk 2 → 8 + 4 * j + 4 ≤ rd16 chunk 2 →
    rd16 chunk (8 + 4 * i) = rd16 chunk (8 + 4 * j) → i = j

/-- A chunk that finds everything it would assign already there: an INIT and a
COOKIE-ECHO say what is so, a DATA chunk is a duplicate or out of the window, a
SACK acknowledges nothing and a FORWARD-TSN skips nothing. -/
def Inert (now : Nat) (a : Assoc) (chunk : Bytes) : Prop :=
  match ChunkType.ofCode (octet chunk 0) with
  | some .init => RepeatsInit a chunk
  | some .cookieEcho => RepeatsCookie a chunk
  | some .data => ∀ f, dataOf chunk = some f → recordReceived a f.tsn = none
  | some .sack =>
    chunk.length < 4 + 12 ∨
      AcksNothing a chunk ∧ rd32 chunk 8 = a.peerRwnd ∧ tsnGt (rd32 chunk 4) a.advAckPoint = false ∧
        (takeSack now a chunk).1 = false
  | some .forwardTsn => SkipsNone a chunk
  | some .abort => False
  | some .initAck => True
  | some .cookieAck => True
  | none => True

/-- The chunks for which this is known to be all there is: a SACK that makes no
chunk miss for the third time, and a FORWARD-TSN that names a stream once. -/
def Plain (now : Nat) (a : Assoc) (chunk : Bytes) : Prop :=
  match ChunkType.ofCode (octet chunk 0) with
  | some .sack => (takeSack now a chunk).1 = false
  | some .forwardTsn => a.cumAckIn < 2 ^ 32 ∧ NamesOnce chunk
  | _ => True

/-- At most the reply to the handshake chunk is shipped, and all else is as before. -/
def OnlyReplies (env : Env) (a : Assoc) : ChunkType → Assoc → Prop
  | .init, b => Ships (framePacket env a.peerTag (initAckChunk a)) a b
  | .cookieEcho, b => Ships (framePacket env a.peerTag (chunkOf .cookieAck 0 [])) a b
  | _, b => b = a

/-! ## The handshake chunks -/

theorem become_self {st} (h : a.state = st) : a.become st = a := by rw [Assoc.become, ← h]

theorem become_failed_not_kept (hest : a.state = .established) : ¬Kept a (a.become .failed) := by
  intro h
  have hst : State.failed = a.state := h.state
  rw [hest] at hst
  cases hst

section
variable (hest : a.state = .established)
include hest

theorem RepeatsInit.of_kept (h : Kept a (handleInit env a chunk)) : RepeatsInit a chunk := by
  unfold handleInit at h
  split at h
  · exact .inl ‹_›
  split at h
  · exact absurd h (become_failed_not_kept hest)
  rename_i hzero
  have hships : Ships _ _ (sendInitAck env a (rd32 chunk 4) (rd32 chunk 16) (rd32 chunk 8)) :=
    shipPacket_ships _ _ _
  have hset : Kept a (a.setPeer (rd32 chunk 4) (rd32 chunk 16) (rd32 chunk 8)) := h.before hships
  exact .inr ⟨hzero, congrArg (·.peerTag) hset, congrArg (·.peerRwnd) hset,
    congrArg (·.peerInitTsn) hset, congrArg (·.cumAckIn) hset⟩

theorem RepeatsCookie.of_kept (h : Kept a (handleCookieEcho env a chunk)) : RepeatsCookie a chunk := by
  unfold handleCookieEcho at h
  split at h
  · exact absurd h (become_failed_not_kept hest)
  split at h
  · exact absurd h (become_failed_not_kept hest)
  rename_i hlong htag
  have hships : Ships _ _ (sendCookieAck env
      (a.restore (rd32 chunk 8) (rd32 chunk 12) (rd32 chunk 16))) := shipPacket_ships _ _ _
  rw [become_self ((Kept.of_ships hships).state.trans hest)] at h
  have hset : Kept a (a.restore (rd32 chunk 8) (rd32 chunk 12) (rd32 chunk 16)) := h.before hships
  exact ⟨hlong, not_not.mp htag, congrArg (·.peerTag) hset, congrArg (·.peerInitTsn) hset,
    congrArg (·.cumAckIn) hset, congrArg (·.localInitTsn) hset, congrArg (·.nextTsn) hset,
    congrArg (·.advAckPoint) hset⟩

theorem handleInitAck_kept : handleInitAck env a chunk = a := by
  rw [handleInitAck, if_pos (.inr (by simp [hest]))]

theorem handleCookieAck_kept : handleCookieAck a = a := by
  rw [handleCookieAck, if_neg (by simp [hest])]

variable (hhave : a.haveCumAck)
include hhave

theorem RepeatsCookie.replies (h : RepeatsCookie a chunk) :
    OnlyReplies env a .cookieEcho (handleCookieEcho env a chunk) := by
  obtain ⟨hlong, htag, hpeer, hptsn, hcum, hltsn, hnext, hadv⟩ := h
  have hsame : a.restore (rd32 chunk 8) (rd32 chunk 12) (rd32 chunk 16) = a := by
    rw [Assoc.restore, hadv, hcum, hpeer, hptsn, ← hhave]
    nth_rewrite 1 [hnext]
    rw [hltsn]
  rw [handleCookieEcho, if_neg hlong, if_neg (not_not.mpr htag), hsame]
  have hships : OnlyReplies env a .cookieEcho (sendCookieAck env a) := shipPacket_ships _ _ _
  rwa [become_self ((Kept.of_ships hships).state.trans hest)]

end

theorem RepeatsInit.replies (hhave : a.haveCumAck) (h : RepeatsInit a chunk) :
    OnlyReplies env a .init (handleInit env a chunk) := by
  unfold handleInit
  rcases h with h | ⟨hzero, htag, hrwnd, htsn, hcum⟩
  · rw [if_pos h]
    exact .nothing
  split
  · exact .nothing
  have hsame : a.setPeer (rd32 chunk 4) (rd32 chunk 16) (rd32 chunk 8) = a := by
    rw [Assoc.setPeer, hcum, htag, htsn, hrwnd, ← hhave]
  simp only [sendInitAck, hsame]
  exact shipPacket_ships _ _ _

/-! ### DATA -/

theorem frontRun_ge (bit : Nat → Bool) (n i : Nat) : i ≤ frontRun bit n i ∧ frontRun bit n i ≤ i + n := by
  induction n generalizing i with
  | zero => exact ⟨Nat.le_refl _, Nat.le_refl _⟩
  | succ n ih =>
    rw [frontRun]
    split
    · have := ih (i + 1)
      omega
    · omega

theorem advanceCumAck_tsnSide (hhave : b.haveCumAck = a.haveCumAck) (h : b.tsnSide = a.tsnSide) :
    (advanceCumAck b).tsnSide = (advanceCumAck a).tsnSide := by
  obtain ⟨hcum, hbits⟩ := Prod.mk.inj h
  simp only [advanceCumAck, hhave, hbits, hcum]
  split
  · exact h
  · rfl

theorem acceptData_advances {f} (hlive : (acceptData env a f).state ≠ .failed) :
    (acceptData env a f).tsnSide = (advanceCumAck a).tsnSide := by
  simp only [acceptData] at hlive ⊢
  split
  · exact ((onFullMessage_delivering _ _ _).trans (drainSack_delivering _)).tsns
  rename_i hpart
  rw [if_neg hpart] at hlive
  split
  · rename_i hfail
    rw [if_pos hfail] at hlive
    exact absurd hfail hlive
  · have hin : Delivering env a (ingestFragment env a f) := ingestFragment_delivering a f
    exact (drainSack_delivering _).tsns.trans
      (advanceCumAck_tsnSide (congrArg Prod.fst hin.side) hin.tsns)

theorem advance_recorded_ne {tsn} (h : recordReceived a tsn = some b) :
    (advanceCumAck b).tsnSide ≠ a.tsnSide := by
  obtain ⟨hhave, -, hoff, hbit, rfl⟩ := recordReceived_eq_some.mp h
  generalize tsnSub (tsnSub tsn a.cumAckIn) 1 = off at *
  have hset : (a.setTsns a.cumAckIn (a.recvBitmap ||| BitVec.twoPow kRecvWindow off)).haveCumAck := hhave
  rw [advanceCumAck_eq hset]
  intro hsame
  obtain ⟨hcum, hbits⟩ := Prod.mk.inj hsame
  simp only [Assoc.setTsns] at hcum hbits
  have hrun := (frontRun_ge (a.recvBitmap ||| BitVec.twoPow kRecvWindow off).getLsbD kRecvWindow 0).2
  generalize frontRun (a.recvBitmap ||| BitVec.twoPow kRecvWindow off).getLsbD kRecvWindow 0 = run at *
  have hk : kRecvWindow = 4096 := rfl
  have hzero : run = 0 := by
    unfold tsnAdd at hcum
    omega
  subst hzero
  have hset' : (a.recvBitmap ||| BitVec.twoPow kRecvWindow off).getLsbD off := by simp [hoff]
  rw [BitVec.ushiftRight_zero] at hbits
  rw [hbits, hbit] at hset'
  cases hset'

theorem handleData_kept_iff (hest : a.state = .established) :
    Kept a (handleData env a chunk) ↔ ∀ f, dataOf chunk = some f → recordReceived a f.tsn = none := by
  unfold handleData
  split
  · rename_i hnone
    exact iff_of_true (.refl a) fun f hf => by rw [hnone] at hf; cases hf
  rename_i f hf
  split
  · rename_i hrec
    refine iff_of_true (.of_ships (sendSack_ships a)) fun g hg => ?_
    rw [hf] at hg
    cases hg
    exact hrec
  rename_i b hrec
  refine iff_of_false (fun h => ?_) fun h => by rw [h f hf] at hrec; cases hrec
  have hlive : (acceptData env b f).state ≠ .failed := by
    rw [h.state, hest]
    decide
  refine advance_recorded_ne hrec ?_
  rw [← acceptData_advances hlive]
  exact Prod.ext (congrArg (·.cumAckIn) h) (congrArg (·.recvBitmap) h)

/-! ### SACK and FORWARD-TSN -/

theorem queue_set {i o o'} (hring : b.outRing = a.outRing.set i (some o'))
    (hget : a.outRing[i]? = some (some o)) (h : SameChunk o o') : b.queue = a.queue := by
  have hcontent : Option.map OutChunk.content (some o') = Option.map OutChunk.content (some o) := by
    simp only [Option.map_some, OutChunk.content, h.1, h.2.1]
  rw [Assoc.queue, Assoc.queue, hring, map_set, hcontent]
  refine ext_getElem? fun j => ?_
  rw [List.getElem?_set]
  split
  · rename_i hij
    subst hij
    split
    · rw [List.getElem?_map, hget]
      rfl
    · rename_i hlen
      rw [List.getElem?_eq_none (by omega)]
  · rfl

theorem launch_ring (a : Assoc) (now i : Nat) (o : OutChunk) : (a.launch now i o).outRing =
    a.outRing.set i (some { o with sent := true, sentAtMs := now, rttPending := true }) := by
  simp only [Assoc.launch]
  split <;> rfl

theorem launch_kept {i o} (hget : a.outRing[i]? = some (some o)) : Kept a (a.launch now i o) := by
  have hqueue := queue_set (launch_ring a now i o) hget ⟨rfl, rfl, rfl⟩
  unfold Kept Assoc.transfer
  rw [hqueue]
  simp only [Assoc.launch]
  split <;> rfl

theorem flushSend_kept (a : Assoc) : Kept a (flushSend env now a) :=
  flushSend_induction (fun _ _ _ h => h.trans (.of_ships (emit_ships _ _)))
    (fun _ _ _ hget h => h.trans (launch_kept hget)) (.refl a)

theorem ackWhere_none {t} (h : ∀ o, some o ∈ a.outRing → (o.sent && t o) = false) :
    ackWhere now a t = ([], a) := by
  have hnil : (a.outRing.filterMap id).filter (fun o => o.sent && t o) = [] := by
    refine filter_eq_nil_iff.mpr fun o ho => ?_
    obtain ⟨x, hx, hxo⟩ := mem_filterMap.mp ho
    cases hxo
    simp [h o hx]
  simp only [ackWhere, hnil, Slots.freeWhere_eq_self h]
  rfl

theorem ackAll_none {tests} (h : ∀ o, some o ∈ a.outRing → o.sent → ∀ t ∈ tests, t o = false) :
    ackAll now a tests = ([], a) := by
  unfold ackAll
  induction tests with
  | nil => rfl
  | cons t tests ih =>
    have hwhere : ackWhere now a t = ([], a) := by
      refine ackWhere_none fun o ho => ?_
      cases hsent : o.sent with
      | false => rfl
      | true => exact h o ho hsent t mem_cons_self
    rw [foldl_cons, hwhere]
    exact ih fun o ho hs t' ht' => h o ho hs t' (mem_cons_of_mem _ ht')

def ackFrom (now : Nat) (r : List OutChunk × Assoc) (tests : List (OutChunk → Bool)) :
    List OutChunk × Assoc :=
  tests.foldl (fun r p => (r.1 ++ (ackWhere now r.2 p).1, (ackWhere now r.2 p).2)) r

theorem ackFrom_used (tests : List (OutChunk → Bool)) (r : List OutChunk × Assoc) :
    Slots.used (ackFrom now r tests).2.outRing ≤ Slots.used r.2.outRing := by
  induction tests generalizing r with
  | nil => exact Nat.le_refl _
  | cons t tests ih => exact Nat.le_trans (ih _) Slots.used_freeWhere_le

theorem eq_false_of_ackFrom {tests} {r : List OutChunk × Assoc}
    (h : Slots.used r.2.outRing ≤ Slots.used (ackFrom now r tests).2.outRing) :
    ∀ o, some o ∈ r.2.outRing → o.sent → ∀ t ∈ tests, t o = false := by
  induction tests generalizing r with
  | nil => exact fun _ _ _ _ ht => by cases ht
  | cons t tests ih =>
    have hfirst : ∀ o, some o ∈ r.2.outRing → (o.sent && t o) = false := fun o ho =>
      Slots.eq_false_of_used (p := fun o => o.sent && t o) (Nat.le_trans h (ackFrom_used tests _)) ho
    have hnone : ackWhere now r.2 t = ([], r.2) := ackWhere_none hfirst
    intro o ho hsent t' ht'
    rcases mem_cons.mp ht' with rfl | ht'
    · simpa [hsent] using hfirst o ho
    have hrest := ih (r := (r.1 ++ (ackWhere now r.2 t).1, (ackWhere now r.2 t).2)) (by
      rw [hnone]
      simpa only [ackFrom, foldl_cons, hnone] using h)
    rw [hnone] at hrest
    exact hrest o ho hsent t' ht'

theorem used_eq_of_queue (h : b.queue = a.queue) : Slots.used b.outRing = Slots.used a.outRing := by
  have hcount := congrArg (countP Option.isSome) h
  simpa only [Assoc.queue, Slots.used, countP_map, Function.comp_def, Option.isSome_map] using hcount

theorem takeSack_used : Slots.used (takeSack now a chunk).2.outRing = Slots.used (ackAll now
    ((setRwnd a (rd32 chunk 8)).note (.sacked (rd32 chunk 4) (sackRanges chunk)))
    (ackTests (rd32 chunk 4) (sackRanges chunk))).2.outRing := by
  have hmissed : ∀ highest b, Slots.used (countMisses highest b).2.outRing = Slots.used b.outRing := by
    intro highest b
    simp only [countMisses, Assoc.setRing, Slots.used, countP_map, Function.comp_def, Option.isSome_map]
  have hgrown : ∀ acked b, (growCwnd now acked b).outRing = b.outRing := by
    intro acked b
    simp only [growCwnd]
    split <;> rfl
  simp only [takeSack]
  split
  · exact hmissed _ _
  · rw [hgrown, hmissed]

theorem takeSack_transfer (h : AcksNothing a chunk) :
    (takeSack now a chunk).2.transfer = { a.transfer with peerRwnd := rd32 chunk 8 } := by
  have hacks : ackAll now ((setRwnd a (rd32 chunk 8)).note (.sacked (rd32 chunk 4)
      (sackRanges chunk))) (ackTests (rd32 chunk 4) (sackRanges chunk)) = ([], _) := ackAll_none h
  simp only [takeSack, hacks, isEmpty_nil, if_true]
  have hqueue : ∀ highest b, (countMisses highest b).2.queue = b.queue := by
    intro highest b
    simp only [Assoc.queue, countMisses, Assoc.setRing, map_map]
    refine map_congr_left fun o _ => ?_
    cases o with
    | none => rfl
    | some o =>
      simp only [Function.comp_apply, Option.map_some]
      split <;> rfl
  rw [Assoc.transfer, hqueue]
  rfl

theorem skipTo_transfer (t : Nat) : (a.skipTo t).transfer =
    { a.transfer with advAckPoint := if tsnGt t a.advAckPoint then t else a.advAckPoint } := by
  unfold Assoc.skipTo
  split <;> rfl

theorem handleSack_kept_iff (hplain : (takeSack now a chunk).1 = false) :
    Kept a (handleSack env now a chunk) ↔ chunk.length < 4 + 12 ∨ AcksNothing a chunk ∧
      rd32 chunk 8 = a.peerRwnd ∧ tsnGt (rd32 chunk 4) a.advAckPoint = false := by
  unfold handleSack
  split
  · exact iff_of_true (.refl a) (.inl ‹_›)
  rename_i hlen
  simp only [hplain, Bool.false_eq_true, if_false, hlen, false_or]
  have hflush : Kept a (flushSend env now ((takeSack now a chunk).2.skipTo (rd32 chunk 4))) ↔
      Kept a ((takeSack now a chunk).2.skipTo (rd32 chunk 4)) :=
    ⟨fun h => (flushSend_kept _).symm.trans h, fun h => h.trans (flushSend_kept _)⟩
  rw [hflush, Kept, skipTo_transfer]
  -- a chunk acknowledged is a slot less, and flushing takes none
  have hnothing : (takeSack now a chunk).2.queue = a.queue → AcksNothing a chunk := by
    intro h
    have hused := takeSack_used.symm.trans (used_eq_of_queue h)
    exact eq_false_of_ackFrom (r := ([], (setRwnd a (rd32 chunk 8)).note
      (.sacked (rd32 chunk 4) (sackRanges chunk)))) (Nat.le_of_eq hused.symm)
  constructor
  · intro h
    have hacks := hnothing (congrArg Transfer.queue h)
    have hadv : (takeSack now a chunk).2.advAckPoint = a.advAckPoint :=
      congrArg Transfer.advAckPoint (takeSack_transfer hacks)
    rw [takeSack_transfer hacks, hadv] at h
    refine ⟨hacks, congrArg (·.peerRwnd) h, Bool.not_eq_true _ ▸ fun hgt => ?_⟩
    have hsame : (if tsnGt (rd32 chunk 4) a.advAckPoint then rd32 chunk 4 else a.advAckPoint) =
        a.advAckPoint := congrArg (·.advAckPoint) h
    rw [if_pos hgt] at hsame
    simp [hsame, tsnGt, tsnLt, tsnSub] at hgt
  rintro ⟨hacks, hrwnd, hle⟩
  have hadv : (takeSack now a chunk).2.advAckPoint = a.advAckPoint :=
    congrArg Transfer.advAckPoint (takeSack_transfer hacks)
  rw [takeSack_transfer hacks, hadv, hle, hrwnd]
  rfl

/-! ### FORWARD-TSN -/

theorem recordRange_bit {steps k} (h : a.recvBitmap.getLsbD 0) :
    (recordRange steps k a).recvBitmap.getLsbD 0 := by
  induction steps generalizing k a with
  | zero => exact h
  | succ steps ih =>
    rw [recordRange]
    refine ih ?_
    cases hrec : recordReceived a (tsnAdd a.cumAckIn k) with
    | none => exact h
    | some b =>
      obtain ⟨-, -, -, -, rfl⟩ := recordReceived_eq_some.mp hrec
      simp [Assoc.setTsns, h]

theorem recordRange_cum (steps k : Nat) (a : Assoc) :
    (recordRange steps k a).cumAckIn = a.cumAckIn := by
  induction steps generalizing k a with
  | zero => rfl
  | succ steps ih =>
    rw [recordRange, ih]
    cases hrec : recordReceived a (tsnAdd a.cumAckIn k) with
    | none => rfl
    | some b =>
      obtain ⟨-, -, -, -, rfl⟩ := recordReceived_eq_some.mp hrec
      rfl

theorem skipTsn_moves {t} (hhave : a.haveCumAck) (hcum : a.cumAckIn < 2 ^ 32) (ht : t < 2 ^ 32)
    (h : tsnGt t a.cumAckIn) : (skipTsn a t).cumAckIn ≠ a.cumAckIn := by
  have hspan : tsnSub t a.cumAckIn ≠ 0 := by
    rw [tsnGt, tsnLt_iff] at h
    unfold tsnSub at h ⊢
    omega
  obtain ⟨n, hn⟩ : ∃ n, min (tsnSub t a.cumAckIn) kRecvWindow = n + 1 :=
    ⟨min (tsnSub t a.cumAckIn) kRecvWindow - 1, by simp only [kRecvWindow]; omega⟩
  have hbit : (recordRange (n + 1) 1 a).recvBitmap.getLsbD 0 := by
    rw [recordRange]
    refine recordRange_bit ?_
    -- the next TSN is at offset zero of the window
    have hoff : tsnSub (tsnSub (tsnAdd a.cumAckIn 1) a.cumAckIn) 1 = 0 := by
      unfold tsnAdd tsnSub
      omega
    have hle : tsnLe (tsnAdd a.cumAckIn 1) a.cumAckIn = false := by
      rw [← Bool.not_eq_true, tsnLe_iff]
      unfold tsnAdd tsnSub
      omega
    cases hrec : recordReceived a (tsnAdd a.cumAckIn 1) with
    | none =>
      by_contra hclear
      rw [Option.getD_none, Bool.not_eq_true, ← hoff] at hclear
      have hsome := recordReceived_eq_some.mpr ⟨hhave, hle, by rw [hoff]; decide, hclear, rfl⟩
      rw [hrec] at hsome
      cases hsome
    | some b =>
      obtain ⟨-, -, -, -, rfl⟩ := recordReceived_eq_some.mp hrec
      have hpos : 0 < kRecvWindow := by decide
      simp [Assoc.setTsns, hoff, hpos]
  have hrec : Receiving ⟨fun _ => 0, fun _ => true⟩ a (recordRange (n + 1) 1 a) :=
    recordRange_receiving (n + 1) 1 a
  have hhave' : (recordRange (n + 1) 1 a).haveCumAck :=
    (congrArg Prod.fst hrec.side).trans hhave
  simp only [skipTsn, h, if_true, hn, advanceCumAck_eq hhave', Assoc.setFrags, Assoc.setTsns,
    recordRange_cum]
  have hrun := (frontRun_ge (recordRange (n + 1) 1 a).recvBitmap.getLsbD kRecvWindow 0).2
  have hfirst : ∀ bit : Nat → Bool, bit 0 → 1 ≤ frontRun bit (4095 + 1) 0 := by
    intro bit hb
    rw [frontRun, if_pos hb]
    exact (frontRun_ge _ _ _).1
  have hone := hfirst _ hbit
  have hk : kRecvWindow = 4095 + 1 := rfl
  rw [← hk] at hone
  generalize frontRun (recordRange (n + 1) 1 a).recvBitmap.getLsbD kRecvWindow 0 = run at *
  unfold tsnAdd
  omega

theorem deliverLoop_none {sid} (fuel : Nat) (h : Slots.find (fun p : InPending =>
    p.streamId == sid && p.ssn == a.nextSsn sid) a.inPending = none) : deliverLoop sid fuel a = a := by
  cases fuel with
  | zero => rfl
  | succ fuel => simp only [deliverLoop, h]

theorem deliverLoop_frame (sid fuel : Nat) (a : Assoc) :
    Slots.used (deliverLoop sid fuel a).inPending ≤ Slots.used a.inPending ∧
      ∀ j, j ≠ sid → (deliverLoop sid fuel a).inNextSsn[j]? = a.inNextSsn[j]? := by
  induction fuel generalizing a with
  | zero => exact ⟨Nat.le_refl _, fun _ _ => rfl⟩
  | succ fuel ih =>
    rw [deliverLoop]
    split
    · exact ⟨Nat.le_refl _, fun _ _ => rfl⟩
    rename_i p hp
    obtain ⟨hused, hother⟩ := ih (((a.handOver p.message).freeSlab).setPending
      (Slots.freeFirst (fun p => p.streamId == sid && p.ssn == a.nextSsn sid) a.inPending))
    refine ⟨Nat.le_trans hused (Nat.le_of_lt (Slots.used_freeFirst hp)), fun j hj => (hother j hj).trans ?_⟩
    have hsid : p.streamId = sid := by
      have hready := (Slots.mem_find hp).2
      simp only [Bool.and_eq_true, beq_iff_eq] at hready
      exact hready.1
    have hne : ¬p.message.streamId = j := fun h => hj (h.symm.trans hsid)
    simp only [Assoc.setPending, Assoc.freeSlab, Assoc.handOver, Assoc.setNextSsn, Assoc.note,
      List.getElem?_set, if_neg hne]

theorem deliverOrdered_used {sid p} (h : Slots.find (fun p : InPending =>
      p.streamId == sid && p.ssn == a.nextSsn sid) a.inPending = some p) :
    Slots.used (deliverOrdered sid a).inPending < Slots.used a.inPending := by
  unfold deliverOrdered
  obtain ⟨n, hn⟩ : ∃ n, a.inPending.length = n + 1 :=
    ⟨a.inPending.length - 1, by have := length_pos_of_mem (Slots.mem_find h).1; omega⟩
  rw [hn, deliverLoop, h]
  exact Nat.lt_of_le_of_lt (deliverLoop_frame _ _ _).1 (Slots.used_freeFirst h)

def aimed (a : Assoc) (sid ssn : Nat) : Assoc :=
  if ssnAhead ((ssn + 1) % 2 ^ 16) (a.nextSsn sid) then a.setNextSsn sid ((ssn + 1) % 2 ^ 16) else a

theorem aimed_frame (a : Assoc) (sid ssn : Nat) : (aimed a sid ssn).inPending = a.inPending ∧
    ∀ j, j ≠ sid → (aimed a sid ssn).inNextSsn[j]? = a.inNextSsn[j]? := by
  unfold aimed
  split
  · refine ⟨rfl, fun j hj => ?_⟩
    simp only [Assoc.setNextSsn, List.getElem?_set, if_neg hj.symm]
  · exact ⟨rfl, fun _ _ => rfl⟩

theorem skipSsn_frame (a : Assoc) (sid ssn : Nat) :
    Slots.used (skipSsn a sid ssn).inPending ≤ Slots.used a.inPending ∧
      ∀ j, j ≠ sid → (skipSsn a sid ssn).inNextSsn[j]? = a.inNextSsn[j]? := by
  obtain ⟨hpend, hnext⟩ := aimed_frame a sid ssn
  obtain ⟨hused, hother⟩ := deliverLoop_frame sid (aimed a sid ssn).inPending.length (aimed a sid ssn)
  unfold skipSsn
  split
  · exact ⟨hpend ▸ hused, fun j hj => (hother j hj).trans (hnext j hj)⟩
  · exact ⟨Nat.le_refl _, fun _ _ => rfl⟩

theorem skipLoop_frame (chunk : Bytes) (len fuel off : Nat) (a : Assoc) :
    Slots.used (skipLoop chunk len fuel off a).inPending ≤ Slots.used a.inPending ∧
      ∀ sid, (∀ k, off + 4 * k + 4 ≤ len → rd16 chunk (off + 4 * k) ≠ sid) →
        (skipLoop chunk len fuel off a).inNextSsn[sid]? = a.inNextSsn[sid]? := by
  induction fuel generalizing off a with
  | zero => exact ⟨Nat.le_refl _, fun _ _ => rfl⟩
  | succ fuel ih =>
    rw [skipLoop]
    split
    · rename_i hoff
      obtain ⟨hused, hother⟩ := ih (off + 4) (skipSsn a (rd16 chunk off) (rd16 chunk (off + 2)))
      obtain ⟨hused', hother'⟩ := skipSsn_frame a (rd16 chunk off) (rd16 chunk (off + 2))
      refine ⟨Nat.le_trans hused hused', fun sid hsid => ?_⟩
      rw [hother sid fun k hk => ?_, hother' sid (hsid 0 hoff).symm]
      have hshift : off + 4 + 4 * k = off + 4 * (k + 1) := by omega
      rw [hshift] at hk ⊢
      exact hsid (k + 1) hk
    · exact ⟨Nat.le_refl _, fun _ _ => rfl⟩

theorem skipSsn_nothing {sid ssn} (h : SkipsNothing a sid ssn) : skipSsn a sid ssn = a := by
  unfold skipSsn
  split
  · rename_i hsid
    obtain ⟨hahead, hready⟩ := h.resolve_left (by omega)
    have haim : aimed a sid ssn = a := by
      unfold aimed
      split
      · exact hahead ‹_›
      · rfl
    have hnone : Slots.find (fun p : InPending => p.streamId == sid && p.ssn == a.nextSsn sid)
        a.inPending = none := by
      refine Slots.find_eq_none.mpr fun p hp => ?_
      have := hready p hp
      simp only [Bool.and_eq_false_iff, beq_eq_false_iff_ne]
      tauto
    change deliverOrdered sid (aimed a sid ssn) = a
    rw [haim, deliverOrdered, deliverLoop_none _ hnone]
  · rfl

theorem SkipsNothing.of_frame {sid ssn} (hused : Slots.used a.inPending ≤ Slots.used (skipSsn a sid ssn).inPending)
    (hnext : (skipSsn a sid ssn).inNextSsn[sid]? = a.inNextSsn[sid]?) : SkipsNothing a sid ssn := by
  by_cases hsid : sid < kSctpMaxStreams
  swap
  · exact .inl (by omega)
  have hskip : skipSsn a sid ssn = deliverOrdered sid (aimed a sid ssn) := by
    rw [skipSsn, if_pos hsid, aimed]
  rw [hskip] at hused hnext
  obtain ⟨hpend, hother⟩ := aimed_frame a sid ssn
  have hnone : Slots.find (fun p : InPending => p.streamId == sid && p.ssn == (aimed a sid ssn).nextSsn sid)
      (aimed a sid ssn).inPending = none := by
    by_contra hsome
    obtain ⟨p, hp⟩ := Option.ne_none_iff_exists'.mp hsome
    have hlt := deliverOrdered_used hp
    rw [hpend] at hlt
    omega
  rw [deliverOrdered, deliverLoop_none _ hnone] at hnext
  have hsame : (aimed a sid ssn).inNextSsn = a.inNextSsn := by
    refine ext_getElem? fun j => ?_
    by_cases hj : j = sid
    · exact hj ▸ hnext
    · exact hother j hj
  have haim : ssnAhead ((ssn + 1) % 2 ^ 16) (a.nextSsn sid) →
      a.setNextSsn sid ((ssn + 1) % 2 ^ 16) = a := by
    intro hahead
    rw [aimed, if_pos hahead] at hsame
    have hset : a.inNextSsn.set sid ((ssn + 1) % 2 ^ 16) = a.inNextSsn := hsame
    rw [Assoc.setNextSsn, hset]
  refine .inr ⟨haim, fun p hp hnamed => ?_⟩
  have hready := Slots.find_eq_none.mp hnone p (hpend ▸ hp)
  rw [Assoc.nextSsn, hsame] at hready
  simp [hnamed.1, hnamed.2, Assoc.nextSsn] at hready

theorem skipLoop_nothing (hskip : NoEntrySkips a chunk) (fuel k : Nat) :
    skipLoop chunk (rd16 chunk 2) fuel (8 + 4 * k) a = a := by
  induction fuel generalizing k with
  | zero => rfl
  | succ fuel ih =>
    rw [skipLoop]
    split
    · rename_i hoff
      rw [skipSsn_nothing (hskip k hoff)]
      exact ih (k + 1)
    · rfl

theorem skipsNothing_of_skipLoop (honce : NamesOnce chunk) (fuel k : Nat) (hfuel : rd16 chunk 2 < 8 + 4 * (k + fuel) + 4)
    (hpend : Slots.used a.inPending ≤
      Slots.used (skipLoop chunk (rd16 chunk 2) fuel (8 + 4 * k) a).inPending)
    (hnext : (skipLoop chunk (rd16 chunk 2) fuel (8 + 4 * k) a).inNextSsn = a.inNextSsn) :
    ∀ j, k ≤ j → 8 + 4 * j + 4 ≤ rd16 chunk 2 →
      SkipsNothing a (rd16 chunk (8 + 4 * j)) (rd16 chunk (8 + 4 * j + 2)) := by
  induction fuel generalizing k with
  | zero => exact fun j hk hj => by omega
  | succ fuel ih =>
    intro j hk hj
    have hoff : 8 + 4 * k + 4 ≤ rd16 chunk 2 := by omega
    rw [skipLoop, if_pos hoff] at hpend hnext
    have hrest := skipLoop_frame chunk (rd16 chunk 2) fuel (8 + 4 * k + 4)
      (skipSsn a (rd16 chunk (8 + 4 * k)) (rd16 chunk (8 + 4 * k + 2)))
    have hone : SkipsNothing a (rd16 chunk (8 + 4 * k)) (rd16 chunk (8 + 4 * k + 2)) := by
      refine .of_frame (Nat.le_trans hpend hrest.1) ?_
      rw [← hrest.2 _ fun i hi heq => ?_, hnext]
      have hshift : 8 + 4 * k + 4 + 4 * i = 8 + 4 * (k + 1 + i) := by omega
      rw [hshift] at hi heq
      have := honce _ _ hi hoff heq
      omega
    rcases Nat.eq_or_lt_of_le hk with rfl | hlt
    · exact hone
    · rw [skipSsn_nothing hone] at hpend hnext
      exact ih (k + 1) (by omega) hpend hnext j hlt hj

theorem skipLoop_cum (env : Env) (chunk : Bytes) (len fuel off : Nat) (a : Assoc) :
    (skipLoop chunk len fuel off a).cumAckIn = a.cumAckIn := by
  have htsns : (skipLoop chunk len fuel off a).tsnSide = a.tsnSide :=
    skipLoop_induction (I := fun b => b.tsnSide = a.tsnSide)
      (fun b m _ h => (deliver_delivering b m _ : Delivering env b _).tsns.trans h)
      (fun b sid n h => Eq.trans (b := b.tsnSide) rfl h) fuel off rfl
  exact congrArg Prod.fst htsns

theorem handleForwardTsn_kept (h : SkipsNone a chunk) : Kept a (handleForwardTsn env a chunk) := by
  simp only [handleForwardTsn]
  split
  · exact .refl a
  rename_i hlen
  split
  · exact .refl a
  rename_i hclen
  split
  · exact .refl a
  obtain ⟨hcum, hskip⟩ := ((h.resolve_left hlen).resolve_left fun hc => hclen (.inl hc)).resolve_left
    fun hc => hclen (.inr hc)
  have htsn : skipTsn a (rd32 chunk 4) = a := by
    simp only [skipTsn, hcum, Bool.false_eq_true, if_false]
  rw [htsn, skipLoop_nothing hskip _ 0]
  exact .of_ships (sendSack_ships a)

theorem noSkips_of_kept (hhave : a.haveCumAck) (hcum : a.cumAckIn < 2 ^ 32)
    (honce : NamesOnce chunk) (h : Kept a (handleForwardTsn env a chunk)) : SkipsNone a chunk := by
  simp only [handleForwardTsn, hhave, Bool.not_true, Bool.false_eq_true, if_false] at h
  split at h
  · exact .inl ‹_›
  split at h
  · rename_i hclen
    exact .inr (hclen.imp_right .inl)
  have hloop : Kept a (skipLoop chunk (rd16 chunk 2) (rd16 chunk 2) 8 (skipTsn a (rd32 chunk 4))) :=
    h.before (sendSack_ships _)
  have hle : tsnGt (rd32 chunk 4) a.cumAckIn = false := by
    rw [← Bool.not_eq_true]
    intro hgt
    have hsame := congrArg ReceiveSide.cumAckIn hloop.side
    exact skipTsn_moves hhave hcum (rd32_lt chunk 4) hgt ((skipLoop_cum env _ _ _ _ _).symm.trans hsame)
  have htsn : skipTsn a (rd32 chunk 4) = a := by
    simp only [skipTsn, hle, Bool.false_eq_true, if_false]
  rw [htsn] at hloop
  have hpend := congrArg (·.inPending) hloop.side
  refine .inr (.inr (.inr ⟨hle, fun k hk => ?_⟩))
  exact skipsNothing_of_skipLoop honce _ 0 (by omega) (Nat.le_of_eq (congrArg Slots.used hpend).symm)
    (congrArg (·.inNextSsn) hloop.side) k (Nat.zero_le k) hk

theorem handleChunk_kept (hest : a.state = .established) (hhave : a.haveCumAck)
    (h : Inert now a chunk) : Kept a (handleChunk env now a chunk) := by
  unfold Inert at h
  unfold handleChunk
  generalize ChunkType.ofCode (octet chunk 0) = t at h ⊢
  cases t with
  | none => exact .refl a
  | some t =>
    cases t with
    | init => exact .of_ships (h.replies hhave)
    | cookieEcho => exact .of_ships (h.replies hest hhave)
    | data => exact (handleData_kept_iff hest).mpr h
    | sack =>
      by_cases hlen : chunk.length < 4 + 12
      · rw [handleSack, if_pos hlen]
        exact .refl a
      · obtain ⟨hacks, hrwnd, hadv, hplain⟩ := h.resolve_left hlen
        exact (handleSack_kept_iff hplain).mpr (.inr ⟨hacks, hrwnd, hadv⟩)
    | forwardTsn => exact handleForwardTsn_kept h
    | abort => exact h.elim
    | initAck =>
      rw [handleInitAck_kept hest]
      exact .refl a
    | cookieAck =>
      rw [handleCookieAck_kept hest]
      exact .refl a

theorem inert_of_kept (hest : a.state = .established) (hhave : a.haveCumAck)
    (hplain : Plain now a chunk) (h : Kept a (handleChunk env now a chunk)) : Inert now a chunk := by
  unfold Plain at hplain
  unfold Inert
  unfold handleChunk at h
  generalize ChunkType.ofCode (octet chunk 0) = t at h hplain ⊢
  cases t with
  | none => trivial
  | some t =>
    cases t with
    | init => exact .of_kept hest h
    | cookieEcho => exact .of_kept hest h
    | data => exact (handleData_kept_iff hest).mp h
    | sack =>
      exact ((handleSack_kept_iff hplain).mp h).imp_right fun h => ⟨h.1, h.2.1, h.2.2, hplain⟩
    | forwardTsn => exact noSkips_of_kept hhave hplain.1 hplain.2 h
    | abort => exact become_failed_not_kept hest h
    | initAck => trivial
    | cookieAck => trivial

/-! ## Whole packets -/

/-- Each chunk of the packet `feed` gets to is inert where it gets to it. -/
def HarmlessLoop (env : Env) (now : Nat) : Nat → Assoc → Bytes → Prop
  | 0, _, _ => True
  | fuel + 1, a, rest =>
    rest.length < 4 ∨ rd16 rest 2 < 4 ∨ rest.length < rd16 rest 2 ∨
      Inert now a rest ∧
        HarmlessLoop env now fuel (handleChunk env now a rest) (rest.drop (pad4 (rd16 rest 2)))

def Harmless (env : Env) (now : Nat) (a : Assoc) (p : Bytes) : Prop :=
  HarmlessLoop env now p.length a (p.drop kHdrLen)

/-- A packet `feed` takes that has one chunk. -/
def Single (env : Env) (p chunk : Bytes) : Prop :=
  kHdrLen ≤ p.length ∧ rdCrc p = sctpCrc32c env p ∧ p.drop kHdrLen = chunk ∧ 4 ≤ chunk.length ∧
    4 ≤ rd16 chunk 2 ∧ rd16 chunk 2 ≤ chunk.length ∧ chunk.length < pad4 (rd16 chunk 2) + 4

theorem feed_single (hest : a.state = .established) (h : Single env p chunk) :
    (feed env now a p).2 = handleChunk env now a chunk := by
  obtain ⟨hlen, hcrc, rfl, h4, hc4, hle, hlast⟩ := h
  have hdrop : ((p.drop kHdrLen).drop (pad4 (rd16 (p.drop kHdrLen) 2))).length < 4 := by
    rw [length_drop]
    omega
  have hend : ∀ (fuel : Nat) (b : Assoc) (rest : Bytes), rest.length < 4 →
      feedLoop env now fuel b rest = (true, b) := by
    intro fuel b rest hshort
    cases fuel with
    | zero => rfl
    | succ fuel => simp only [feedLoop, hshort, if_true]
  obtain ⟨n, hn⟩ := Nat.exists_eq_add_of_lt (Nat.lt_of_lt_of_le (by decide : 0 < kHdrLen) hlen)
  rw [feed, if_neg (by simp [hest]), if_neg (by omega), if_neg (not_not.mpr hcrc), hn]
  simp only [feedLoop]
  rw [if_neg (by omega), if_neg (by omega), if_neg (by omega)]
  split
  · rfl
  · rw [hend _ _ _ hdrop]

/-- A packet of harmless chunks leaves the transfer state of an established
association as it is, whatever its verification tag; of the packets with a
single plain chunk only the harmless ones do; and a single handshake chunk does
nothing but make the association reply exactly if it is harmless. -/
theorem foreign_packets (hreach : Reach a) (hest : a.state = .established) (env : Env) (now : Nat)
    (p : Bytes) :
    (Harmless env now a p → Kept a (feed env now a p).2) ∧
      (∀ chunk, Single env p chunk → Plain now a chunk →
        (Kept a (feed env now a p).2 ↔ Inert now a chunk)) ∧
      ∀ chunk t, Single env p chunk → ChunkType.ofCode (octet chunk 0) = some t →
        t ∈ [.init, .initAck, .cookieEcho, .cookieAck] →
          (OnlyReplies env a t (feed env now a p).2 ↔ Inert now a chunk) := by
  have hhave : a.haveCumAck := hreach.knows (.inr hest)
  refine ⟨fun h => ?_, fun chunk hsingle hplain => ?_, fun chunk t hsingle htype ht => ?_⟩
  · exact feed_induction (L := HarmlessLoop env now) (I := Kept a) (fun _ _ _ h => h)
      (fun b chunk hin hk => hk.trans (handleChunk_kept (hk.state.trans hest)
        ((congrArg (·.haveCumAck) hk.side).trans hhave) hin)) (.refl a) h
  · rw [feed_single hest hsingle]
    exact ⟨inert_of_kept hest hhave hplain, handleChunk_kept hest hhave⟩
  rw [feed_single hest hsingle]
  simp only [mem_cons, not_mem_nil, or_false] at ht
  unfold handleChunk Inert
  rw [htype]
  rcases ht with rfl | rfl | rfl | rfl
  · exact ⟨fun h => .of_kept hest (.of_ships h), RepeatsInit.replies hhave⟩
  · exact iff_of_true (handleInitAck_kept hest) trivial
  · exact ⟨fun h => .of_kept hest (.of_ships h), RepeatsCookie.replies hest hhave⟩
  · exact iff_of_true (handleCookieAck_kept hest) trivial

/-! ## A handshake -/

/-- The packets an association has shipped. -/
def shippedBy (a : Assoc) : List Bytes :=
  a.log.filterMap fun
    | .shipped p => some p
    | _ => none

def lastShipped (a : Assoc) : Bytes := (shippedBy a).getLastD []

/-- A sink that takes everything, and no checksum. -/
def openEnv : Env := { crc32c := fun _ => 0, sink := fun _ => true }

def client0 : Assoc := init .active 1 50
def server0 : Assoc := init .passive 2 100
def client1 : Assoc := call openEnv client0 .connect
def server1 : Assoc := call openEnv server0 (.feed 1 (lastShipped client1))
def client2 : Assoc := call openEnv client1 (.feed 1 (lastShipped server1))
def server2 : Assoc := call openEnv server1 (.feed 1 (lastShipped client2))
def client3 : Assoc := call openEnv client2 (.feed 1 (lastShipped server2))

theorem server1_reach : Reach server1 := .call openEnv _ (.init _ _ _)

theorem server2_reach : Reach server2 := .call openEnv _ server1_reach

/-- The client's INIT once more, before any data: the INIT-ACK goes out again. -/
theorem foreign_packets_repeated_init :
    Kept server2 (feed openEnv 2 server2 (lastShipped client1)).2 ∧
      OnlyReplies openEnv server2 .init (feed openEnv 2 server2 (lastShipped client1)).2 := by
  have hinit : ChunkType.ofCode (octet ((lastShipped client1).drop kHdrLen) 0) = some .init ∧
      rd32 ((lastShipped client1).drop kHdrLen) 4 ≠ 0 ∧
      rd32 ((lastShipped client1).drop kHdrLen) 4 = server2.peerTag ∧
      rd32 ((lastShipped client1).drop kHdrLen) 8 = server2.peerRwnd ∧
      rd32 ((lastShipped client1).drop kHdrLen) 16 = server2.peerInitTsn ∧
      tsnSub (rd32 ((lastShipped client1).drop kHdrLen) 16) 1 = server2.cumAckIn := by decide +kernel
  have hinert : Inert 2 server2 ((lastShipped client1).drop kHdrLen) := by
    unfold Inert
    rw [hinit.1]
    exact .inr hinit.2
  have hsingle : Single openEnv (lastShipped client1) ((lastShipped client1).drop kHdrLen) := by
    unfold Single
    decide +kernel
  have hall := foreign_packets server2_reach (by decide +kernel) openEnv 2 (lastShipped client1)
  have hplain : Plain 2 server2 ((lastShipped client1).drop kHdrLen) := by
    unfold Plain
    rw [hinit.1]
    trivial
  exact ⟨(hall.2.1 _ hsingle hplain).mpr hinert, (hall.2.2 _ _ hsingle hinit.1 (by decide)).mpr hinert⟩

/-- The server after its first message. -/
def server3 : Assoc := call openEnv server2 (.send 2 0 51 (ascii "hi") (.reliable false))

def forged : Bytes :=
  framePacket openEnv 9 (dataChunk
    { tsn := 50, streamId := 0, ssn := 0, ppid := 51, flags := kDataFlagBegin ||| kDataFlagEnd,
      data := ascii "x" })

/-- The client's COOKIE-ECHO once more: the server counts its TSNs from the start
again. And a packet under a foreign tag: its message is delivered. -/
theorem replayed_cookie_rewinds :
    Reach server3 ∧ server3.state = .established ∧ lastShipped client2 ∈ shippedBy client3 ∧
      server3.nextTsn = 101 ∧ (feed openEnv 3 server3 (lastShipped client2)).2.nextTsn = 100 ∧
      rd32 forged 4 ≠ server3.localTag ∧
      (feed openEnv 3 server3 forged).2.cumAckIn ≠ server3.cumAckIn ∧
      Event.delivered { streamId := 0, ppid := 51, unordered := false, data := ascii "x" } ∈
        (feed openEnv 3 server3 forged).2.log :=
  -- the kernel runs the association once for all that follows
  ⟨.call openEnv _ server2_reach, by decide +kernel⟩

end BoltApi.WebRtc.Sctp
