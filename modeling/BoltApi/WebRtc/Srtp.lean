import Mathlib.Data.List.Chain
import BoltApi.WebRtc.Wire

/-! # SRTP sessions

`SrtpSession::protect_rtp` and `unprotect_rtp` with the rollover counter and the
replay window of each SSRC, of `webrtc/srtp.h`. The crypto profile is a `Suite`
that seals a packet under the rollover counter and opens it again. -/
namespace BoltApi.WebRtc.Srtp
open Octets Wire List

/-! ## Packets -/

def kRtpHeaderMin : Nat := 12
def kReplayWindowBits : Nat := 128
def kMaxSsrcSlots : Nat := 64

structure RtpView where
  seq : Nat
  ssrc : Nat
  headerLen : Nat
  deriving DecidableEq

def headerLength (p : Bytes) : Option Nat :=
  let hl := kRtpHeaderMin + octet p 0 % 16 * 4
  if p.length < hl then none
  else if octet p 0 / 16 % 2 = 0 then some hl
  else if p.length < hl + 4 then none
  else
    let hl' := hl + 4 + rd16 p (hl + 2) * 4
    if p.length < hl' then none else some hl'

def parseRtp (p : Bytes) : Option RtpView :=
  if p.length < kRtpHeaderMin ∨ octet p 0 / 64 ≠ 2 then none
  else (headerLength p).map fun hl => { seq := rd16 p 2, ssrc := rd32 p 8, headerLen := hl }

/-! ## State of an SSRC -/

structure SsrcState where
  ssrc : Nat
  roc : Nat := 0
  sL : Nat := 0
  window : BitVec 64 := 0
  windowHi : BitVec 64 := 0
  seen : Bool := false
  deriving DecidableEq

def guessRoc (s : SsrcState) (seq : Nat) : Nat :=
  if !s.seen then s.roc
  else if s.sL < 32768 then if s.sL + 32768 < seq ∧ 0 < s.roc then s.roc - 1 else s.roc
  else if seq + 32768 < s.sL then (s.roc + 1) % 2 ^ 32
  else s.roc

def packetIndex (roc seq : Nat) : Nat := roc * 2 ^ 16 + seq

def replayOk (s : SsrcState) (idx : Nat) : Bool :=
  if !s.seen then true
  else
    let top := packetIndex s.roc s.sL
    if top < idx then true
    else
      let delta := top - idx
      if kReplayWindowBits ≤ delta then false
      else if delta < 64 then !s.window.getLsbD delta
      else !s.windowHi.getLsbD (delta - 64)

def shiftWindow (s : SsrcState) (shift : Nat) : SsrcState :=
  if kReplayWindowBits ≤ shift then { s with window := 0, windowHi := 0 }
  else if 64 ≤ shift then { s with windowHi := s.window <<< (shift - 64), window := 0 }
  else { s with windowHi := s.windowHi <<< shift ||| (if shift = 0 then 0 else s.window >>> (64 - shift))
                window := s.window <<< shift }

def replayCommit (s : SsrcState) (roc seq idx : Nat) : SsrcState :=
  if !s.seen then { s with roc := roc, sL := seq, seen := true, window := 1, windowHi := 0 }
  else
    let top := packetIndex s.roc s.sL
    if top < idx then
      let s := shiftWindow s (idx - top)
      { s with window := s.window ||| 1, roc := roc, sL := seq }
    else
      let delta := top - idx
      if delta < 64 then { s with window := s.window ||| 1#64 <<< delta }
      else if delta < kReplayWindowBits then
        { s with windowHi := s.windowHi ||| 1#64 <<< (delta - 64) }
      else s

def senderRoc (s : SsrcState) (seq : Nat) : Nat :=
  if !s.seen then s.roc else if seq < s.sL then (s.roc + 1) % 2 ^ 32 else s.roc

def commitSender (s : SsrcState) (roc seq : Nat) : SsrcState :=
  { s with roc := roc, sL := seq, seen := true }

/-! ## Sessions -/

inductive Error
  | tooShort
  | bufferTooSmall
  | noSlot
  | replay
  | authFail
  | cryptoFail
  deriving DecidableEq

/-- The crypto profile of a session: what `protect_rtp` and `unprotect_rtp` call
for a parsed packet under a rollover counter. -/
structure Suite where
  tagLen : Nat
  protect : RtpView → Nat → Bytes → Except Error Bytes
  unprotect : RtpView → Nat → Bytes → Except Error Bytes

/-- What is sealed under its own header keeps it and opens under the same counter. -/
structure Suite.Lawful (S : Suite) : Prop where
  length : ∀ v roc p q, parseRtp p = some v → S.protect v roc p = .ok q →
    q.length = p.length + S.tagLen
  header : ∀ v roc p q, parseRtp p = some v → S.protect v roc p = .ok q →
    q.take v.headerLen = p.take v.headerLen
  opens : ∀ v roc p q, parseRtp p = some v → S.protect v roc p = .ok q →
    S.unprotect v roc q = .ok p

/-- An initialised session: the slots in use, in the order they were taken, and
the index of the last SRTCP packet. -/
structure Session where
  slots : List SsrcState := []
  srtcpIndexOut : Nat := 0
  deriving DecidableEq

def Session.slotFor (t : Session) (ssrc : Nat) : Option (SsrcState × Session) :=
  match t.slots.find? (·.ssrc == ssrc) with
  | some s => some (s, t)
  | none =>
    if t.slots.length < kMaxSsrcSlots then
      some ({ ssrc := ssrc }, { t with slots := t.slots ++ [{ ssrc := ssrc }] })
    else none

def Session.put (t : Session) (s : SsrcState) : Session :=
  { t with slots := t.slots.map fun r => if r.ssrc = s.ssrc then s else r }

def protectRtp (S : Suite) (t : Session) (p : Bytes) (outCap : Nat) :
    Except Error Bytes × Session :=
  match parseRtp p with
  | none => (.error .tooShort, t)
  | some v =>
    if outCap < p.length + S.tagLen then (.error .bufferTooSmall, t)
    else
      match t.slotFor v.ssrc with
      | none => (.error .noSlot, t)
      | some (s, t) =>
        let roc := senderRoc s v.seq
        match S.protect v roc p with
        | .error e => (.error e, t)
        | .ok q => (.ok q, t.put (commitSender s roc v.seq))

def unprotectRtp (S : Suite) (t : Session) (q : Bytes) (outCap : Nat) :
    Except Error Bytes × Session :=
  if q.length < kRtpHeaderMin + S.tagLen then (.error .tooShort, t)
  else
    match parseRtp (q.take (q.length - S.tagLen)) with
    | none => (.error .tooShort, t)
    | some v =>
      if outCap < q.length - S.tagLen then (.error .bufferTooSmall, t)
      else
        match t.slotFor v.ssrc with
        | none => (.error .noSlot, t)
        | some (s, t) =>
          let roc := guessRoc s v.seq
          let idx := packetIndex roc v.seq
          if !replayOk s idx then (.error .replay, t)
          else
            match S.unprotect v roc q with
            | .error e => (.error e, t)
            | .ok p => (.ok p, t.put (replayCommit s roc v.seq idx))

/-- The rollover counter `protect_rtp` uses for a packet. -/
def rocUsed (t : Session) (p : Bytes) : Option Nat :=
  (parseRtp p).bind fun v => (t.slotFor v.ssrc).map fun (s, _) => senderRoc s v.seq

/-! ## Slots -/

variable {S : Suite} {t r : Session} {s s' : SsrcState} {ssrc : Nat} {p q : Bytes} {v : RtpView}

def Holds (t : Session) (s : SsrcState) : Prop := t.slots.find? (·.ssrc == s.ssrc) = some s

theorem slotFor_holds (h : Holds t s) : t.slotFor s.ssrc = some (s, t) := by
  rw [Session.slotFor, h]

theorem put_holds (h : Holds t s) (hs : s'.ssrc = s.ssrc) : Holds (t.put s') s' := by
  unfold Holds Session.put at *
  have hkey : ∀ r : SsrcState, (if r.ssrc = s'.ssrc then s' else r).ssrc = r.ssrc := by
    intro r
    split
    · rename_i heq
      exact heq.symm
    · rfl
  rw [List.find?_map]
  simp only [Function.comp_def, hkey]
  rw [hs, h, Option.map_some, if_pos rfl]

def Fresh (t : Session) (ssrc : Nat) : Prop := t.slots.find? (·.ssrc == ssrc) = none

theorem slotFor_fresh (h : Fresh t ssrc) (hroom : t.slots.length < kMaxSsrcSlots) :
    ∃ t', t.slotFor ssrc = some ({ ssrc := ssrc }, t') ∧ Holds t' { ssrc := ssrc } := by
  refine ⟨{ t with slots := t.slots ++ [{ ssrc := ssrc }] }, ?_, ?_⟩
  · rw [Session.slotFor, h]
    simp only [hroom, if_true]
  · unfold Holds
    rw [List.find?_append, h]
    simp

/-! ## The sender's counter -/

structure At (s : SsrcState) (last : Nat) : Prop where
  seen : s.seen = true
  roc : s.roc = last / 2 ^ 16
  seq : s.sL = last % 2 ^ 16

theorem commitSender_at (s : SsrcState) (i : Nat) :
    At (commitSender s (i / 2 ^ 16) (i % 2 ^ 16)) i := ⟨rfl, rfl, rfl⟩

theorem senderRoc_iff {last i} (h : At s last) (hlast : last < 2 ^ 48) (hi : i < 2 ^ 48)
    (hup : i ≤ last + 2 ^ 15) (hdown : last ≤ i + 2 ^ 15) :
    senderRoc s (i % 2 ^ 16) = i / 2 ^ 16 ↔ last ≤ i := by
  simp only [senderRoc, h.seen, h.roc, h.seq, Bool.not_true, Bool.false_eq_true, if_false]
  split <;> omega

/-- A packet with the index the sender means by it. -/
structure Sent where
  index : Nat
  packet : Bytes
  outCap : Nat

/-- Each packet is of the SSRC, carries the low half of its index, and
`protect_rtp` takes it. -/
def Stream (S : Suite) (ssrc : Nat) : Session → List Sent → Prop
  | _, [] => True
  | t, a :: as =>
    (∃ v, parseRtp a.packet = some v ∧ v.ssrc = ssrc ∧ v.seq = a.index % 2 ^ 16) ∧
      a.index < 2 ^ 48 ∧ (∃ q, (protectRtp S t a.packet a.outCap).1 = .ok q) ∧
      Stream S ssrc (protectRtp S t a.packet a.outCap).2 as

/-- Each index is within `2 ^ 15` of the highest one before it. -/
def Near : Nat → List Sent → Prop
  | _, [] => True
  | highest, a :: as =>
    (a.index ≤ highest + 2 ^ 15 ∧ highest ≤ a.index + 2 ^ 15) ∧ Near (max highest a.index) as

/-- The stream starts with counter 0 and stays near. -/
def NearFirst : List Sent → Prop
  | [] => True
  | a :: as => a.index < 2 ^ 16 ∧ Near a.index as

/-- The counters `protect_rtp` uses for the packets of a stream. -/
def rocs (S : Suite) : Session → List Sent → List (Option Nat)
  | _, [] => []
  | t, a :: as =>
    rocUsed t a.packet :: rocs S (protectRtp S t a.packet a.outCap).2 as

def trueRocs (as : List Sent) : List (Option Nat) := as.map fun a => some (a.index / 2 ^ 16)

theorem protectRtp_ok {t' cap} (hv : parseRtp p = some v) (hslot : t.slotFor v.ssrc = some (s, t'))
    (hq : (protectRtp S t p cap).1 = .ok q) : S.protect v (senderRoc s v.seq) p = .ok q ∧
      (protectRtp S t p cap).2 = t'.put (commitSender s (senderRoc s v.seq) v.seq) := by
  simp only [protectRtp, hv, hslot] at hq ⊢
  split at hq
  · cases hq
  rename_i hcap
  rw [if_neg hcap]
  cases hp : S.protect v (senderRoc s v.seq) p with
  | error e => rw [hp] at hq; cases hq
  | ok q' =>
    rw [hp] at hq
    cases hq
    exact ⟨rfl, rfl⟩

theorem rocUsed_eq {t'} (hv : parseRtp p = some v) (hslot : t.slotFor v.ssrc = some (s, t')) :
    rocUsed t p = some (senderRoc s v.seq) := by
  simp only [rocUsed, hv, hslot, Option.bind_some, Option.map_some]

theorem rocs_iff (as : List Sent) :
    ∀ (t : Session) (s : SsrcState) (last : Nat), Holds t s → At s last → last < 2 ^ 48 →
      Stream S s.ssrc t as → Near last as →
      (rocs S t as = trueRocs as ↔ (last :: as.map (·.index)).IsChain (· ≤ ·)) := by
  induction as with
  | nil => exact fun t s last _ _ _ _ _ => by simp [rocs, trueRocs]
  | cons a as ih =>
    intro t s last hh hat hlast hstream hnear
    obtain ⟨⟨v, hv, hssrc, hseq⟩, hi, ⟨q, hq⟩, hrest⟩ := hstream
    obtain ⟨⟨hup, hdown⟩, hnear⟩ := hnear
    have hslot : t.slotFor v.ssrc = some (s, t) := hssrc ▸ slotFor_holds hh
    obtain ⟨-, hnext⟩ := protectRtp_ok hv hslot hq
    have hiff := senderRoc_iff hat hlast hi hup hdown
    simp only [rocs, trueRocs, map_cons, List.cons.injEq, rocUsed_eq hv hslot,
      Option.some.injEq, hseq, isChain_cons_cons, hiff]
    refine and_congr_right fun hle => ?_
    have hroc := hiff.mpr hle
    rw [hseq, hroc] at hnext
    rw [Nat.max_eq_right hle] at hnear
    have hhold : Holds (t.put (commitSender s (a.index / 2 ^ 16) (a.index % 2 ^ 16)))
        (commitSender s (a.index / 2 ^ 16) (a.index % 2 ^ 16)) := put_holds hh rfl
    rw [hnext] at hrest ⊢
    exact ih _ _ _ hhold (commitSender_at s a.index) hi hrest hnear

/-! ## The receiver -/

theorem octet_congr {hl i} (h : q.take hl = p.take hl) (hi : i < hl) : octet q i = octet p i := by
  have hget : (q.take hl)[i]? = (p.take hl)[i]? := by rw [h]
  rw [List.getElem?_take_of_lt hi, List.getElem?_take_of_lt hi] at hget
  simp only [octet, getD_eq_getElem?_getD, hget]

theorem headerLength_min {hl} (h : headerLength p = some hl) :
    kRtpHeaderMin + octet p 0 % 16 * 4 ≤ hl ∧
      (octet p 0 / 16 % 2 ≠ 0 → kRtpHeaderMin + octet p 0 % 16 * 4 + 4 ≤ hl) := by
  simp only [headerLength] at h
  split at h
  · cases h
  split at h
  · rename_i hext
    cases h
    exact ⟨Nat.le_refl _, fun hne => absurd hext hne⟩
  split at h
  · cases h
  split at h
  · cases h
  · cases h
    constructor <;> omega

theorem parseRtp_min (h : parseRtp p = some v) : kRtpHeaderMin ≤ p.length := by
  simp only [parseRtp] at h
  split at h
  · cases h
  · omega

theorem parseRtp_le (h : parseRtp p = some v) : v.headerLen ≤ p.length := by
  simp only [parseRtp] at h
  split at h
  · cases h
  obtain ⟨hl, hhl, rfl⟩ := Option.map_eq_some_iff.mp h
  simp only [headerLength] at hhl
  split at hhl
  · cases hhl
  split at hhl
  · cases hhl
    simp only
    omega
  split at hhl
  · cases hhl
  split at hhl
  · cases hhl
  · cases hhl
    simp only
    omega

theorem parseRtp_congr (h : parseRtp p = some v) (hlen : q.length = p.length)
    (htake : q.take v.headerLen = p.take v.headerLen) : parseRtp q = some v := by
  simp only [parseRtp] at h ⊢
  split at h
  · cases h
  rename_i hmin
  obtain ⟨hl, hhl, rfl⟩ := Option.map_eq_some_iff.mp h
  obtain ⟨hfix, hext⟩ := headerLength_min hhl
  have hk : kRtpHeaderMin = 12 := rfl
  have hoct : ∀ i < hl, octet q i = octet p i := fun i hi => octet_congr htake hi
  have h16 : ∀ i, i + 1 < hl → rd16 q i = rd16 p i := by
    intro i hi
    rw [rd16, rd16, hoct i (by omega), hoct (i + 1) hi]
  have h0 : octet q 0 = octet p 0 := hoct 0 (by omega)
  have hsame : headerLength q = some hl := by
    simp only [headerLength] at hhl ⊢
    rw [hlen, h0]
    by_cases hx : octet p 0 / 16 % 2 = 0
    · simpa only [hx, if_true] using hhl
    · rw [h16 _ (by have := hext hx; omega)]
      exact hhl
  rw [hlen, h0, if_neg hmin, hsame, Option.map_some, h16 2 (by omega), rd32, rd32,
    h16 8 (by omega), h16 (8 + 2) (by omega)]

structure Got (s : SsrcState) (last : Nat) : Prop extends At s last where
  marked : s.window.getLsbD 0

theorem guessRoc_at {last i} (h : At s last) (hi : i < 2 ^ 48) (hle : last ≤ i)
    (hlt : i < last + 2 ^ 15) : guessRoc s (i % 2 ^ 16) = i / 2 ^ 16 := by
  simp only [guessRoc, h.seen, h.roc, h.seq, Bool.not_true, Bool.false_eq_true, if_false]
  split
  · split <;> omega
  · split <;> omega

theorem packetIndex_div (i : Nat) : packetIndex (i / 2 ^ 16) (i % 2 ^ 16) = i := by
  rw [packetIndex, Nat.mul_comm]
  exact Nat.div_add_mod i (2 ^ 16)

theorem replayOk_got {last i} (h : Got s last) (hle : last ≤ i) :
    replayOk s i = !decide (i = last) := by
  simp only [replayOk, h.seen, h.roc, h.seq, packetIndex_div, Bool.not_true, Bool.false_eq_true,
    if_false]
  split
  · rename_i hlt
    have hne : i ≠ last := by omega
    simp [hne]
  · have heq : i = last := by omega
    subst heq
    simp [kReplayWindowBits, h.marked]

theorem replayCommit_got {last i} (h : Got s last) (hlt : last < i) :
    Got (replayCommit s (i / 2 ^ 16) (i % 2 ^ 16) i) i := by
  simp only [replayCommit, h.seen, h.roc, h.seq, packetIndex_div, Bool.not_true,
    Bool.false_eq_true, if_false, hlt, if_true]
  refine ⟨⟨?_, rfl, rfl⟩, by simp⟩
  simp only [shiftWindow]
  split
  · exact h.seen
  · split <;> exact h.seen

theorem replayCommit_ssrc (s : SsrcState) (roc seq idx : Nat) :
    (replayCommit s roc seq idx).ssrc = s.ssrc := by
  simp only [replayCommit, shiftWindow]
  split
  · rfl
  split
  · split
    · rfl
    · split <;> rfl
  · split
    · rfl
    · split <;> rfl

/-- What `unprotect_rtp` makes of the protected packets, one after the other. -/
def received (S : Suite) : Session → List Bytes → List (Except Error Bytes)
  | _, [] => []
  | r, q :: qs => (unprotectRtp S r q q.length).1 :: received S (unprotectRtp S r q q.length).2 qs

def protectedPackets (S : Suite) : Session → List Sent → List Bytes
  | _, [] => []
  | t, a :: as =>
    (protectRtp S t a.packet a.outCap).1.toOption.toList ++
      protectedPackets S (protectRtp S t a.packet a.outCap).2 as

/-- A replay is refused, every other packet comes back. -/
def expected : Option Nat → List Sent → List (Except Error Bytes)
  | _, [] => []
  | last, a :: as =>
    (if last = some a.index then .error .replay else .ok a.packet) :: expected (some a.index) as

theorem unprotectRtp_eq (hS : S.Lawful) {roc r'} (hv : parseRtp p = some v)
    (hq : S.protect v roc p = .ok q) (hslot : r.slotFor v.ssrc = some (s, r')) :
    unprotectRtp S r q q.length =
      if !replayOk s (packetIndex (guessRoc s v.seq) v.seq) then (.error .replay, r')
      else
        match S.unprotect v (guessRoc s v.seq) q with
        | .error e => (.error e, r')
        | .ok p => (.ok p, r'.put (replayCommit s (guessRoc s v.seq) v.seq
            (packetIndex (guessRoc s v.seq) v.seq))) := by
  have hlen := hS.length v roc p q hv hq
  have hmin := parseRtp_min hv
  have hle := parseRtp_le hv
  have hparse : parseRtp (q.take (q.length - S.tagLen)) = some v := by
    refine parseRtp_congr hv (by rw [length_take]; omega) ?_
    rw [take_take, ← hS.header v roc p q hv hq, Nat.min_eq_left (by omega)]
  rw [unprotectRtp, if_neg (by omega)]
  simp only [hparse, hslot]
  rw [if_neg (by omega)]

/-- The relation between the index of a packet and the next one's that keeps
both sides in step. -/
def Onward (i j : Nat) : Prop := i ≤ j ∧ j < i + 2 ^ 15

theorem received_eq (hS : S.Lawful) (as : List Sent) :
    ∀ (t r : Session) (s s' : SsrcState) (last : Nat), Holds t s → At s last → Holds r s' →
      Got s' last → s'.ssrc = s.ssrc → last < 2 ^ 48 → Stream S s.ssrc t as →
      (last :: as.map (·.index)).IsChain Onward →
      received S r (protectedPackets S t as) = expected (some last) as := by
  induction as with
  | nil => exact fun t r s s' last _ _ _ _ _ _ _ _ => rfl
  | cons a as ih =>
    intro t r s s' last hh hat hr hgot hsame hlast hstream hchain
    obtain ⟨⟨v, hv, hssrc, hseq⟩, hi, ⟨q, hq⟩, hrest⟩ := hstream
    obtain ⟨honward, hchain⟩ := isChain_cons_cons.mp hchain
    obtain ⟨hle, hlt⟩ : last ≤ a.index ∧ a.index < last + 2 ^ 15 := honward
    have hslot : t.slotFor v.ssrc = some (s, t) := hssrc ▸ slotFor_holds hh
    have hslot' : r.slotFor v.ssrc = some (s', r) := by
      rw [hssrc, ← hsame]
      exact slotFor_holds hr
    obtain ⟨hprot, hnext⟩ := protectRtp_ok hv hslot hq
    have hroc := (senderRoc_iff hat hlast hi (by omega) (by omega)).mpr hle
    rw [hseq, hroc] at hnext hprot
    have hun := unprotectRtp_eq hS hv hprot hslot'
    rw [hseq, guessRoc_at hgot.toAt hi hle hlt, packetIndex_div, replayOk_got hgot hle,
      hS.opens v _ _ _ hv hprot] at hun
    have hsent : protectedPackets S t (a :: as) =
        q :: protectedPackets S (t.put (commitSender s (a.index / 2 ^ 16) (a.index % 2 ^ 16))) as := by
      rw [protectedPackets, hq, hnext]
      rfl
    rw [hnext] at hrest
    have hhold : Holds (t.put (commitSender s (a.index / 2 ^ 16) (a.index % 2 ^ 16)))
        (commitSender s (a.index / 2 ^ 16) (a.index % 2 ^ 16)) := put_holds hh rfl
    have hcommit := commitSender_at s a.index
    rw [hsent, received, expected]
    by_cases heq : a.index = last
    · -- a repetition leaves the receiver as it is
      rw [hun, if_pos (by simp [heq]), if_pos (by rw [heq]), ih _ r _ s' a.index hhold hcommit hr
        (heq ▸ hgot) hsame hi hrest hchain]
    have hnew := replayCommit_got hgot (Nat.lt_of_le_of_ne hle (Ne.symm heq))
    have hssrc' := replayCommit_ssrc s' (a.index / 2 ^ 16) (a.index % 2 ^ 16) a.index
    rw [hun, if_neg (by simp [heq]), if_neg (fun h => heq (Option.some.inj h).symm),
      ih _ _ _ _ a.index hhold hcommit (put_holds hr hssrc') hnew (hssrc'.trans hsame) hi hrest
        hchain]

/-! ## Whole streams -/

/-- A session that can take the SSRC up. -/
def Ready (t : Session) (ssrc : Nat) : Prop := Fresh t ssrc ∧ t.slots.length < kMaxSsrcSlots

theorem ready_empty (ssrc : Nat) : Ready {} ssrc := ⟨rfl, by decide⟩

theorem first_sent {a : Sent} (ht : Ready t ssrc) (hv : parseRtp a.packet = some v)
    (hssrc : v.ssrc = ssrc) (hseq : v.seq = a.index % 2 ^ 16) (hi : a.index < 2 ^ 16)
    (hq : (protectRtp S t a.packet a.outCap).1 = .ok q) :
    rocUsed t a.packet = some (a.index / 2 ^ 16) ∧ S.protect v (a.index / 2 ^ 16) a.packet = .ok q ∧
      ∃ s, s.ssrc = ssrc ∧ Holds (protectRtp S t a.packet a.outCap).2 s ∧ At s a.index := by
  subst hssrc
  obtain ⟨t', hslot, hhold⟩ := slotFor_fresh ht.1 ht.2
  obtain ⟨hprot, hnext⟩ := protectRtp_ok hv hslot hq
  have hzero : a.index / 2 ^ 16 = 0 := by omega
  have hroc : senderRoc { ssrc := v.ssrc } v.seq = a.index / 2 ^ 16 := by rw [hzero]; rfl
  rw [hroc] at hprot hnext
  refine ⟨by rw [rocUsed_eq hv hslot, hroc], hprot,
    commitSender { ssrc := v.ssrc } (a.index / 2 ^ 16) v.seq, rfl, ?_, ?_⟩
  · rw [hnext]
    exact put_holds hhold rfl
  · rw [hseq]
    exact commitSender_at _ a.index

theorem first_received (hS : S.Lawful) {a : Sent} (hr : Ready r ssrc)
    (hv : parseRtp a.packet = some v) (hssrc : v.ssrc = ssrc) (hseq : v.seq = a.index % 2 ^ 16)
    (hi : a.index < 2 ^ 16) (hq : S.protect v (a.index / 2 ^ 16) a.packet = .ok q) :
    (unprotectRtp S r q q.length).1 = .ok a.packet ∧
      ∃ s, s.ssrc = ssrc ∧ Holds (unprotectRtp S r q q.length).2 s ∧ Got s a.index := by
  subst hssrc
  obtain ⟨r', hslot, hhold⟩ := slotFor_fresh hr.1 hr.2
  have hzero : a.index / 2 ^ 16 = 0 := by omega
  have hroc : guessRoc { ssrc := v.ssrc } v.seq = a.index / 2 ^ 16 := by rw [hzero]; rfl
  have hok : replayOk { ssrc := v.ssrc } a.index := rfl
  have hun := unprotectRtp_eq hS hv hq hslot
  rw [hroc, hseq, packetIndex_div, hok, hS.opens v _ _ _ hv hq] at hun
  rw [hun]
  refine ⟨rfl, replayCommit { ssrc := v.ssrc } (a.index / 2 ^ 16) (a.index % 2 ^ 16) a.index, rfl,
    put_holds hhold rfl, ⟨rfl, rfl, rfl⟩, ?_⟩
  simp [replayCommit]

/-- A stream of one SSRC whose indices stay near the highest is sent under the
counters of its indices exactly if no index is below the one before it; and where
the indices also rise by less than `2 ^ 15` at a time, the receiver gets every
packet back except the repetitions. -/
theorem streams_protected (hS : S.Lawful) (as : List Sent) (ht : Ready t ssrc) (hr : Ready r ssrc)
    (hstream : Stream S ssrc t as) (hnear : NearFirst as) :
    (rocs S t as = trueRocs as ↔ (as.map (·.index)).IsChain (· ≤ ·)) ∧
      ((as.map (·.index)).IsChain Onward →
        received S r (protectedPackets S t as) = expected none as) := by
  cases as with
  | nil => simp [rocs, trueRocs, received, protectedPackets, expected]
  | cons a as =>
    obtain ⟨⟨v, hv, hssrc, hseq⟩, hi, ⟨q, hq⟩, hrest⟩ := hstream
    obtain ⟨hi16, hnear⟩ := hnear
    obtain ⟨hroc, hprot, s, hs, hhold, hat⟩ := first_sent ht hv hssrc hseq hi16 hq
    obtain ⟨hback, s', hs', hhold', hgot⟩ := first_received hS hr hv hssrc hseq hi16 hprot
    rw [← hs] at hrest hs'
    constructor
    · simp only [rocs, trueRocs, map_cons, List.cons.injEq, hroc, true_and]
      exact rocs_iff as _ s a.index hhold hat hi hrest hnear
    intro hchain
    have hsent : protectedPackets S t (a :: as) =
        q :: protectedPackets S (protectRtp S t a.packet a.outCap).2 as := by
      rw [protectedPackets, hq]
      rfl
    rw [hsent, received, expected, hback, if_neg (by simp),
      received_eq hS as _ _ s s' a.index hhold hat hhold' hgot hs' hi hrest hchain]

/-! ## A stream with a resend -/

def rocTag (roc : Nat) : Bytes := List.ofFn fun i : Fin 4 => UInt8.ofNat (roc / 256 ^ i.val)

/-- A suite without encryption whose tag is the rollover counter. -/
def tagOnly : Suite where
  tagLen := 4
  protect v roc p := if v.headerLen ≤ p.length then .ok (p ++ rocTag roc) else .error .cryptoFail
  unprotect _ roc q :=
    if q.drop (q.length - 4) = rocTag roc then .ok (q.take (q.length - 4)) else .error .authFail

theorem rocTag_length (roc : Nat) : (rocTag roc).length = 4 := length_ofFn

theorem tagOnly_protect {roc} (h : tagOnly.protect v roc p = .ok q) :
    v.headerLen ≤ p.length ∧ q = p ++ rocTag roc := by
  simp only [tagOnly] at h
  split at h
  · rename_i hle
    exact ⟨hle, (Except.ok.inj h).symm⟩
  · cases h

theorem tagOnly_lawful : tagOnly.Lawful where
  length v roc p q _ h := by
    rw [(tagOnly_protect h).2, length_append, rocTag_length]
    rfl
  header v roc p q _ h := by
    rw [(tagOnly_protect h).2, take_append_of_le_length (tagOnly_protect h).1]
  opens v roc p q _ h := by
    rw [(tagOnly_protect h).2]
    simp [tagOnly, rocTag_length]

/-- An RTP packet of SSRC 7 without payload. -/
def bare (index : Nat) : Sent where
  index := index
  packet := [0x80, 96, UInt8.ofNat (index / 256), UInt8.ofNat index, 0, 0, 0, 0, 0, 0, 0, 7]
  outCap := 16

theorem bare_parse (seq : Fin 64) :
    parseRtp (bare seq).packet = some { seq := seq, ssrc := 7, headerLen := 12 } := by
  revert seq
  decide +kernel

/-- The packets 10, 11, 11, 12: the second 11 is refused, the others arrive. -/
theorem streams_protected_repeat :
    received tagOnly {} (protectedPackets tagOnly {} [bare 10, bare 11, bare 11, bare 12]) =
      [.ok (bare 10).packet, .ok (bare 11).packet, .error .replay, .ok (bare 12).packet] :=
  (streams_protected tagOnly_lawful [bare 10, bare 11, bare 11, bare 12] (ready_empty 7)
    (ready_empty 7)
    ⟨⟨_, bare_parse 10, rfl, rfl⟩, by decide, ⟨_, rfl⟩, ⟨_, bare_parse 11, rfl, rfl⟩, by decide,
      ⟨_, rfl⟩, ⟨_, bare_parse 11, rfl, rfl⟩, by decide, ⟨_, rfl⟩, ⟨_, bare_parse 12, rfl, rfl⟩,
      by decide, ⟨_, rfl⟩, trivial⟩
    (by simp [NearFirst, Near, bare])).2 (by simp [Onward, bare])

/-- Packet 9 resent behind packet 10: `sender_roc` takes the smaller sequence
number for a wrap, and the receiver cannot authenticate the packet. -/
theorem resend_counts_as_wrap :
    tagOnly.Lawful ∧ Stream tagOnly 7 {} [bare 10, bare 9] ∧ NearFirst [bare 10, bare 9] ∧
      rocs tagOnly {} [bare 10, bare 9] = [some 0, some 1] ∧
      trueRocs [bare 10, bare 9] = [some 0, some 0] ∧
      received tagOnly {} (protectedPackets tagOnly {} [bare 10, bare 9]) =
        [.ok (bare 10).packet, .error .authFail] :=
  ⟨tagOnly_lawful,
    ⟨⟨_, bare_parse 10, rfl, rfl⟩, by decide, ⟨_, rfl⟩, ⟨_, bare_parse 9, rfl, rfl⟩, by decide,
      ⟨_, rfl⟩, trivial⟩,
    by simp [NearFirst, Near, bare], by decide, by decide, by decide⟩

end BoltApi.WebRtc.Srtp
