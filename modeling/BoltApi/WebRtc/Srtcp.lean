import BoltApi.WebRtc.SrtpReplay

/-! # SRTCP

`protect_rtcp` and `unprotect_rtcp`. The sender counts its packets, modulo
`2 ^ 31`; the receiver keeps nothing of what it accepted. -/
namespace BoltApi.WebRtc.Srtp
open Octets Wire List

def kRtcpHeaderMin : Nat := 8
def kSrtcpTrailerLen : Nat := 4

/-- The crypto profile for SRTCP: what `protect_rtcp` and `unprotect_rtcp` call for
a packet under its SSRC and index. -/
structure RtcpSuite where
  tagLen : Nat
  protect : Nat → Nat → Bytes → Except Error Bytes
  unprotect : Nat → Nat → Bytes → Except Error Bytes

/-! ## The profiles -/

def kSrtcpTagLenCm : Nat := 10

def srtcpCmIv (salt : Bytes) (ssrc index : Nat) : Bytes :=
  xorOctets (salt ++ [0, 0])
    ([0, 0, 0, 0] ++ wr32 ssrc ++ [0, 0] ++ wr32 (index % 2 ^ 31) ++ [0, 0])

def srtcpGcmIv (salt : Bytes) (ssrc index : Nat) : Bytes :=
  xorOctets salt ([0, 0] ++ wr32 ssrc ++ [0, 0] ++ wr32 (index % 2 ^ 31))

def trailer (index : Nat) : Bytes := wr32 (index + 2 ^ 31)

def cmProtectRtcp (K : CmKeys) (ssrc index : Nat) (p : Bytes) : Except Error Bytes :=
  match srtpCtrXcrypt K (srtcpCmIv K.salt ssrc index) (p.drop kRtcpHeaderMin) with
  | none => .error .cryptoFail
  | some text =>
    let body := p.take kRtcpHeaderMin ++ text ++ trailer index
    match srtpHmacKeyed K body [] kSrtcpTagLenCm with
    | none => .error .cryptoFail
    | some tag => .ok (body ++ tag)

def cmUnprotectRtcp (K : CmKeys) (ssrc index : Nat) (q : Bytes) : Except Error Bytes :=
  let body := q.take (q.length - kSrtcpTagLenCm)
  match srtpHmacKeyed K body [] kSrtcpTagLenCm with
  | none => .error .cryptoFail
  | some tag =>
    if tag ≠ q.drop (q.length - kSrtcpTagLenCm) then .error .authFail
    else
      let plain := body.take (body.length - kSrtcpTrailerLen)
      match srtpCtrXcrypt K (srtcpCmIv K.salt ssrc index) (plain.drop kRtcpHeaderMin) with
      | none => .error .cryptoFail
      | some text => .ok (plain.take kRtcpHeaderMin ++ text)

def gcmProtectRtcp (K : GcmKeys) (ssrc index : Nat) (p : Bytes) : Except Error Bytes :=
  match K.sealText (srtcpGcmIv K.salt ssrc index) (p.take kRtcpHeaderMin ++ trailer index)
      (p.drop kRtcpHeaderMin) with
  | none => .error .cryptoFail
  | some (text, tag) => .ok (p.take kRtcpHeaderMin ++ text ++ trailer index ++ tag)

def gcmUnprotectRtcp (K : GcmKeys) (ssrc index : Nat) (q : Bytes) : Except Error Bytes :=
  let body := q.take (q.length - kGcmTagLen - kSrtcpTrailerLen)
  let aad := body.take kRtcpHeaderMin ++
    (q.drop (q.length - kGcmTagLen - kSrtcpTrailerLen)).take kSrtcpTrailerLen
  match K.openText (srtcpGcmIv K.salt ssrc index) aad (body.drop kRtcpHeaderMin)
      (q.drop (q.length - kGcmTagLen)) with
  | none => .error .authFail
  | some text => .ok (body.take kRtcpHeaderMin ++ text)

def RtcpSuite.cm (K : CmKeys) : RtcpSuite := ⟨kSrtcpTagLenCm, cmProtectRtcp K, cmUnprotectRtcp K⟩

def RtcpSuite.gcm (K : GcmKeys) : RtcpSuite := ⟨kGcmTagLen, gcmProtectRtcp K, gcmUnprotectRtcp K⟩

structure RtcpSuite.Seals (R : RtcpSuite) (ssrc index : Nat) (p q : Bytes) : Prop where
  length : q.length = p.length + kSrtcpTrailerLen + R.tagLen
  header : q.take kRtcpHeaderMin = p.take kRtcpHeaderMin
  carries : rd32 q p.length = index + 2 ^ 31
  opens : R.unprotect ssrc index q = .ok p

def RtcpSuite.Lawful (R : RtcpSuite) : Prop :=
  ∀ ssrc index p q, kRtcpHeaderMin ≤ p.length → index < 2 ^ 31 →
    R.protect ssrc index p = .ok q → R.Seals ssrc index p q

section
variable {K : CmKeys} {G : GcmKeys} {head rest text tag : Bytes} {ssrc index : Nat}

theorem RtcpSuite.seals_of_form {R : RtcpSuite} (hhead : head.length = kRtcpHeaderMin)
    (htext : text.length = rest.length) (hindex : index < 2 ^ 31) (htag : tag.length = R.tagLen)
    (hopen : R.unprotect ssrc index (head ++ text ++ trailer index ++ tag) = .ok (head ++ rest)) :
    R.Seals ssrc index (head ++ rest) (head ++ text ++ trailer index ++ tag) where
  length := by
    simp only [length_append, htext, htag]
    rfl
  header := by rw [append_assoc, append_assoc, take_left' hhead, take_left' hhead]
  carries := by
    rw [append_assoc, rd32_append_right (n := 0) (by simp [htext]), trailer, rd32_wr32 (by omega)]
  opens := hopen

theorem rtcp_cm_lawful (hK : K.Lawful) : (RtcpSuite.cm K).Lawful := by
  intro ssrc index p q hp hindex h
  obtain ⟨head, rest, rfl, hhead⟩ := exists_split hp
  simp only [RtcpSuite.cm, cmProtectRtcp, take_left' hhead, drop_left' hhead] at h
  split at h
  · cases h
  rename_i text htext
  split at h
  · cases h
  rename_i tag hmac
  cases h
  have htag := srtpHmacKeyed_length (by decide) hmac
  have htrail : (trailer index).length = kSrtcpTrailerLen := rfl
  refine RtcpSuite.seals_of_form hhead (srtpCtrXcrypt_length htext) hindex htag ?_
  simp only [RtcpSuite.cm, cmUnprotectRtcp, take_untagged htag, drop_untagged htag, hmac, ne_eq,
    not_true_eq_false, if_false, take_untagged htrail, drop_left' hhead, take_left' hhead,
    srtpCtrXcrypt_back hK htext]

theorem rtcp_gcm_lawful (hG : G.Lawful) : (RtcpSuite.gcm G).Lawful := by
  intro ssrc index p q hp hindex h
  obtain ⟨head, rest, rfl, hhead⟩ := exists_split hp
  simp only [RtcpSuite.gcm, gcmProtectRtcp, take_left' hhead, drop_left' hhead] at h
  split at h
  · cases h
  rename_i text tag hseal
  cases h
  obtain ⟨htext, htag, hopen⟩ := hG _ _ _ _ _ hseal
  refine RtcpSuite.seals_of_form hhead htext hindex htag ?_
  have htrail : (trailer index).length = kSrtcpTrailerLen := rfl
  have hcut : (head ++ text ++ trailer index ++ tag).length - kGcmTagLen - kSrtcpTrailerLen =
      (head ++ text).length := by
    rw [length_append, htag, Nat.add_sub_cancel, length_append, htrail, Nat.add_sub_cancel]
  simp only [RtcpSuite.gcm, gcmUnprotectRtcp, drop_untagged htag, hcut]
  simp only [append_assoc _ (trailer index), take_left, drop_left, take_left' htrail,
    drop_left' hhead, take_left' hhead, hopen]

end

/-! ## SRTCP calls -/

def protectRtcp (R : RtcpSuite) (t : Session) (p : Bytes) (outCap : Nat) :
    Except Error Bytes × Session :=
  if p.length < kRtcpHeaderMin then (.error .tooShort, t)
  else if outCap < p.length + kSrtcpTrailerLen + R.tagLen then (.error .bufferTooSmall, t)
  else
    let index := (t.srtcpIndexOut + 1) % 2 ^ 31
    match R.protect (rd32 p 4) index p with
    | .error e => (.error e, t)
    | .ok q => (.ok q, { t with srtcpIndexOut := index })

def unprotectRtcp (R : RtcpSuite) (t : Session) (q : Bytes) (outCap : Nat) :
    Except Error Bytes × Session :=
  if q.length < kRtcpHeaderMin + kSrtcpTrailerLen + R.tagLen then (.error .tooShort, t)
  else
    let index := rd32 q (q.length - R.tagLen - kSrtcpTrailerLen) % 2 ^ 31
    if outCap < q.length - R.tagLen - kSrtcpTrailerLen then (.error .bufferTooSmall, t)
    else (R.unprotect (rd32 q 4) index q, t)

/-! ## Runs of a session -/

inductive Op
  | protectRtp (p : Bytes) (outCap : Nat)
  | unprotectRtp (q : Bytes) (outCap : Nat)
  | protectRtcp (p : Bytes) (outCap : Nat)
  | unprotectRtcp (q : Bytes) (outCap : Nat)

def perform (S : Suite) (R : RtcpSuite) (t : Session) : Op → Except Error Bytes × Session
  | .protectRtp p cap => protectRtp S t p cap
  | .unprotectRtp q cap => unprotectRtp S t q cap
  | .protectRtcp p cap => protectRtcp R t p cap
  | .unprotectRtcp q cap => unprotectRtcp R t q cap

def rtcpSeals (S : Suite) (R : RtcpSuite) (t : Session) (o : Op) : Option Bytes :=
  match o, (perform S R t o).1 with
  | .protectRtcp _ _, .ok q => some q
  | _, _ => none

/-- The SSRC and the index in an SRTCP packet. -/
def rtcpId (R : RtcpSuite) (q : Bytes) : Nat × Nat :=
  (rd32 q 4, rd32 q (q.length - R.tagLen - kSrtcpTrailerLen) % 2 ^ 31)

/-- The SSRC and the index of the SRTCP packet a call accepts. -/
def rtcpAccepts (S : Suite) (R : RtcpSuite) (t : Session) (o : Op) : Option (Nat × Nat) :=
  match o, (perform S R t o).1 with
  | .unprotectRtcp q _, .ok _ => some (rtcpId R q)
  | _, _ => none

/-- What the calls of a run yield, one after the other. -/
def trace {α : Type} (S : Suite) (R : RtcpSuite) (f : Session → Op → Option α) :
    Session → List Op → List α
  | _, [] => []
  | t, o :: os => (f t o).toList ++ trace S R f (perform S R t o).2 os

variable {S : Suite} {R : RtcpSuite} {t t' : Session} {o : Op} {os : List Op} {q : Bytes}

theorem mem_trace {α : Type} {f : Session → Op → Option α} {x : α} :
    x ∈ trace S R f t os → ∃ t' o, f t' o = some x := by
  induction os generalizing t with
  | nil => exact fun h => absurd h not_mem_nil
  | cons o os ih =>
    intro h
    rcases mem_append.mp h with h | h
    · exact ⟨t, o, by simpa using h⟩
    · exact ih h

theorem rtcpSeals_some (h : rtcpSeals S R t o = some q) : ∃ p cap, o = .protectRtcp p cap ∧
    kRtcpHeaderMin ≤ p.length ∧ R.protect (rd32 p 4) ((t.srtcpIndexOut + 1) % 2 ^ 31) p = .ok q := by
  unfold rtcpSeals at h
  split at h
  · rename_i p cap q' hq
    cases h
    refine ⟨p, cap, rfl, ?_⟩
    simp only [perform, protectRtcp] at hq
    split at hq
    · cases hq
    rename_i hmin
    split at hq
    · cases hq
    split at hq
    · cases hq
    · rename_i hp
      cases hq
      exact ⟨Nat.le_of_not_lt hmin, hp⟩
  · cases h

theorem rtcpSeals_id (hR : R.Lawful) (h : rtcpSeals S R t o = some q) :
    (rtcpId R q).2 = (t.srtcpIndexOut + 1) % 2 ^ 31 ∧
      kRtcpHeaderMin + kSrtcpTrailerLen + R.tagLen ≤ q.length ∧
      ∃ p, R.unprotect (rtcpId R q).1 (rtcpId R q).2 q = .ok p := by
  obtain ⟨p, cap, -, hmin, hp⟩ := rtcpSeals_some h
  have hlt : (t.srtcpIndexOut + 1) % 2 ^ 31 < 2 ^ 31 := Nat.mod_lt _ (by decide)
  obtain ⟨hlen, hhead, hindex, hopen⟩ := hR _ _ p q hmin hlt hp
  have hssrc : rd32 q 4 = rd32 p 4 := by
    have hoct : ∀ i < 8, octet q i = octet p i := fun i hi => octet_congr hhead hi
    simp only [rd32, rd16, hoct 4 (by decide), hoct (4 + 1) (by decide), hoct (4 + 2) (by decide),
      hoct (4 + 2 + 1) (by decide)]
  have hid : rtcpId R q = (rd32 p 4, (t.srtcpIndexOut + 1) % 2 ^ 31) := by
    rw [rtcpId, hssrc, show q.length - R.tagLen - kSrtcpTrailerLen = p.length by omega, hindex,
      Nat.add_mod_right, Nat.mod_eq_of_lt hlt]
  exact ⟨by rw [hid], by omega, p, by rw [hid]; exact hopen⟩

theorem perform_index (o : Op) : (perform S R t o).2.srtcpIndexOut =
    match rtcpSeals S R t o with
    | some _ => (t.srtcpIndexOut + 1) % 2 ^ 31
    | none => t.srtcpIndexOut := by
  have hslot : ∀ {ssrc s t'}, t.slotFor ssrc = some (s, t') →
      t'.srtcpIndexOut = t.srtcpIndexOut := by
    intro ssrc s t' h
    unfold Session.slotFor at h
    split at h
    · cases h
      rfl
    split at h
    · cases h
      rfl
    · cases h
  cases o with
  | protectRtp p cap =>
    simp only [rtcpSeals, perform, protectRtp]
    cases parseRtp p with
    | none => rfl
    | some v =>
      simp only
      split
      · rfl
      cases h : t.slotFor v.ssrc with
      | none => rfl
      | some r =>
        obtain ⟨s, t'⟩ := r
        have hsame := hslot h
        simp only
        split <;> exact hsame
  | unprotectRtp q cap =>
    have hun : (unprotectRtp S t q cap).2.srtcpIndexOut = t.srtcpIndexOut := by
      rcases unprotectRtp_cases S t q cap with
        ⟨e, -, he⟩ | ⟨v, s, t', -, h, ⟨e, he⟩ | ⟨p, -, -, -, he⟩⟩
      · rw [he]
      · rw [he]
        exact hslot h
      · have hsame := hslot h
        rw [he]
        exact hsame
    simpa only [rtcpSeals, perform] using hun
  | protectRtcp p cap =>
    simp only [rtcpSeals, perform, protectRtcp]
    split
    · rfl
    · split
      · rfl
      · cases R.protect (rd32 p 4) ((t.srtcpIndexOut + 1) % 2 ^ 31) p <;> rfl
  | unprotectRtcp q cap =>
    simp only [rtcpSeals, perform, unprotectRtcp]
    split
    · rfl
    · split <;> rfl

theorem sealed_indices (hR : R.Lawful) (hlt : t.srtcpIndexOut < 2 ^ 31) (os : List Op) :
    (trace S R (rtcpSeals S R) t os).map (fun q => (rtcpId R q).2) =
      (List.range (trace S R (rtcpSeals S R) t os).length).map
        fun n => (t.srtcpIndexOut + 1 + n) % 2 ^ 31 := by
  induction os generalizing t with
  | nil => rfl
  | cons o os ih =>
    have hindex := perform_index (S := S) (R := R) (t := t) o
    rw [trace]
    cases hs : rtcpSeals S R t o with
    | none =>
      rw [hs] at hindex
      have := ih (t := (perform S R t o).2) (by rw [hindex]; exact hlt)
      rw [hindex] at this
      simpa using this
    | some q =>
      rw [hs] at hindex
      have := ih (t := (perform S R t o).2) (by rw [hindex]; exact Nat.mod_lt _ (by decide))
      rw [hindex] at this
      simp only [Option.toList_some, cons_append, nil_append, map_cons, this, (rtcpSeals_id hR hs).1,
        length_cons, range_succ_eq_map, map_map, List.cons.injEq]
      refine ⟨trivial, map_congr_left fun n _ => ?_⟩
      simp only [Function.comp_apply]
      omega

theorem sealed_nodup (hR : R.Lawful) (os : List Op)
    (hlen : (trace S R (rtcpSeals S R) {} os).length ≤ 2 ^ 31) :
    ((trace S R (rtcpSeals S R) {} os).map (rtcpId R)).Nodup := by
  refine List.Nodup.of_map (·.2) ?_
  have hindices := sealed_indices (S := S) (t := {}) hR (by decide) os
  rw [map_map, Function.comp_def, hindices]
  refine List.Nodup.map_on (fun x hx y hy heq => ?_) nodup_range
  rw [mem_range] at hx hy
  have hzero : ({} : Session).srtcpIndexOut = 0 := rfl
  rw [hzero] at heq
  omega

/-! ## What the peer sealed -/

/-- No packet given to `unprotect_rtcp` authenticates but those the peer sealed. -/
def Unforged (R : RtcpSuite) (sealedByPeer : List Bytes) (os : List Op) : Prop :=
  ∀ q cap, .unprotectRtcp q cap ∈ os →
    (∃ p, R.unprotect (rtcpId R q).1 (rtcpId R q).2 q = .ok p) → q ∈ sealedByPeer

/-- The packet of the peer that a call gives to the session, with room for its
plain text. -/
def givenSealed (R : RtcpSuite) (sealedByPeer : List Bytes) : Op → Option Bytes
  | .unprotectRtcp q cap =>
    if sealedByPeer.contains q ∧ q.length - R.tagLen - kSrtcpTrailerLen ≤ cap then some q else none
  | _ => none

theorem rtcpAccepts_eq {peer : List Op} (hR : R.Lawful)
    (hauth : Unforged R (trace S R (rtcpSeals S R) {} peer) os) (ho : o ∈ os) (t : Session) :
    rtcpAccepts S R t o =
      (givenSealed R (trace S R (rtcpSeals S R) {} peer) o).map (rtcpId R) := by
  cases o with
  | protectRtp | unprotectRtp | protectRtcp => rfl
  | unprotectRtcp q cap =>
    by_cases hq : q ∈ trace S R (rtcpSeals S R) {} peer
    · obtain ⟨t', o', hs⟩ := mem_trace hq
      obtain ⟨-, hlen, p, hp⟩ := rtcpSeals_id hR hs
      have hun : R.unprotect (rd32 q 4) (rd32 q (q.length - R.tagLen - kSrtcpTrailerLen) % 2 ^ 31) q =
          .ok p := hp
      by_cases hroom : q.length - R.tagLen - kSrtcpTrailerLen ≤ cap
      · simp only [rtcpAccepts, perform, unprotectRtcp, if_neg (Nat.not_lt.mpr hlen),
          if_neg (Nat.not_lt.mpr hroom), hun, givenSealed, contains_iff_mem.mpr hq, hroom, and_self,
          if_true, Option.map_some]
      · simp only [rtcpAccepts, perform, unprotectRtcp, if_neg (Nat.not_lt.mpr hlen),
          if_pos (Nat.lt_of_not_le hroom), givenSealed, hroom, and_false, if_false, Option.map_none]
    have hnone : rtcpAccepts S R t (.unprotectRtcp q cap) = none := by
      unfold rtcpAccepts
      split
      · rename_i q' cap' p heq hok
        cases heq
        simp only [perform, unprotectRtcp] at hok
        split at hok
        · cases hok
        split at hok
        · cases hok
        · exact absurd (hauth q cap ho ⟨p, hok⟩) hq
      · rfl
    simp only [hnone, givenSealed, contains_iff_mem, hq, false_and, if_false, Option.map_none]

theorem accepted_eq {peer : List Op} (hR : R.Lawful)
    (hauth : Unforged R (trace S R (rtcpSeals S R) {} peer) os) (t : Session) :
    trace S R (rtcpAccepts S R) t os =
      (os.filterMap (givenSealed R (trace S R (rtcpSeals S R) {} peer))).map (rtcpId R) := by
  induction os generalizing t with
  | nil => rfl
  | cons o os ih =>
    rw [trace, ih (fun q cap hmem => hauth q cap (mem_cons_of_mem _ hmem)),
      rtcpAccepts_eq hR hauth mem_cons_self]
    cases h : givenSealed R (trace S R (rtcpSeals S R) {} peer) o <;> simp [h]

/-- A peer that seals at most `2 ^ 31` packets never uses an SSRC and index twice;
and a session to which only its packets authenticate accepts none twice exactly
if none of them is given to it twice. -/
theorem rtcp_run (hR : R.Lawful) (peer os : List Op)
    (hfew : (trace S R (rtcpSeals S R) {} peer).length ≤ 2 ^ 31)
    (hauth : Unforged R (trace S R (rtcpSeals S R) {} peer) os) :
    ((trace S R (rtcpSeals S R) {} peer).map (rtcpId R)).Nodup ∧
      ((trace S R (rtcpAccepts S R) {} os).Nodup ↔
        (os.filterMap (givenSealed R (trace S R (rtcpSeals S R) {} peer))).Nodup) := by
  have hnodup := sealed_nodup hR peer hfew
  refine ⟨hnodup, ?_⟩
  rw [accepted_eq hR hauth]
  refine ⟨Nodup.of_map _, fun h => h.map_on fun x hx y hy heq => ?_⟩
  have hsealed : ∀ {x}, x ∈ os.filterMap (givenSealed R (trace S R (rtcpSeals S R) {} peer)) →
      x ∈ trace S R (rtcpSeals S R) {} peer := by
    intro x hx
    obtain ⟨o, -, ho⟩ := mem_filterMap.mp hx
    cases o with
    | unprotectRtcp q cap =>
      obtain ⟨hmem, heq⟩ := Option.ite_none_right_eq_some.mp ho
      cases heq
      exact contains_iff_mem.mp hmem.1
    | protectRtp | unprotectRtp | protectRtcp => cases ho
  exact inj_on_of_nodup_map hnodup (hsealed hx) (hsealed hy) heq

/-! ### A replayed packet -/

theorem ivTag_lawful : ivTag.Lawful := by
  intro iv aad buf text tag h
  cases h
  simp [kGcmTagLen, ivTag]

/-- A picture loss indication of SSRC 7. -/
def pli : Bytes := [0x81, 206, 0, 2] ++ wr32 7 ++ wr32 9

/-- The packets a peer seals for it, twice. -/
def sealedPlis : List Bytes :=
  trace (.gcm ivTag) (.gcm ivTag) (rtcpSeals (.gcm ivTag) (.gcm ivTag)) {}
    [.protectRtcp pli 32, .protectRtcp pli 32]

/-- Two packets sealed one after the other are different, and both accepted. -/
theorem rtcp_run_two :
    (trace (.gcm ivTag) (.gcm ivTag) (rtcpAccepts (.gcm ivTag) (.gcm ivTag)) {}
      (sealedPlis.map (.unprotectRtcp · 12))).Nodup ∧
      sealedPlis.map (rtcpId (.gcm ivTag)) = [(7, 1), (7, 2)] := by
  refine ⟨(rtcp_run (rtcp_gcm_lawful ivTag_lawful) [.protectRtcp pli 32, .protectRtcp pli 32]
    (sealedPlis.map (.unprotectRtcp · 12)) (by decide +kernel) ?_).2.mpr (by decide +kernel),
    by decide +kernel⟩
  intro q cap hmem _
  obtain ⟨x, hx, heq⟩ := mem_map.mp hmem
  cases heq
  exact hx

/-- A picture loss indication is recorded and replayed: it is accepted again. -/
theorem rtcp_replay_accepted : ∃ q, (protectRtcp (.gcm ivTag) {} pli 32).1 = .ok q ∧
    trace (.gcm ivTag) (.gcm ivTag) (rtcpAccepts (.gcm ivTag) (.gcm ivTag)) {}
      [.unprotectRtcp q 12, .unprotectRtcp q 12] = [(7, 1), (7, 1)] :=
  ⟨sealedPlis.headD [], by decide +kernel⟩

end BoltApi.WebRtc.Srtp
