import BoltApi.WebRtc.Srtp

/-! # The crypto profiles of SRTP

`cm_protect_rtp`, `cm_unprotect_rtp`, `gcm_protect_rtp` and `gcm_unprotect_rtp`
over the keyed contexts of a session. AES-CTR, HMAC-SHA1 and AES-GCM are
parameters that may fail; both profiles are suites that keep the header and open
what they sealed. -/
namespace BoltApi.WebRtc.Srtp
open Octets Wire List

def kSrtpTagLenCm : Nat := 10
def kGcmTagLen : Nat := 16

structure CmKeys where
  salt : Bytes
  ctr : Bytes → Bytes → Option Bytes
  mac : Bytes → Option Bytes

structure GcmKeys where
  salt : Bytes
  sealText : Bytes → Bytes → Bytes → Option (Bytes × Bytes)
  openText : Bytes → Bytes → Bytes → Bytes → Option Bytes

def srtpCtrXcrypt (K : CmKeys) (iv buf : Bytes) : Option Bytes :=
  if buf.length = 0 then some buf else (K.ctr iv buf).filter (·.length = buf.length)

def srtpHmacKeyed (K : CmKeys) (a b : Bytes) (tagLen : Nat) : Option Bytes :=
  ((K.mac (a ++ b)).filter (·.length = 20)).map (·.take tagLen)

def xorOctets (a b : Bytes) : Bytes := zipWith (· ^^^ ·) a b

def srtpCmIv (salt : Bytes) (ssrc roc seq : Nat) : Bytes :=
  xorOctets (salt ++ [0, 0]) ([0, 0, 0, 0] ++ wr32 ssrc ++ wr32 roc ++ wr16 seq ++ [0, 0])

def srtpGcmIv (salt : Bytes) (ssrc roc seq : Nat) : Bytes :=
  xorOctets salt ([0, 0] ++ wr32 ssrc ++ wr32 roc ++ wr16 seq)

def cmProtectRtp (K : CmKeys) (v : RtpView) (roc : Nat) (p : Bytes) : Except Error Bytes :=
  match srtpCtrXcrypt K (srtpCmIv K.salt v.ssrc roc v.seq) (p.drop v.headerLen) with
  | none => .error .cryptoFail
  | some text =>
    let body := p.take v.headerLen ++ text
    match srtpHmacKeyed K body (wr32 roc) kSrtpTagLenCm with
    | none => .error .cryptoFail
    | some tag => .ok (body ++ tag)

def cmUnprotectRtp (K : CmKeys) (v : RtpView) (roc : Nat) (q : Bytes) : Except Error Bytes :=
  let body := q.take (q.length - kSrtpTagLenCm)
  match srtpHmacKeyed K body (wr32 roc) kSrtpTagLenCm with
  | none => .error .cryptoFail
  | some tag =>
    if tag ≠ q.drop (q.length - kSrtpTagLenCm) then .error .authFail
    else
      match srtpCtrXcrypt K (srtpCmIv K.salt v.ssrc roc v.seq) (body.drop v.headerLen) with
      | none => .error .cryptoFail
      | some text => .ok (body.take v.headerLen ++ text)

def gcmProtectRtp (K : GcmKeys) (v : RtpView) (roc : Nat) (p : Bytes) : Except Error Bytes :=
  match K.sealText (srtpGcmIv K.salt v.ssrc roc v.seq) (p.take v.headerLen) (p.drop v.headerLen) with
  | none => .error .cryptoFail
  | some (text, tag) => .ok (p.take v.headerLen ++ text ++ tag)

def gcmUnprotectRtp (K : GcmKeys) (v : RtpView) (roc : Nat) (q : Bytes) : Except Error Bytes :=
  let body := q.take (q.length - kGcmTagLen)
  match K.openText (srtpGcmIv K.salt v.ssrc roc v.seq) (body.take v.headerLen)
      (body.drop v.headerLen) (q.drop (q.length - kGcmTagLen)) with
  | none => .error .authFail
  | some text => .ok (body.take v.headerLen ++ text)

def Suite.cm (K : CmKeys) : Suite := ⟨kSrtpTagLenCm, cmProtectRtp K, cmUnprotectRtp K⟩

def Suite.gcm (K : GcmKeys) : Suite := ⟨kGcmTagLen, gcmProtectRtp K, gcmUnprotectRtp K⟩

/-! ## What the primitives are trusted for -/

/-- A key stream that is added twice cancels. -/
def CmKeys.Lawful (K : CmKeys) : Prop :=
  ∀ iv buf text, K.ctr iv buf = some text → text.length = buf.length → K.ctr iv text = some buf

/-- What is sealed keeps its length and opens. -/
def GcmKeys.Lawful (K : GcmKeys) : Prop :=
  ∀ iv aad buf text tag, K.sealText iv aad buf = some (text, tag) →
    text.length = buf.length ∧ tag.length = kGcmTagLen ∧ K.openText iv aad text tag = some buf

variable {K : CmKeys} {G : GcmKeys} {iv buf text a b tag p q : Bytes} {v : RtpView} {roc n : Nat}

theorem srtpCtrXcrypt_length (h : srtpCtrXcrypt K iv buf = some text) :
    text.length = buf.length := by
  unfold srtpCtrXcrypt at h
  split at h
  · cases h
    rfl
  · simpa using (Option.filter_eq_some_iff.mp h).2

theorem srtpCtrXcrypt_back (hK : K.Lawful) (h : srtpCtrXcrypt K iv buf = some text) :
    srtpCtrXcrypt K iv text = some buf := by
  have hlen := srtpCtrXcrypt_length h
  unfold srtpCtrXcrypt at h ⊢
  rw [hlen]
  split at h
  · rename_i hnil
    rw [if_pos hnil, h]
  · rename_i hne
    rw [if_neg hne, hK iv buf text (Option.filter_eq_some_iff.mp h).1 hlen]
    simp

theorem srtpHmacKeyed_length (hn : n ≤ 20) (h : srtpHmacKeyed K a b n = some tag) :
    tag.length = n := by
  obtain ⟨full, hfull, rfl⟩ := Option.map_eq_some_iff.mp h
  have hlen : full.length = 20 := by simpa using (Option.filter_eq_some_iff.mp hfull).2
  rw [length_take, hlen, Nat.min_eq_left hn]

theorem take_untagged (h : tag.length = n) (body : Bytes) :
    (body ++ tag).take ((body ++ tag).length - n) = body := by
  rw [length_append, h, Nat.add_sub_cancel, take_left]

theorem drop_untagged (h : tag.length = n) (body : Bytes) :
    (body ++ tag).drop ((body ++ tag).length - n) = tag := by
  rw [length_append, h, Nat.add_sub_cancel, drop_left]

theorem exists_split (h : n ≤ p.length) : ∃ head rest, p = head ++ rest ∧ head.length = n :=
  ⟨p.take n, p.drop n, (take_append_drop n p).symm, length_take_of_le h⟩

theorem Suite.Lawful.of_form {S : Suite} (h : ∀ {v roc head rest q}, head.length = v.headerLen →
    S.protect v roc (head ++ rest) = .ok q → ∃ text tag, text.length = rest.length ∧
      tag.length = S.tagLen ∧ q = head ++ text ++ tag ∧ S.unprotect v roc q = .ok (head ++ rest)) :
    S.Lawful := by
  constructor
  all_goals
    intro v roc p q hv hq
    obtain ⟨head, rest, rfl, hhead⟩ := exists_split (parseRtp_le hv)
    obtain ⟨text, tag, htext, htag, rfl, hopen⟩ := h hhead hq
  · rw [length_append, length_append, length_append, htext, htag]
  · rw [append_assoc, take_left' hhead, take_left' hhead]
  · exact hopen

theorem cm_lawful (hK : K.Lawful) : (Suite.cm K).Lawful := by
  refine .of_form fun hhead h => ?_
  simp only [Suite.cm, cmProtectRtp, take_left' hhead, drop_left' hhead] at h
  split at h
  · cases h
  rename_i text htext
  split at h
  · cases h
  rename_i tag hmac
  cases h
  have htag := srtpHmacKeyed_length (by decide) hmac
  refine ⟨text, tag, srtpCtrXcrypt_length htext, htag, rfl, ?_⟩
  simp only [Suite.cm, cmUnprotectRtp, take_untagged htag, drop_untagged htag, hmac, ne_eq,
    not_true_eq_false, if_false, drop_left' hhead, take_left' hhead, srtpCtrXcrypt_back hK htext]

theorem gcm_lawful (hG : G.Lawful) : (Suite.gcm G).Lawful := by
  refine .of_form fun hhead h => ?_
  simp only [Suite.gcm, gcmProtectRtp, take_left' hhead, drop_left' hhead] at h
  split at h
  · cases h
  rename_i text tag hseal
  cases h
  obtain ⟨hlen, htag, hopen⟩ := hG _ _ _ _ _ hseal
  refine ⟨text, tag, hlen, htag, rfl, ?_⟩
  simp only [Suite.gcm, gcmUnprotectRtp, take_untagged htag, drop_untagged htag, drop_left' hhead,
    take_left' hhead, hopen]

end BoltApi.WebRtc.Srtp
