import BoltApi.Auth.Base64Url
import BoltApi.Lib.Numerals

/-! # Signed tokens

`mint` and `verify` of `auth/signed_token.cpp`. A token is
`purpose.payload.expiry.mac`, all parts as text, and the MAC is over the text
of the first three. HMAC-SHA256 is a function of the secret and the input that
is given here; that it cannot be forged is an assumption about the token that is
presented: if it shows the MAC of an input, the input was signed. -/
namespace BoltApi.Auth.SignedToken
open Octets Lib.Numerals Base64Url List

def kSecretMin : Nat := 16
def kPurposeMax : Nat := 16
def kPayloadMax : Nat := 96
def kEncodedMax : Nat := 320

def DOT : UInt8 := 0x2E

/-- What `verify` hands out of a token it accepts. -/
structure Parsed where
  purpose : Bytes
  payload : Bytes
  expUnix : UInt64
deriving DecidableEq

inductive Reason where
  | malformed
  | badSignature
  | purposeMismatch
  | expired
deriving DecidableEq

def signedBuf (pEnc dEnc : Bytes) (expUnix : UInt64) : Bytes :=
  pEnc ++ DOT :: (dEnc ++ DOT :: printed 10 expUnix.toNat)

/-- `mint` into a buffer of `outCap` octets; `none` is 0. -/
def mint (hmacSha256 : Bytes → Bytes → Bytes) (secret purpose payload : Bytes) (expUnix : UInt64)
    (outCap : Nat) : Option Bytes :=
  if secret.length < kSecretMin then none
  else if purpose = [] ∨ kPurposeMax < purpose.length then none
  else if kPayloadMax < payload.length then none
  else if outCap < kEncodedMax then none
  else
    let pEnc := b64urlEncode purpose (kPurposeMax * 2 + 1)
    let dEnc := b64urlEncode payload (kPayloadMax * 2 + 1)
    if pEnc = [] ∨ (payload ≠ [] ∧ dEnc = []) then none
    else
      let signedPart := signedBuf pEnc dEnc expUnix
      if kEncodedMax ≤ signedPart.length then none
      else
        let macEnc := b64urlEncode (hmacSha256 secret signedPart) 64
        if macEnc = [] then none
        else
          let token := signedPart ++ DOT :: macEnc
          if outCap ≤ token.length then none else some token

def splitDot (s : Bytes) : Option (Bytes × Bytes) :=
  match s with
  | [] => none
  | c :: s => if c = DOT then some ([], s) else (splitDot s).map fun (a, b) => (c :: a, b)

def parseExp : Bytes → UInt64 → Option UInt64
  | [], exp => some exp
  | c :: s, exp => if isDigit c then parseExp s (exp * 10 + (c - 0x30).toUInt64) else none

/-- `verify`, with `scratchCap` octets of scratch. -/
def verify (hmacSha256 : Bytes → Bytes → Bytes) (secret token expectedPurpose : Bytes) (nowUnix : UInt64)
    (scratchCap : Nat) : Except Reason Parsed :=
  if secret.length < kSecretMin ∨ token = [] ∨ expectedPurpose = [] then .error .malformed
  else
    match splitDot token with
    | none => .error .malformed
    | some (pB64, rest) =>
      match splitDot rest with
      | none => .error .malformed
      | some (dB64, rest) =>
        match splitDot rest with
        | none => .error .malformed
        | some (expDec, mB64) =>
          let signedPart := token.take (pB64.length + 1 + dB64.length + 1 + expDec.length)
          let macExpect := hmacSha256 secret signedPart
          let macGot := b64urlDecode mB64 32
          if macGot.length ≠ 32 then .error .badSignature
          else if macGot ≠ macExpect then .error .badSignature
          else if scratchCap < kPayloadMax + kPurposeMax then .error .malformed
          else
            let purpose := b64urlDecode pB64 kPurposeMax
            if purpose.length = 0 then .error .malformed
            else if purpose ≠ expectedPurpose then .error .purposeMismatch
            else
              let payload := b64urlDecode dB64 kPayloadMax
              match parseExp expDec 0 with
              | none => .error .malformed
              | some exp => if exp ≤ nowUnix then .error .expired else .ok ⟨purpose, payload, exp⟩

def signingInput (purpose payload : Bytes) (expUnix : UInt64) : Bytes :=
  signedBuf (encodeLoop purpose) (encodeLoop payload) expUnix

variable {hmacSha256 : Bytes → Bytes → Bytes} {secret purpose payload token : Bytes}
  {expUnix nowUnix : UInt64} {outCap scratchCap : Nat} {p d e m : Bytes}

/-! ## Parts of a token -/

theorem splitDot_append (h : DOT ∉ p) (rest : Bytes) : splitDot (p ++ DOT :: rest) = some (p, rest) := by
  induction p with
  | nil => simp [splitDot]
  | cons c p ih =>
    have hc : c ≠ DOT := fun heq => h (heq ▸ mem_cons_self)
    have hp : DOT ∉ p := fun hmem => h (mem_cons_of_mem c hmem)
    simp [splitDot, hc, ih hp]

theorem splitDot_some {rest} (h : splitDot token = some (p, rest)) :
    token = p ++ DOT :: rest ∧ DOT ∉ p := by
  induction token generalizing p with
  | nil => cases h
  | cons c s ih =>
    simp only [splitDot] at h
    split at h
    · next hc =>
      cases h
      exact ⟨by rw [hc, nil_append], not_mem_nil⟩
    next hc =>
    obtain ⟨⟨a, b⟩, hs, heq⟩ := Option.map_eq_some_iff.mp h
    cases heq
    obtain ⟨rfl, ha⟩ := ih hs
    refine ⟨rfl, fun hmem => ?_⟩
    rcases mem_cons.mp hmem with heq | hmem
    · exact hc heq.symm
    · exact ha hmem

theorem DOT_not_mem_encodeLoop (x : Bytes) : DOT ∉ encodeLoop x := by
  rw [encodeLoop_eq]
  intro hmem
  obtain ⟨v, -, hv⟩ := mem_map.mp hmem
  have hdec := b64urlDecodeChar_char v
  rw [hv] at hdec
  cases hdec

theorem digit_of_mem_printed {n c} (h : c ∈ printed 10 n) : isDigit c ∧ c ≠ DOT := by
  obtain ⟨k, hk, rfl⟩ := mem_printed (by decide) h
  have hall : ∀ k < 10, isDigit (digitOctet k) ∧ digitOctet k ≠ DOT := by decide
  exact hall k hk

theorem DOT_not_mem_printed (n : Nat) : DOT ∉ printed 10 n :=
  fun h => (digit_of_mem_printed h).2 rfl

theorem signedBuf_parts (hp : DOT ∉ p) (hd : DOT ∉ d) (he : DOT ∉ e) {x y}
    (h : p ++ DOT :: (d ++ DOT :: e) = signingInput x y expUnix) :
    p = encodeLoop x ∧ d = encodeLoop y ∧ e = printed 10 expUnix.toNat := by
  have h₁ := congrArg splitDot h
  rw [signingInput, signedBuf, splitDot_append hp, splitDot_append (DOT_not_mem_encodeLoop x)] at h₁
  obtain ⟨rfl, h₂⟩ := Prod.mk.inj (Option.some.inj h₁)
  have h₃ := congrArg splitDot h₂
  rw [splitDot_append hd, splitDot_append (DOT_not_mem_encodeLoop y)] at h₃
  obtain ⟨rfl, rfl⟩ := Prod.mk.inj (Option.some.inj h₃)
  exact ⟨rfl, rfl, rfl⟩

/-! ## The expiry -/

theorem parseExp_digits {s} (hs : ∀ c ∈ s, isDigit c) (n : Nat) :
    parseExp s (UInt64.ofNat n) =
      some (UInt64.ofNat (s.foldl (fun a c => a * 10 + (c - 0x30).toNat) n)) := by
  induction s generalizing n with
  | nil => rfl
  | cons c s ih =>
    have hstep : UInt64.ofNat n * 10 + (c - 0x30).toUInt64 = UInt64.ofNat (n * 10 + (c - 0x30).toNat) := by
      rw [UInt64.ofNat_add, UInt64.ofNat_mul, UInt64.ofNat_uInt8ToNat]
      rfl
    rw [parseExp, if_pos (hs c mem_cons_self), hstep, ih fun d hd => hs d (mem_cons_of_mem c hd)]
    rfl

theorem parseExp_printed (expUnix : UInt64) : parseExp (printed 10 expUnix.toNat) 0 = some expUnix := by
  have hread := parseExp_digits (s := printed 10 expUnix.toNat) (fun c hc => (digit_of_mem_printed hc).1) 0
  have hvalue : (printed 10 expUnix.toNat).foldl (fun a c => a * 10 + (c - 0x30).toNat) 0 = expUnix.toNat :=
    printed_value (by decide) (by decide) _
  rw [hvalue, UInt64.ofNat_toNat] at hread
  exact hread

/-! ## Minting and verifying -/

theorem mint_some (h : mint hmacSha256 secret purpose payload expUnix outCap = some token) :
    kSecretMin ≤ secret.length ∧ purpose ≠ [] ∧ purpose.length ≤ kPurposeMax ∧
      payload.length ≤ kPayloadMax ∧
      token = signingInput purpose payload expUnix ++
        DOT :: b64urlEncode (hmacSha256 secret (signingInput purpose payload expUnix)) 64 := by
  simp only [mint, Option.ite_none_left_eq_some, not_or, Nat.not_lt, Option.some.injEq] at h
  obtain ⟨hsecret, ⟨hne, hpurpose⟩, hpayload, -, -, -, -, -, rfl⟩ := h
  have hpEnc : b64urlEncode purpose (kPurposeMax * 2 + 1) = encodeLoop purpose := by
    rw [b64urlEncode, if_neg]
    simp only [kPurposeMax] at hpurpose ⊢
    omega
  have hdEnc : b64urlEncode payload (kPayloadMax * 2 + 1) = encodeLoop payload := by
    rw [b64urlEncode, if_neg]
    simp only [kPayloadMax] at hpayload ⊢
    omega
  rw [hpEnc, hdEnc]
  exact ⟨hsecret, hne, hpurpose, hpayload, rfl⟩

structure Accepted (hmacSha256 : Bytes → Bytes → Bytes) (secret token purpose : Bytes) (nowUnix : UInt64)
    (r : Parsed) (p d e m : Bytes) : Prop where
  parts : token = p ++ DOT :: (d ++ DOT :: (e ++ DOT :: m))
  plain : DOT ∉ p ∧ DOT ∉ d ∧ DOT ∉ e
  longSecret : kSecretMin ≤ secret.length
  signature : b64urlDecode m 32 = hmacSha256 secret (p ++ DOT :: (d ++ DOT :: e))
  samePurpose : b64urlDecode p kPurposeMax = purpose
  named : purpose ≠ []
  fresh : nowUnix < r.expUnix
  result : r.purpose = purpose ∧ r.payload = b64urlDecode d kPayloadMax ∧ parseExp e 0 = some r.expUnix

theorem signedPart_eq (p d e m : Bytes) :
    (p ++ DOT :: (d ++ DOT :: (e ++ DOT :: m))).take (p.length + 1 + d.length + 1 + e.length) =
      p ++ DOT :: (d ++ DOT :: e) := by
  have hcut : p ++ DOT :: (d ++ DOT :: (e ++ DOT :: m)) = (p ++ DOT :: (d ++ DOT :: e)) ++ DOT :: m := by
    simp
  rw [hcut, take_left']
  simp only [length_append, length_cons]
  omega

theorem ite_error_eq_ok {c : Prop} [Decidable c] {e : Reason} {x : Except Reason Parsed} {r : Parsed} :
    (if c then .error e else x) = .ok r ↔ ¬ c ∧ x = .ok r := by
  split <;> simp_all

theorem verify_ok {r : Parsed}
    (h : verify hmacSha256 secret token purpose nowUnix scratchCap = .ok r) :
    ∃ p d e m, Accepted hmacSha256 secret token purpose nowUnix r p d e m := by
  rw [verify, ite_error_eq_ok, not_or, not_or] at h
  obtain ⟨⟨hsecret, -, hnamed⟩, h⟩ := h
  cases hp : splitDot token with
  | none => rw [hp] at h; cases h
  | some parts =>
  obtain ⟨p, rest₁⟩ := parts
  cases hd : splitDot rest₁ with
  | none => simp only [hp, hd] at h; cases h
  | some parts =>
  obtain ⟨d, rest₂⟩ := parts
  cases he : splitDot rest₂ with
  | none => simp only [hp, hd, he] at h; cases h
  | some parts =>
  obtain ⟨e, m⟩ := parts
  obtain ⟨rfl, hpdot⟩ := splitDot_some hp
  obtain ⟨rfl, hddot⟩ := splitDot_some hd
  obtain ⟨rfl, hedot⟩ := splitDot_some he
  simp only [hp, hd, he, signedPart_eq, ite_error_eq_ok, not_not, ne_eq] at h
  obtain ⟨-, hmac, -, -, hpurpose, h⟩ := h
  cases hexp : parseExp e 0 with
  | none => rw [hexp] at h; cases h
  | some exp =>
  rw [hexp] at h
  obtain ⟨hfresh, h⟩ := ite_error_eq_ok.mp h
  cases h
  exact ⟨p, d, e, m, rfl, ⟨hpdot, hddot, hedot⟩, Nat.le_of_not_lt hsecret, hmac, hpurpose, hnamed,
    UInt64.not_le.mp hfresh, hpurpose, rfl, hexp⟩

theorem verify_of_accepted {r} (hlen : ∀ k x, (hmacSha256 k x).length = 32)
    (hscratch : kPayloadMax + kPurposeMax ≤ scratchCap)
    (h : Accepted hmacSha256 secret token purpose nowUnix r p d e m) :
    verify hmacSha256 secret token purpose nowUnix scratchCap = .ok r := by
  obtain ⟨rfl, ⟨hp, hd, he⟩, hsecret, hmac, hpurpose, hnamed, hfresh, hres, hpayload, hexp⟩ := h
  have hlong : purpose.length ≠ 0 := fun h => hnamed (length_eq_zero_iff.mp h)
  have htoken : p ++ DOT :: (d ++ DOT :: (e ++ DOT :: m)) ≠ [] := by simp
  simp only [verify, splitDot_append hp, splitDot_append hd, splitDot_append he, signedPart_eq, hmac, hlen,
    hpurpose, hexp]
  rw [if_neg (by simp only [not_or]; exact ⟨Nat.not_lt.mpr hsecret, htoken, hnamed⟩), if_neg (by simp),
    if_neg (by simp), if_neg (Nat.not_lt.mpr hscratch), if_neg hlong, if_neg (by simp),
    if_neg (UInt64.not_le.mpr hfresh), ← hpayload, ← hres]

/-! ## Only minted tokens -/

/-- HMAC is ideal for a token: if the token shows the MAC of some text, `mint`
signed that text when a token was issued. -/
def Ideal (hmacSha256 : Bytes → Bytes → Bytes) (secret : Bytes)
    (issued : Bytes → Bytes → UInt64 → Bytes → Prop) (token : Bytes) : Prop :=
  ∀ x m, token = x ++ DOT :: m → b64urlDecode m 32 = hmacSha256 secret x →
    ∃ purpose payload expUnix t, issued purpose payload expUnix t ∧
      x = signingInput purpose payload expUnix

/-- Tokens are issued by `mint` with the secret. -/
def Minted (hmacSha256 : Bytes → Bytes → Bytes) (secret : Bytes)
    (issued : Bytes → Bytes → UInt64 → Bytes → Prop) : Prop :=
  ∀ purpose payload expUnix t, issued purpose payload expUnix t →
    ∃ outCap, mint hmacSha256 secret purpose payload expUnix outCap = some t

/-- A token is accepted exactly when it is one that was issued for the purpose
and has not expired, and then for what it was issued. -/
def Exact (hmacSha256 : Bytes → Bytes → Bytes) (secret : Bytes)
    (issued : Bytes → Bytes → UInt64 → Bytes → Prop) (purpose : Bytes) (nowUnix : UInt64) (scratchCap : Nat)
    (token : Bytes) : Prop :=
  ∀ r, verify hmacSha256 secret token purpose nowUnix scratchCap = .ok r ↔
    r.purpose = purpose ∧ issued purpose r.payload r.expUnix token ∧ nowUnix < r.expUnix

variable {issued : Bytes → Bytes → UInt64 → Bytes → Prop}

theorem encode_mac (hlen : ∀ k x, (hmacSha256 k x).length = 32) (x : Bytes) :
    b64urlEncode (hmacSha256 secret x) 64 = encodeLoop (hmacSha256 secret x) := by
  rw [b64urlEncode, hlen, if_neg (by decide)]

theorem decode_mac (hlen : ∀ k x, (hmacSha256 k x).length = 32) (x : Bytes) :
    b64urlDecode (encodeLoop (hmacSha256 secret x)) 32 = hmacSha256 secret x :=
  b64urlDecode_encodeLoop (Nat.le_of_eq (hlen secret x))

theorem withoutSpare_append (hm : m ≠ []) (x : Bytes) :
    withoutSpare (x ++ DOT :: m) = x ++ DOT :: withoutSpare m := by
  have hlast : (x ++ DOT :: m).getLast? = m.getLast? := by
    rw [List.getLast?_append_of_ne_nil _ (by simp), List.getLast?_cons_of_ne_nil hm]
  unfold withoutSpare
  rw [hlast]
  split
  · rfl
  · rw [dropLast_append_of_ne_nil (by simp), dropLast_cons_of_ne_nil hm]
    simp

theorem withoutSpare_eq_append {x y} (hy : y ≠ []) (h : withoutSpare token = x ++ DOT :: y) :
    ∃ m, withoutSpare m = y ∧ token = x ++ DOT :: m := by
  have hcut : ∃ m, m ≠ [] ∧ token = x ++ DOT :: m := by
    unfold withoutSpare at h
    split at h
    · exact ⟨y, hy, h⟩
    rename_i v hlast
    obtain ⟨c, hc, -⟩ := Option.bind_eq_some_iff.mp hlast
    obtain ⟨s, rfl⟩ := getLast?_eq_some_iff.mp hc
    obtain ⟨ys, d, rfl⟩ := (eq_nil_or_concat y).resolve_left hy
    rw [dropLast_concat, concat_eq_append, ← cons_append, ← append_assoc] at h
    exact ⟨ys ++ [c], by simp, by rw [(append_inj' h rfl).1]; simp⟩
  obtain ⟨m, hm, rfl⟩ := hcut
  rw [withoutSpare_append hm] at h
  exact ⟨m, (cons.inj (append_cancel_left h)).2, rfl⟩

section
variable (hlen : ∀ k x, (hmacSha256 k x).length = 32)
include hlen

theorem ne_nil_of_decode {x}
    (h : b64urlDecode m 32 = hmacSha256 secret x) : m ≠ [] := by
  rintro rfl
  have := congrArg List.length h
  rw [hlen] at this
  cases this

theorem withoutSpare_mint
    (h : mint hmacSha256 secret purpose payload expUnix outCap = some token) :
    withoutSpare token = token := by
  obtain ⟨-, -, -, -, rfl⟩ := mint_some h
  rw [encode_mac hlen, withoutSpare_append (ne_nil_of_decode hlen (decode_mac hlen _)),
    ← encodeLoop_b64urlDecode (decode_mac hlen _) (by rw [hlen])]

theorem accepted_of_mint
    (h : mint hmacSha256 secret purpose payload expUnix outCap = some (withoutSpare token))
    (hfresh : nowUnix < expUnix) :
    ∃ m, Accepted hmacSha256 secret token purpose nowUnix ⟨purpose, payload, expUnix⟩
      (encodeLoop purpose) (encodeLoop payload) (printed 10 expUnix.toNat) m := by
  obtain ⟨hsecret, hne, hpurpose, hpayload, htoken⟩ := mint_some h
  rw [encode_mac hlen] at htoken
  obtain ⟨m, hm, rfl⟩ := withoutSpare_eq_append
    (ne_nil_of_decode hlen (decode_mac hlen _)) htoken
  refine ⟨m, by simp [signingInput, signedBuf], ⟨DOT_not_mem_encodeLoop _,
    DOT_not_mem_encodeLoop _, DOT_not_mem_printed _⟩, hsecret,
    b64urlDecode_of_withoutSpare hm (by rw [hlen])
      (Nat.le_of_eq (hlen _ _)), b64urlDecode_encodeLoop hpurpose,
    hne, hfresh, rfl, (b64urlDecode_encodeLoop hpayload).symm, parseExp_printed expUnix⟩

omit hlen in
theorem issued_of_accepted {r : Parsed} (hminted : Minted hmacSha256 secret issued)
    (hideal : Ideal hmacSha256 secret issued token)
    (h : Accepted hmacSha256 secret token purpose nowUnix r p d e m) :
    ∃ t, issued purpose r.payload r.expUnix t ∧
      p ++ DOT :: (d ++ DOT :: e) = signingInput purpose r.payload r.expUnix := by
  obtain ⟨hparts, ⟨hp, hd, he⟩, -, hmac, hpurpose, -, -, -, hpayload, hexp⟩ := h
  have hcut : token = (p ++ DOT :: (d ++ DOT :: e)) ++ DOT :: m := by rw [hparts]; simp
  obtain ⟨purpose', payload', expUnix', t, hissued, hx⟩ := hideal _ _ hcut hmac
  obtain ⟨rfl, rfl, rfl⟩ := signedBuf_parts hp hd he hx
  obtain ⟨outCap, hmint⟩ := hminted _ _ _ _ hissued
  obtain ⟨-, -, hpmax, hdmax, -⟩ := mint_some hmint
  rw [b64urlDecode_encodeLoop hpmax] at hpurpose
  rw [b64urlDecode_encodeLoop hdmax] at hpayload
  rw [parseExp_printed] at hexp
  rw [← hpurpose, hpayload, ← Option.some.inj hexp]
  exact ⟨t, hissued, hx⟩

theorem verify_iff
    (hscratch : kPayloadMax + kPurposeMax ≤ scratchCap) (hminted : Minted hmacSha256 secret issued)
    (hideal : Ideal hmacSha256 secret issued token) (r : Parsed) :
    verify hmacSha256 secret token purpose nowUnix scratchCap = .ok r ↔
      r.purpose = purpose ∧ issued purpose r.payload r.expUnix (withoutSpare token) ∧
        nowUnix < r.expUnix := by
  constructor
  · intro hr
    obtain ⟨p, d, e, m, hacc⟩ := verify_ok hr
    obtain ⟨t, hissued, hx⟩ := issued_of_accepted hminted hideal hacc
    obtain ⟨outCap, hmint⟩ := hminted _ _ _ _ hissued
    obtain ⟨-, -, -, -, ht⟩ := mint_some hmint
    have hcut : token = (p ++ DOT :: (d ++ DOT :: e)) ++ DOT :: m := by rw [hacc.parts]; simp
    have htoken : t = withoutSpare token := by
      rw [ht, encode_mac hlen, hcut, withoutSpare_append (ne_nil_of_decode hlen hacc.signature),
        ← encodeLoop_b64urlDecode hacc.signature (by rw [hlen]), hx]
    exact ⟨hacc.result.1, htoken ▸ hissued, hacc.fresh⟩
  rintro ⟨hpurpose, hissued, hfresh⟩
  obtain ⟨outCap, hmint⟩ := hminted _ _ _ _ hissued
  obtain ⟨m, hacc⟩ := accepted_of_mint hlen hmint hfresh
  have hr : r = ⟨purpose, r.payload, r.expUnix⟩ := by rw [← hpurpose]
  rw [hr]
  exact verify_of_accepted hlen hscratch hacc

/-- `verify` is exact on a token if and only if clearing its spare bits does not
make it another token that was issued for the purpose and has not expired. -/
theorem verify_exact_iff
    (hscratch : kPayloadMax + kPurposeMax ≤ scratchCap) (hminted : Minted hmacSha256 secret issued)
    (hideal : Ideal hmacSha256 secret issued token) :
    Exact hmacSha256 secret issued purpose nowUnix scratchCap token ↔
      ∀ payload expUnix, issued purpose payload expUnix (withoutSpare token) → nowUnix < expUnix →
        withoutSpare token = token := by
  constructor
  · intro hexact payload expUnix hissued hfresh
    have hok := (verify_iff hlen hscratch hminted hideal ⟨purpose, payload, expUnix⟩).mpr
      ⟨rfl, hissued, hfresh⟩
    obtain ⟨-, hissued, -⟩ := (hexact _).mp hok
    obtain ⟨outCap, hmint⟩ := hminted _ _ _ _ hissued
    exact withoutSpare_mint hlen hmint
  intro hspare r
  rw [verify_iff hlen hscratch hminted hideal]
  constructor
  · rintro ⟨hpurpose, hissued, hfresh⟩
    exact ⟨hpurpose, hspare _ _ hissued hfresh ▸ hissued, hfresh⟩
  · rintro ⟨hpurpose, hissued, hfresh⟩
    obtain ⟨outCap, hmint⟩ := hminted _ _ _ _ hissued
    exact ⟨hpurpose, (withoutSpare_mint hlen hmint).symm ▸ hissued, hfresh⟩

/-! ## A token and its double -/

omit hlen in
theorem DOT_not_mem_of_decode {cap} (h : b64urlDecode m cap ≠ []) : DOT ∉ m := by
  rw [b64urlDecode_eq] at h
  cases hm : m.mapM b64urlDecodeChar with
  | none =>
    rw [hm] at h
    exact absurd rfl h
  | some vs =>
    obtain ⟨-, rfl⟩ := mapM_decodeChar hm
    intro hmem
    obtain ⟨v, -, hv⟩ := mem_map.mp hmem
    have hdec := b64urlDecodeChar_char v
    rw [hv] at hdec
    cases hdec

theorem ideal_of_signed {t}
    (hissued : issued purpose payload expUnix t) (hm : DOT ∉ m) :
    Ideal hmacSha256 secret issued (signingInput purpose payload expUnix ++ DOT :: m) := by
  intro x m' hcut hmac
  have hm' : DOT ∉ m' := by
    refine @DOT_not_mem_of_decode m' 32 ?_
    intro h
    have := congrArg List.length (h.symm.trans hmac)
    rw [hlen] at this
    cases this
  -- both sides are cut at the last dot
  have hrev := congrArg (fun l => splitDot l.reverse) hcut
  simp only [reverse_append, reverse_cons, append_assoc, singleton_append] at hrev
  rw [splitDot_append (by simpa using hm), splitDot_append (by simpa using hm')] at hrev
  obtain ⟨-, hx⟩ := Prod.mk.inj (Option.some.inj hrev)
  exact ⟨purpose, payload, expUnix, t, hissued, (reverse_inj.mp hx).symm⟩

end

def zeroMac (_ _ : Bytes) : Bytes := List.replicate 32 0

def resetSecret : Bytes := ascii "0123456789abcdef"

/-- The one token issued: a reset that expires at 2. -/
def resetToken : Bytes := ascii "cmVzZXQ.dTE.2.AAAAAAAAAAAAAAAAAAAAAAAAAAAAAAAAAAAAAAAAAAA"

/-- The same token but for a spare bit of its last character. -/
def resetDouble : Bytes := ascii "cmVzZXQ.dTE.2.AAAAAAAAAAAAAAAAAAAAAAAAAAAAAAAAAAAAAAAAAAB"

def resetIssued (purpose payload : Bytes) (expUnix : UInt64) (t : Bytes) : Prop :=
  purpose = ascii "reset" ∧ payload = ascii "u1" ∧ expUnix = 2 ∧ t = resetToken

theorem mint_reset : mint zeroMac resetSecret (ascii "reset") (ascii "u1") 2 kEncodedMax = some resetToken := by
  -- the kernel reads a list of characters much faster than a string
  unfold resetSecret resetToken ascii
  repeat rw [String.toList_ofList]
  decide +kernel

theorem resetIssued_minted : Minted zeroMac resetSecret resetIssued := by
  rintro purpose payload expUnix t ⟨rfl, rfl, rfl, rfl⟩
  exact ⟨kEncodedMax, mint_reset⟩

theorem ideal_reset (c : UInt8) (hc : c ≠ DOT) (h : token =
      signingInput (ascii "reset") (ascii "u1") 2 ++ DOT :: (List.replicate 42 0x41 ++ [c])) :
    Ideal zeroMac resetSecret resetIssued token := by
  rw [h]
  refine ideal_of_signed (fun _ _ => rfl) (t := resetToken) ⟨rfl, rfl, rfl, rfl⟩ fun hmem => ?_
  rcases mem_append.mp hmem with hmem | hmem
  · exact absurd (eq_of_mem_replicate hmem) (by decide)
  · exact hc (mem_singleton.mp hmem).symm

theorem verify_exact_reset : Exact zeroMac resetSecret resetIssued (ascii "reset") 1 112 resetToken := by
  have hideal : Ideal zeroMac resetSecret resetIssued resetToken := by
    refine ideal_reset 0x41 (by decide) ?_
    unfold resetToken ascii
    repeat rw [String.toList_ofList]
    decide +kernel
  refine (verify_exact_iff (fun _ _ => rfl) (by decide) resetIssued_minted hideal).mpr ?_
  intro _ _ _ _
  unfold resetToken ascii
  repeat rw [String.toList_ofList]
  decide +kernel

/-- A second string verifies for a minted token. -/
theorem double_verifies :
    Minted zeroMac resetSecret resetIssued ∧ Ideal zeroMac resetSecret resetIssued resetDouble ∧
      mint zeroMac resetSecret (ascii "reset") (ascii "u1") 2 kEncodedMax = some resetToken ∧
      resetDouble ≠ resetToken ∧
      verify zeroMac resetSecret resetToken (ascii "reset") 1 112 = .ok ⟨ascii "reset", ascii "u1", 2⟩ ∧
      verify zeroMac resetSecret resetDouble (ascii "reset") 1 112 = .ok ⟨ascii "reset", ascii "u1", 2⟩ ∧
      ¬ Exact zeroMac resetSecret resetIssued (ascii "reset") 1 112 resetDouble := by
  obtain ⟨hform, hne, htoken, hdouble⟩ : resetDouble = signingInput (ascii "reset") (ascii "u1") 2 ++
        DOT :: (List.replicate 42 0x41 ++ [0x42]) ∧ resetDouble ≠ resetToken ∧
      verify zeroMac resetSecret resetToken (ascii "reset") 1 112 = .ok ⟨ascii "reset", ascii "u1", 2⟩ ∧
      verify zeroMac resetSecret resetDouble (ascii "reset") 1 112 = .ok ⟨ascii "reset", ascii "u1", 2⟩ := by
    unfold resetSecret resetToken resetDouble ascii
    repeat rw [String.toList_ofList]
    decide +kernel
  refine ⟨resetIssued_minted, ideal_reset 0x42 (by decide) hform, mint_reset, hne, htoken, hdouble, fun hexact => ?_⟩
  obtain ⟨-, ⟨-, -, -, htoken⟩, -⟩ := (hexact _).mp hdouble
  exact hne htoken

end BoltApi.Auth.SignedToken
