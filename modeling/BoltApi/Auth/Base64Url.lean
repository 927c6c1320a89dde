import BoltApi.Octets

/-! # base64url without padding

`b64url_encode` and `b64url_decode` of `auth/signed_token.cpp`. The loops are
compared with the regrouping of bits they perform: three octets are four
sextets, and a tail of one or two octets leaves spare bits in its last sextet.
The decoder does not look at the spare bits. -/
namespace BoltApi.Auth.Base64Url
open Octets List

def kB64UrlAlphabet : Bytes := ascii "ABCDEFGHIJKLMNOPQRSTUVWXYZabcdefghijklmnopqrstuvwxyz0123456789-_"

def b64urlDecodeChar (c : UInt8) : Option Nat :=
  if 0x41 ≤ c ∧ c ≤ 0x5A then some (c.toNat - 0x41)
  else if 0x61 ≤ c ∧ c ≤ 0x7A then some (c.toNat - 0x61 + 26)
  else if 0x30 ≤ c ∧ c ≤ 0x39 then some (c.toNat - 0x30 + 52)
  else if c = 0x2D then some 62
  else if c = 0x5F then some 63
  else none

def b64urlChar (v : Nat) : UInt8 := kB64UrlAlphabet.getD (v % 2 ^ 6) 0

/-- The loop of `b64url_encode` and what it does with the octets left. -/
def encodeLoop : Bytes → Bytes
  | a :: b :: c :: rest =>
    let v := a.toNat * 2 ^ 16 + b.toNat * 2 ^ 8 + c.toNat
    b64urlChar (v / 2 ^ 18) :: b64urlChar (v / 2 ^ 12) :: b64urlChar (v / 2 ^ 6) :: b64urlChar v ::
      encodeLoop rest
  | [a, b] =>
    let v := a.toNat * 2 ^ 16 + b.toNat * 2 ^ 8
    [b64urlChar (v / 2 ^ 18), b64urlChar (v / 2 ^ 12), b64urlChar (v / 2 ^ 6)]
  | [a] =>
    let v := a.toNat * 2 ^ 16
    [b64urlChar (v / 2 ^ 18), b64urlChar (v / 2 ^ 12)]
  | [] => []

/-- `b64url_encode` into a buffer of `cap` octets; empty when they are too few. -/
def b64urlEncode (input : Bytes) (cap : Nat) : Bytes :=
  if cap < (input.length + 2) / 3 * 4 + 1 then [] else encodeLoop input

/-- The loop of `b64url_decode`; `buf` is 32 bits wide and is never cut to the
bits that are still needed. -/
def decodeLoop (cap : Nat) : Bytes → Nat → Nat → Bytes → Bytes
  | [], _, _, out => out
  | c :: s, buf, bits, out =>
    match b64urlDecodeChar c with
    | none => []
    | some v =>
      let buf := (buf * 2 ^ 6 + v) % 2 ^ 32
      if 8 ≤ bits + 6 then
        if cap ≤ out.length then []
        else decodeLoop cap s buf (bits - 2) (out ++ [UInt8.ofNat (buf / 2 ^ (bits - 2))])
      else decodeLoop cap s buf (bits + 6) out

/-- `b64url_decode` into a buffer of `cap` octets; empty on any error. -/
def b64urlDecode (s : Bytes) (cap : Nat) : Bytes := decodeLoop cap s 0 0 []

/-! ## Regrouping -/

def sextets : List Nat → List Nat
  | a :: b :: c :: rest => a / 4 :: (a % 4 * 16 + b / 16) :: (b % 16 * 4 + c / 64) :: c % 64 :: sextets rest
  | [a, b] => [a / 4, a % 4 * 16 + b / 16, b % 16 * 4]
  | [a] => [a / 4, a % 4 * 16]
  | [] => []

def octets : List Nat → List Nat
  | a :: b :: c :: d :: rest => (a * 4 + b / 16) :: (b % 16 * 16 + c / 4) :: (c % 4 * 64 + d) :: octets rest
  | [a, b, c] => [a * 4 + b / 16, b % 16 * 16 + c / 4]
  | [a, b] => [a * 4 + b / 16]
  | [_] => []
  | [] => []

def clearLast (vs : List Nat) : List Nat := vs.dropLast ++ [vs.getLastD 0 - vs.getLastD 0 % 4]

theorem octets_sextets (x : List Nat) (hx : ∀ a ∈ x, a < 256) : octets (sextets x) = x := by
  induction x using sextets.induct with
  | case4 => rfl
  | case1 a b c rest ih =>
    simp only [forall_mem_cons] at hx
    rw [sextets, octets, ih hx.2.2.2]
    simp only [List.cons.injEq, and_true]
    omega
  | _ =>
    simp only [forall_mem_cons] at hx
    simp only [sextets, octets, List.cons.injEq, and_true]
    omega

variable (vs : List Nat)

theorem sextets_octets (hv : ∀ v ∈ vs, v < 64) (hlen : vs.length % 4 = 3) :
    sextets (octets vs) = clearLast vs := by
  induction vs using octets.induct with
  | case1 a b c d rest ih =>
    simp only [forall_mem_cons] at hv
    have hrest := ih hv.2.2.2.2 (by simp only [length_cons] at hlen; omega)
    have hclear : clearLast (a :: b :: c :: d :: rest) = a :: b :: c :: d :: clearLast rest := by
      cases rest with
      | nil => simp at hlen
      | cons v rest => simp [clearLast]
    rw [octets, sextets, hclear, hrest]
    simp only [List.cons.injEq, and_true]
    omega
  | case2 a b c =>
    simp only [forall_mem_cons] at hv
    simp only [octets, sextets, clearLast, dropLast, getLastD_cons, getLastD_nil, cons_append,
      nil_append, List.cons.injEq, and_true]
    omega
  | case3 | case4 | case5 => cases hlen

/-! ## The alphabet -/

theorem b64urlDecodeChar_char (v : Nat) : b64urlDecodeChar (b64urlChar v) = some (v % 2 ^ 6) := by
  have hall : ∀ n < 2 ^ 6, b64urlDecodeChar (kB64UrlAlphabet.getD n 0) = some n := by
    -- the kernel reads a list of characters much faster than a string
    unfold kB64UrlAlphabet ascii
    rw [String.toList_ofList]
    decide +kernel
  exact hall _ (Nat.mod_lt _ (by decide))

theorem b64urlChar_of_decode {c v} (h : b64urlDecodeChar c = some v) :
    v < 64 ∧ b64urlChar v = c := by
  have hall : ∀ n < 256, ∀ v ∈ b64urlDecodeChar (UInt8.ofNat n), v < 64 ∧ b64urlChar v = UInt8.ofNat n := by
    unfold b64urlChar kB64UrlAlphabet ascii
    rw [String.toList_ofList]
    decide +kernel
  have hc := hall c.toNat c.toNat_lt v
  rw [UInt8.ofNat_toNat] at hc
  exact hc h

theorem mapM_decodeChar {s : Bytes} {vs : List Nat} (h : s.mapM b64urlDecodeChar = some vs) :
    (∀ v ∈ vs, v < 64) ∧ vs.map b64urlChar = s := by
  induction s generalizing vs with
  | nil =>
    cases h
    exact ⟨nofun, rfl⟩
  | cons c s ih =>
    rw [mapM_cons] at h
    obtain ⟨v, hc, h⟩ := Option.bind_eq_some_iff.mp h
    obtain ⟨ws, hs, h⟩ := Option.bind_eq_some_iff.mp h
    cases h
    obtain ⟨hv, hchar⟩ := b64urlChar_of_decode hc
    obtain ⟨hws, hchars⟩ := ih hs
    refine ⟨fun w hw => ?_, by rw [map_cons, hchar, hchars]⟩
    rcases mem_cons.mp hw with rfl | hw
    · exact hv
    · exact hws w hw

theorem mapM_char (hv : ∀ v ∈ vs, v < 64) :
    (vs.map b64urlChar).mapM b64urlDecodeChar = some vs := by
  induction vs with
  | nil => rfl
  | cons v vs ih =>
    have hmod : v % 2 ^ 6 = v := Nat.mod_eq_of_lt (hv v mem_cons_self)
    rw [map_cons, mapM_cons, b64urlDecodeChar_char, hmod,
      ih fun w hw => hv w (mem_cons_of_mem _ hw)]
    rfl

theorem encodeLoop_eq (x : Bytes) : encodeLoop x = (sextets (x.map UInt8.toNat)).map b64urlChar := by
  have hcut : ∀ m n : Nat, m % 64 = n % 64 → b64urlChar m = b64urlChar n := by
    intro m n h
    unfold b64urlChar
    rw [show 2 ^ 6 = 64 from rfl, h]
  induction x using encodeLoop.induct with
  | case1 a b c rest ih =>
    have ha := a.toNat_lt
    have hb := b.toNat_lt
    have hc := c.toNat_lt
    simp only [encodeLoop, map_cons, sextets, ih, List.cons.injEq, and_true]
    exact ⟨hcut _ _ (by omega), hcut _ _ (by omega), hcut _ _ (by omega), hcut _ _ (by omega)⟩
  | case2 a b =>
    have ha := a.toNat_lt
    have hb := b.toNat_lt
    simp only [encodeLoop, map_cons, map_nil, sextets, List.cons.injEq, and_true]
    exact ⟨hcut _ _ (by omega), hcut _ _ (by omega), hcut _ _ (by omega)⟩
  | case3 a =>
    have ha := a.toNat_lt
    simp only [encodeLoop, map_cons, map_nil, sextets, List.cons.injEq, and_true]
    exact ⟨hcut _ _ (by omega), hcut _ _ (by omega)⟩
  | case4 => rfl

/-! ## The decoder -/

def pendingOctets (bits p : Nat) : List Nat → List Nat
  | [] => []
  | v :: vs =>
    if 8 ≤ bits + 6 then
      (p * 64 + v) / 2 ^ (bits - 2) :: pendingOctets (bits - 2) ((p * 64 + v) % 2 ^ (bits - 2)) vs
    else pendingOctets (bits + 6) (p * 64 + v) vs

theorem pendingOctets_zero (hv : ∀ v ∈ vs, v < 64) : pendingOctets 0 0 vs = octets vs := by
  induction vs using octets.induct with
  | case4 => rfl
  | case5 => rfl
  | case1 a b c d rest ih =>
    simp only [forall_mem_cons] at hv
    simp only [pendingOctets, octets, Nat.zero_mul, Nat.zero_add, Nat.reduceLeDiff, if_true, if_false,
      Nat.reduceAdd, Nat.reduceSub, Nat.reducePow, Nat.div_one, Nat.mod_one, List.cons.injEq]
    exact ⟨by omega, by omega, by omega, ih hv.2.2.2.2⟩
  | _ =>
    simp only [forall_mem_cons] at hv
    simp only [pendingOctets, octets, Nat.zero_mul, Nat.zero_add, Nat.reduceLeDiff, if_true, if_false,
      Nat.reduceAdd, Nat.reduceSub, Nat.reducePow, List.cons.injEq, and_true]
    omega

theorem step_eq {buf bits v} (hbits : bits = 2 ∨ bits = 4 ∨ bits = 6) :
    UInt8.ofNat ((buf * 2 ^ 6 + v) % 2 ^ 32 / 2 ^ (bits - 2)) =
        UInt8.ofNat ((buf % 2 ^ bits * 64 + v) / 2 ^ (bits - 2)) ∧
      (buf * 2 ^ 6 + v) % 2 ^ 32 % 2 ^ (bits - 2) = (buf % 2 ^ bits * 64 + v) % 2 ^ (bits - 2) := by
  have hoctet : ∀ m n : Nat, m % 256 = n % 256 → UInt8.ofNat m = UInt8.ofNat n := by
    intro m n h
    exact UInt8.toNat_inj.mp (by simpa using h)
  rcases hbits with rfl | rfl | rfl
  · exact ⟨hoctet _ _ (by omega), by omega⟩
  · exact ⟨hoctet _ _ (by omega), by omega⟩
  · exact ⟨hoctet _ _ (by omega), by omega⟩

theorem decodeLoop_eq {out : Bytes} {cap buf bits s} (hbits : bits = 0 ∨ bits = 2 ∨ bits = 4 ∨ bits = 6)
    (hout : out.length ≤ cap) : decodeLoop cap s buf bits out =
      match s.mapM b64urlDecodeChar with
      | none => []
      | some vs =>
        if out.length + (pendingOctets bits (buf % 2 ^ bits) vs).length ≤ cap then
          out ++ (pendingOctets bits (buf % 2 ^ bits) vs).map UInt8.ofNat
        else [] := by
  induction s generalizing buf bits out with
  | nil => simp [decodeLoop, pendingOctets, hout]
  | cons c s ih =>
    rw [mapM_cons]
    cases hc : b64urlDecodeChar c with
    | none => simp [decodeLoop, hc]
    | some v =>
      have hv : v < 64 := (b64urlChar_of_decode hc).1
      simp only [decodeLoop, hc, Option.bind_eq_bind, Option.bind_some, Option.pure_def]
      rcases hbits with rfl | hbits
      · have hmod : (buf * 2 ^ 6 + v) % 2 ^ 32 % 2 ^ 6 = v := by omega
        rw [if_neg (by decide), ih (.inr (.inr (.inr rfl))) hout, hmod]
        cases s.mapM b64urlDecodeChar with
        | none => rfl
        | some vs => simp [pendingOctets, Nat.mod_one]
      obtain ⟨hoctet, hrest⟩ := @step_eq buf bits v hbits
      have hge : 8 ≤ bits + 6 := by omega
      rw [if_pos hge]
      split
      · next hfull =>
        cases s.mapM b64urlDecodeChar with
        | none => rfl
        | some vs =>
          simp only [Option.bind_some, pendingOctets, hge, if_true, length_cons]
          rw [if_neg (by omega)]
      next hfull =>
      rw [ih (by omega) (by rw [length_append, length_singleton]; omega), hrest]
      cases s.mapM b64urlDecodeChar with
      | none => rfl
      | some vs =>
        simp only [Option.bind_some, pendingOctets, hge, if_true, length_cons, length_append,
          length_nil, map_cons, hoctet, append_assoc, cons_append, nil_append]
        rw [show out.length + (0 + 1) = out.length + 1 from rfl, Nat.add_right_comm, Nat.add_assoc]

theorem b64urlDecode_eq (s : Bytes) (cap : Nat) :
    b64urlDecode s cap =
      match s.mapM b64urlDecodeChar with
      | none => []
      | some vs => if (octets vs).length ≤ cap then (octets vs).map UInt8.ofNat else [] := by
  rw [b64urlDecode, decodeLoop_eq (.inl rfl) (Nat.zero_le _)]
  cases h : s.mapM b64urlDecodeChar with
  | none => rfl
  | some vs =>
    simp only [length_nil, Nat.zero_add, Nat.pow_zero, Nat.mod_one, nil_append,
      pendingOctets_zero vs (mapM_decodeChar h).1]

/-! ## Round trips -/

theorem sextets_lt (x : List Nat) (hx : ∀ a ∈ x, a < 256) : ∀ v ∈ sextets x, v < 64 := by
  induction x using sextets.induct with
  | case4 => exact nofun
  | case1 a b c rest ih =>
    simp only [forall_mem_cons] at hx
    simp only [sextets, forall_mem_cons]
    exact ⟨by omega, by omega, by omega, by omega, ih hx.2.2.2⟩
  | _ =>
    simp only [forall_mem_cons] at hx
    simp only [sextets, forall_mem_cons, not_mem_nil, false_implies, implies_true, and_true]
    omega

theorem octets_lt (hv : ∀ v ∈ vs, v < 64) : ∀ a ∈ octets vs, a < 256 := by
  induction vs using octets.induct with
  | case4 => exact nofun
  | case5 => exact nofun
  | case1 a b c d rest ih =>
    simp only [forall_mem_cons] at hv
    simp only [octets, forall_mem_cons]
    exact ⟨by omega, by omega, by omega, ih hv.2.2.2.2⟩
  | _ =>
    simp only [forall_mem_cons] at hv
    simp only [octets, forall_mem_cons, not_mem_nil, false_implies, implies_true, and_true]
    omega

theorem octets_length : (octets vs).length = vs.length * 6 / 8 := by
  induction vs using octets.induct with
  | case1 a b c d rest ih =>
    simp only [octets, length_cons, ih]
    omega
  | case2 => simp [octets]
  | case3 => simp [octets]
  | case4 => simp [octets]
  | case5 => rfl

theorem toNat_lt_of_mem {x : Bytes} : ∀ a ∈ x.map UInt8.toNat, a < 256 := by
  intro a ha
  obtain ⟨c, -, rfl⟩ := mem_map.mp ha
  exact c.toNat_lt

theorem map_ofNat_toNat (x : Bytes) : (x.map UInt8.toNat).map UInt8.ofNat = x := by
  rw [map_map]
  exact (map_congr_left fun c _ => UInt8.ofNat_toNat).trans (map_id x)

theorem b64urlDecode_encodeLoop {x : Bytes} {cap : Nat} (hcap : x.length ≤ cap) :
    b64urlDecode (encodeLoop x) cap = x := by
  have hx := toNat_lt_of_mem (x := x)
  rw [encodeLoop_eq, b64urlDecode_eq, mapM_char _ (sextets_lt _ hx)]
  simp only [octets_sextets _ hx, length_map, if_pos hcap, map_ofNat_toNat]

/-- The text with the spare bits of its last character cleared. -/
def withoutSpare (m : Bytes) : Bytes :=
  match m.getLast?.bind b64urlDecodeChar with
  | none => m
  | some v => m.dropLast ++ [b64urlChar (v - v % 4)]

theorem withoutSpare_char (hv : ∀ v ∈ vs, v < 64) (hne : vs ≠ []) :
    withoutSpare (vs.map b64urlChar) = (clearLast vs).map b64urlChar := by
  obtain ⟨ws, v, rfl⟩ := (eq_nil_or_concat vs).resolve_left hne
  have hlast : v % 2 ^ 6 = v := Nat.mod_eq_of_lt (hv v (by simp))
  simp only [withoutSpare, concat_eq_append, map_append, map_cons, map_nil, getLast?_concat,
    Option.bind_some, b64urlDecodeChar_char, hlast, dropLast_concat, clearLast, getLastD_concat]

theorem toNat_octets (hv : ∀ v ∈ vs, v < 64) :
    ((octets vs).map UInt8.ofNat).map UInt8.toNat = octets vs := by
  rw [map_map]
  exact (map_congr_left fun a ha => Nat.mod_eq_of_lt (octets_lt vs hv a ha)).trans (map_id _)

theorem encodeLoop_b64urlDecode {m y : Bytes} {cap : Nat} (h : b64urlDecode m cap = y)
    (hlen : y.length % 3 = 2) : encodeLoop y = withoutSpare m := by
  rw [b64urlDecode_eq] at h
  cases hm : m.mapM b64urlDecodeChar with
  | none =>
    rw [hm] at h
    subst h
    cases hlen
  | some vs =>
    rw [hm] at h
    obtain ⟨hv, rfl⟩ := mapM_decodeChar hm
    simp only at h
    split at h
    swap
    · subst h
      cases hlen
    subst h
    rw [length_map, octets_length] at hlen
    rw [encodeLoop_eq, toNat_octets vs hv, sextets_octets vs hv (by omega),
      withoutSpare_char vs hv (by rintro rfl; cases hlen)]

theorem b64urlDecode_of_withoutSpare {m y : Bytes} {cap : Nat} (h : withoutSpare m = encodeLoop y)
    (hlen : y.length % 3 = 2) (hcap : y.length ≤ cap) : b64urlDecode m cap = y := by
  unfold withoutSpare at h
  split at h
  · rw [h, b64urlDecode_encodeLoop hcap]
  rename_i v hlast
  obtain ⟨c, hc, hv⟩ := Option.bind_eq_some_iff.mp hlast
  obtain ⟨s, rfl⟩ := getLast?_eq_some_iff.mp hc
  obtain ⟨hv64, rfl⟩ := b64urlChar_of_decode hv
  have hy := toNat_lt_of_mem (x := y)
  rw [dropLast_concat, encodeLoop_eq] at h
  -- the encoding is `s` and the last sextet, cleared
  obtain ⟨ws, us, hsplit, rfl, hus⟩ := map_eq_append_iff.mp h.symm
  obtain ⟨u, rfl, hu⟩ := map_eq_singleton_iff.mp hus
  have hlt := sextets_lt _ hy
  rw [hsplit] at hlt
  have hclear : u = v - v % 4 := by
    have hdec := congrArg b64urlDecodeChar hu
    have hu64 := hlt u (by simp)
    rw [b64urlDecodeChar_char, b64urlDecodeChar_char, Option.some.injEq] at hdec
    omega
  have hvs : ∀ w ∈ ws ++ [v], w < 64 := by
    intro w hw
    rcases mem_append.mp hw with hw | hw
    · exact hlt w (mem_append_left _ hw)
    · exact mem_singleton.mp hw ▸ hv64
  have hoct : octets (ws ++ [u]) = y.map UInt8.toNat := by rw [← hsplit, octets_sextets _ hy]
  have hmod : (ws ++ [v]).length % 4 = 3 := by
    have hl := congrArg List.length hoct
    rw [octets_length, length_map] at hl
    simp only [length_append, length_cons, length_nil] at hl ⊢
    omega
  have hsame : octets (ws ++ [v]) = y.map UInt8.toNat := by
    rw [← octets_sextets _ (octets_lt _ hvs), sextets_octets _ hvs hmod, clearLast, dropLast_concat,
      getLastD_concat, ← hclear, hoct]
  rw [b64urlDecode_eq, show ws.map b64urlChar ++ [b64urlChar v] = (ws ++ [v]).map b64urlChar by simp,
    mapM_char _ hvs]
  simp only [hsame, length_map, if_pos hcap, map_ofNat_toNat]

end BoltApi.Auth.Base64Url
