import BoltApi.WebRtc.Wire

/-! # STUN messages and their MESSAGE-INTEGRITY

The parser both the ICE agent and the TURN server put in front of their
handlers, and the check of the MESSAGE-INTEGRITY attribute: an HMAC, which
stays a parameter, over the octets in front of the attribute with the length
field of the header rewritten. The attributes in front of the check are
recovered from the octets the HMAC covers alone; those behind it are not. -/
namespace BoltApi.WebRtc.Stun
open Octets Wire List

/-- A transport address as the sockets report it. Every comparison in the
sources is between IPv4 addresses only. -/
inductive Sockaddr where
  | inet (port ip : Nat)
  | other (raw : Bytes)
deriving DecidableEq

def sameAddr : Sockaddr → Sockaddr → Bool
  | .inet p i, .inet q j => p == q && i == j
  | _, _ => false

theorem sameAddr_iff {a b} : sameAddr a b ↔ a = b ∧ ∃ p i, a = .inet p i := by
  cases a <;> cases b <;> simp [sameAddr]

theorem sameAddr_comm (a b : Sockaddr) : sameAddr a b = sameAddr b a := by
  cases a <;> cases b <;> simp [sameAddr, Bool.beq_comm]

inductive Class where
  | request
  | indication
  | successResponse
  | errorResponse
deriving DecidableEq

structure Attribute where
  type : Nat
  value : Bytes
  start : Nat
deriving DecidableEq

structure Message where
  cls : Class
  method : Nat
  transactionId : Bytes
  attrs : List Attribute
  raw : Bytes

def kMagicCookie : Nat := 0x2112A442

def kHeaderSize : Nat := 20

def kMaxAttributes : Nat := 24

namespace AttrType

def username : Nat := 0x0006

def messageIntegrity : Nat := 0x0008

def errorCode : Nat := 0x0009

end AttrType

def pad4 (n : Nat) : Nat := (n + 3) / 4 * 4

/-- `decode_type`: the class bits sit inside the method bits. -/
def decodeClass (t : Nat) : Class :=
  match t / 2 ^ 8 % 2, t / 2 ^ 4 % 2 with
  | 0, 0 => .request
  | 0, _ => .indication
  | _, 0 => .successResponse
  | _, _ => .errorResponse

def decodeMethod (t : Nat) : Nat :=
  t % 2 ^ 4 + t / 2 ^ 5 % 2 ^ 3 * 2 ^ 4 + t / 2 ^ 9 % 2 ^ 5 * 2 ^ 7

/-- The attribute loop over a message cut to its length; `left` is the room
that remains in the table of attributes. -/
def scanAttrs (raw : Bytes) : Nat → Nat → Option (List Attribute)
  | 0, off => if off + 4 ≤ raw.length then none else some []
  | left + 1, off =>
    if off + 4 ≤ raw.length then
      let len := rd16 raw (off + 2)
      if raw.length < off + 4 + len then none
      else
        match scanAttrs raw left (off + 4 + pad4 len) with
        | none => none
        | some rest => some (⟨rd16 raw off, (raw.drop (off + 4)).take len, off⟩ :: rest)
    else some []

def parse (data : Bytes) : Option Message :=
  if data.length < kHeaderSize then none
  else if 2 ^ 6 ≤ octet data 0 then none
  else if rd32 data 4 ≠ kMagicCookie then none
  else
    let total := kHeaderSize + rd16 data 2
    if data.length < total ∨ rd16 data 2 % 4 ≠ 0 then none
    else
      match scanAttrs (data.take total) kMaxAttributes kHeaderSize with
      | none => none
      | some attrs =>
        some
          { cls := decodeClass (rd16 data 0)
            method := decodeMethod (rd16 data 0)
            transactionId := (data.drop 8).take 12
            attrs
            raw := data.take total }

/-- A message of a type with the given attributes. -/
def frame (type : Nat) (txn attrs : Bytes) : Bytes :=
  wr16 type ++ wr16 attrs.length ++ wr32 kMagicCookie ++ txn ++ attrs

/-- The first attribute of a type, wherever it stands in the message. -/
def Message.find (m : Message) (t : Nat) : Option Attribute := m.attrs.find? (·.type == t)

/-- The value of the first attribute of a type. -/
def Message.value (m : Message) (t : Nat) : Option Bytes := (m.find t).map (·.value)

/-- The octets a MESSAGE-INTEGRITY that starts at `start` covers. -/
def coveredOctets (raw : Bytes) (start : Nat) : Bytes :=
  raw.take 2 ++ wr16 (start - kHeaderSize + 24) ++ (raw.take start).drop 4

/-- Verifies the first MESSAGE-INTEGRITY; `scratch` is the buffer the covered
octets are copied to. -/
def verifyIntegrity (hmac : Bytes → Bytes → Bytes) (scratch : Nat) (m : Message) (key : Bytes) :
    Bool :=
  match m.find AttrType.messageIntegrity with
  | none => false
  | some a =>
    a.value.length == 20 && decide (a.start ≤ scratch) &&
      hmac key (coveredOctets m.raw a.start) == a.value

theorem verifyIntegrity_iff {hmac scratch m key} : verifyIntegrity hmac scratch m key ↔
    ∃ a, m.find AttrType.messageIntegrity = some a ∧ a.value.length = 20 ∧ a.start ≤ scratch ∧
      a.value = hmac key (coveredOctets m.raw a.start) := by
  unfold verifyIntegrity
  split
  · next h => simp [h]
  next a h =>
  simp only [h, Bool.and_eq_true, beq_iff_eq, decide_eq_true_eq, Option.some.injEq, exists_eq_left', and_assoc]
  exact and_congr_right fun _ => and_congr_right fun _ => eq_comm

/-- The scratch buffer of `stun::verify_message_integrity`. -/
def kScratch : Nat := 1280

def verifyMessageIntegrity (hmac : Bytes → Bytes → Bytes) (m : Message) (key : Bytes) : Bool :=
  verifyIntegrity hmac kScratch m key

/-- A keyed code to run fixed messages with. -/
def zeroHmac (_ _ : Bytes) : Bytes := List.replicate 20 0

def zeroIntegrity : Bytes := wr16 AttrType.messageIntegrity ++ wr16 20 ++ List.replicate 20 0

def Message.covered (m : Message) : List Attribute :=
  m.attrs.takeWhile (·.type != AttrType.messageIntegrity)

def Message.authentic (hmac : Bytes → Bytes → Bytes) (m : Message) (key : Bytes) : Option Bytes :=
  if verifyMessageIntegrity hmac m key then
    (m.find AttrType.messageIntegrity).map fun a => coveredOctets m.raw a.start
  else none

def scanCovered (p : Bytes) : Nat → Nat → List (Nat × Bytes)
  | 0, _ => []
  | left + 1, off =>
    if off < p.length then
      let len := rd16 p (off + 2)
      (rd16 p off, (p.drop (off + 4)).take len) :: scanCovered p left (off + 4 + pad4 len)
    else []

variable {raw data : Bytes} {left off s : Nat} {as : List Attribute} {m : Message}

/-! ## What the parser accepts -/

theorem le_pad4 (n : Nat) : n ≤ pad4 n := by
  unfold pad4
  omega

theorem scanAttrs_start (h : scanAttrs raw left off = some as) {a : Attribute} (ha : a ∈ as) :
    off ≤ a.start ∧ a.start + 4 ≤ raw.length := by
  induction left generalizing off as with
  | zero =>
    simp only [scanAttrs] at h
    split at h <;> cases h
    cases ha
  | succ left ih =>
    simp only [scanAttrs] at h
    split at h
    · next hroom =>
      split at h
      · cases h
      split at h
      · cases h
      next rest hrest =>
      cases h
      rcases mem_cons.mp ha with rfl | hmem
      · exact ⟨Nat.le_refl _, hroom⟩
      · have := ih hrest hmem
        omega
    · cases h
      cases ha

theorem parse_some (h : parse data = some m) :
    scanAttrs m.raw kMaxAttributes kHeaderSize = some m.attrs ∧ kHeaderSize ≤ m.raw.length ∧
      m.cls = decodeClass (rd16 m.raw 0) ∧ m.method = decodeMethod (rd16 m.raw 0) ∧
      m.transactionId = (m.raw.drop 8).take 12 := by
  simp only [parse] at h
  split at h
  · cases h
  split at h
  · cases h
  split at h
  · cases h
  split at h
  · cases h
  next hlen =>
  have hfit : kHeaderSize + rd16 data 2 ≤ data.length := by omega
  have hhead : rd16 (data.take (kHeaderSize + rd16 data 2)) 0 = rd16 data 0 :=
    rd16_take (by simp only [kHeaderSize]; omega)
  split at h
  · cases h
  next attrs hscan =>
  cases h
  refine ⟨hscan, ?_, by rw [hhead], by rw [hhead], ?_⟩
  · rw [length_take]
    omega
  · rw [drop_take, take_take, Nat.min_eq_left (by simp only [kHeaderSize]; omega)]

/-! ## What the integrity check covers -/

theorem coveredOctets_drop (h : 4 ≤ off) (hraw : 2 ≤ raw.length) :
    (coveredOctets raw s).drop off = (raw.take s).drop off := by
  have hfront : (raw.take 2 ++ wr16 (s - kHeaderSize + 24)).length = 4 := by
    simp only [length_append, length_take, wr16_length]
    omega
  obtain ⟨k, rfl⟩ : ∃ k, off = 4 + k := ⟨off - 4, by omega⟩
  rw [coveredOctets, drop_append, drop_eq_nil_of_le (by omega), hfront,
    nil_append, drop_drop, Nat.add_sub_cancel_left]

theorem coveredOctets_length (h : 4 ≤ s) (hs : s ≤ raw.length) :
    (coveredOctets raw s).length = s := by
  simp only [coveredOctets, length_append, length_take, length_drop, wr16_length]
  omega

theorem rd16_coveredOctets (h : 4 ≤ off) (hoff : off + 1 < s) (hraw : 2 ≤ raw.length) :
    rd16 (coveredOctets raw s) off = rd16 raw off := by
  have hcut := rd16_drop (coveredOctets raw s) off 0
  rw [coveredOctets_drop h hraw, rd16_drop, Nat.add_zero] at hcut
  rw [← hcut, rd16_take hoff]

theorem rd16_coveredOctets_zero (hraw : 2 ≤ raw.length) : rd16 (coveredOctets raw s) 0 = rd16 raw 0 := by
  have hfront : (coveredOctets raw s).take 2 = raw.take 2 := by
    rw [coveredOctets, append_assoc, take_append_of_le_length (by rw [length_take]; omega),
      take_take, Nat.min_self]
  rw [← rd16_take (p := coveredOctets raw s) (k := 2) (by omega), hfront, rd16_take (by omega)]

theorem scanAttrs_covered (h : scanAttrs raw left off = some as) (hoff : 4 ≤ off) {a : Attribute}
    (ha : as.find? (·.type == AttrType.messageIntegrity) = some a) :
    (as.takeWhile (·.type != AttrType.messageIntegrity)).map (fun a => (a.type, a.value)) =
      scanCovered (coveredOctets raw a.start) left off := by
  obtain ⟨hlo, hhi⟩ := scanAttrs_start h (mem_of_find?_eq_some ha)
  have hlen : (coveredOctets raw a.start).length = a.start := coveredOctets_length (by omega) (by omega)
  induction left generalizing off as with
  | zero =>
    simp only [scanAttrs] at h
    split at h <;> cases h
    cases ha
  | succ left ih =>
    simp only [scanAttrs] at h
    split at h
    · split at h
      · cases h
      split at h
      · cases h
      next rest hrest =>
      cases h
      simp only [scanCovered, hlen]
      rw [List.find?_cons] at ha
      split at ha
      · next hmi =>
        -- the check itself: the covered octets end where it starts
        cases ha
        rw [takeWhile_cons_of_neg (by simpa using hmi), if_neg (Nat.lt_irrefl _), map_nil]
      next hne =>
      obtain ⟨hlo', -⟩ := scanAttrs_start hrest (mem_of_find?_eq_some ha)
      have hpad := le_pad4 (rd16 raw (off + 2))
      rw [takeWhile_cons_of_pos (by simpa using hne), if_pos (by omega), map_cons,
        rd16_coveredOctets hoff (by omega) (by omega),
        rd16_coveredOctets (by omega) (by omega) (by omega),
        coveredOctets_drop (by omega) (by omega), ih hrest (by omega) ha hlo',
        drop_take, take_take, Nat.min_eq_left (by omega)]
    · cases h
      cases ha

theorem parse_authentic {hmac key p} (h : parse data = some m) (ha : m.authentic hmac key = some p) :
    m.cls = decodeClass (rd16 p 0) ∧ m.method = decodeMethod (rd16 p 0) ∧
      m.transactionId = (p.drop 8).take 12 ∧
      m.covered.map (fun a => (a.type, a.value)) = scanCovered p kMaxAttributes kHeaderSize := by
  obtain ⟨hscan, hraw, hcls, hmethod, htxn⟩ := parse_some h
  simp only [kHeaderSize] at hraw
  unfold Message.authentic at ha
  split at ha
  · obtain ⟨a, hfind, rfl⟩ := Option.map_eq_some_iff.mp ha
    obtain ⟨hlo, hhi⟩ := scanAttrs_start hscan (mem_of_find?_eq_some hfind)
    simp only [kHeaderSize] at hlo
    rw [rd16_coveredOctets_zero (by omega), coveredOctets_drop (by omega) (by omega)]
    refine ⟨hcls, hmethod, ?_, scanAttrs_covered hscan (by decide) hfind⟩
    rw [htxn, drop_take, take_take, Nat.min_eq_left (by omega)]
  · cases ha

theorem value_covered {t} (h : m.find t = m.covered.find? (·.type == t)) :
    m.value t = ((m.covered.map fun a => (a.type, a.value)).find? (·.1 == t)).map (·.2) := by
  rw [Message.value, h, List.find?_map, Option.map_map]
  rfl

end BoltApi.WebRtc.Stun
