import BoltApi.Octets

/-! # Big-endian fields

The fixed-width fields of RTP and SCTP packets, read at an offset and written
in front of what follows. -/
namespace BoltApi.WebRtc.Wire
open Octets

/-- The octet at an index; the sources read only inside the packet. -/
def octet (p : Bytes) (i : Nat) : Nat := (p.getD i 0).toNat

def rd16 (p : Bytes) (i : Nat) : Nat := octet p i * 2 ^ 8 + octet p (i + 1)

def rd32 (p : Bytes) (i : Nat) : Nat := rd16 p i * 2 ^ 16 + rd16 p (i + 2)

def wr16 (n : Nat) : Bytes := [UInt8.ofNat (n / 2 ^ 8), UInt8.ofNat n]

def wr32 (n : Nat) : Bytes := wr16 (n / 2 ^ 16) ++ wr16 n

variable {p q : Bytes} {i n : Nat}

theorem octet_lt (p : Bytes) (i : Nat) : octet p i < 2 ^ 8 := (p.getD i 0).toNat_lt

theorem rd16_lt (p : Bytes) (i : Nat) : rd16 p i < 2 ^ 16 := by
  have h0 := octet_lt p i
  have h1 := octet_lt p (i + 1)
  unfold rd16
  omega

theorem rd32_lt (p : Bytes) (i : Nat) : rd32 p i < 2 ^ 32 := by
  have h0 := rd16_lt p i
  have h1 := rd16_lt p (i + 2)
  unfold rd32
  omega

theorem wr16_length (n : Nat) : (wr16 n).length = 2 := rfl

theorem octet_drop (p : Bytes) (k i : Nat) : octet (p.drop k) i = octet p (k + i) := by
  simp only [octet, List.getD_eq_getElem?_getD, List.getElem?_drop]

theorem rd16_drop (p : Bytes) (k i : Nat) : rd16 (p.drop k) i = rd16 p (k + i) := by
  simp only [rd16, octet_drop, Nat.add_assoc]

theorem rd32_drop (p : Bytes) (k i : Nat) : rd32 (p.drop k) i = rd32 p (k + i) := by
  simp only [rd32, rd16_drop, Nat.add_assoc]

theorem octet_take {k} (h : i < k) : octet (p.take k) i = octet p i := by
  simp only [octet, List.getD_eq_getElem?_getD, List.getElem?_take_of_lt h]

theorem rd16_take {k} (h : i + 1 < k) : rd16 (p.take k) i = rd16 p i := by
  rw [rd16, rd16, octet_take h, octet_take (Nat.lt_of_succ_lt h)]

theorem octet_append_right (h : i = p.length + n) : octet (p ++ q) i = octet q n := by
  subst h
  simp only [octet, List.getD_eq_getElem?_getD, List.getElem?_append_right (Nat.le_add_right _ _),
    Nat.add_sub_cancel_left]

theorem rd16_append_right (h : i = p.length + n) : rd16 (p ++ q) i = rd16 q n := by
  rw [rd16, rd16, octet_append_right h, octet_append_right (n := n + 1) (by omega)]

theorem rd32_append_right (h : i = p.length + n) : rd32 (p ++ q) i = rd32 q n := by
  rw [rd32, rd32, rd16_append_right h, rd16_append_right (n := n + 2) (by omega)]

theorem rd16_wr16 (h : n < 2 ^ 16) : rd16 (wr16 n ++ q) 0 = n := by
  have h0 : octet (wr16 n ++ q) 0 = n / 2 ^ 8 % 2 ^ 8 := UInt8.toNat_ofNat'
  have h1 : octet (wr16 n ++ q) 1 = n % 2 ^ 8 := UInt8.toNat_ofNat'
  rw [rd16, h0, h1]
  omega

theorem rd32_wr32 (h : n < 2 ^ 32) : rd32 (wr32 n ++ q) 0 = n := by
  have hmod : wr16 n = wr16 (n % 2 ^ 16) := by
    have h8 : UInt8.ofNat (n / 2 ^ 8) = UInt8.ofNat (n % 2 ^ 16 / 2 ^ 8) :=
      UInt8.toNat.inj (by rw [UInt8.toNat_ofNat', UInt8.toNat_ofNat']; omega)
    have h0 : UInt8.ofNat n = UInt8.ofNat (n % 2 ^ 16) :=
      UInt8.toNat.inj (by rw [UInt8.toNat_ofNat', UInt8.toNat_ofNat']; omega)
    rw [wr16, wr16, h8, h0]
  rw [wr32, List.append_assoc, rd32, rd16_wr16 (by omega), rd16_append_right (n := 0) (by rfl), hmod,
    rd16_wr16 (by omega)]
  omega

end BoltApi.WebRtc.Wire
