import Mathlib.Tactic.Ring

/-! # Big-endian numbers

A number in a fixed count of octets, the most significant first; what does not
fit is cut off. -/
namespace BoltApi.Lib.BigEndian

def storeBe : Nat → Nat → List UInt8
  | 0, _ => []
  | w + 1, v => UInt8.ofNat (v / 256 ^ w) :: storeBe w v

def loadBe (s : List UInt8) : Nat := s.foldl (fun v b => v * 256 + b.toNat) 0

theorem storeBe_length (w v : Nat) : (storeBe w v).length = w := by
  induction w with
  | zero => rfl
  | succ w ih => simp [storeBe, ih]

theorem foldl_storeBe (w v acc : Nat) :
    (storeBe w v).foldl (fun v b => v * 256 + b.toNat) acc = acc * 256 ^ w + v % 256 ^ w := by
  induction w generalizing acc with
  | zero => simp [storeBe, Nat.mod_one]
  | succ w ih =>
    have hmod : v % 256 ^ (w + 1) = v % 256 ^ w + 256 ^ w * (v / 256 ^ w % 2 ^ 8) := by
      rw [Nat.pow_succ, Nat.mod_mul, show 2 ^ 8 = 256 from rfl]
    rw [storeBe, List.foldl_cons, ih, UInt8.toNat_ofNat', hmod]
    ring

theorem loadBe_storeBe_mod (w v : Nat) : loadBe (storeBe w v) = v % 256 ^ w := by
  rw [loadBe, foldl_storeBe, Nat.zero_mul, Nat.zero_add]

theorem loadBe_storeBe {w v} (h : v < 256 ^ w) : loadBe (storeBe w v) = v := by
  rw [loadBe_storeBe_mod, Nat.mod_eq_of_lt h]

end BoltApi.Lib.BigEndian
