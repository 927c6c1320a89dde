import BoltApi.Neo4j.Server

/-! # Version negotiation of Bolt -/
namespace BoltApi.Neo4j
open Octets List

/-- The versions one entry of a proposal names: a minor and the `range` below it. -/
def named (range minor major : UInt8) : List Version :=
  (List.range (min minor.toNat range.toNat + 1)).map fun k =>
    ⟨major, UInt8.ofNat (minor.toNat - k)⟩

def offered : Bytes → List Version
  | _ :: range :: minor :: major :: entries => named range minor major ++ offered entries
  | _ => []

def served (maxMajor : UInt8) (v : Version) : Bool := isSupported v && v.major ≤ maxMajor

def Version.rank (v : Version) : Nat := v.major.toNat * 256 + v.minor.toNat

variable {major minor range maxMajor : UInt8} {u v best : Version} {entries : Bytes}

theorem valid_of_served (h : served maxMajor v) : v.valid := by
  rw [Version.valid, bne_iff_ne]
  intro hzero
  simp [served, isSupported, hzero] at h

theorem rank_lt_iff :
    u.rank < v.rank ↔ u.major < v.major ∨ v.major = u.major ∧ u.minor < v.minor := by
  have hu := u.minor.toNat_lt
  have hv := v.minor.toNat_lt
  simp only [Version.rank, UInt8.lt_iff_toNat_lt, ← UInt8.toNat_inj]
  omega

theorem servedMinor_eq :
    servedMinor major minor range maxMajor = (named range minor major).find? (served maxMajor) := by
  have hlow : minor.toNat - (if minor < range then 0 else minor - range).toNat =
      min minor.toNat range.toNat := by
    have hm := minor.toNat_lt
    have hr := range.toNat_lt
    simp only [UInt8.lt_iff_toNat_lt]
    split <;> simp only [UInt8.toNat_sub, UInt8.toNat_zero] <;> omega
  rw [servedMinor, hlow]
  rfl

theorem rank_le_of_find {p : Version → Bool} (h : (named range minor major).find? p = some v)
    (hu : u ∈ named range minor major) (hp : p u) : u.rank ≤ v.rank := by
  obtain ⟨i, -, rfl⟩ := mem_map.mp hu
  rw [named, find?_map] at h
  obtain ⟨k, hk, rfl⟩ := Option.map_eq_some_iff.mp h
  have hle : ¬ i < k := by
    intro hi
    have := (find?_range_eq_some.mp hk).2.2 i hi
    simp [hp] at this
  have := minor.toNat_lt
  simp only [Version.rank, UInt8.toNat_ofNat']
  omega

structure Picks (maxMajor : UInt8) (best : Version) (vs : List Version) (v : Version) : Prop where
  origin : v = best ∨ v ∈ vs ∧ served maxMajor v = true
  ge : best.rank ≤ v.rank
  greatest : ∀ u ∈ vs, served maxMajor u → u.rank ≤ v.rank

theorem Picks.append {vs ws} (h1 : Picks maxMajor best vs u) (h2 : Picks maxMajor u ws v) :
    Picks maxMajor best (vs ++ ws) v := by
  refine ⟨?_, Nat.le_trans h1.ge h2.ge, fun x hx hs => ?_⟩
  · rcases h2.origin with rfl | h
    · exact h1.origin.imp_right fun h => ⟨mem_append_left _ h.1, h.2⟩
    · exact .inr ⟨mem_append_right _ h.1, h.2⟩
  · rcases mem_append.mp hx with hx | hx
    · exact Nat.le_trans (h1.greatest x hx hs) h2.ge
    · exact h2.greatest x hx hs

theorem negotiate_picks (hb : best = {} ∨ best.valid) :
    Picks maxMajor best (offered entries) (negotiate maxMajor best entries) := by
  fun_induction negotiate maxMajor best entries with
  | case1 best _ range minor major entries hmajor ih =>
    refine .append ⟨.inl rfl, Nat.le_refl _, fun u hu hs => ?_⟩ (ih hb)
    obtain ⟨k, -, rfl⟩ := mem_map.mp hu
    rcases hmajor with rfl | rfl <;> cases hs
  | case2 best _ range minor major entries _ hnone ih =>
    rw [servedMinor_eq] at hnone
    refine .append ⟨.inl rfl, Nat.le_refl _, fun u hu hs => ?_⟩ (ih hb)
    exact absurd hs (find?_eq_none.mp hnone u hu)
  | case3 best _ range minor major entries _ cand hcand hbetter ih =>
    rw [servedMinor_eq] at hcand
    have hserved := find?_some hcand
    refine .append ⟨.inr ⟨mem_of_find?_eq_some hcand, hserved⟩, ?_,
      fun u => rank_le_of_find hcand⟩ (ih (.inr ?_))
    · rcases hb with rfl | hb
      · exact Nat.zero_le _
      · exact Nat.le_of_lt (rank_lt_iff.mpr (hbetter.resolve_left (not_not.mpr hb)))
    · exact valid_of_served hserved
  | case4 best _ range minor major entries _ cand hcand hworse ih =>
    rw [servedMinor_eq] at hcand
    refine .append ⟨.inl rfl, Nat.le_refl _, fun u hu hs => ?_⟩ (ih hb)
    exact Nat.le_trans (rank_le_of_find hcand hu hs)
      (Nat.le_of_not_lt fun h => hworse (.inr (rank_lt_iff.mp h)))
  | case5 best entries hshort =>
    rw [offered]
    · exact ⟨.inl rfl, Nat.le_refl _, fun _ hu => absurd hu not_mem_nil⟩
    · exact hshort

/-- **The greatest common version.** The handshake settles on the greatest version that is offered
and served, and fails only if there is none. -/
theorem negotiate_greatest (maxMajor : UInt8) (entries : Bytes) :
    let v := negotiate maxMajor {} entries
    if v.valid then v ∈ offered entries ∧ served maxMajor v = true ∧
      ∀ u ∈ offered entries, served maxMajor u = true → u.rank ≤ v.rank
    else ∀ u ∈ offered entries, served maxMajor u = false := by
  have h : Picks maxMajor {} (offered entries) _ := negotiate_picks (.inl rfl)
  rcases h.origin with he | ⟨hmem, hs⟩
  · rw [he] at h ⊢
    refine fun u hu => Bool.eq_false_iff.mpr fun hs => ?_
    have hpos : ({} : Version).rank < u.rank := rank_lt_iff.mpr (.inl ?_)
    · exact absurd (h.greatest u hu hs) (Nat.not_le.mpr hpos)
    · exact UInt8.pos_iff_ne_zero.mpr (bne_iff_ne.mp (valid_of_served hs))
  · exact (if_pos (valid_of_served hs)).mpr ⟨hmem, hs, h.greatest⟩

end BoltApi.Neo4j
