import Mathlib.Data.List.Basic

/-! # Exact maps behind an interface

Two containers a program may use without owning their code: a pool that gives
each distinct text one code, and a table from keys to values with a fixed
capacity. Each is a record of operations, and `Exact` lists what a client may
rely on. Nothing is said about how a full pool or a full table refuses, nor
which value survives when a key is inserted twice. -/
namespace BoltApi.Lib.ExactMap
open List

/-- The operations of an interning pool with states `D`, texts `S` and codes
`C`. `intern` answers `none` when the pool refuses the text. -/
structure Dictionary (D S C : Type) where
  intern : D → S → D × Option C
  find : D → S → Option C
  resolve : D → C → S

structure Dictionary.Exact {D S C : Type} (P : Dictionary D S C) : Prop where
  resolve_find : ∀ {d s c}, P.find d s = some c → P.resolve d c = s
  find_intern : ∀ {d s c}, (P.intern d s).2 = some c → P.find (P.intern d s).1 s = some c
  find_keep : ∀ {d s c} (t : S), P.find d s = some c → P.find (P.intern d t).1 s = some c

theorem Dictionary.Exact.find_inj {D S C : Type} {P : Dictionary D S C} (hP : P.Exact)
    {d : D} {s t : S} {c : C} (hs : P.find d s = some c) (ht : P.find d t = some c) : s = t := by
  rw [← hP.resolve_find hs, ← hP.resolve_find ht]

/-- The operations of a table from `K` to `V`. `insert` also says whether the
pair was taken; `room t` is a number of further keys that `t` is sure to take. -/
structure Table (T K V : Type) where
  create : Nat → T
  insert : T → K → V → T × Bool
  find : T → K → Option V
  room : T → Nat

structure Table.Exact {T K V : Type} (M : Table T K V) : Prop where
  find_create : ∀ n k, M.find (M.create n) k = none
  room_create : ∀ n, n ≤ M.room (M.create n)
  insert_room : ∀ {t} k v, 0 < M.room t → (M.insert t k v).2 = true
  room_insert : ∀ t k v, M.room t ≤ M.room (M.insert t k v).1 + 1
  find_new : ∀ {t k v}, M.find t k = none → (M.insert t k v).2 →
    M.find (M.insert t k v).1 k = some v
  find_again : ∀ {t k w} v, M.find t k = some w →
    M.find (M.insert t k v).1 k = some w ∨ M.find (M.insert t k v).1 k = some v
  find_refused : ∀ {t k v}, (M.insert t k v).2 = false → ∀ k',
    M.find (M.insert t k v).1 k' = M.find t k'
  find_other : ∀ t v {k k'}, k' ≠ k → M.find (M.insert t k v).1 k' = M.find t k'

theorem Table.Exact.of_find_insert {T K V : Type} [DecidableEq K] {M : Table T K V}
    (hM : M.Exact) {t : T} {k k' : K} {v w : V} (h : M.find (M.insert t k v).1 k' = some w) :
    M.find t k' = some w ∨ k' = k ∧ w = v := by
  by_cases hk : k' = k
  · subst hk
    cases hins : (M.insert t k' v).2 with
    | false => exact .inl (hM.find_refused hins k' ▸ h)
    | true =>
      cases hold : M.find t k' with
      | none =>
        rw [hM.find_new hold hins] at h
        exact .inr ⟨rfl, (Option.some.inj h).symm⟩
      | some u =>
        rcases hM.find_again v hold with hu | hv
        · exact .inl (hu.symm.trans h)
        · rw [hv] at h
          exact .inr ⟨rfl, (Option.some.inj h).symm⟩
  · exact .inl (hM.find_other t v hk ▸ h)

/-! ## List-backed instances

The promises can be kept: a pool that numbers texts in order of arrival, and
for every value `fav` a table that never gives `fav` up for another value. -/

section Instances

variable {S C K V : Type} [DecidableEq S] [DecidableEq K] [DecidableEq V]

/-- At most `cap` texts in order of arrival; the code of a text is its position. -/
def listDictionary (code : Nat → C) (index : C → Nat) (cap : Nat) (blank : S) :
    Dictionary {d : List S // d.length ≤ cap} S C where
  intern d s :=
    if s ∈ d.1 then (d, some (code (d.1.idxOf s)))
    else if h : d.1.length < cap then (⟨d.1 ++ [s], by rw [length_append]; exact h⟩, some (code d.1.length))
    else (d, none)
  find d s := if s ∈ d.1 then some (code (d.1.idxOf s)) else none
  resolve d c := d.1.getD (index c) blank

theorem listDictionary_exact {code : Nat → C} {index : C → Nat} {cap : Nat} {blank : S}
    (hcode : ∀ i, i < cap → index (code i) = i) : (listDictionary code index cap blank).Exact := by
  refine ⟨?_, ?_, ?_⟩
  · intro d s c h
    simp only [listDictionary, Option.ite_none_right_eq_some, Option.some.injEq] at h ⊢
    obtain ⟨hs, rfl⟩ := h
    have hlt := idxOf_lt_length_of_mem hs
    rw [hcode _ (Nat.lt_of_lt_of_le hlt d.2), getD_eq_getElem?_getD, List.getElem?_eq_getElem hlt]
    exact getElem_idxOf hlt
  · intro d s c h
    simp only [listDictionary] at h ⊢
    split at h
    case isTrue hs => simpa [if_pos hs] using h
    case isFalse hs =>
      split at h
      case isTrue hlt => simpa [if_neg hs, dif_pos hlt, idxOf_append, hs] using h
      case isFalse => cases h
  intro d s c t h
  simp only [listDictionary, Option.ite_none_right_eq_some, Option.some.injEq] at h ⊢
  obtain ⟨hs, rfl⟩ := h
  split
  case isTrue => exact ⟨hs, rfl⟩
  case isFalse ht =>
    split
    case isTrue => simp [idxOf_append, hs]
    case isFalse => exact ⟨hs, rfl⟩

/-- Pairs, the latest first, and the number of free slots. -/
structure Slots (K V : Type) where
  pairs : List (K × V)
  free : Nat

def listTable (fav : V) : Table (Slots K V) K V where
  create n := ⟨[], n⟩
  insert t k v :=
    match t.pairs.lookup k with
    | some w => if w = fav then (t, true) else (⟨(k, v) :: t.pairs, t.free⟩, true)
    | none => if 0 < t.free then (⟨(k, v) :: t.pairs, t.free - 1⟩, true) else (t, false)
  find t k := t.pairs.lookup k
  room t := t.free

theorem listTable_exact (fav : V) : Table.Exact (listTable fav : Table (Slots K V) K V) where
  find_create n k := rfl
  room_create n := Nat.le_refl n
  insert_room := by
    intro t k v h
    have hfree : 0 < t.free := h
    simp only [listTable]
    split
    · split <;> rfl
    · rw [if_pos hfree]
  room_insert := by
    intro t k v
    simp only [listTable]
    split
    · split <;> simp
    · split
      · exact Nat.le_of_eq (Nat.succ_pred_eq_of_pos ‹_›).symm
      · exact Nat.le_succ _
  find_new := by
    intro t k v hn hins
    have hn' : t.pairs.lookup k = none := hn
    simp only [listTable, hn'] at hins ⊢
    split
    case isTrue => simp
    case isFalse h => rw [if_neg h] at hins; cases hins
  find_again := by
    intro t k w v hw
    have hw' : t.pairs.lookup k = some w := hw
    simp only [listTable, hw']
    split
    case isTrue => exact .inl hw'
    case isFalse => exact .inr (by simp)
  find_refused := by
    intro t k v h k'
    simp only [listTable] at h ⊢
    split at h
    · split at h <;> cases h
    · split at h
      · cases h
      · rw [if_neg ‹_›]
  find_other := by
    intro t v k k' hk
    have hlook : ((k, v) :: t.pairs).lookup k' = t.pairs.lookup k' := by
      rw [lookup_cons, beq_eq_false_iff_ne.mpr hk]
    simp only [listTable]
    split <;> split <;> first | rfl | exact hlook

theorem listTable_keeps {fav t k} (h : (listTable fav).find t k = some fav) (k' : K) (v : V) :
    (listTable fav).find ((listTable fav).insert t k' v).1 k = some fav := by
  by_cases hk : k = k'
  · subst hk
    have h' : t.pairs.lookup k = some fav := h
    simp [listTable, h']
  · rw [(listTable_exact fav).find_other t v hk]
    exact h

theorem listTable_takes {fav : V} {t : Slots K V} {k : K}
    (h : ((listTable fav).insert t k fav).2) :
    (listTable fav).find ((listTable fav).insert t k fav).1 k = some fav := by
  cases hold : (listTable fav).find t k with
  | none => exact (listTable_exact fav).find_new hold h
  | some w =>
    by_cases hf : w = fav
    · exact listTable_keeps (hf ▸ hold) k fav
    · have hold' : t.pairs.lookup k = some w := hold
      simp [listTable, hold', hf]

end Instances

end BoltApi.Lib.ExactMap
