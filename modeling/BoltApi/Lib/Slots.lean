import Mathlib.Data.List.Basic
import Mathlib.Data.List.Perm.Basic

/-! # Tables of slots

A fixed array of slots that are in use or free, as the list of the slots up to
the last one ever used. -/
namespace BoltApi.Lib.Slots
open List
variable {α σ : Type*}

def alloc (a : α) : Nat → List (Option α) → Option (List (Option α))
  | 0, _ => none
  | _ + 1, [] => some [some a]
  | _ + 1, none :: l => some (some a :: l)
  | cap + 1, some b :: l => (alloc a cap l).map (some b :: ·)

def used (l : List (Option α)) : Nat := l.countP (·.isSome)

def entries (l : List (Option α)) : List α := l.filterMap id

/-- The first entry with the property, in slot order. -/
def find (p : α → Bool) (l : List (Option α)) : Option α := l.findSome? (·.filter p)

def freeFirst (p : α → Bool) : List (Option α) → List (Option α)
  | [] => []
  | none :: l => none :: freeFirst p l
  | some a :: l => if p a then none :: l else some a :: freeFirst p l

def modifyFirst (p : α → Bool) (f : α → α) : List (Option α) → List (Option α)
  | [] => []
  | none :: l => none :: modifyFirst p f l
  | some a :: l => if p a then some (f a) :: l else some a :: modifyFirst p f l

def freeWhere (p : α → Bool) (l : List (Option α)) : List (Option α) :=
  l.map fun o => o.filter fun a => !p a

def sweep (f : σ → α → σ × α) : σ → List (Option α) → σ × List (Option α)
  | s, [] => (s, [])
  | s, none :: l => ((sweep f s l).1, none :: (sweep f s l).2)
  | s, some a :: l => ((sweep f (f s a).1 l).1, some (f s a).2 :: (sweep f (f s a).1 l).2)

variable {a b : α} {cap : Nat} {l l' : List (Option α)} {p : α → Bool}

/-! ## What the operations leave in the slots -/

theorem mem_alloc (h : alloc a cap l = some l') : some b ∈ l' ↔ b = a ∨ some b ∈ l := by
  induction l generalizing cap l' with
  | nil =>
    cases cap with
    | zero => cases h
    | succ cap =>
      cases h
      simp
  | cons o l ih =>
    cases cap with
    | zero => cases h
    | succ cap =>
      cases o with
      | none =>
        cases h
        simp
      | some c =>
        obtain ⟨m, hm, rfl⟩ := Option.map_eq_some_iff.mp h
        simp only [mem_cons, ih hm, Option.some.injEq]
        exact or_left_comm

theorem mem_freeWhere : some b ∈ freeWhere p l ↔ some b ∈ l ∧ p b = false := by
  simp only [freeWhere, mem_map, Option.filter_eq_some_iff, Bool.not_eq_true']
  constructor
  · rintro ⟨o, ho, rfl, hb⟩
    exact ⟨ho, hb⟩
  · rintro ⟨ho, hb⟩
    exact ⟨some b, ho, rfl, hb⟩

theorem freeWhere_eq_self (h : ∀ b, some b ∈ l → p b = false) : freeWhere p l = l := by
  conv_rhs => rw [← map_id l]
  refine map_congr_left fun o ho => ?_
  cases o with
  | none => rfl
  | some b => simp [h b ho]

theorem used_freeWhere_le : used (freeWhere p l) ≤ used l := by
  rw [used, freeWhere, countP_map]
  exact countP_mono_left fun o _ h => by cases o <;> simp_all

theorem eq_false_of_used (h : used l ≤ used (freeWhere p l)) (hb : some b ∈ l) : p b = false := by
  induction l with
  | nil => cases hb
  | cons o l ih =>
    have hle : used (freeWhere p l) ≤ used l := used_freeWhere_le
    simp only [used, freeWhere, map_cons, countP_cons] at h hle ih
    rcases mem_cons.mp hb with rfl | hb
    · by_contra hp
      rw [Bool.not_eq_false] at hp
      simp only [Option.filter_some, hp, Bool.not_true, Bool.false_eq_true, if_false, Option.isSome_none,
        Option.isSome_some, if_true] at h
      omega
    refine ih ?_ hb
    cases o with
    | none => simpa using h
    | some c =>
      have hone : (if ((some c).filter fun a => !p a).isSome then 1 else 0) ≤ 1 := by
        split <;> omega
      simp only [Option.isSome_some, if_true] at h
      omega

theorem getElem?_freeWhere {i : Nat} (h : l[i]? = some (some b)) (hb : p b = false) :
    (freeWhere p l)[i]? = some (some b) := by
  simp [freeWhere, h, hb]

theorem mem_of_mem_freeFirst (h : some b ∈ freeFirst p l) : some b ∈ l := by
  induction l with
  | nil => exact h
  | cons o l ih =>
    cases o with
    | none => exact mem_cons_of_mem _ (ih (by simpa [freeFirst] using h))
    | some c =>
      rw [freeFirst] at h
      split at h
      · exact mem_cons_of_mem _ (by simpa using h)
      · rcases mem_cons.mp h with hc | hc
        · exact hc ▸ mem_cons_self
        · exact mem_cons_of_mem _ (ih hc)

theorem mem_modifyFirst {f} (h : some b ∈ modifyFirst p f l) :
    some b ∈ l ∨ ∃ a, some a ∈ l ∧ p a ∧ b = f a := by
  induction l with
  | nil => cases h
  | cons o l ih =>
    cases o with
    | none =>
      rcases mem_cons.mp h with h | h
      · cases h
      · exact (ih h).imp (mem_cons_of_mem _)
          fun ⟨a, ha, hp⟩ => ⟨a, mem_cons_of_mem _ ha, hp⟩
    | some c =>
      simp only [modifyFirst] at h
      split at h
      · next hc =>
        rcases mem_cons.mp h with h | h
        · cases h
          exact .inr ⟨c, mem_cons_self, hc, rfl⟩
        · exact .inl (mem_cons_of_mem _ h)
      rcases mem_cons.mp h with h | h
      · exact .inl (h ▸ mem_cons_self)
      · exact (ih h).imp (mem_cons_of_mem _)
          fun ⟨a, ha, hp⟩ => ⟨a, mem_cons_of_mem _ ha, hp⟩

theorem entries_modifyFirst {β : Type*} {f : α → α} {g : α → β}
    (h : ∀ a, p a → g (f a) = g a) :
    (entries (modifyFirst p f l)).map g = (entries l).map g := by
  induction l with
  | nil => rfl
  | cons o l ih =>
    cases o with
    | none => exact ih
    | some c =>
      simp only [modifyFirst]
      split
      · next hc =>
        simp only [entries, filterMap_cons_some (f := id) (b := f c) rfl,
          filterMap_cons_some (f := id) (b := c) rfl, map_cons, h c hc]
      · simp only [entries, filterMap_cons_some (f := id) (b := c) rfl, map_cons] at ih ⊢
        rw [ih]

theorem mem_find (h : find p l = some a) : some a ∈ l ∧ p a := by
  obtain ⟨o, ho, hf⟩ := exists_of_findSome?_eq_some h
  obtain ⟨rfl, hp⟩ := Option.filter_eq_some_iff.mp hf
  exact ⟨ho, hp⟩

theorem find_eq_none : find p l = none ↔ ∀ b, some b ∈ l → p b = false := by
  simp only [find, List.findSome?_eq_none_iff]
  constructor
  · intro h b hb
    simpa using h _ hb
  intro h o ho
  cases o with
  | none => rfl
  | some b => simp [h b ho]

theorem sweep_induction {f : σ → α → σ × α} {I : List α → σ → Prop} {Q : α → α → Prop}
    {d : List α} {s : σ}
    (hstep : ∀ d s a, some a ∈ l → I d s → I (d ++ [a]) (f s a).1 ∧ Q a (f s a).2) (hs : I d s) :
    I (d ++ entries l) (sweep f s l).1 ∧ List.Forall₂ (Option.Rel Q) l (sweep f s l).2 := by
  induction l generalizing d s with
  | nil => exact ⟨by simpa [sweep, entries] using hs, .nil⟩
  | cons o l ih =>
    have hrest := fun d s a ha => hstep d s a (mem_cons_of_mem o ha)
    cases o with
    | none => exact ⟨(ih hrest hs).1, .cons .none (ih hrest hs).2⟩
    | some a =>
      obtain ⟨hi, hq⟩ := hstep d s a mem_cons_self hs
      have hsweep := ih hrest hi
      rw [append_assoc] at hsweep
      exact ⟨hsweep.1, .cons (.some hq) hsweep.2⟩

theorem exists_of_mem_right {Q} (h : List.Forall₂ (Option.Rel Q) l l') (hb : some b ∈ l') :
    ∃ a, some a ∈ l ∧ Q a b := by
  induction h with
  | nil => cases hb
  | cons ho _ ih =>
    rcases mem_cons.mp hb with rfl | hb
    · cases ho with
      | some ho => exact ⟨_, mem_cons_self, ho⟩
    · obtain ⟨a, ha, hq⟩ := ih hb
      exact ⟨a, mem_cons_of_mem _ ha, hq⟩

theorem exists_of_mem_left {Q} (h : List.Forall₂ (Option.Rel Q) l l') (ha : some a ∈ l) :
    ∃ b, some b ∈ l' ∧ Q a b := by
  induction h with
  | nil => cases ha
  | cons ho _ ih =>
    rcases mem_cons.mp ha with rfl | ha
    · cases ho with
      | some ho => exact ⟨_, mem_cons_self, ho⟩
    · obtain ⟨b, hb, hq⟩ := ih ha
      exact ⟨b, mem_cons_of_mem _ hb, hq⟩

/-! ## The entries as a list -/

theorem mem_entries : a ∈ entries l ↔ some a ∈ l := by simp [entries]

theorem alloc_perm (h : alloc a cap l = some l') : (entries l').Perm (a :: entries l) := by
  induction l generalizing cap l' with
  | nil =>
    cases cap with
    | zero => cases h
    | succ cap =>
      cases h
      exact .refl _
  | cons o l ih =>
    cases cap with
    | zero => cases h
    | succ cap =>
      cases o with
      | none =>
        cases h
        exact .refl _
      | some c =>
        obtain ⟨m, hm, rfl⟩ := Option.map_eq_some_iff.mp h
        exact ((ih hm).cons c).trans (.swap a c _)

theorem freeFirst_perm (h : find p l = some a) : (entries l).Perm (a :: entries (freeFirst p l)) := by
  induction l with
  | nil => cases h
  | cons o l ih =>
    cases o with
    | none => exact ih h
    | some c =>
      by_cases hc : p c = true
      · simp only [find, List.findSome?_cons, Option.filter, hc, if_true, Option.some.injEq] at h
        subst h
        simp [freeFirst, hc, entries]
      have hf : find p l = some a := by
        simpa [find, List.findSome?_cons, Option.filter, hc] using h
      simp only [freeFirst, hc, entries, filterMap_cons, id]
      exact ((ih hf).cons c).trans (.swap a c _)

theorem used_freeFirst (h : find p l = some a) : used (freeFirst p l) < used l := by
  have hlen := (freeFirst_perm h).length_eq
  simp only [entries, length_filterMap_eq_countP, length_cons, id] at hlen
  exact Nat.lt_of_succ_le (Nat.le_of_eq hlen.symm)

end BoltApi.Lib.Slots
