import Mathlib.Data.List.Basic
import Mathlib.Data.List.Induction

/-! # Histories

A property that each entry of a list has against the entries before it, and how
it is kept when the list grows at its end. -/
namespace BoltApi.Lib.History
open List
variable {α : Type*} {P : List α → α → Prop} {l m : List α}

/-- Each entry has the property against those before it. -/
def Each (P : List α → α → Prop) (l : List α) : Prop :=
  ∀ before a after, l = before ++ a :: after → P before a

theorem each_nil : Each P [] := fun before a after h => by simp at h

theorem Each.of_append (h : Each P (l ++ m)) : Each P l := by
  intro before a after heq
  refine h before a (after ++ m) ?_
  rw [heq, append_assoc, cons_append]

theorem Each.last {a} (h : Each P (l ++ [a])) : P l a := h l a [] rfl

theorem Each.append (h : Each P l)
    (hm : ∀ before a after, m = before ++ a :: after → P (l ++ before) a) : Each P (l ++ m) := by
  intro before a after heq
  rcases append_eq_append_iff.mp heq with ⟨mid, rfl, hm'⟩ | ⟨mid, hl, hm'⟩
  · exact hm mid a after hm'
  -- the entry is in `l`, or it is the first of `m`
  cases mid with
  | nil =>
    rw [append_nil] at hl
    subst hl
    simpa using hm [] a after hm'.symm
  | cons b mid =>
    obtain ⟨rfl, -⟩ := List.cons.inj hm'
    exact h before _ mid hl

theorem Each.snoc {a} (h : Each P l) (ha : P l a) : Each P (l ++ [a]) := by
  refine h.append fun before b after heq => ?_
  obtain ⟨rfl, hb⟩ | ⟨_, _, hnil⟩ := cons_eq_append_iff.mp heq
  · obtain ⟨rfl, -⟩ := List.cons.inj hb
    simpa using ha
  · simp at hnil

theorem Each.append_of_forall (h : Each P l) (hm : ∀ a ∈ m, ∀ before, P before a) :
    Each P (l ++ m) := by
  refine h.append fun before a after heq => hm a ?_ _
  rw [heq]
  exact mem_append_right _ mem_cons_self

theorem each_of_forall (h : ∀ a ∈ l, ∀ before, P before a) : Each P l :=
  each_nil.append_of_forall h

theorem Each.invariant (I : List α → Prop) (h : Each P l) (hnil : I [])
    (hstep : ∀ before a, I before → P before a → I (before ++ [a])) : I l := by
  induction l using List.reverseRecOn with
  | nil => exact hnil
  | append_singleton l a ih => exact hstep l a (ih h.of_append) h.last

def Runs {σ : Type*} (f : σ → α → σ) (good : σ → α → Prop) : σ → List α → σ → Prop
  | s, [], t => s = t
  | s, a :: l, t => good s a ∧ Runs f good (f s a) l t

theorem Each.runs {σ : Type*} {f : σ → α → σ} {good : σ → α → Prop} {s t : σ}
    (h : Each (fun before a => good (before.foldl f s) a) l) (hm : Runs f good (l.foldl f s) m t) :
    Each (fun before a => good (before.foldl f s) a) (l ++ m) ∧ (l ++ m).foldl f s = t := by
  induction m generalizing l with
  | nil =>
    rw [append_nil]
    exact ⟨h, hm⟩
  | cons a m ih =>
    rw [append_cons]
    exact ih (h.snoc hm.1) (by rw [foldl_append]; exact hm.2)

theorem Each.of_isPrefix (h : Each P l) (hpre : m <+: l) : Each P m := by
  obtain ⟨rest, rfl⟩ := hpre
  exact h.of_append

theorem each_iff_take : Each P l ↔ ∀ i : Fin l.length, P (l.take i) (l.get i) := by
  constructor
  · intro h i
    refine h _ _ (l.drop (i + 1)) ?_
    rw [get_eq_getElem, getElem_cons_drop, take_append_drop]
  · rintro h before a after rfl
    simpa using h ⟨before.length, by simp⟩

instance [∀ before a, Decidable (P before a)] : Decidable (Each P l) :=
  decidable_of_iff _ each_iff_take.symm

end BoltApi.Lib.History
