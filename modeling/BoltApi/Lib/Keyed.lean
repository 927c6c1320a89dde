import Mathlib.Data.List.Forall2
import Mathlib.Data.List.Nodup
import Mathlib.Logic.Function.Basic

/-! # Lists of records with a key

A list whose records have pairwise different keys is a finite map. The rules here
say what finding, overwriting, adding and the swapping removal of an unordered
array do to that map. -/
namespace BoltApi.Lib.Keyed
open List Function

variable {α κ : Type} [DecidableEq κ] (key : α → κ)

def find (l : List α) (k : κ) : Option α := l.find? fun a => key a == k

def put (a : α) (l : List α) : List α := l.map fun b => if key b = key a then a else b

def swapRemove (k : κ) (l : List α) : List α :=
  match l.findIdx? fun a => key a == k, l.getLast? with
  | some i, some last => (l.set i last).dropLast
  | _, _ => l

variable {key} {l : List α} {a : α} {k : κ}

theorem find_mem (h : find key l k = some a) : a ∈ l ∧ key a = k :=
  ⟨mem_of_find?_eq_some h, by simpa using List.find?_some h⟩

theorem find_eq_none_iff : find key l k = none ↔ k ∉ l.map key := by
  simp [find, List.find?_eq_none]

theorem find_eq_some_iff (hl : (l.map key).Nodup) : find key l k = some a ↔ a ∈ l ∧ key a = k := by
  refine ⟨find_mem, ?_⟩
  rintro ⟨ha, rfl⟩
  cases h : find key l (key a) with
  | none => exact absurd (mem_map_of_mem ha) (find_eq_none_iff.mp h)
  | some b =>
    obtain ⟨hb, hk⟩ := find_mem h
    rw [inj_on_of_nodup_map hl hb ha hk]

theorem find_eq_of_mem_iff (hl : (l.map key).Nodup) {g} (hg : ∀ k a, g k = some a → key a = k)
    (h : ∀ a, a ∈ l ↔ g (key a) = some a) : find key l = g := by
  funext k
  cases hk : g k with
  | some a =>
    have ha := hg k a hk
    exact (find_eq_some_iff hl).mpr ⟨(h a).mpr (by rw [ha, hk]), ha⟩
  | none =>
    cases hf : find key l k with
    | none => rfl
    | some a =>
      obtain ⟨ha, rfl⟩ := find_mem hf
      rw [(h a).mp ha] at hk
      cases hk

theorem key_of_update {o} (ho : ∀ b, o = some b → key b = k) :
    ∀ i b, update (find key l) k o i = some b → key b = i := by
  intro i b hb
  by_cases hi : i = k
  · rw [hi, update_self] at hb
    rw [hi, ho b hb]
  · rw [update_of_ne hi] at hb
    exact (find_mem hb).2

/-! ## Overwriting -/

theorem keys_put : (put key a l).map key = l.map key := by
  simp only [put, map_map]
  refine map_congr_left fun b _ => ?_
  simp only [comp_apply]
  split
  · rename_i hb; exact hb.symm
  · rfl

theorem mem_put {b} (h : b ∈ put key a l) : b = a ∨ key b ≠ key a ∧ b ∈ l := by
  obtain ⟨c, hc, rfl⟩ := mem_map.mp h
  split
  · exact .inl rfl
  · exact .inr ⟨‹_›, hc⟩

theorem find_put (hl : (l.map key).Nodup) {b} (h : find key l (key a) = some b) :
    find key (put key a l) = update (find key l) (key a) (some a) := by
  refine find_eq_of_mem_iff (by rwa [keys_put]) ?_ ?_
  · exact key_of_update fun c hc => by rw [Option.some.inj hc]
  intro c
  obtain ⟨hb, hbk⟩ := find_mem h
  by_cases hk : key c = key a
  · rw [hk, update_self, Option.some.injEq]
    constructor
    · intro hc
      exact (mem_put hc).elim Eq.symm fun hc => absurd hk hc.1
    · rintro rfl
      exact mem_map.mpr ⟨b, hb, if_pos hbk⟩
  rw [update_of_ne hk, find_eq_some_iff hl, and_iff_left rfl]
  constructor
  · intro hc
    exact ((mem_put hc).resolve_left fun h => hk (h ▸ rfl)).2
  · intro hc
    exact mem_map.mpr ⟨c, hc, if_neg hk⟩

theorem put_put {b} (h : key a = key b) : put key b (put key a l) = put key b l := by
  simp only [put, map_map]
  refine map_congr_left fun c _ => ?_
  simp only [comp_apply]
  by_cases hc : key c = key a
  · rw [if_pos hc, if_pos h, if_pos (hc.trans h)]
  · rw [if_neg hc]

theorem put_self (hl : (l.map key).Nodup) (h : find key l (key a) = some a) : put key a l = l := by
  have hsame : ∀ b ∈ l, (if key b = key a then a else b) = b := by
    intro b hb
    split
    · rename_i hk
      exact (inj_on_of_nodup_map hl hb (find_mem h).1 hk).symm
    · rfl
  rw [put, map_congr_left hsame, map_id']

theorem find_map {f} (hf : ∀ a, key (f a) = key a) (l : List α) (k : κ) :
    find key (l.map f) k = (find key l k).map f := by
  simp only [find, List.find?_map, comp_def, hf]

theorem find_filter (hl : (l.map key).Nodup) (p : α → Bool) :
    find key (l.filter p) k = (find key l k).filter p := by
  have hnd : ((l.filter p).map key).Nodup := hl.sublist (filter_sublist.map key)
  refine Option.ext fun a => ?_
  rw [find_eq_some_iff hnd, mem_filter, Option.filter_eq_some_iff, find_eq_some_iff hl]
  exact and_right_comm

theorem find_forall₂ {R} (hR : ∀ a b, R a b → key b = key a) {l m} (h : List.Forall₂ R l m) :
    m.map key = l.map key ∧ ∀ k, Option.Rel R (find key l k) (find key m k) := by
  induction h with
  | nil => exact ⟨rfl, fun k => .none⟩
  | @cons a b l m hab _ ih =>
    refine ⟨by rw [map_cons, map_cons, hR a b hab, ih.1], ?_⟩
    intro k
    by_cases hk : key a = k
    · have hbk : key b = k := (hR a b hab).trans hk
      simpa [find, hk, hbk] using Option.Rel.some hab
    have hbk : ¬ key b = k := fun hb => hk ((hR a b hab).symm.trans hb)
    rw [find, List.find?_cons_of_neg (by simpa using hk), find,
      List.find?_cons_of_neg (by simpa using hbk)]
    exact ih.2 k

/-! ## Adding -/

theorem find_append (hl : (l.map key).Nodup) (h : find key l (key a) = none) :
    ((l ++ [a]).map key).Nodup ∧
      find key (l ++ [a]) = update (find key l) (key a) (some a) := by
  have hnd : ((l ++ [a]).map key).Nodup := by
    rw [map_append, map_singleton, nodup_append_comm, singleton_append, nodup_cons]
    exact ⟨find_eq_none_iff.mp h, hl⟩
  refine ⟨hnd, find_eq_of_mem_iff hnd ?_ ?_⟩
  · exact key_of_update fun c hc => by rw [Option.some.inj hc]
  intro c
  rw [mem_append, mem_singleton]
  by_cases hk : key c = key a
  · rw [hk, update_self, Option.some.injEq]
    refine ⟨?_, fun hc => .inr hc.symm⟩
    rintro (hc | rfl)
    · exact absurd (hk ▸ mem_map_of_mem hc) (find_eq_none_iff.mp h)
    · rfl
  rw [update_of_ne hk, find_eq_some_iff hl, and_iff_left rfl]
  refine ⟨?_, .inl⟩
  rintro (hc | rfl)
  · exact hc
  · exact absurd rfl hk

/-! ## Removing -/

theorem swapRemove_perm {pre post x} (hx : key x = k) (hpre : ∀ y ∈ pre, key y ≠ k) :
    (swapRemove key k (pre ++ x :: post)).Perm (pre ++ post) := by
  have hidx : (pre ++ x :: post).findIdx? (fun a => key a == k) = some pre.length := by
    rw [List.findIdx?_append]
    have hnone : pre.findIdx? (fun a => key a == k) = none := by
      rw [List.findIdx?_eq_none_iff]
      intro y hy
      exact beq_false_of_ne (hpre y hy)
    rw [hnone, List.findIdx?_cons]
    simp [hx]
  rcases eq_nil_or_concat post with rfl | ⟨mid, last, rfl⟩
  · have hlast : (pre ++ [x]).getLast? = some x := by simp
    simp only [swapRemove, hidx, hlast]
    simp
  have hlast : (pre ++ x :: (mid ++ [last])).getLast? = some last := by
    rw [← cons_append, ← append_assoc, List.getLast?_concat]
  have hset : (pre ++ x :: (mid ++ [last])).set pre.length last =
      (pre ++ last :: mid) ++ [last] := by simp
  rw [concat_eq_append] at hidx ⊢
  simp only [swapRemove, hidx, hlast, hset, dropLast_concat]
  exact List.Perm.append_left pre (perm_append_singleton last mid).symm

theorem find_split (h : find key l k = some a) :
    ∃ pre post, l = pre ++ a :: post ∧ key a = k ∧ ∀ y ∈ pre, key y ≠ k := by
  obtain ⟨hk, pre, post, rfl, hpre⟩ := List.find?_eq_some_iff_append.mp h
  exact ⟨pre, post, rfl, by simpa using hk, fun y hy => by simpa using hpre y hy⟩

theorem length_swapRemove (h : find key l k = some a) :
    (swapRemove key k l).length + 1 = l.length := by
  obtain ⟨pre, post, rfl, hk, hpre⟩ := find_split h
  rw [(swapRemove_perm hk hpre).length_eq, length_append, length_append, length_cons, Nat.add_assoc]

theorem find_swapRemove (hl : (l.map key).Nodup) (h : find key l k = some a) :
    ((swapRemove key k l).map key).Nodup ∧
      find key (swapRemove key k l) = update (find key l) k none := by
  obtain ⟨pre, post, rfl, hk, hpre⟩ := find_split h
  have hperm : (swapRemove key k (pre ++ a :: post)).Perm (pre ++ post) :=
    swapRemove_perm hk hpre
  have hsub : (pre ++ post).Sublist (pre ++ a :: post) :=
    (List.Sublist.refl pre).append (sublist_cons_self a post)
  have hnd : ((swapRemove key k (pre ++ a :: post)).map key).Nodup :=
    (hperm.map key).nodup_iff.mpr (hl.sublist (hsub.map key))
  have hpost : ∀ y ∈ post, key y ≠ k := by
    intro y hy hyk
    rw [map_append, map_cons, nodup_append] at hl
    exact (nodup_cons.mp hl.2.1).1 (hk ▸ hyk ▸ mem_map_of_mem hy)
  refine ⟨hnd, find_eq_of_mem_iff hnd ?_ ?_⟩
  · exact key_of_update fun c hc => by cases hc
  intro c
  rw [hperm.mem_iff, mem_append]
  by_cases hc : key c = k
  · rw [hc, update_self]
    refine ⟨?_, fun hn => by cases hn⟩
    rintro (hm | hm)
    · exact absurd hc (hpre c hm)
    · exact absurd hc (hpost c hm)
  rw [update_of_ne hc, find_eq_some_iff hl, and_iff_left rfl, mem_append, mem_cons]
  refine or_congr_right ⟨.inr, ?_⟩
  rintro (rfl | hm)
  · exact absurd hk hc
  · exact hm

end BoltApi.Lib.Keyed
