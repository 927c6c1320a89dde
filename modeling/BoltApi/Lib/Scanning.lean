import Mathlib.Data.List.TakeWhile

/-! # Scanning a buffer that may still grow

A scanner reads a buffer from the front and accepts with a value and the unread
rest, rejects, or asks for more bytes. `Stable` says that the first two answers
are final: bytes that arrive later change neither of them. Everything a
re-parsing read loop relies on follows from that one property, so it is proved
here for the ways scanners are put together, for any type of symbol. -/
namespace BoltApi.Lib.Scanning
open List

inductive Status
  | ok
  | more
  | bad
  deriving DecidableEq

/-- A scan's answer: a value and the unread rest, a wish for more input, or a
rejection. -/
inductive Scan (α β : Type)
  | ok (value : α) (rest : List β)
  | more
  | bad
  deriving DecidableEq

variable {α β γ : Type}

/-- Run `p`, and on acceptance continue with `f` on what it left. -/
def Scan.andThen (r : Scan α β) (f : α → List β → Scan γ β) : Scan γ β :=
  match r with
  | .ok a rest => f a rest
  | .more => .more
  | .bad => .bad

structure Stable (p : List β → Scan α β) : Prop where
  ok : ∀ {i : List β} {a : α} {r : List β}, p i = .ok a r → ∀ x, p (i ++ x) = .ok a (r ++ x)
  bad : ∀ {i : List β}, p i = .bad → ∀ x, p (i ++ x) = .bad

/-- A scanner accepts already when it has just the symbols it reads. -/
def Exact (p : List β → Scan α β) : Prop :=
  ∀ i a r, p i = .ok a r → ∃ c, i = c ++ r ∧ p c = .ok a []

def Scan.push : Scan α β → List β → Scan α β
  | .ok a rest, x => .ok a (rest ++ x)
  | .more, _ => .more
  | .bad, _ => .bad

variable {p : List β → Scan α β}

theorem Stable.push (hp : Stable p) {i} (h : p i ≠ .more) (x : List β) :
    p (i ++ x) = (p i).push x := by
  cases hi : p i with
  | ok a r => exact hp.ok hi x
  | more => exact absurd hi h
  | bad => exact hp.bad hi x

theorem Stable.of_push (h : ∀ i x, p i ≠ .more → p (i ++ x) = (p i).push x) : Stable p := by
  constructor
  · intro i a r hi x
    rw [h i x (by simp [hi]), hi, Scan.push]
  · intro i hi x
    rw [h i x (by simp [hi]), hi, Scan.push]

theorem Exact.length_le (hp : Exact p) {i r a} (h : p i = .ok a r) : r.length ≤ i.length := by
  obtain ⟨c, rfl, -⟩ := hp _ _ _ h
  simp

variable {f : α → List β → Scan γ β}

theorem Stable.andThen
    (hp : Stable p) (hf : ∀ a, Stable (f a)) : Stable fun i => (p i).andThen f := by
  refine Stable.of_push fun i x h => ?_
  cases hpi : p i with
  | ok a r =>
    simp only [hpi, Scan.andThen] at h
    simp only [hp.ok hpi x, Scan.andThen]
    exact (hf a).push h x
  | more => simp [hpi, Scan.andThen] at h
  | bad => simp only [hp.bad hpi x, Scan.andThen, Scan.push]

theorem Exact.andThen (hp : Exact p) (hs : Stable p) (hf : ∀ a, Exact (f a)) :
    Exact fun i => (p i).andThen f := by
  intro i b r h
  simp only at h
  cases hpi : p i with
  | ok a r' =>
    rw [hpi] at h
    obtain ⟨c, rfl, hc⟩ := hp _ _ _ hpi
    obtain ⟨d, rfl, hd⟩ := hf a _ _ _ h
    refine ⟨c ++ d, by simp, ?_⟩
    have hcd := hs.ok hc d
    simp only [hcd, nil_append]
    exact hd
  | _ => rw [hpi] at h; cases h

def check (c : Bool) (a : α) (rest : List β) : Scan α β := if c then .ok a rest else .bad

theorem stable_accept (a : α) : Stable fun r : List β => Scan.ok a r :=
  Stable.of_push fun _ _ _ => rfl

theorem exact_accept (a : α) : Exact fun r : List β => Scan.ok a r := by
  intro i b r h
  cases h
  exact ⟨[], rfl, rfl⟩

theorem stable_check (c : Bool) (a : α) : Stable (check (β := β) c a) := by
  cases c with
  | true => exact stable_accept a
  | false => exact Stable.of_push fun _ _ _ => rfl

theorem exact_check (c : Bool) (a : α) : Exact (check (β := β) c a) := by
  intro i b r h
  unfold check at h
  split at h
  · rename_i hc
    cases h
    exact ⟨[], rfl, if_pos hc⟩
  · cases h

section Until
variable [DecidableEq β]

/-- Read symbols that pass `good` up to the first `stop`, which is consumed. -/
def spanUntil (stop : β) (good : β → Bool) : List β → Scan (List β) β
  | [] => .more
  | b :: rest =>
    if b = stop then .ok [] rest
    else if good b then (spanUntil stop good rest).andThen fun v r => .ok (b :: v) r
    else .bad

theorem stable_spanUntil (stop : β) (good : β → Bool) : Stable (spanUntil stop good) := by
  refine Stable.of_push fun i x => ?_
  induction i with
  | nil => intro h; simp [spanUntil] at h
  | cons b rest ih =>
    simp only [spanUntil, cons_append]
    by_cases hb : b = stop
    · simp [hb, Scan.push]
    by_cases hg : good b = true
    · simp only [hb, hg, if_false, if_true]
      cases hs : spanUntil stop good rest with
      | more => simp [Scan.andThen]
      | _ => simp [ih (by simp [hs]), hs, Scan.push, Scan.andThen]
    · simp [hb, hg, Scan.push]

theorem spanUntil_ok {stop : β} {good : β → Bool} {i v r : List β}
    (h : spanUntil stop good i = .ok v r) :
    i = v ++ stop :: r ∧ (∀ b ∈ v, b ≠ stop ∧ good b) := by
  induction i generalizing v with
  | nil => cases h
  | cons b rest ih =>
    simp only [spanUntil] at h
    split at h
    · rename_i hb
      cases h
      simp [hb]
    rename_i hb
    split at h
    · rename_i hg
      cases hs : spanUntil stop good rest with
      | ok v' r' =>
        rw [hs] at h
        simp only [Scan.andThen, Scan.ok.injEq] at h
        obtain ⟨rfl, rfl⟩ := h
        obtain ⟨hi, hv⟩ := ih hs
        refine ⟨by simp [hi], ?_⟩
        intro c hc
        rcases mem_cons.mp hc with rfl | hc
        · exact ⟨hb, hg⟩
        · exact hv c hc
      | _ => rw [hs] at h; cases h
    · cases h

def expect (b : β) : List β → Scan Unit β
  | [] => .more
  | c :: rest => if c = b then .ok () rest else .bad

theorem stable_expect (b : β) : Stable (expect b) := by
  refine Stable.of_push fun i x h => ?_
  cases i with
  | nil => simp [expect] at h
  | cons c rest => by_cases hc : c = b <;> simp [expect, hc, Scan.push]

theorem spanUntil_append {stop good v} (hv : ∀ b ∈ v, b ≠ stop ∧ good b) (r : List β) :
    spanUntil stop good (v ++ stop :: r) = .ok v r := by
  induction v with
  | nil => simp [spanUntil]
  | cons b v ih =>
    obtain ⟨hb, hg⟩ := hv b (by simp)
    rw [cons_append, spanUntil, if_neg hb, if_pos hg, ih fun c hc => hv c (by simp [hc])]
    rfl

theorem exact_spanUntil (stop : β) (good : β → Bool) : Exact (spanUntil stop good) := by
  intro i v r h
  obtain ⟨rfl, hv⟩ := spanUntil_ok h
  exact ⟨v ++ [stop], by simp, spanUntil_append hv []⟩

theorem exact_expect (b : β) : Exact (expect b) := by
  intro i a r h
  cases i with
  | nil => cases h
  | cons c rest =>
    simp only [expect] at h
    split at h
    · rename_i hc
      cases h
      exact ⟨[c], rfl, if_pos hc⟩
    · cases h

end Until

theorem append_span_inj {good : β → Prop} {a b x y : List β} (ha : ∀ c ∈ a, good c)
    (hb : ∀ c ∈ b, good c) (hx : ∀ c ∈ x.head?, ¬ good c) (hy : ∀ c ∈ y.head?, ¬ good c)
    (h : a ++ x = b ++ y) : a = b ∧ x = y := by
  induction a generalizing b with
  | nil =>
    cases b with
    | nil => exact ⟨rfl, h⟩
    | cons c b =>
      rw [nil_append, cons_append] at h
      exact absurd (hb c (by simp)) (hx c (by simp [h]))
  | cons c a ih =>
    cases b with
    | nil =>
      rw [nil_append, cons_append] at h
      exact absurd (ha c (by simp)) (hy c (by simp [← h]))
    | cons d b =>
      rw [cons_append, cons_append] at h
      obtain ⟨rfl, htail⟩ := List.cons.inj h
      obtain ⟨hab, hxy⟩ := ih (fun e he => ha e (mem_cons_of_mem _ he))
        (fun e he => hb e (mem_cons_of_mem _ he)) htail
      exact ⟨by rw [hab], hxy⟩

theorem Stable.dropWhile (hp : Stable p) (hnil : p [] = .more)
    (skip : β → Bool) : Stable fun i => p (i.dropWhile skip) := by
  refine Stable.of_push fun i x h => ?_
  have hne : i.dropWhile skip ≠ [] := by
    intro he
    exact h (by rw [he, hnil])
  have hdrop : (i ++ x).dropWhile skip = i.dropWhile skip ++ x := by
    rw [dropWhile_append]
    simp [hne]
  rw [hdrop]
  exact hp.push h x

theorem Exact.dropWhile (hp : Exact p) (hnil : p [] = .more)
    (skip : β → Bool) : Exact fun i => p (i.dropWhile skip) := by
  intro i a r h
  obtain ⟨c, hc, hpc⟩ := hp _ _ _ h
  have hne : c ≠ [] := by
    rintro rfl
    rw [hnil] at hpc
    cases hpc
  obtain ⟨b, c', rfl⟩ := exists_cons_of_ne_nil hne
  -- the scan's first symbol is where the skipping stopped
  have hb : skip b = false := by
    have := List.head?_dropWhile_not skip i
    rw [hc] at this
    simpa using this
  refine ⟨i.takeWhile skip ++ b :: c', ?_, ?_⟩
  · rw [append_assoc, ← hc, takeWhile_append_dropWhile]
  have hskip : (i.takeWhile skip ++ b :: c').dropWhile skip = b :: c' := by
    rw [dropWhile_append_of_pos fun x hx => mem_takeWhile_imp hx]
    simp [hb]
  simp only [hskip]
  exact hpc

end BoltApi.Lib.Scanning
