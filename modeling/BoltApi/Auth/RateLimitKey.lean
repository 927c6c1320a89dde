import Mathlib.Data.List.Induction
import Mathlib.Logic.Function.Basic
import Mathlib.Tactic.Linarith
import BoltApi.Octets

/-! # Rate limits per key

`auth/ratelimit_key.cpp`: a table of token buckets found by a bounded probe. A key
that finds no bucket and no empty slot among its probes takes the least recently
used one, full again, whoever's it was. Calls are sequential here, so the seqlock of
a slot is always even and is left out. -/
namespace BoltApi.Auth.RateLimitKey
open Octets List Function

def kMaxKeyBytes : Nat := 64

def kMaxProbe : Nat := 32

structure Config where
  capacity : UInt32 := 5
  refillPerSec : UInt32 := 1

/-- A slot of the table; no key is an empty slot. -/
structure Slot where
  key : Bytes := []
  lastUse : UInt64 := 0
  tokens : UInt32 := 0
  lastRefill : UInt64 := 0

abbrev Table := Nat → Slot

def mix64 (x : UInt64) : UInt64 :=
  let x := (x ^^^ (x >>> 33)) * 0xff51afd7ed558ccd
  let x := (x ^^^ (x >>> 33)) * 0xc4ceb9fe1a85ec53
  x ^^^ (x >>> 33)

def hashKey (key : Bytes) : UInt64 :=
  mix64 (key.foldl (fun h c => (h ^^^ c.toUInt64) * 0x100000001b3) 0xcbf29ce484222325)

def slotIndex (h : UInt64) (probe : Nat) : Nat := ((h + UInt64.ofNat probe) &&& 4095).toNat

def probes (key : Bytes) : List Nat := (List.range kMaxProbe).map (slotIndex (hashKey key))

/-- The first pass: the slot with the key. -/
def find (key : Bytes) (t : Table) : Option Nat := (probes key).find? fun i => (t i).key = key

def victim (t : Table) : List Nat → Nat → UInt64 → Nat
  | [], v, _ => v
  | i :: rest, v, oldest =>
    if (t i).key = [] then i
    else if (t i).lastUse < oldest then victim t rest i (t i).lastUse
    else victim t rest v oldest

/-- The tokens of `dt` nanoseconds, in the source's wrapping arithmetic. -/
def accrued (cfg : Config) (dt : UInt64) : UInt32 :=
  (dt * cfg.refillPerSec.toUInt64 / 1000000000).toUInt32

def refill (cfg : Config) (now : UInt64) (s : Slot) : Slot :=
  let add := accrued cfg (now - s.lastRefill)
  let nxt := s.tokens + add * 1000
  if 0 < add then
    { s with
      tokens := if cfg.capacity * 1000 < nxt then cfg.capacity * 1000 else nxt
      lastRefill := now }
  else s

def Slot.take (now : UInt64) (s : Slot) : Slot × Bool :=
  if 1000 ≤ s.tokens then ({ s with tokens := s.tokens - 1000, lastUse := now }, true)
  else ({ s with lastUse := now }, false)

def slotInit (cfg : Config) (key : Bytes) (now : UInt64) : Slot :=
  { key, tokens := cfg.capacity * 1000, lastRefill := now, lastUse := now }

def consume (cfg : Config) (t : Table) (key : Bytes) (now : UInt64) : Table × Bool :=
  if kMaxKeyBytes < key.length then (t, true)
  else if cfg.capacity = 0 then (t, false)
  else
    match find key t with
    | some i =>
      let r := (refill cfg now (t i)).take now
      (update t i r.1, r.2)
    | none =>
      let i := victim t (probes key) (slotIndex (hashKey key) 0) (0 - 1)
      let s := slotInit cfg key now
      (update t i { s with tokens := s.tokens - 1000 }, true)

structure Call where
  time : UInt64
  key : Bytes

/-- The table after the calls, and each call with its answer. -/
def run (cfg : Config) (calls : List Call) : Table × List (Call × Bool) :=
  calls.foldl (fun s c =>
    ((consume cfg s.1 c.key c.time).1, s.2 ++ [(c, (consume cfg s.1 c.key c.time).2)]))
    (fun _ => {}, [])

/-- The grants to the key between two times. -/
def grants (key : Bytes) (a b : UInt64) (log : List (Call × Bool)) : Nat :=
  log.countP fun e => e.2 ∧ e.1.key = key ∧ a ≤ e.1.time ∧ e.1.time ≤ b

def Room (t : Table) (key : Bytes) : Prop :=
  find key t = none → ∃ i ∈ probes key, (t i).key = []

/-! ## One bucket -/

variable {cfg : Config} {key : Bytes} {t : Table} {now : UInt64} {s : Slot}

theorem toNat_accrued (dt : UInt64) : (accrued cfg dt).toNat =
    dt.toNat * cfg.refillPerSec.toNat % 2 ^ 64 / 10 ^ 9 % 2 ^ 32 := by
  simp [accrued]

theorem accrued_le (dt : UInt64) :
    (accrued cfg dt).toNat * 10 ^ 9 ≤ cfg.refillPerSec.toNat * dt.toNat := by
  rw [toNat_accrued, Nat.mul_comm cfg.refillPerSec.toNat]
  omega

theorem carried_lt {x d} (hx : x < 2 ^ 64) (hzero : x / 10 ^ 9 % 2 ^ 32 = 0) :
    (x + d) % 2 ^ 64 / 10 ^ 9 % 2 ^ 32 * 10 ^ 9 < 10 ^ 9 + d := by
  by_cases hwrap : x + d < 2 ^ 64
  · rw [Nat.mod_eq_of_lt hwrap]
    have hle : x / 10 ^ 9 ≤ (x + d) / 10 ^ 9 := Nat.div_le_div_right (by omega)
    omega
  · have hlt : (x + d) % 2 ^ 64 < d + 1 := by omega
    generalize (x + d) % 2 ^ 64 = y at hlt ⊢
    omega

theorem accrued_after {d e} (hzero : accrued cfg d = 0) (hde : d ≤ e) :
    (accrued cfg e).toNat * 10 ^ 9 < 10 ^ 9 + cfg.refillPerSec.toNat * (e.toNat - d.toNat) := by
  have hzero := congrArg UInt32.toNat hzero
  rw [toNat_accrued] at hzero ⊢
  have hle : d.toNat ≤ e.toNat := UInt64.le_iff_toNat_le.mp hde
  have hsum : e.toNat * cfg.refillPerSec.toNat =
      d.toNat * cfg.refillPerSec.toNat + cfg.refillPerSec.toNat * (e.toNat - d.toNat) := by
    rw [Nat.mul_comm cfg.refillPerSec.toNat, ← Nat.add_mul, Nat.add_sub_cancel' hle]
  rw [hsum, ← Nat.mod_add_mod]
  exact carried_lt (Nat.mod_lt _ (by decide)) hzero

theorem toNat_full (hcap : cfg.capacity.toNat ≤ 10 ^ 6) :
    (cfg.capacity * 1000).toNat = cfg.capacity.toNat * 1000 := by
  rw [UInt32.toNat_mul, Nat.mod_eq_of_lt (by simp; omega)]
  rfl

theorem refill_cases (cfg : Config) (now : UInt64) (s : Slot) (hcap : cfg.capacity.toNat ≤ 10 ^ 6) :
    (accrued cfg (now - s.lastRefill) = 0 ∧ refill cfg now s = s) ∨
    (refill cfg now s).lastRefill = now ∧
      (refill cfg now s).tokens.toNat ≤ cfg.capacity.toNat * 1000 ∧
      (refill cfg now s).tokens.toNat ≤
        s.tokens.toNat + 1000 * (accrued cfg (now - s.lastRefill)).toNat := by
  simp only [refill]
  split
  · refine .inr ⟨rfl, ?_⟩
    have hfull := toNat_full hcap
    have hnxt : (s.tokens + accrued cfg (now - s.lastRefill) * 1000).toNat ≤
        s.tokens.toNat + 1000 * (accrued cfg (now - s.lastRefill)).toNat := by
      simp only [UInt32.toNat_add, UInt32.toNat_mul, UInt32.reduceToNat]
      omega
    split
    · rename_i hover
      have hover := UInt32.lt_iff_toNat_lt.mp hover
      dsimp only
      omega
    rename_i hover
    have hover := UInt32.le_iff_toNat_le.mp (UInt32.not_lt.mp hover)
    dsimp only
    omega
  · rename_i hzero
    exact .inl ⟨UInt32.not_lt.mp hzero |> UInt32.le_zero_iff.mp, rfl⟩

theorem take_spec (now : UInt64) (s : Slot) :
    (s.take now).1.lastRefill = s.lastRefill ∧ (s.take now).1.key = s.key ∧
    (s.take now).1.tokens.toNat + 1000 * (s.take now).2.toNat = s.tokens.toNat ∧
    ((s.take now).2 = false → s.tokens.toNat < 1000) := by
  unfold Slot.take
  split
  · rename_i h
    have hle : 1000 ≤ s.tokens.toNat := UInt32.le_iff_toNat_le.mp h
    refine ⟨rfl, rfl, ?_, nofun⟩
    simp only [UInt32.toNat_sub_of_le _ _ h, Bool.toNat_true, UInt32.reduceToNat]
    omega
  · rename_i h
    exact ⟨rfl, rfl, rfl, fun _ => UInt32.lt_iff_toNat_lt.mp (UInt32.not_le.mp h)⟩

/-- A bucket at time `now`, `g` grants after time `a`: either no call has come since
`a`, or none that found a whole token's time, or the bucket was refilled since. -/
inductive Meter (cfg : Config) (a now : UInt64) (g : Nat) (s : Slot) : Prop
  | idle (hg : g = 0) (hlast : s.lastRefill.toNat ≤ now.toNat)
      (hfull : s.tokens.toNat ≤ cfg.capacity.toNat * 1000)
      (hspent : 1000 ≤ s.tokens.toNat → s.tokens.toNat + 1000 ≤ cfg.capacity.toNat * 1000)
  | stale (t : UInt64) (ha : a.toNat ≤ t.toNat) (hlast : s.lastRefill.toNat ≤ t.toNat)
      (ht : t.toNat ≤ now.toNat) (hzero : accrued cfg (t - s.lastRefill) = 0)
      (hspent : g * 1000 + s.tokens.toNat + 1000 ≤ cfg.capacity.toNat * 1000 ∨
        g = 0 ∧ s.tokens.toNat < 1000)
  | fresh (ha : a.toNat ≤ s.lastRefill.toNat) (hlast : s.lastRefill.toNat ≤ now.toNat)
      (hsum : (g * 1000 + s.tokens.toNat) * 10 ^ 9 ≤ 1000 * (cfg.capacity.toNat * 10 ^ 9 +
        cfg.refillPerSec.toNat * (s.lastRefill.toNat - a.toNat)))

variable {a : UInt64} {g : Nat}

theorem Meter.bound (h : Meter cfg a now g s) :
    g * 10 ^ 9 ≤ cfg.capacity.toNat * 10 ^ 9 + cfg.refillPerSec.toNat * (now.toNat - a.toNat) := by
  cases h with
  | fresh ha hlast hsum =>
    have hmono : cfg.refillPerSec.toNat * (s.lastRefill.toNat - a.toNat) ≤
        cfg.refillPerSec.toNat * (now.toNat - a.toNat) :=
      Nat.mul_le_mul_left _ (by omega)
    linarith
  | _ => omega

theorem Meter.wait {later} (h : Meter cfg a now g s) (hlater : now.toNat ≤ later.toNat) :
    Meter cfg a later g s := by
  cases h with
  | idle hg hlast hfull hspent => exact .idle hg (hlast.trans hlater) hfull hspent
  | stale t ha hlast ht hzero hspent => exact .stale t ha hlast (ht.trans hlater) hzero hspent
  | fresh ha hlast hsum => exact .fresh ha (hlast.trans hlater) hsum

theorem toNat_since {last : UInt64} (h : last.toNat ≤ now.toNat) :
    (now - last).toNat = now.toNat - last.toNat :=
  UInt64.toNat_sub_of_le _ _ (UInt64.le_iff_toNat_le.mpr h)

theorem Meter.call_before {clock} (h : Meter cfg a clock g s) (hclock : clock.toNat ≤ now.toNat)
    (hcap : cfg.capacity.toNat ≤ 10 ^ 6) (ha : now.toNat < a.toNat) :
    Meter cfg a now g ((refill cfg now s).take now).1 := by
  obtain ⟨hl, -, hsum, hno⟩ := take_spec now (refill cfg now s)
  cases h with
  | idle hg hlast hfull hspent =>
    have hbound : (refill cfg now s).lastRefill.toNat ≤ now.toNat ∧
        (refill cfg now s).tokens.toNat ≤ cfg.capacity.toNat * 1000 := by
      rcases refill_cases cfg now s hcap with ⟨-, heq⟩ | ⟨hnow, hmax, -⟩
      · rw [heq]
        exact ⟨hlast.trans hclock, hfull⟩
      · exact ⟨(congrArg UInt64.toNat hnow).le, hmax⟩
    generalize refill cfg now s = s₁ at *
    refine .idle hg (hl ▸ hbound.1) (by omega) fun hone => ?_
    cases hgrant : (s₁.take now).2 with
    | true =>
      rw [hgrant, Bool.toNat_true] at hsum
      omega
    | false =>
      rw [hgrant, Bool.toNat_false] at hsum
      have := hno hgrant
      omega
  | _ => omega

theorem Meter.call_since {clock} (h : Meter cfg a clock g s) (hclock : clock.toNat ≤ now.toNat)
    (hcap : cfg.capacity.toNat ≤ 10 ^ 6) (ha : a.toNat ≤ now.toNat) :
    Meter cfg a now (g + ((refill cfg now s).take now).2.toNat)
      ((refill cfg now s).take now).1 := by
  obtain ⟨hl, -, hsum, hno⟩ := take_spec now (refill cfg now s)
  have hgrant : ((refill cfg now s).take now).2.toNat = 0 →
      (refill cfg now s).tokens.toNat < 1000 := fun h0 => hno (by simpa using h0)
  rcases refill_cases cfg now s hcap with ⟨hzero, heq⟩ | ⟨hnow, hmax, hadd⟩
  · rw [heq] at hl hsum hgrant ⊢
    generalize s.take now = r at *
    cases h with
    | idle hg hlast hfull hspent =>
      exact .stale now ha (hl ▸ hlast.trans hclock) le_rfl (hl ▸ hzero) (by omega)
    | stale t hat hlast ht hzero hspent =>
      refine .stale t hat (hl ▸ hlast) (ht.trans hclock) (hl ▸ hzero) ?_
      rcases hspent with hspent | hspent
      · exact .inl (by linarith only [hspent, hsum])
      · exact .inr (by omega)
    | fresh hal hlast hle =>
      refine .fresh (hl ▸ hal) (hl ▸ hlast.trans hclock) (hl ▸ ?_)
      rwa [show (g + r.2.toNat) * 1000 + r.1.tokens.toNat = g * 1000 + s.tokens.toNat by omega]
  have hlnow := congrArg UInt64.toNat (hl.trans hnow)
  generalize refill cfg now s = s₁ at *
  generalize s₁.take now = r at *
  refine .fresh (by omega) (by omega) ?_
  rw [hlnow, show (g + r.2.toNat) * 1000 + r.1.tokens.toNat = g * 1000 + s₁.tokens.toNat by omega]
  have hworth := Nat.zero_le (cfg.refillPerSec.toNat * (now.toNat - a.toNat))
  cases h with
  | idle hg => linarith only [hg, hmax, hworth]
  | stale t hat hlast ht hzero hspent =>
    have hsince := toNat_since (hlast.trans (ht.trans hclock))
    have hle : t - s.lastRefill ≤ now - s.lastRefill := by
      rw [UInt64.le_iff_toNat_le, toNat_since hlast, hsince]
      omega
    have hafter := accrued_after hzero hle
    rw [toNat_since hlast, hsince] at hafter
    have hmono : cfg.refillPerSec.toNat * (now.toNat - s.lastRefill.toNat -
        (t.toNat - s.lastRefill.toNat)) ≤ cfg.refillPerSec.toNat * (now.toNat - a.toNat) :=
      Nat.mul_le_mul_left _ (by omega)
    rcases hspent with hspent | ⟨rfl, -⟩
    · linarith only [hadd, hafter, hmono, hspent]
    · linarith only [hmax, hworth]
  | fresh hal hlast hle =>
    have hworth := @accrued_le cfg (now - s.lastRefill)
    rw [toNat_since (hlast.trans hclock)] at hworth
    have hsplit : cfg.refillPerSec.toNat * (now.toNat - a.toNat) =
        cfg.refillPerSec.toNat * (now.toNat - s.lastRefill.toNat) +
          cfg.refillPerSec.toNat * (s.lastRefill.toNat - a.toNat) := by
      rw [← Nat.mul_add]
      congr 1
      omega
    linarith only [hadd, hworth, hsplit, hle]

/-! ## The table -/

def bucket (key : Bytes) (t : Table) : Option Slot := (find key t).map t

theorem find_congr {t'} (h : ∀ i, (t' i).key = key ↔ (t i).key = key) :
    find key t' = find key t := by
  simp only [find, h]

theorem find_key {i} (h : find key t = some i) : (t i).key = key := by
  simpa using List.find?_some h

theorem victim_empty {l} (v : Nat) (oldest : UInt64) (h : ∃ i ∈ l, (t i).key = []) :
    victim t l v oldest ∈ l ∧ (t (victim t l v oldest)).key = [] := by
  induction l generalizing v oldest with
  | nil => simp at h
  | cons i rest ih =>
    rw [victim]
    split
    · rename_i hi
      exact ⟨.head rest, hi⟩
    rename_i hi
    have hrest : ∃ j ∈ rest, (t j).key = [] := by
      obtain ⟨j, hj, hempty⟩ := h
      rcases mem_cons.mp hj with rfl | hj
      · exact absurd hempty hi
      · exact ⟨j, hj, hempty⟩
    split
    · exact ⟨.tail i (ih _ _ hrest).1, (ih _ _ hrest).2⟩
    · exact ⟨.tail i (ih _ _ hrest).1, (ih _ _ hrest).2⟩

theorem consume_cases (now : UInt64) (hlen : key.length ≤ kMaxKeyBytes) (hpos : cfg.capacity ≠ 0)
    (hroom : Room t key) :
    (∃ i, find key t = some i ∧ consume cfg t key now =
      (update t i ((refill cfg now (t i)).take now).1,
        ((refill cfg now (t i)).take now).2)) ∨
    (find key t = none ∧ ∃ i ∈ probes key, (t i).key = [] ∧ consume cfg t key now =
      (update t i { slotInit cfg key now with
        tokens := (slotInit cfg key now).tokens - 1000 }, true)) := by
  simp only [consume, if_neg (Nat.not_lt.mpr hlen), if_neg hpos]
  cases hfind : find key t with
  | some i => exact .inl ⟨i, rfl, rfl⟩
  | none =>
    obtain ⟨hmem, hempty⟩ := victim_empty (slotIndex (hashKey key) 0) (0 - 1) (hroom hfind)
    exact .inr ⟨rfl, _, hmem, hempty, rfl⟩

theorem refill_key (s : Slot) : (refill cfg now s).key = s.key := by
  simp only [refill]
  split <;> rfl

theorem bucket_other {other} (now : UInt64) (hlen : other.length ≤ kMaxKeyBytes)
    (hpos : cfg.capacity ≠ 0) (hroom : Room t other) (hne : other ≠ key) (hkey : key ≠ []) :
    bucket key (consume cfg t other now).1 = bucket key t := by
  -- either way one slot is written, and neither before nor after does it hold the key
  have hwrite : ∀ (i : Nat) (s : Slot), (t i).key ≠ key → s.key ≠ key →
      bucket key (update t i s) = bucket key t := by
    intro i s hold hnew
    have hfind : find key (update t i s) = find key t := by
      refine find_congr fun j => ?_
      by_cases hj : j = i
      · subst hj
        simp [hold, hnew]
      · rw [update_of_ne hj]
    simp only [bucket, hfind]
    refine Option.map_congr fun j hj => ?_
    refine update_of_ne (fun hji => hold ?_) _ _
    exact hji ▸ find_key (Option.mem_def.mp hj)
  obtain ⟨i, hfind, heq⟩ | ⟨-, i, -, hempty, heq⟩ := consume_cases now hlen hpos hroom
  · have hi := find_key hfind
    rw [heq]
    refine hwrite i _ (hi ▸ hne) ?_
    rw [(take_spec now _).2.1, refill_key, hi]
    exact hne
  · rw [heq]
    exact hwrite i _ (hempty ▸ hkey.symm) hne

theorem bucket_own (now : UInt64) (hlen : key.length ≤ kMaxKeyBytes) (hpos : cfg.capacity ≠ 0)
    (hroom : Room t key) :
    (∃ s, bucket key t = some s ∧
      bucket key (consume cfg t key now).1 = some ((refill cfg now s).take now).1 ∧
      (consume cfg t key now).2 = ((refill cfg now s).take now).2) ∨
    (bucket key t = none ∧ (consume cfg t key now).2 ∧
      bucket key (consume cfg t key now).1 = some { slotInit cfg key now with
        tokens := (slotInit cfg key now).tokens - 1000 }) := by
  obtain ⟨i, hfind, heq⟩ | ⟨hfind, i, hmem, hempty, heq⟩ := consume_cases now hlen hpos hroom
  · refine .inl ⟨t i, by simp [bucket, hfind], ?_, by rw [heq]⟩
    have hkey : ((refill cfg now (t i)).take now).1.key = key := by
      rw [(take_spec now _).2.1, refill_key, find_key hfind]
    rw [heq]
    have hsame : find key (update t i ((refill cfg now (t i)).take now).1) = some i := by
      rw [← hfind]
      refine find_congr fun j => ?_
      by_cases hj : j = i
      · subst hj
        simp [hkey, find_key hfind]
      · rw [update_of_ne hj]
    simp [bucket, hsame]
  refine .inr ⟨by simp [bucket, hfind], by rw [heq], ?_⟩
  rw [heq]
  generalize hs : { slotInit cfg key now with tokens := (slotInit cfg key now).tokens - 1000 } = s
  have hskey : s.key = key := by rw [← hs]; rfl
  have hsome : (find key (update t i s)).isSome := by
    rw [find, List.find?_isSome]
    exact ⟨i, hmem, by simp [hskey]⟩
  obtain ⟨j, hj⟩ := Option.isSome_iff_exists.mp hsome
  have hji : j = i := by
    by_contra hne
    have hjkey := find_key hj
    rw [update_of_ne hne] at hjkey
    exact List.find?_eq_none.mp hfind j (mem_of_find?_eq_some hj) (by simpa using hjkey)
  simp [bucket, hj, hji]

/-! ## Every run -/

theorem run_append (calls : List Call) (c : Call) : run cfg (calls ++ [c]) =
    ((consume cfg (run cfg calls).1 c.key c.time).1,
      (run cfg calls).2 ++ [(c, (consume cfg (run cfg calls).1 c.key c.time).2)]) := by
  simp [run]

theorem grants_append (a b : UInt64) (log : List (Call × Bool)) (c : Call) (r : Bool) :
    grants key a b (log ++ [(c, r)]) = grants key a b log +
      if r ∧ c.key = key ∧ a ≤ c.time ∧ c.time ≤ b then 1 else 0 := by
  simp [grants, countP_append, countP_singleton]

/-- The key's grants from `a` to `b`, against its bucket at a time before `b`. -/
def Metered (cfg : Config) (key : Bytes) (a b now : UInt64) (r : Table × List (Call × Bool)) : Prop :=
  match bucket key r.1 with
  | none => grants key a b r.2 = 0
  | some s => Meter cfg a now (grants key a b r.2) s

variable {b : UInt64} {r : Table × List (Call × Bool)}

theorem Metered.call {c : Call} (h : Metered cfg key a b c.time r) (hcap : cfg.capacity.toNat ≤ 10 ^ 6)
    (hpos : cfg.capacity ≠ 0) (hlen : c.key.length ≤ kMaxKeyBytes) (hkey : key ≠ [])
    (hroom : Room r.1 c.key) (hb : c.time ≤ b) :
    Metered cfg key a b c.time ((consume cfg r.1 c.key c.time).1,
      r.2 ++ [(c, (consume cfg r.1 c.key c.time).2)]) := by
  unfold Metered at h ⊢
  simp only [grants_append, hb, and_true]
  by_cases hown : c.key = key
  · subst hown
    obtain ⟨s, hs, hbucket, hresult⟩ | ⟨hs, hresult, hbucket⟩ := bucket_own c.time hlen hpos hroom
    · rw [hs] at h
      simp only [hbucket, hresult, true_and] at h ⊢
      by_cases ha : a ≤ c.time
      · have hstep := h.call_since le_rfl hcap (UInt64.le_iff_toNat_le.mp ha)
        convert hstep using 2
        cases ((refill cfg c.time s).take c.time).2 <;> simp [ha]
      · simpa [ha] using h.call_before le_rfl hcap
          (UInt64.lt_iff_toNat_lt.mp (UInt64.not_le.mp ha))
    rw [hs] at h
    simp only [hbucket, hresult, true_and, h]
    -- a new bucket is full, and gives its first token at once
    have hcapacity : 0 < cfg.capacity.toNat := by
      rw [Nat.pos_iff_ne_zero]
      exact fun h0 => hpos (UInt32.toNat_inj.mp h0)
    have hfull := toNat_full hcap
    have hone : (1000 : UInt32) ≤ cfg.capacity * 1000 := by
      rw [UInt32.le_iff_toNat_le, hfull]
      simp only [UInt32.reduceToNat]
      omega
    have htokens : (cfg.capacity * 1000 - 1000).toNat + 1000 = cfg.capacity.toNat * 1000 := by
      rw [UInt32.toNat_sub_of_le _ _ hone, hfull]
      simp only [UInt32.reduceToNat]
      omega
    by_cases ha : a ≤ c.time
    · refine .fresh (UInt64.le_iff_toNat_le.mp ha) le_rfl ?_
      simp only [slotInit, ha, if_true]
      have := Nat.zero_le (cfg.refillPerSec.toNat * (c.time.toNat - a.toNat))
      linarith
    refine .idle (by simp [ha]) le_rfl ?_ fun _ => ?_
    · simp only [slotInit]
      omega
    · simp only [slotInit]
      omega
  · have hsame := bucket_other c.time hlen hpos hroom hown hkey
    simp only [hsame, hown, false_and, and_false, if_false, Nat.add_zero]
    exact h

theorem Metered.wait {later} (h : Metered cfg key a b now r) (hlater : now.toNat ≤ later.toNat) :
    Metered cfg key a b later r := by
  unfold Metered at h ⊢
  cases hs : bucket key r.1 with
  | none => simpa [hs] using h
  | some s =>
    rw [hs] at h
    exact Meter.wait h hlater

theorem Metered.bound (h : Metered cfg key a b now r) (hb : now.toNat ≤ b.toNat) :
    grants key a b r.2 * 10 ^ 9 ≤ cfg.capacity.toNat * 10 ^ 9 +
      cfg.refillPerSec.toNat * (b.toNat - a.toNat) := by
  unfold Metered at h
  cases hs : bucket key r.1 with
  | none =>
    simp only [hs] at h
    simp [h]
  | some s =>
    rw [hs] at h
    exact (Meter.wait h hb).bound

/-- The shared assumptions about a run: a clock that never goes back, keys of 1 to
64 bytes, and room for every key that has no bucket. -/
structure Roomy (cfg : Config) (calls : List Call) : Prop where
  sorted : calls.Pairwise fun c d => c.time ≤ d.time
  keys : ∀ c ∈ calls, 1 ≤ c.key.length ∧ c.key.length ≤ kMaxKeyBytes
  room : ∀ before c, before ++ [c] <+: calls → Room (run cfg before).1 c.key

variable {calls : List Call}

theorem Roomy.before {more} (h : Roomy cfg (calls ++ more)) : Roomy cfg calls :=
  ⟨(pairwise_append.mp h.sorted).1, fun c hc => h.keys c (mem_append_left _ hc),
    fun b c hc => h.room b c (hc.trans (prefix_append _ _))⟩

theorem run_metered (h : Roomy cfg calls) (hcap : cfg.capacity.toNat ≤ 10 ^ 6)
    (hpos : cfg.capacity ≠ 0) (hkey : key ≠ []) (a b : UInt64) :
    (∀ now : UInt64, (∀ c ∈ calls, c.time.toNat ≤ now.toNat) → now.toNat ≤ b.toNat →
      Metered cfg key a b now (run cfg calls)) ∧
    grants key a b (run cfg calls).2 * 10 ^ 9 ≤ cfg.capacity.toNat * 10 ^ 9 +
      cfg.refillPerSec.toNat * (b.toNat - a.toNat) := by
  induction calls using List.reverseRecOn with
  | nil =>
    have hnone : bucket key (run cfg []).1 = none := by
      simp [bucket, run, find, List.find?_eq_none, hkey.symm]
    refine ⟨fun now _ _ => ?_, by simp [run, grants]⟩
    rw [Metered, hnone]
    rfl
  | append_singleton calls c ih =>
    obtain ⟨hmeter, hbound⟩ := ih h.before
    have hearlier : ∀ d ∈ calls, d.time.toNat ≤ c.time.toNat := fun d hd =>
      UInt64.le_iff_toNat_le.mp ((pairwise_append.mp h.sorted).2.2 d hd c (by simp))
    rw [run_append]
    by_cases hb : c.time ≤ b
    · have hstep := (hmeter c.time hearlier (UInt64.le_iff_toNat_le.mp hb)).call hcap hpos
        (h.keys c (by simp)).2 hkey (h.room calls c prefix_rfl) hb
      exact ⟨fun now hnow _ => hstep.wait (hnow c (by simp)),
        hstep.bound (UInt64.le_iff_toNat_le.mp hb)⟩
    -- past the window nothing is counted any more
    refine ⟨fun now hnow hnb => ?_, ?_⟩
    · exact absurd (UInt64.le_iff_toNat_le.mpr ((hnow c (by simp)).trans hnb)) hb
    · simpa [grants_append, hb] using hbound

theorem run_zero (hzero : cfg.capacity = 0)
    (hkeys : ∀ c ∈ calls, c.key.length ≤ kMaxKeyBytes) (a b : UInt64) :
    grants key a b (run cfg calls).2 = 0 := by
  induction calls using List.reverseRecOn with
  | nil => rfl
  | append_singleton calls c ih =>
    have hlen := hkeys c (by simp)
    rw [run_append, grants_append, ih fun d hd => hkeys d (mem_append_left _ hd)]
    simp [consume, Nat.not_lt.mpr hlen, hzero]

/-- While no call evicts a bucket, a key gets at most the capacity plus the refill of
the interval in any interval of time (in nanoseconds), and the calls of other keys
leave its bucket as it is. -/
theorem grants_bounded_of_room (cfg : Config) (hcap : cfg.capacity.toNat ≤ 10 ^ 6)
    (calls : List Call) (hcalls : Roomy cfg calls) (key : Bytes) (hkey : 1 ≤ key.length) :
    (∀ a b : UInt64, grants key a b (run cfg calls).2 * 10 ^ 9 ≤
      cfg.capacity.toNat * 10 ^ 9 + cfg.refillPerSec.toNat * (b.toNat - a.toNat)) ∧
    ∀ before c, before ++ [c] <+: calls → c.key ≠ key →
      bucket key (run cfg (before ++ [c])).1 = bucket key (run cfg before).1 := by
  have hne : key ≠ [] := ne_nil_of_length_pos hkey
  refine ⟨fun a b => ?_, fun before c hc hother => ?_⟩
  · by_cases hpos : cfg.capacity = 0
    · rw [run_zero hpos fun c hc => (hcalls.keys c hc).2, Nat.zero_mul]
      exact Nat.zero_le _
    · exact (run_metered hcalls hcap hpos hne a b).2
  have hlen := (hcalls.keys c (hc.subset (by simp))).2
  rw [run_append]
  by_cases hpos : cfg.capacity = 0
  · simp [consume, Nat.not_lt.mpr hlen, hpos]
  · exact bucket_other c.time hlen hpos (hcalls.room before c hc) hother hne

/-- Two keys that ask for their one token every half second. -/
def twoKeys : List Call :=
  [0, 0, 500000000, 500000000, 1000000000, 1000000000, 1500000000, 2000000000].zipWith Call.mk
    [[1], [2], [1], [2], [1], [2], [1], [1]]

/-- The first key is granted at 0, 1 and 2 seconds and refused in between, which is
all the bound allows. -/
theorem grants_bounded_of_room_two_keys :
    (run { capacity := 1 } twoKeys).2.map (·.2) = [true, true, false, false, true, true, false, true] ∧
      grants [1] 0 2000000000 (run { capacity := 1 } twoKeys).2 = 3 ∧
      grants [1] 0 2000000000 (run { capacity := 1 } twoKeys).2 * 10 ^ 9 ≤
        1 * 10 ^ 9 + 1 * (2000000000 - 0) := by
  have hroom : ∀ n < 8, Room (run { capacity := 1 } (twoKeys.take n)).1 (twoKeys.getD n ⟨0, []⟩).key := by
    unfold Room
    decide +kernel
  have hcalls : Roomy { capacity := 1 } twoKeys := by
    refine ⟨by decide +kernel, by decide +kernel, fun before c hc => ?_⟩
    obtain ⟨rest, hc⟩ := hc
    have hlen : before.length < 8 := by
      have := congrArg List.length hc
      simp [twoKeys] at this
      omega
    have := hroom before.length hlen
    rw [← hc, append_assoc, take_left] at this
    simpa using this
  exact ⟨by decide +kernel, by decide +kernel,
    (grants_bounded_of_room { capacity := 1 } (by decide) twoKeys hcalls [1] (by decide)).1 0 2000000000⟩

/-- Thirty-three keys of three bytes whose hashes end in the same twelve bits. -/
def colliding : List Bytes :=
  [1612, 2014, 5979, 7567, 8463, 14779, 23732, 31675, 35028, 37601, 58795, 63940, 65617, 66959,
    71086, 77507, 77784, 88541, 89403, 90396, 93279, 97642, 98651, 108448, 110328, 116927, 121569,
    121983, 123162, 137323, 137880, 140797, 141928].map fun n : Nat =>
      [UInt8.ofNat (n / 65536), UInt8.ofNat (n / 256), UInt8.ofNat n]

/-- With one token and no time passing, the first key is granted twice: the others
fill its probes and the last one evicts its bucket. -/
theorem evicted_key_granted_again :
    colliding.Nodup ∧ colliding.length = 33 ∧
    grants [0, 6, 76] 0 0 (run { capacity := 1 } ((colliding ++ [[0, 6, 76]]).map (⟨0, ·⟩))).2 = 2 := by
  decide +kernel

end BoltApi.Auth.RateLimitKey
