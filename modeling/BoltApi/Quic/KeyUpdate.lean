import Mathlib.Data.List.Induction
import Mathlib.Order.Nat

/-! # Key updates of an established connection

`initiate_key_update`, `aead_open_app` and `rotate_keys` of `quic/connection.h`, for
two endpoints and whatever the network does to the packets between them. The AEAD is
ideal: a packet opens under the secret it was sealed under and under no other, and
`next_generation_secret` never fails. -/
namespace BoltApi.Quic.KeyUpdate
open List

inductive Side where
  | client
  | server
deriving DecidableEq

def Side.peer : Side → Side
  | .client => .server
  | .server => .client

@[simp] theorem Side.peer_peer (x : Side) : x.peer.peer = x := by cases x <;> rfl

/-- A 1-RTT secret: who seals with it, and its generation. -/
structure Secret where
  owner : Side
  gen : Nat
deriving DecidableEq

def nextGenerationSecret (s : Secret) : Secret := { s with gen := s.gen + 1 }

/-- A protected 1-RTT packet: its key-phase bit, the secret it was sealed under and
its number. -/
structure Packet where
  phase : Bool
  key : Secret
  pn : Nat
deriving DecidableEq

/-- The key-update state of a connection. -/
structure Endpoint where
  readCur : Secret
  readNext : Secret
  readPrev : Option Secret := none
  writeCur : Secret
  nextWrite : Secret
  keyGen : Nat := 0
  nextPn : Nat := 0

def seedKeyUpdateKeys (x : Side) : Endpoint where
  readCur := ⟨x.peer, 0⟩
  readNext := nextGenerationSecret ⟨x.peer, 0⟩
  writeCur := ⟨x, 0⟩
  nextWrite := nextGenerationSecret ⟨x, 0⟩

namespace Endpoint

def rotateKeys (e : Endpoint) : Endpoint :=
  { e with
    readPrev := some e.readCur
    readCur := e.readNext
    readNext := nextGenerationSecret e.readNext
    writeCur := e.nextWrite
    nextWrite := nextGenerationSecret e.nextWrite
    keyGen := e.keyGen + 1 }

/-- `key_gen_ & 1`. -/
def phase (e : Endpoint) : Bool := e.keyGen % 2 = 1

def sendAppPacket (e : Endpoint) : Packet × Endpoint :=
  (⟨e.phase, e.writeCur, e.nextPn⟩, { e with nextPn := e.nextPn + 1 })

/-- The secret that opened the packet, and the endpoint after it. -/
def aeadOpenApp (e : Endpoint) (p : Packet) : Option Secret × Endpoint :=
  if p.phase = e.phase then (if p.key = e.readCur then some e.readCur else none, e)
  else if p.key = e.readNext then (some e.readNext, e.rotateKeys)
  else if 0 < e.keyGen then (e.readPrev.filter (p.key = ·), e)
  else (none, e)

end Endpoint

structure System where
  ends : Side → Endpoint := seedKeyUpdateKeys
  sent : Side → List Packet := fun _ => []

inductive Event where
  | update (x : Side)
  | send (x : Side)
  | deliver (x : Side) (p : Packet)

namespace System

def setEnd (s : System) (x : Side) (e : Endpoint) : System :=
  { s with ends := fun y => if y = x then e else s.ends y }

def step (s : System) : Event → System
  | .update x => s.setEnd x (s.ends x).rotateKeys
  | .send x =>
    { s.setEnd x (s.ends x).sendAppPacket.2 with
      sent := fun y => if y = x then s.sent x ++ [(s.ends x).sendAppPacket.1] else s.sent y }
  | .deliver x p => s.setEnd x ((s.ends x).aeadOpenApp p).2

def gen (s : System) (x : Side) : Nat := (s.ends x).keyGen

def run (events : List Event) : System := events.foldl step {}

theorem run_append (events : List Event) (ev : Event) : run (events ++ [ev]) = (run events).step ev := by
  simp [run]

/-- Delivered packets were sent by the peer and are not delayed past the second next
update. -/
def Timely (s : System) : Event → Prop
  | .deliver x p => p ∈ s.sent x.peer ∧ s.gen x ≤ p.key.gen + 1
  | _ => True

/-! ## The secrets of an endpoint -/

/-- The secrets that generation `e.keyGen` of side `x` should hold. -/
structure Keyed (x : Side) (e : Endpoint) : Prop where
  cur : e.readCur = ⟨x.peer, e.keyGen⟩
  next : e.readNext = ⟨x.peer, e.keyGen + 1⟩
  prev : 0 < e.keyGen → e.readPrev = some ⟨x.peer, e.keyGen - 1⟩
  write : e.writeCur = ⟨x, e.keyGen⟩
  nextWrite : e.nextWrite = ⟨x, e.keyGen + 1⟩

theorem Keyed.rotateKeys {x e} (h : Keyed x e) : Keyed x e.rotateKeys where
  cur := h.next
  next := by simp [Endpoint.rotateKeys, h.next, nextGenerationSecret]
  prev _ := by simp [Endpoint.rotateKeys, h.cur]
  write := h.nextWrite
  nextWrite := by simp [Endpoint.rotateKeys, h.nextWrite, nextGenerationSecret]

theorem aeadOpenApp_end (e : Endpoint) (p : Packet) :
    (e.aeadOpenApp p).2 = e ∨ (e.aeadOpenApp p).2 = e.rotateKeys ∧ p.key = e.readNext := by
  unfold Endpoint.aeadOpenApp
  split
  · exact .inl rfl
  split
  · exact .inr ⟨rfl, ‹_›⟩
  · split
    · exact .inl rfl
    · exact .inl rfl

theorem aeadOpenApp_key {e : Endpoint} {p : Packet} {k : Secret}
    (h : (e.aeadOpenApp p).1 = some k) : k = p.key ∧
      (k = e.readCur ∨ k = e.readNext ∨ e.readPrev = some k ∧ 0 < e.keyGen) := by
  unfold Endpoint.aeadOpenApp at h
  split at h
  · split at h
    · rename_i hkey
      obtain rfl := Option.some.inj h
      exact ⟨hkey.symm, .inl rfl⟩
    · contradiction
  split at h
  · rename_i hkey
    obtain rfl := Option.some.inj h
    exact ⟨hkey.symm, .inr (.inl rfl)⟩
  split at h
  · obtain ⟨hprev, hkey⟩ := Option.filter_eq_some_iff.mp h
    exact ⟨(of_decide_eq_true hkey).symm, .inr (.inr ⟨hprev, ‹_›⟩)⟩
  · contradiction

theorem aeadOpenApp_near {e : Endpoint} {p : Packet} {x} (h : Keyed x e) (hkey : p.key = ⟨x.peer, p.key.gen⟩)
    (hphase : p.phase = decide (p.key.gen % 2 = 1)) (hlow : e.keyGen ≤ p.key.gen + 1)
    (hhigh : p.key.gen ≤ e.keyGen + 1) : (e.aeadOpenApp p).1 = some p.key := by
  generalize p.key.gen = g at hkey hphase hlow hhigh
  -- one bit tells the current generation from its two neighbours
  have hparity : p.phase = e.phase ↔ g = e.keyGen := by
    rw [hphase, Endpoint.phase, decide_eq_decide]
    omega
  unfold Endpoint.aeadOpenApp
  by_cases hcur : g = e.keyGen
  · rw [if_pos (hparity.mpr hcur), if_pos (by rw [hkey, h.cur, hcur]), hkey, h.cur, hcur]
  rw [if_neg fun hp => hcur (hparity.mp hp)]
  by_cases hnext : g = e.keyGen + 1
  · rw [if_pos (by rw [hkey, h.next, hnext]), hkey, h.next, hnext]
  have hprev : g = e.keyGen - 1 := by omega
  have hpos : 0 < e.keyGen := by omega
  rw [if_neg (by rw [hkey, h.next]; simpa using hnext), if_pos hpos, h.prev hpos, hkey, hprev]
  simp

/-! ## Every run -/

structure Sound (s : System) : Prop where
  keyed : ∀ x, Keyed x (s.ends x)
  close : ∀ x, s.gen x ≤ s.gen x.peer + 1
  sealed : ∀ x, ∀ p ∈ s.sent x, p.key = ⟨x, p.key.gen⟩ ∧ p.key.gen ≤ s.gen x ∧
    p.phase = decide (p.key.gen % 2 = 1)

theorem Sound.setEnd {s : System} (h : Sound s) {e : Endpoint} {x} (hkeyed : Keyed x e) (hgen : s.gen x ≤ e.keyGen)
    (hpeer : e.keyGen ≤ s.gen x.peer + 1) : Sound (s.setEnd x e) := by
  have hx : (s.setEnd x e).gen x = e.keyGen := by simp [gen, System.setEnd]
  have hother : ∀ y, y ≠ x → (s.setEnd x e).gen y = s.gen y := fun y hy => by
    simp [gen, System.setEnd, hy]
  have hne : x.peer ≠ x := by cases x <;> decide
  refine ⟨fun y => ?_, fun y => ?_, fun y p hp => ?_⟩
  · by_cases hy : y = x
    · subst hy
      simpa [System.setEnd] using hkeyed
    · simpa [System.setEnd, hy] using h.keyed y
  · by_cases hy : y = x
    · subst hy
      rw [hx, hother _ hne]
      exact hpeer
    have hyx : y.peer = x := by cases x <;> cases y <;> simp_all [Side.peer]
    have := h.close y
    rw [hother y hy, hyx, hx]
    rw [hyx] at this
    omega
  obtain ⟨hkey, hle, hphase⟩ := h.sealed y p hp
  refine ⟨hkey, hle.trans ?_, hphase⟩
  by_cases hy : y = x
  · subst hy
    rw [hx]
    exact hgen
  · rw [hother y hy]

theorem Sound.step {s : System} (h : Sound s) {ev} (htimely : s.Timely ev)
    (hupdate : ∀ x, ev = .update x → s.gen x ≤ s.gen x.peer) : Sound (s.step ev) := by
  cases ev with
  | update x =>
    refine h.setEnd (h.keyed x).rotateKeys (Nat.le_succ _) ?_
    have := hupdate x rfl
    simp only [gen, Endpoint.rotateKeys] at this ⊢
    omega
  | send x =>
    have hkeyed := h.keyed x
    have hend := h.setEnd (x := x) (e := (s.ends x).sendAppPacket.2)
      ⟨hkeyed.cur, hkeyed.next, hkeyed.prev, hkeyed.write, hkeyed.nextWrite⟩ le_rfl (h.close x)
    refine ⟨hend.keyed, hend.close, fun y p hp => ?_⟩
    by_cases hy : y = x
    · subst hy
      simp only [System.step, if_true, mem_append, mem_singleton] at hp
      rcases hp with hp | rfl
      · exact hend.sealed y p hp
      · simp only [Endpoint.sendAppPacket, hkeyed.write, Endpoint.phase, true_and, and_true]
        simp [System.step, gen, System.setEnd, Endpoint.sendAppPacket]
    · simp only [System.step, if_neg hy] at hp
      exact hend.sealed y p hp
  | deliver x p =>
    obtain ⟨hsent, -⟩ := htimely
    obtain ⟨hkey, hle, -⟩ := h.sealed x.peer p hsent
    rcases aeadOpenApp_end (s.ends x) p with hend | ⟨hend, hnext⟩
    · simp only [System.step, hend]
      exact h.setEnd (h.keyed x) le_rfl (h.close x)
    simp only [System.step, hend]
    refine h.setEnd (h.keyed x).rotateKeys (Nat.le_succ _) ?_
    rw [(h.keyed x).next] at hnext
    rw [hnext] at hle
    simp only [gen, Endpoint.rotateKeys] at hle ⊢
    omega

theorem sound_run {events : List Event}
    (htimely : ∀ before ev, before ++ [ev] <+: events → (run before).Timely ev)
    (hupdate : ∀ before x, before ++ [.update x] <+: events →
      (run before).gen x ≤ (run before).gen x.peer) : Sound (run events) := by
  induction events using List.reverseRecOn with
  | nil =>
    refine ⟨fun x => ⟨rfl, rfl, fun hpos => absurd hpos (lt_irrefl _), rfl, rfl⟩,
      fun x => Nat.zero_le _, fun x p hp => absurd hp (by simp [run])⟩
  | append_singleton events ev ih =>
    rw [run_append]
    refine (ih (fun b e hb => htimely b e (hb.trans (prefix_append _ _)))
      fun b x hb => hupdate b x (hb.trans (prefix_append _ _))).step
      (htimely events ev prefix_rfl) fun x hev => ?_
    subst hev
    exact hupdate events x prefix_rfl

/-- The two generations never differ by more than one, every delivered packet is
opened with the secret of the generation it was sealed under, and what is accepted
was sealed under a secret of the peer's, if and only if an update is initiated only
from a generation that the peer has reached. -/
theorem key_updates_agree_iff (events : List Event)
    (htimely : ∀ before ev, before ++ [ev] <+: events → (run before).Timely ev) :
    ((∀ before, before <+: events → ∀ x, (run before).gen x ≤ (run before).gen x.peer + 1) ∧
      (∀ before x p, before ++ [.deliver x p] <+: events →
        (((run before).ends x).aeadOpenApp p).1 = some p.key) ∧
      ∀ before, before <+: events → ∀ x p k, (((run before).ends x).aeadOpenApp p).1 = some k →
        k = p.key ∧ k.owner = x.peer) ↔
    ∀ before x, before ++ [.update x] <+: events → (run before).gen x ≤ (run before).gen x.peer := by
  constructor
  · rintro ⟨hclose, -, -⟩ before x hb
    have hafter := hclose _ hb x
    have hne : x.peer ≠ x := by cases x <;> decide
    rw [run_append] at hafter
    simp only [step, gen, setEnd, if_true, if_neg hne, Endpoint.rotateKeys] at hafter ⊢
    omega
  intro hupdate
  have hsound : ∀ before, before <+: events → Sound (run before) := fun before hb =>
    sound_run (fun b e he => htimely b e (he.trans hb)) fun b x hx => hupdate b x (hx.trans hb)
  refine ⟨fun before hb => (hsound before hb).close, fun before x p hb => ?_,
    fun before hb x p k hk => ?_⟩
  · have hs := hsound before ((prefix_append _ _).trans hb)
    obtain ⟨hmem, hlate⟩ := htimely before _ hb
    obtain ⟨hkey, hle, hphase⟩ := hs.sealed x.peer p hmem
    have hclose := hs.close x.peer
    rw [Side.peer_peer] at hclose
    exact aeadOpenApp_near (hs.keyed x) hkey hphase hlate (hle.trans hclose)
  have hkeyed := (hsound before hb).keyed x
  obtain ⟨hkey, hcur | hnext | ⟨hprev, hpos⟩⟩ := aeadOpenApp_key hk
  · exact ⟨hkey, by rw [hcur, hkeyed.cur]⟩
  · exact ⟨hkey, by rw [hnext, hkeyed.next]⟩
  · rw [hkeyed.prev hpos] at hprev
    exact ⟨hkey, by rw [← Option.some.inj hprev]⟩

theorem key_updates_agree_iff_one_update :
    (∀ before ev, before ++ [ev] <+: [Event.update .client, .send .client,
      .deliver .server ⟨true, ⟨.client, 1⟩, 0⟩] → (run before).Timely ev) ∧
    ((run [.update .client, .send .client]).ends .server).aeadOpenApp ⟨true, ⟨.client, 1⟩, 0⟩ =
      (some ⟨.client, 1⟩, (seedKeyUpdateKeys .server).rotateKeys) := by
  have hcases : ∀ (before : List Event) ev, before ++ [ev] <+: [Event.update .client, .send .client,
      .deliver .server ⟨true, ⟨.client, 1⟩, 0⟩] →
      before = [] ∧ ev = .update .client ∨ before = [.update .client] ∧ ev = .send .client ∨
      before = [.update .client, .send .client] ∧ ev = .deliver .server ⟨true, ⟨.client, 1⟩, 0⟩ := by
    intro before ev h
    match before, h with
    | [], h => exact .inl ⟨rfl, by simpa using h⟩
    | [_], h => exact .inr (.inl (by simpa using h))
    | [_, _], h => exact .inr (.inr (by simpa [and_assoc] using h))
    | _ :: _ :: _ :: rest, h => exact absurd h.length_le (by simp)
  have htimely : ∀ before ev, before ++ [ev] <+: [Event.update .client, .send .client,
      .deliver .server ⟨true, ⟨.client, 1⟩, 0⟩] → (run before).Timely ev := by
    intro before ev h
    obtain ⟨rfl, rfl⟩ | ⟨rfl, rfl⟩ | ⟨rfl, rfl⟩ := hcases before ev h
    · trivial
    · trivial
    · exact ⟨by decide, by decide⟩
  have hopened := ((key_updates_agree_iff _ htimely).mpr fun before x h => by
    obtain ⟨rfl, hx⟩ | ⟨-, hx⟩ | ⟨-, hx⟩ := hcases before _ h
    · exact Nat.zero_le _
    · contradiction
    · contradiction).2.1 [.update .client, .send .client] .server _ prefix_rfl
  exact ⟨htimely, Prod.ext hopened rfl⟩

/-- Two updates in a row: the second one returns the key phase to that of the peer's
current generation, and the packet sealed after it is never opened. -/
theorem second_update_locks_out :
    (run [.update .client, .update .client]).gen .client = 2 ∧
    (run [.update .client, .update .client]).gen .server = 0 ∧
    (run [.update .client, .update .client, .send .client]).sent .client =
      [⟨false, ⟨.client, 2⟩, 0⟩] ∧
    (run [.update .client, .update .client, .send .client]).Timely
      (.deliver .server ⟨false, ⟨.client, 2⟩, 0⟩) ∧
    (((run [.update .client, .update .client, .send .client]).ends .server).aeadOpenApp
      ⟨false, ⟨.client, 2⟩, 0⟩).1 = none := by
  refine ⟨rfl, rfl, rfl, ⟨?_, ?_⟩, rfl⟩
  · exact mem_singleton_self _
  · exact Nat.zero_le _

end System
end BoltApi.Quic.KeyUpdate
