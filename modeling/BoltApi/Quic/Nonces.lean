import Mathlib.Data.List.Induction
import Mathlib.Order.Nat
import BoltApi.Octets

/-! # Packet numbers and the keys they are used under

What `quic/connection.h` seals its packets with: the Initial keys follow from a
connection id, the Handshake and 1-RTT keys from a TLS session, the later 1-RTT keys
from key updates. A Retry and a Version Negotiation start over with packet number 0 in
every space. Keys are ideal: equal only when they are derived from the same inputs. -/
namespace BoltApi.Quic.Nonces
open Octets List

/-- `TlsLevel`, as far as packets are sent at it, with its packet number space. -/
inductive Level where
  | initial
  | handshake
  | application
deriving DecidableEq

inductive Key where
  | initial (dcid : Bytes)
  | handshake (session : Nat)
  | application (session gen : Nat)
deriving DecidableEq

structure Sealed where
  key : Key
  pn : Nat
  payload : Bytes

structure Endpoint where
  isServer : Bool
  initialDcid : Bytes
  session : Nat := 0
  handshakeKeys : Bool := false
  appKeys : Bool := false
  kuSession : Option Nat := none
  keyGen : Nat := 0
  nextPn : Level → Nat := fun _ => 0
  vnHandled : Bool := false
  didRetry : Bool := false
  sealed : List Sealed := []

namespace Endpoint

/-- `write_protection`, and the key-update keys for 1-RTT packets. -/
def writeKey (e : Endpoint) : Level → Option Key
  | .initial => some (.initial e.initialDcid)
  | .handshake => if e.handshakeKeys then some (.handshake e.session) else none
  | .application =>
    if e.appKeys then
      some (match e.kuSession with
        | some session => .application session e.keyGen
        | none => .application e.session 0)
    else none

/-- `build_and_send_long` and `send_app_packet` (no packet is sealed with 0-RTT keys).
The number is taken first, by 1-RTT packets only with keys; without keys, over the
amplification budget or when the cipher fails nothing is sealed. -/
def send (e : Endpoint) (level : Level) (payload : Bytes) (passes : Bool) : Endpoint :=
  if level = .application ∧ e.appKeys = false then e
  else
    let pn := e.nextPn level
    let e := { e with nextPn := fun l => if l = level then pn + 1 else e.nextPn l }
    match e.writeKey level with
    | some key => if passes then { e with sealed := e.sealed ++ [⟨key, pn, payload⟩] } else e
    | none => e

/-- `restart_handshake`. The captured key-update secrets stay. -/
def restartHandshake (e : Endpoint) : Endpoint :=
  { e with
    session := e.session + 1
    handshakeKeys := false
    appKeys := false
    nextPn := fun _ => 0 }

end Endpoint

inductive Event where
  | send (level : Level) (payload : Bytes) (passes : Bool)
  | handshakeKeys
  | appKeys
  | established
  | rotateKeys
  | versionNegotiation
  | retry (scid : Bytes)

namespace Endpoint

def step (e : Endpoint) : Event → Endpoint
  | .send level payload passes => e.send level payload passes
  | .handshakeKeys => { e with handshakeKeys := true }
  | .appKeys => { e with appKeys := true }
  | .established =>
    if e.appKeys ∧ e.kuSession = none then { e with kuSession := some e.session, keyGen := 0 } else e
  | .rotateKeys => if e.kuSession.isSome then { e with keyGen := e.keyGen + 1 } else e
  | .versionNegotiation =>
    if e.isServer ∨ e.vnHandled then e else { e with vnHandled := true }.restartHandshake
  | .retry scid =>
    if e.isServer ∨ e.didRetry then e
    else { e with didRetry := true, initialDcid := scid }.restartHandshake

def start (isServer : Bool) (dcid : Bytes) : Endpoint := { isServer, initialDcid := dcid }

def run (isServer : Bool) (dcid : Bytes) (events : List Event) : Endpoint :=
  events.foldl step (start isServer dcid)

def Fresh (e : Endpoint) (dcid : Bytes) : Prop :=
  e.kuSession = none ∧ ∀ p ∈ e.sealed, p.key ≠ .initial dcid

/-- If the event restarts the handshake, it does so under a fresh connection id. -/
def Restartable (e : Endpoint) : Event → Prop
  | .versionNegotiation => ¬ (e.isServer ∨ e.vnHandled) → e.Fresh e.initialDcid
  | .retry scid => ¬ (e.isServer ∨ e.didRetry) → e.Fresh scid
  | _ => True

/-! ## Numbers used once -/

def Current (e : Endpoint) : Level → Key → Prop
  | .initial, .initial dcid => dcid = e.initialDcid
  | .handshake, .handshake session => session = e.session
  | .application, .application session _ => session = e.session
  | _, _ => False

structure Sound (e : Endpoint) : Prop where
  once : e.sealed.Pairwise fun p q => ¬ (p.key = q.key ∧ p.pn = q.pn)
  below : ∀ level, ∀ p ∈ e.sealed, e.Current level p.key → p.pn < e.nextPn level
  past : ∀ p ∈ e.sealed, ∀ s g, p.key = .handshake s ∨ p.key = .application s g → s ≤ e.session
  captured : ∀ s, e.kuSession = some s → s = e.session

theorem writeKey_current {e : Endpoint} (h : Sound e) {level key} (hkey : e.writeKey level = some key) :
    e.Current level key := by
  cases level with
  | initial =>
    obtain rfl := Option.some.inj hkey
    rfl
  | handshake =>
    simp only [writeKey] at hkey
    split at hkey
    · obtain rfl := Option.some.inj hkey
      rfl
    · contradiction
  | application =>
    simp only [writeKey] at hkey
    split at hkey
    · obtain rfl := Option.some.inj hkey
      split
      · exact h.captured _ ‹_›
      · rfl
    · contradiction

theorem Current.level_unique {e : Endpoint} {l l' : Level} {key : Key} (h : e.Current l key)
    (h' : e.Current l' key) : l = l' := by
  cases l <;> cases l' <;> cases key <;> first | rfl | exact h.elim | exact h'.elim

theorem Sound.send {e : Endpoint} (h : Sound e) (level : Level) (payload : Bytes) (passes : Bool) :
    Sound (e.send level payload passes) := by
  -- taking a number only raises the bound
  have htaken : Sound { e with nextPn := fun l => if l = level then e.nextPn level + 1 else e.nextPn l } := by
    refine ⟨h.once, fun l p hp hcur => ?_, h.past, h.captured⟩
    have hlt := h.below l p hp hcur
    by_cases hl : l = level
    · subst hl
      simp only [if_true]
      omega
    · simpa only [if_neg hl] using hlt
  have hsame : ∀ l, writeKey { e with
      nextPn := fun l => if l = level then e.nextPn level + 1 else e.nextPn l } l = e.writeKey l := by
    intro l
    cases l <;> rfl
  simp only [Endpoint.send, hsame]
  split
  · exact h
  cases hkey : e.writeKey level with
  | none => exact htaken
  | some key =>
    have hcur := writeKey_current h hkey
    cases passes with
    | false => exact htaken
    | true =>
      refine ⟨?_, fun l p hp hpc => ?_, fun p hp s g hps => ?_, h.captured⟩
      · refine pairwise_append.mpr ⟨h.once, pairwise_singleton _ _, fun p hp q hq => ?_⟩
        obtain rfl := mem_singleton.mp hq
        rintro ⟨hpk, hpn⟩
        have := h.below level p hp (hpk ▸ hcur)
        simp only at hpn
        omega
      · rcases mem_append.mp hp with hp | hp
        · exact htaken.below l p hp hpc
        · obtain rfl := mem_singleton.mp hp
          obtain rfl := Current.level_unique hpc hcur
          simp
      rcases mem_append.mp hp with hp | hp
      · exact h.past p hp s g hps
      obtain rfl := mem_singleton.mp hp
      cases level with
      | initial => cases key <;> simp_all [Current]
      | handshake => cases key <;> simp_all [Current]
      | application => cases key <;> simp_all [Current]

theorem Sound.restart {e} (h : Sound e) {dcid} (hfresh : e.Fresh dcid) (vn retry : Bool) :
    Sound { e with vnHandled := vn, didRetry := retry, initialDcid := dcid }.restartHandshake := by
  refine ⟨h.once, fun level p hp hcur => ?_, fun p hp s g hps => ?_, fun s hs => ?_⟩
  · exfalso
    cases hkey : p.key with
    | initial d =>
      rw [hkey] at hcur
      cases level with
      | initial =>
        have hd : d = dcid := hcur
        exact hfresh.2 p hp (by rw [hkey, hd])
      | _ => exact hcur
    | handshake s =>
      rw [hkey] at hcur
      cases level with
      | handshake =>
        have hs : s = e.session + 1 := hcur
        have := h.past p hp s 0 (.inl hkey)
        omega
      | _ => exact hcur
    | application s g =>
      rw [hkey] at hcur
      cases level with
      | application =>
        have hs : s = e.session + 1 := hcur
        have := h.past p hp s g (.inr hkey)
        omega
      | _ => exact hcur
  · have := h.past p hp s g hps
    simp only [restartHandshake]
    omega
  · rw [show _ = e.kuSession from rfl, hfresh.1] at hs
    contradiction

theorem Sound.step {e : Endpoint} (h : Sound e) {ev} (hev : e.Restartable ev) : Sound (e.step ev) := by
  cases ev with
  | send level payload passes => exact h.send level payload passes
  | established =>
    simp only [Endpoint.step]
    split
    · exact ⟨h.once, h.below, h.past, fun s hs => (Option.some.inj hs).symm⟩
    · exact h
  | rotateKeys =>
    simp only [Endpoint.step]
    split
    · exact ⟨h.once, h.below, h.past, h.captured⟩
    · exact h
  | versionNegotiation =>
    simp only [Endpoint.step]
    split
    · exact h
    · exact h.restart (hev ‹_›) true e.didRetry
  | retry scid =>
    simp only [Endpoint.step]
    split
    · exact h
    · exact h.restart (hev ‹_›) e.vnHandled true
  | _ => exact ⟨h.once, h.below, h.past, h.captured⟩

/-- Along every run in which the handshake is restarted only under a connection id no
packet was sealed under, and not after the connection was established, no two packets
are sealed under the same key with the same number. -/
theorem sealed_once_of_restartable (isServer : Bool) (dcid : Bytes) (events : List Event)
    (h : ∀ before ev, before ++ [ev] <+: events → (run isServer dcid before).Restartable ev) :
    (run isServer dcid events).sealed.Pairwise fun p q => ¬ (p.key = q.key ∧ p.pn = q.pn) := by
  suffices hsound : Sound (run isServer dcid events) from hsound.once
  induction events using List.reverseRecOn with
  | nil => exact ⟨.nil, fun _ p hp => absurd hp not_mem_nil,
      fun p hp => absurd hp not_mem_nil, nofun⟩
  | append_singleton events ev ih =>
    have hbefore := ih fun b e hb => h b e (hb.trans (prefix_append _ _))
    rw [run, foldl_append]
    exact hbefore.step (h events ev prefix_rfl)

theorem sealed_once_of_restartable_retry :
    (∀ before ev, before ++ [ev] <+: [Event.send .initial [1] true, .retry [7], .send .initial [2] true] →
      (run false [5] before).Restartable ev) ∧
    (run false [5] [.send .initial [1] true, .retry [7], .send .initial [2] true]).sealed.Pairwise
      fun p q => ¬ (p.key = q.key ∧ p.pn = q.pn) := by
  have hclean : ∀ before ev,
      before ++ [ev] <+: [Event.send .initial [1] true, .retry [7], .send .initial [2] true] →
      (run false [5] before).Restartable ev := by
    intro before ev hb
    match before, hb with
    | [], hb =>
      obtain rfl : ev = .send .initial [1] true := by simpa using hb
      trivial
    | [_], hb =>
      obtain ⟨rfl, rfl⟩ : _ = Event.send .initial [1] true ∧ ev = .retry [7] := by simpa using hb
      exact fun _ => ⟨rfl, by simp [run, step, start, Endpoint.send, writeKey]⟩
    | [_, _], hb =>
      obtain ⟨-, -, rfl⟩ : _ = Event.send .initial [1] true ∧ _ = Event.retry [7] ∧
        ev = .send .initial [2] true := by simpa using hb
      trivial
    | _ :: _ :: _ :: rest, hb => exact absurd hb.length_le (by simp)
  exact ⟨hclean, sealed_once_of_restartable false [5] _ hclean⟩

/-- A Version Negotiation keeps the connection id: the second ClientHello is sealed
under the same Initial key as the first, again with number 0. -/
theorem version_negotiation_reuses_number :
    (run false [5] [.send .initial [1] true, .versionNegotiation, .send .initial [2] true]).sealed =
      [⟨.initial [5], 0, [1]⟩, ⟨.initial [5], 0, [2]⟩] := rfl

end Endpoint
end BoltApi.Quic.Nonces
