import BoltApi.Lib.History
import BoltApi.WebRtc.Turn

/-! # Who the TURN server relays for

Against the datagrams received before: a datagram is relayed for a client only
while its allocation exists and only to or from a peer that an authenticated
request of the client named, and a channel leads to the peer it was bound to
last. The server keeps this for whatever it stores; it does not ask for it when
a Send indication comes in, and a second bind of a number leaves the first in
front. -/
namespace BoltApi.WebRtc.Turn
open Lib Lib.History Octets Wire Stun List

/-! ## What the datagrams ask for -/

structure Authenticated (hmac : Bytes → Bytes → Bytes) (key : Option Bytes) (m : Message) : Prop where
  request : m.cls = .request
  named : (m.find AttrType.username).isSome ∧ (m.find Attr.realm).isSome ∧ (m.find Attr.nonce).isSome
  signed : ∃ k a, key = some k ∧ m.find AttrType.messageIntegrity = some a ∧ a.value.length = 20 ∧
    a.start ≤ kScratch ∧ a.value = hmac k (coveredOctets m.raw a.start)

def Asks (hmac : Bytes → Bytes → Bytes) (st : TurnServer × Arrival) (c : Sockaddr) (m : Message) : Prop :=
  ∃ data, st.2 = .control c data ∧ isChannelData data = false ∧ parse data = some m ∧
    Authenticated hmac st.1.key m ∧ (st.1.findAlloc c).isSome

def bindOf (m : Message) : Option (Nat × Peer) :=
  if m.method = Method.channelBind then
    match m.value Attr.channelNumber, m.value Attr.xorPeerAddress with
    | some number, some address =>
      if number.length < 2 then none else some (rd16 number 0, decodeXorAddr address)
    | _, _ => none
  else none

def Names (m : Message) (p : Sockaddr) : Prop :=
  (m.method = Method.createPermission ∧
    (m.value Attr.xorPeerAddress).bind decodeXorAddr = some p) ∨ ∃ n, bindOf m = some (n, some p)

def Releases (m : Message) : Prop := m.method = Method.refresh ∧ TurnServer.requestedLifetime m = 0

def Indicates (x : Arrival) (c p : Sockaddr) : Prop :=
  ∃ data m payload, x = .control c data ∧ isChannelData data = false ∧ parse data = some m ∧
    m.method = Method.send ∧ m.cls = .indication ∧
    (m.value Attr.xorPeerAddress).bind decodeXorAddr = some p ∧ m.value Attr.data = some payload ∧
    payload ≠ []

section
variable (hmac : Bytes → Bytes → Bytes) (before : List (TurnServer × Arrival))

def Named (c p : Sockaddr) : Prop := ∃ st ∈ before, ∃ m, Asks hmac st c m ∧ Names m p

def LatestBind (c : Sockaddr) (n : Nat) (q : Peer) : Prop :=
  ∃ early st late m, before = early ++ st :: late ∧ Asks hmac st c m ∧ bindOf m = some (n, q) ∧
    ∀ st' ∈ late, ∀ m', Asks hmac st' c m' → ¬Releases m' ∧ ∀ q', bindOf m' ≠ some (n, q')

/-- What is relayed for a datagram: only while the allocation exists, to or from a
named peer, on a channel to the peer bound last. -/
def Allowed (st : TurnServer × Arrival) : Prop :=
  (∀ c channel p payload, .toPeer c channel p payload ∈ (st.1.arrive hmac st.2).events →
    (st.1.findAlloc c).isSome ∧ Named hmac before c p ∧
      ∀ n, channel = some n → LatestBind hmac before c n (some p)) ∧
  ∀ c p d, .toClient c p d ∈ (st.1.arrive hmac st.2).events →
    (st.1.findAlloc c).isSome ∧ Named hmac before c p

/-- A Send indication of a client with an allocation is to a peer it has named. -/
def SendsNamed (st : TurnServer × Arrival) : Prop :=
  ∀ c p, Indicates st.2 c p → (st.1.findAlloc c).isSome → Named hmac before c p

/-- A number that is bound is bound again only to the same peer. -/
def BindsOnce (st : TurnServer × Arrival) : Prop :=
  ∀ c m n q q', Asks hmac st c m → bindOf m = some (n, q) → LatestBind hmac before c n q' → q' = q

end

variable {hmac : Bytes → Bytes → Bytes} {hist : List (TurnServer × Arrival)} {st : TurnServer × Arrival}
  {s : TurnServer} {x : Arrival} {c p : Sockaddr} {n : Nat} {q : Peer} {a : Allocation}
  {m m' : Message} {data : Bytes}

theorem verifyAuth_iff : m.cls = .request ∧ ¬(m.find AttrType.messageIntegrity = none ∨
    s.verifyAuth hmac m = false) ↔ Authenticated hmac s.key m := by
  simp only [not_or, Bool.not_eq_false, TurnServer.verifyAuth, Bool.and_eq_true, Option.any_eq_true,
    verifyMi, verifyIntegrity_iff]
  constructor
  · rintro ⟨hcls, -, ⟨⟨hu, hr⟩, hn⟩, k, hk, a, ha⟩
    exact ⟨hcls, ⟨hu, hr, hn⟩, k, a, hk, ha⟩
  · rintro ⟨hcls, ⟨hu, hr, hn⟩, k, a, hk, ha⟩
    exact ⟨hcls, by simp [ha.1], ⟨⟨hu, hr⟩, hn⟩, k, hk, a, ha⟩

theorem Asks.unique {c'} (h : Asks hmac st c m) (h' : Asks hmac st c' m') : c = c' ∧ m = m' := by
  obtain ⟨data, hx, -, hm, -⟩ := h
  obtain ⟨data', hx', -, hm', -⟩ := h'
  rw [hx] at hx'
  cases hx'
  exact ⟨rfl, Option.some.inj (hm.symm.trans hm')⟩

theorem findAlloc_inet (h : (s.findAlloc c).isSome) : sameAddr c c := by
  obtain ⟨a, ha⟩ := Option.isSome_iff_exists.mp h
  obtain ⟨heq, hinet⟩ := sameAddr_iff.mp (Slots.mem_find ha).2
  exact sameAddr_iff.mpr ⟨rfl, heq ▸ hinet⟩

theorem Named.inet (h : Named hmac hist c p) : sameAddr c c := by
  obtain ⟨st, -, m, ⟨data, -, -, -, -, halloc⟩, -⟩ := h
  exact findAlloc_inet halloc

theorem Named.snoc (h : Named hmac hist c p) (st : TurnServer × Arrival) :
    Named hmac (hist ++ [st]) c p := by
  obtain ⟨st', hmem, h⟩ := h
  exact ⟨st', mem_append_left _ hmem, h⟩

theorem Asks.named (h : Asks hmac st c m) (hm : Names m p) : Named hmac (hist ++ [st]) c p :=
  ⟨st, mem_append_right _ mem_cons_self, m, h, hm⟩

theorem LatestBind.named (h : LatestBind hmac hist c n (some p)) : Named hmac hist c p := by
  obtain ⟨early, st, late, m, rfl, hasks, hbind, -⟩ := h
  exact ⟨st, mem_append_right _ mem_cons_self, m, hasks, .inr ⟨n, hbind⟩⟩

theorem Asks.latestBind (h : Asks hmac st c m) (hm : bindOf m = some (n, q)) :
    LatestBind hmac (hist ++ [st]) c n q :=
  ⟨hist, st, [], m, rfl, h, hm, nofun⟩

theorem LatestBind.snoc (h : LatestBind hmac hist c n q)
    (hst : ∀ m, Asks hmac st c m → ¬Releases m ∧ ∀ q', bindOf m ≠ some (n, q')) :
    LatestBind hmac (hist ++ [st]) c n q := by
  obtain ⟨early, st', late, m, rfl, hasks, hbind, hlate⟩ := h
  refine ⟨early, st', late ++ [st], m, by simp, hasks, hbind, fun st'' hmem => ?_⟩
  rcases mem_append.mp hmem with hmem | hmem
  · exact hlate st'' hmem
  · exact mem_singleton.mp hmem ▸ hst

/-! ## What an allocation holds was asked for -/

structure Accounted (hmac : Bytes → Bytes → Bytes) (hist : List (TurnServer × Arrival))
    (a : Allocation) : Prop where
  perms : ∀ p, some p ∈ a.perms → Named hmac hist a.client p
  chans : ∀ ch ∈ a.chans, LatestBind hmac hist a.client ch.number ch.peer

theorem Accounted.snoc (h : Accounted hmac hist a) (hb : BindsOnce hmac hist st)
    (hr : ∀ m, Asks hmac st a.client m → ¬Releases m) : Accounted hmac (hist ++ [st]) a := by
  refine ⟨fun p hp => (h.perms p hp).snoc st, fun ch hch => ?_⟩
  have hbind := h.chans ch hch
  by_cases hagain : ∃ m q, Asks hmac st a.client m ∧ bindOf m = some (ch.number, q)
  · -- bound again: to the peer the channel already has
    obtain ⟨m, q, hasks, hm⟩ := hagain
    rw [hb _ m _ q _ hasks hm hbind]
    exact hasks.latestBind hm
  · exact hbind.snoc fun m hasks => ⟨hr m hasks, fun q' hq' => hagain ⟨m, q', hasks, hq'⟩⟩

/-- The table of allocations agrees with the datagrams, and no two allocations
have one client. -/
structure Kept (hmac : Bytes → Bytes → Bytes) (hist : List (TurnServer × Arrival))
    (l : List (Option Allocation)) : Prop where
  accounted : ∀ a, some a ∈ l → Accounted hmac hist a
  apart : ((Slots.entries l).map (·.client)).Pairwise fun x y => sameAddr x y = false

variable {l l' : List (Option Allocation)}

theorem Kept.snoc (h : Kept hmac hist l) (hb : BindsOnce hmac hist st)
    (hr : ∀ a, some a ∈ l → ∀ m, Asks hmac st a.client m → ¬Releases m) : Kept hmac (hist ++ [st]) l :=
  ⟨fun a ha => (h.accounted a ha).snoc hb (hr a ha), h.apart⟩

/-! ## What a datagram can do -/

inductive Moves (hmac : Bytes → Bytes → Bytes) (s : TurnServer) (x : Arrival) :
    List (Option Allocation) → Prop
  | nothing (h : ∀ c m, Asks hmac (s, x) c m → ¬Releases m) : Moves hmac s x s.allocs
  | allocate {c : Sockaddr} {l' : List (Option Allocation)}
      (hasks : ∀ c m, Asks hmac (s, x) c m → ¬Releases m) (hnone : s.findAlloc c = none)
      (h : Slots.alloc { client := c } kMaxAllocations s.allocs = some l') : Moves hmac s x l'
  | permit {c : Sockaddr} {m : Message} (hasks : Asks hmac (s, x) c m)
      (hm : m.method = Method.createPermission) {address : Bytes}
      (h : m.value Attr.xorPeerAddress = some address) :
      Moves hmac s x (Slots.modifyFirst (TurnServer.ownedBy c)
        (fun a => { a with perms := store kMaxPermissions (decodeXorAddr address) a.perms }) s.allocs)
  | bind {c : Sockaddr} {m : Message} (hasks : Asks hmac (s, x) c m) {n : Nat} {q : Peer}
      (h : bindOf m = some (n, q)) :
      Moves hmac s x (Slots.modifyFirst (TurnServer.ownedBy c)
        (fun a => { a with
          chans := store kMaxChannels ⟨n, q⟩ a.chans
          perms := store kMaxPermissions q a.perms }) s.allocs)
  | release {c : Sockaddr} {m : Message} (hasks : Asks hmac (s, x) c m) {a : Allocation}
      (h : s.findAlloc c = some a) :
      Moves hmac s x (Slots.freeFirst (TurnServer.ownedBy c) s.allocs)

theorem not_releases {method : Nat} (h : m.method = method) (hne : method ≠ Method.refresh) :
    ¬Releases m := fun hr => hne (h.symm.trans hr.1)

namespace TurnServer

theorem onChannelBind_eq (hm : m.method = Method.channelBind) :
    (s.onChannelBind c m).server = match bindOf m with
      | none => s
      | some (n, q) => s.change c fun a =>
          { a with
            chans := store kMaxChannels ⟨n, q⟩ a.chans
            perms := store kMaxPermissions q a.perms } := by
  unfold onChannelBind bindOf
  rw [if_pos hm]
  cases m.value Attr.channelNumber with
  | none => rfl
  | some number =>
    cases m.value Attr.xorPeerAddress with
    | none => rfl
    | some address =>
      simp only
      split <;> rfl

theorem onChannelData_server : (s.onChannelData c data).server = s := by
  unfold onChannelData
  split
  · rfl
  split
  · rfl
  split <;> rfl

theorem onSendIndication_server : (s.onSendIndication c m).server = s := by
  unfold onSendIndication
  split
  · split
    · rfl
    split <;> rfl
  · rfl

theorem asks_control {c'} (hparse : parse data = some m) (h : Asks hmac (s, .control c data) c' m') :
    c' = c ∧ m' = m ∧ isChannelData data = false ∧ Authenticated hmac s.key m ∧
      (s.findAlloc c).isSome := by
  obtain ⟨data', hx, hchan, hm, hauth, halloc⟩ := h
  cases hx
  cases hparse.symm.trans hm
  exact ⟨rfl, rfl, hchan, hauth, halloc⟩

theorem onAuthenticated_moves (hchan : isChannelData data = false) (hparse : parse data = some m)
    (hauth : Authenticated hmac s.key m) :
    Moves hmac s (.control c data) (s.onAuthenticated c m).server.allocs := by
  have hkeep : ∀ {method : Nat}, m.method = method → method ≠ Method.refresh →
      ∀ c' m', Asks hmac (s, .control c data) c' m' → ¬Releases m' := by
    intro method hm hne c' m' h
    obtain ⟨-, rfl, -⟩ := asks_control hparse h
    exact not_releases hm hne
  unfold onAuthenticated
  split
  · next hm =>
    have hasks := hkeep hm (by decide)
    unfold onAllocate obtainAlloc
    cases hfind : s.findAlloc c with
    | some a => exact .nothing hasks
    | none =>
      by_cases hfull : kMaxAllocations ≤ s.allocCount
      · simp only [if_pos hfull]
        exact .nothing hasks
      simp only [if_neg hfull]
      cases halloc : Slots.alloc { client := c } kMaxAllocations s.allocs with
      | none => exact .nothing hasks
      | some l => exact .allocate hasks hfind halloc
  split
  · next hnone =>
    refine .nothing fun c' m' h => ?_
    obtain ⟨-, -, -, -, hsome⟩ := asks_control hparse h
    rw [hnone] at hsome
    cases hsome
  next a ha =>
  have hasks : Asks hmac (s, .control c data) c m :=
    ⟨data, rfl, hchan, hparse, hauth, by rw [ha]; rfl⟩
  split
  · next hm =>
    unfold onCreatePermission
    split
    · exact .nothing (hkeep hm (by decide))
    · next haddress => exact .permit hasks hm haddress
  split
  · next hm =>
    rw [onChannelBind_eq hm]
    split
    · exact .nothing (hkeep hm (by decide))
    · next hbind => exact .bind hasks hbind
  split
  · next hm =>
    unfold onRefresh
    split
    · exact .release hasks ha
    next hlife =>
    refine .nothing fun c' m' h hr => ?_
    obtain ⟨-, rfl, -⟩ := asks_control hparse h
    exact hlife hr.2
  · next hm => exact .nothing (hkeep rfl hm)

theorem arrive_moves (s : TurnServer) (x : Arrival) :
    Moves hmac s x (s.arrive hmac x).server.allocs := by
  cases x with
  | relay source data => exact .nothing fun c m h => by obtain ⟨_, hx, -⟩ := h; cases hx
  | control client data =>
    simp only [arrive, feed]
    split
    · next hchan =>
      rw [onChannelData_server]
      refine .nothing fun c m h => ?_
      obtain ⟨_, hx, hno, -⟩ := h
      cases hx
      rw [hchan] at hno
      cases hno
    next hchan =>
    cases hparse : parse data with
    | none =>
      refine .nothing fun c m h => ?_
      obtain ⟨_, hx, -, hm, -⟩ := h
      cases hx
      rw [hparse] at hm
      cases hm
    | some m =>
      have hnot : ¬Authenticated hmac s.key m → ∀ c' m', Asks hmac (s, .control client data) c' m' →
          ¬Releases m' := by
        intro hno c' m' h
        exact absurd (asks_control hparse h).2.2.2.1 hno
      simp only
      split
      · next hsend =>
        rw [onSendIndication_server]
        refine .nothing (hnot fun hauth => ?_)
        rw [hauth.request] at hsend
        cases hsend.2
      split
      · next hcls => exact .nothing (hnot fun hauth => hcls hauth.request)
      next hcls =>
      split
      · next hno => exact .nothing (hnot fun hauth => (verifyAuth_iff.mpr hauth).2 hno)
      · next hyes =>
        exact onAuthenticated_moves (Bool.not_eq_true _ ▸ hchan) hparse
          (verifyAuth_iff.mp ⟨not_not.mp hcls, hyes⟩)

theorem deliver_cases {source slot} (hsub : ∀ a, some a ∈ l → some a ∈ l') :
    deliver source data slot l = [] ∨
      ∃ a d, some a ∈ l' ∧ deliver source data slot l = [.toClient a.client source d] ∧
        ((∃ ch ∈ a.chans, storedMatches ch.peer source) ∨
          ∃ q ∈ a.perms, storedMatches q source) := by
  induction l generalizing slot with
  | nil => exact .inl rfl
  | cons o l ih =>
    have hrest := @ih (slot + 1) fun a ha => hsub a (mem_cons_of_mem _ ha)
    cases o with
    | none => exact hrest
    | some a =>
      have hmem := hsub a mem_cons_self
      unfold deliver
      split
      · next ch hch =>
        have hmatch := List.find?_some hch
        exact .inr ⟨a, _, hmem, rfl, .inl ⟨ch, mem_of_find?_eq_some hch, hmatch⟩⟩
      · split
        · next hany => exact .inr ⟨a, _, hmem, rfl, .inr (any_eq_true.mp hany)⟩
        · exact hrest

theorem onAuthenticated_events {e} (h : e ∈ (s.onAuthenticated c m).events) :
    ∃ code, e = reply c m code := by
  have hone : ∀ {code}, e ∈ [reply c m code] → ∃ code, e = reply c m code :=
    fun h => ⟨_, mem_singleton.mp h⟩
  unfold onAuthenticated at h
  split at h
  · unfold onAllocate at h
    split at h <;> exact hone h
  split at h
  · exact hone h
  split at h
  · unfold onCreatePermission at h
    split at h <;> exact hone h
  split at h
  · unfold onChannelBind at h
    split at h
    · split at h <;> exact hone h
    · exact hone h
  split at h
  · unfold onRefresh at h
    split at h <;> exact hone h
  · cases h

theorem arrive_events {e} (h : e ∈ (s.arrive hmac x).events) :
    (∃ c m code, e = reply c m code) ∨
    (∃ c a n p payload, e = .toPeer c (some n) p payload ∧ s.findAlloc c = some a ∧
      ⟨n, some p⟩ ∈ a.chans) ∨
    (∃ c a p payload, e = .toPeer c none p payload ∧ s.findAlloc c = some a ∧ Indicates x c p) ∨
    ∃ a p data d, x = .relay p data ∧ e = .toClient a.client p d ∧ some a ∈ s.allocs ∧
      ((∃ ch ∈ a.chans, storedMatches ch.peer p) ∨ ∃ q ∈ a.perms, storedMatches q p) := by
  cases x with
  | relay source data =>
    simp only [arrive, feedRelay] at h
    rcases deliver_cases fun a (h : some a ∈ s.allocs) => h with
      hev | ⟨a, d, hmem, hev, hmatch⟩
    · rw [hev] at h
      cases h
    · rw [hev] at h
      exact .inr (.inr (.inr ⟨a, source, data, d, rfl, mem_singleton.mp h, hmem, hmatch⟩))
  | control client data =>
    simp only [arrive, feed] at h
    split at h
    · unfold onChannelData at h
      split at h
      · cases h
      next a ha =>
      split at h
      · cases h
      split at h
      · cases h
      · cases h
      · next hch =>
        exact .inr (.inl ⟨_, a, _, _, _, mem_singleton.mp h, ha, mem_of_find?_eq_some hch⟩)
    next hchan =>
    split at h
    · cases h
    next m hparse =>
    split at h
    · next hsend =>
      unfold onSendIndication at h
      split at h
      · next ha haddress hdata =>
        split at h
        · cases h
        next hpeer =>
        split at h
        · cases h
        next hne =>
        exact .inr (.inr (.inl ⟨_, _, _, _, mem_singleton.mp h, ha, data, m, _, rfl,
          Bool.not_eq_true _ ▸ hchan, hparse, hsend.1, hsend.2, by rw [haddress]; exact hpeer,
          hdata, hne⟩))
      · cases h
    split at h
    · cases h
    split at h
    · exact .inl ⟨_, _, _, mem_singleton.mp h⟩
    · exact .inl ⟨_, _, onAuthenticated_events h⟩

theorem indication_relayed (h : Indicates x c p) (ha : (s.findAlloc c).isSome) :
    ∃ payload, .toPeer c none p payload ∈ (s.arrive hmac x).events := by
  obtain ⟨data, m, payload, rfl, hchan, hparse, hsend, hcls, hpeer, hdata, hne⟩ := h
  obtain ⟨a, ha⟩ := Option.isSome_iff_exists.mp ha
  obtain ⟨address, haddress, hpeer⟩ := Option.bind_eq_some_iff.mp hpeer
  refine ⟨payload, ?_⟩
  simp [arrive, feed, hchan, hparse, hsend, hcls, onSendIndication, ha, haddress, hdata, hpeer, hne]

end TurnServer

/-! ## A datagram keeps the table and the history together -/

theorem mem_store {α : Type*} {cap : Nat} {x y : α} {l : List α} (h : x ∈ store cap y l) :
    x = y ∨ x ∈ l := by
  unfold store at h
  split at h
  · simpa [or_comm] using h
  · exact .inr h

theorem Kept.modify {f} (h : Kept hmac hist l) (hclient : ∀ a, (f a).client = a.client)
    (hf : ∀ a, Accounted hmac hist a → a.client = c → Accounted hmac hist (f a)) :
    Kept hmac hist (Slots.modifyFirst (TurnServer.ownedBy c) f l) := by
  refine ⟨fun b hb => ?_, ?_⟩
  · rcases Slots.mem_modifyFirst hb with hb | ⟨a, ha, howned, rfl⟩
    · exact h.accounted b hb
    · exact hf a (h.accounted a ha) (sameAddr_iff.mp howned).1
  · rw [Slots.entries_modifyFirst fun a _ => hclient a]
    exact h.apart

theorem Kept.asked (h : Kept hmac hist l) (hb : BindsOnce hmac hist st) (hasks : Asks hmac st c m)
    (hm : ¬Releases m) : Kept hmac (hist ++ [st]) l :=
  h.snoc hb fun _ _ _ hasks' => (hasks.unique hasks').2 ▸ hm

theorem Kept.allocated (h : Kept hmac hist l) (hb : BindsOnce hmac hist st)
    (hr : ∀ c m, Asks hmac st c m → ¬Releases m)
    (hnone : ∀ a, some a ∈ l → sameAddr a.client c = false)
    (hl : Slots.alloc { client := c } kMaxAllocations l = some l') : Kept hmac (hist ++ [st]) l' := by
  refine ⟨fun a ha => ?_, ?_⟩
  · rcases (Slots.mem_alloc hl).mp ha with rfl | ha
    · exact ⟨nofun, nofun⟩
    · exact (h.snoc hb fun a _ m => hr a.client m).accounted a ha
  have hperm := (Slots.alloc_perm hl).map (·.client)
  refine (hperm.pairwise_iff fun {x y} hxy => ?_).mpr (pairwise_cons.mpr ⟨?_, h.apart⟩)
  · rw [← hxy]
    exact sameAddr_comm y x
  intro x hx
  obtain ⟨a, ha, rfl⟩ := mem_map.mp hx
  rw [sameAddr_comm]
  exact hnone a (Slots.mem_entries.mp ha)

theorem Kept.released (h : Kept hmac hist l) (hb : BindsOnce hmac hist st) (hasks : Asks hmac st c m)
    (hfind : Slots.find (TurnServer.ownedBy c) l = some a) :
    Kept hmac (hist ++ [st]) (Slots.freeFirst (TurnServer.ownedBy c) l) := by
  have hc := (sameAddr_iff.mp (Slots.mem_find hfind).2)
  have hperm := (Slots.freeFirst_perm hfind).map (·.client)
  have hpair := (hperm.pairwise_iff fun {x y} hxy => by rw [← hxy]; exact sameAddr_comm y x).mp h.apart
  obtain ⟨hother, hrest⟩ := pairwise_cons.mp hpair
  have hkept : Kept hmac hist (Slots.freeFirst (TurnServer.ownedBy c) l) :=
    ⟨fun b hb => h.accounted b (Slots.mem_of_mem_freeFirst hb), hrest⟩
  refine hkept.snoc hb fun b hmem m' hasks' => ?_
  -- the slot that went was the only one of this client
  have hdiff := hother b.client (mem_map_of_mem (Slots.mem_entries.mpr hmem))
  rw [← (hasks.unique hasks').1, sameAddr_iff.mpr hc] at hdiff
  cases hdiff

theorem Moves.kept (h : Moves hmac s x l') (hk : Kept hmac hist s.allocs)
    (hb : BindsOnce hmac hist (s, x)) : Kept hmac (hist ++ [(s, x)]) l' := by
  cases h with
  | nothing hr => exact hk.snoc hb fun a _ m => hr a.client m
  | allocate hr hnone hl => exact hk.allocated hb hr (Slots.find_eq_none.mp hnone) hl
  | permit hasks hm haddress =>
    refine (hk.asked hb hasks (not_releases hm (by decide))).modify (fun _ => rfl) fun a ha hc => ?_
    refine ⟨fun p hp => ?_, ha.chans⟩
    rcases mem_store hp with hp | hp
    · exact hc ▸ hasks.named (.inl ⟨hm, by rw [haddress]; exact hp.symm⟩)
    · exact ha.perms p hp
  | @bind c m hasks n q hbind =>
    have hm : m.method = Method.channelBind := by
      unfold bindOf at hbind
      split at hbind
      · assumption
      · cases hbind
    refine (hk.asked hb hasks (not_releases hm (by decide))).modify (fun _ => rfl) fun a ha hc => ?_
    refine ⟨fun p hp => ?_, fun ch hch => ?_⟩
    · rcases mem_store hp with rfl | hp
      · exact hc ▸ hasks.named (.inr ⟨n, hbind⟩)
      · exact ha.perms p hp
    · rcases mem_store hch with rfl | hch
      · exact hc ▸ hasks.latestBind hbind
      · exact ha.chans ch hch
  | release hasks ha => exact hk.released hb hasks ha

theorem named_of_stored {source} (hm : storedMatches q source) (hzero : source ≠ .inet 0 0)
    (h : ∀ p, q = some p → Named hmac hist c p) : Named hmac hist c source := by
  cases q with
  | none => exact absurd (sameAddr_iff.mp hm).1.symm hzero
  | some p => exact (sameAddr_iff.mp hm).1 ▸ h p rfl

theorem Kept.allowed (hk : Kept hmac hist s.allocs) (hz : ∀ data, x ≠ .relay (.inet 0 0) data)
    (hs : SendsNamed hmac hist (s, x)) : Allowed hmac hist (s, x) := by
  refine ⟨fun c channel p payload h => ?_, fun c p d h => ?_⟩
  · rcases TurnServer.arrive_events h with ⟨_, _, _, he⟩ | ⟨_, a, n, _, _, he, ha, hch⟩ |
      ⟨_, a, _, _, he, ha, hind⟩ | ⟨_, _, _, _, _, he, _⟩
    · cases he
    · cases he
      obtain ⟨hmem, howned⟩ := Slots.mem_find ha
      have hbind := (hk.accounted a hmem).chans _ hch
      rw [(sameAddr_iff.mp howned).1] at hbind
      exact ⟨by rw [ha]; rfl, hbind.named, fun _ hn => Option.some.inj hn ▸ hbind⟩
    · cases he
      have halloc : (s.findAlloc c).isSome := by rw [ha]; rfl
      exact ⟨halloc, hs c p hind halloc, nofun⟩
    · cases he
  rcases TurnServer.arrive_events h with ⟨_, _, _, he⟩ | ⟨_, _, _, _, _, he, _⟩ |
    ⟨_, _, _, _, he, _⟩ | ⟨a, p, data, d, hx, he, hmem, hmatch⟩
  · cases he
  · cases he
  · cases he
  cases he
  have hacc := hk.accounted a hmem
  have hne : p ≠ .inet 0 0 := fun heq => hz data (heq ▸ hx)
  have hnamed : Named hmac hist a.client p := by
    rcases hmatch with ⟨ch, hch, hm⟩ | ⟨q, hq, hm⟩
    · exact named_of_stored hm hne fun p hp => (hp ▸ hacc.chans ch hch).named
    · exact named_of_stored hm hne fun p hp => hacc.perms p (hp ▸ hq)
  refine ⟨?_, hnamed⟩
  rw [Option.isSome_iff_ne_none]
  intro hnone
  have hown := Slots.find_eq_none.mp hnone a hmem
  rw [TurnServer.ownedBy, hnamed.inet] at hown
  cases hown

/-! ## Whole runs -/

/-- Nothing arrives on the relay socket from the address 0.0.0.0:0. -/
def NoZeroSource (arrivals : List Arrival) : Prop :=
  ∀ data, .relay (.inet 0 0) data ∉ arrivals

theorem run_kept (arrivals : List Arrival) (hk : Kept hmac hist s.allocs) (hz : NoZeroSource arrivals)
    (hb : Each (BindsOnce hmac) (hist ++ steps hmac s arrivals))
    (hs : Each (SendsNamed hmac) (hist ++ steps hmac s arrivals)) (ha : Each (Allowed hmac) hist) :
    Each (Allowed hmac) (hist ++ steps hmac s arrivals) := by
  induction arrivals generalizing s hist with
  | nil => rwa [steps, append_nil]
  | cons x arrivals ih =>
    rw [steps, append_cons] at hb hs ⊢
    have hallowed : Allowed hmac hist (s, x) :=
      hk.allowed (fun data hx => hz data (hx ▸ mem_cons_self)) hs.of_append.last
    exact ih ((TurnServer.arrive_moves s x).kept hk hb.of_append.last)
      (fun data h => hz data (mem_cons_of_mem _ h)) hb hs (ha.snoc hallowed)

/-- Every run of a server that starts without allocations, whose clients bind
a number to one peer only and to which nothing comes from 0.0.0.0:0: what is
relayed is allowed exactly when every Send indication of a client with an
allocation is to a peer the client has named. -/
theorem relayed_only_allowed (key : Option Bytes) (arrivals : List Arrival)
    (hz : NoZeroSource arrivals) (hb : Each (BindsOnce hmac) (steps hmac { key } arrivals)) :
    Each (Allowed hmac) (steps hmac { key } arrivals) ↔
      Each (SendsNamed hmac) (steps hmac { key } arrivals) := by
  constructor
  · intro h before st after heq c p hind halloc
    obtain ⟨payload, hrelayed⟩ := TurnServer.indication_relayed hind halloc
    exact ((h before st after heq).1 c none p payload hrelayed).2.1
  · intro hs
    exact run_kept arrivals (⟨nofun, .nil⟩ : Kept hmac [] []) hz hb hs each_nil

/-! ## One client and two peers -/

def someClient : Sockaddr := .inet 1000 1

def somePeer : Sockaddr := .inet 2000 2

def otherPeer : Sockaddr := .inet 3000 3

/-- A request with the credentials of the client. -/
def request (method : Nat) (attrs : Bytes) : Bytes :=
  frame method (replicate 12 0) (attrs ++ [0, 6, 0, 0, 0, 0x14, 0, 0, 0, 0x15, 0, 0] ++ zeroIntegrity)

/-- A Send indication with one octet of data. -/
def indicationTo (peer : Sockaddr) : Bytes :=
  frame 0x0016 (replicate 12 0) (xorPeerAddress peer ++ [0, 0x13, 0, 1, 9, 0, 0, 0])

def permitRequest (peer : Sockaddr) : Bytes :=
  request Method.createPermission (xorPeerAddress peer)

def bindRequest (peer : Sockaddr) : Bytes :=
  request Method.channelBind ([0, 0x0C, 0, 4, 0x40, 0, 0, 0] ++ xorPeerAddress peer)

/-- The client's datagrams to a server whose key is empty. -/
def sent (l : List Bytes) : List (TurnServer × Arrival) :=
  steps zeroHmac { key := some [] } (l.map (.control someClient))

theorem mem_steps {l} (h : st ∈ steps hmac s l) : st.2 ∈ l := by
  induction l generalizing s with
  | nil => cases h
  | cons x l ih =>
    rcases mem_cons.mp h with rfl | h
    · exact mem_cons_self
    · exact mem_cons_of_mem _ (ih h)

theorem of_sent {l : List Bytes} (P : Message → Bool)
    (h : (l.all fun data => (parse data).all P) = true)
    (hst : st ∈ sent l) (hx : st.2 = .control c data) (hm : parse data = some m) : P m := by
  obtain ⟨data', hmem, hx'⟩ := mem_map.mp (mem_steps hst)
  cases hx'.trans hx
  have hall := all_eq_true.mp h data hmem
  rwa [hm] at hall

theorem asks_of (h : ((parse data).any fun m => m.cls = .request ∧
      ¬(m.find AttrType.messageIntegrity = none ∨ s.verifyAuth hmac m = false)) = true)
    (hchan : isChannelData data = false) (ha : (s.findAlloc c).isSome) :
    ∃ m, parse data = some m ∧ Asks hmac (s, .control c data) c m := by
  obtain ⟨m, hm, h⟩ := (Option.any_eq_true _ _).mp h
  exact ⟨m, hm, data, rfl, hchan, hm, verifyAuth_iff.mp (of_decide_eq_true h), ha⟩

theorem relayed_only_allowed_permitted :
    Each (Allowed zeroHmac)
      (sent [request Method.allocate [], permitRequest somePeer, indicationTo somePeer]) := by
  refine (relayed_only_allowed (some []) _ (fun data => by simp) (each_of_forall ?_)).mpr ?_
  · rintro st hst before c m n q q' ⟨data, hx, -, hm, -⟩ hbind
    have hnone := of_sent (bindOf · |>.isNone) (by decide +kernel) hst hx hm
    rw [hbind] at hnone
    cases hnone
  refine Each.snoc (l := sent [request Method.allocate [], permitRequest somePeer])
    (each_of_forall ?_) ?_
  · rintro st hst before c p ⟨data, m, _, hx, -, hm, -, hcls, -⟩
    have hreq := of_sent (·.cls != .indication) (by decide +kernel) hst hx hm
    rw [hcls] at hreq
    cases hreq
  rintro c p ⟨data, m, _, hx, -, hm, -, -, hp, -⟩ -
  have hpeer := of_sent (l := [indicationTo somePeer])
    (fun m => (m.value Attr.xorPeerAddress).bind decodeXorAddr = some somePeer)
    (by decide +kernel) mem_cons_self hx hm
  cases hx
  cases hp.symm.trans (of_decide_eq_true hpeer)
  obtain ⟨m', hm', hasks⟩ : ∃ m, parse (permitRequest somePeer) = some m ∧
      Asks zeroHmac (_, .control someClient (permitRequest somePeer)) someClient m :=
    asks_of (s := (({ key := some [] } : TurnServer).arrive zeroHmac
      (.control someClient (request Method.allocate []))).server)
      (by decide +kernel) (by decide +kernel) (by decide +kernel)
  refine ⟨_, mem_cons_of_mem _ mem_cons_self, m', hasks, .inl ?_⟩
  have hnames := of_sent (l := [permitRequest somePeer])
    (fun m => m.method = Method.createPermission ∧
      (m.value Attr.xorPeerAddress).bind decodeXorAddr = some somePeer)
    (by decide +kernel) mem_cons_self rfl hm'
  exact of_decide_eq_true hnames

/-- A Send indication is relayed to a peer that was never named, and data on a
channel that was bound again still goes to the peer it was bound to first. -/
theorem indication_needs_no_permission :
    ¬ Each (Allowed zeroHmac) (sent [request Method.allocate [], indicationTo somePeer]) ∧
    ¬ Each (Allowed zeroHmac) (sent [request Method.allocate [], bindRequest somePeer,
      bindRequest otherPeer, [0x40, 0, 0, 1, 9]]) := by
  constructor
  · intro h
    obtain ⟨-, ⟨st, hst, m, hasks, -⟩, -⟩ :=
      (Each.last (l := sent [request Method.allocate []]) h).1 someClient none somePeer [9]
        (by decide +kernel)
    obtain ⟨data, -, -, -, -, halloc⟩ := hasks
    rw [mem_singleton.mp hst] at halloc
    cases halloc
  intro h
  obtain ⟨-, -, hbound⟩ := (Each.last (l := sent [request Method.allocate [], bindRequest somePeer,
    bindRequest otherPeer]) h).1 someClient (some 0x4000) somePeer [9] (by decide +kernel)
  obtain ⟨early, st, late, m, heq, hasks, hbind, hlate⟩ := hbound 0x4000 rfl
  -- the second bind is the last datagram before: it is that of the list, or one after it
  obtain ⟨s, hlast, m', hm', hasks'⟩ : ∃ s, (sent [request Method.allocate [], bindRequest somePeer,
      bindRequest otherPeer]).getLast? = some (s, .control someClient (bindRequest otherPeer)) ∧
      ∃ m, parse (bindRequest otherPeer) = some m ∧
        Asks zeroHmac (s, .control someClient (bindRequest otherPeer)) someClient m :=
    ⟨_, rfl, asks_of (by decide +kernel) (by decide +kernel) (by decide +kernel)⟩
  have hbind' := of_sent (l := [bindRequest otherPeer])
    (fun m => bindOf m = some (0x4000, some otherPeer)) (by decide +kernel) mem_cons_self rfl hm'
  rw [heq] at hlast
  rcases eq_nil_or_concat late with rfl | ⟨late, st', rfl⟩
  · rw [getLast?_append_cons, getLast?_singleton, Option.some.injEq] at hlast
    rw [hlast] at hasks
    rw [(hasks.unique hasks').2, of_decide_eq_true hbind'] at hbind
    cases hbind
  · rw [concat_eq_append, ← cons_append, ← append_assoc, getLast?_concat, Option.some.injEq] at hlast
    exact (hlate st' (by simp) m' (hlast ▸ hasks')).2 _ (of_decide_eq_true hbind')

end BoltApi.WebRtc.Turn
