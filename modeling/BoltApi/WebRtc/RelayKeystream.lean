import BoltApi.Lib.History
import BoltApi.WebRtc.Relay

/-! # Keystream reuse in the relay

An outbound session protects two different packets under the same SSRC, rollover
counter and sequence number precisely if a packet follows another one with the same
SSRC and sequence number. -/
namespace BoltApi.WebRtc.Relay
open Octets Lib.History Wire Srtp List Function

/-! ## What a session remembers -/

def sentOf (t : Session) (ssrc : Nat) : Option (Nat × Nat) :=
  (t.slots.find? (·.ssrc == ssrc)).bind fun s => if s.seen then some (s.roc, s.sL) else none

def nextRoc (last : Option (Nat × Nat)) (seq : Nat) : Nat :=
  match last with
  | none => 0
  | some (roc, l) => if seq < l then (roc + 1) % 2 ^ 32 else roc

def Clean (t : Session) : Prop := ∀ s ∈ t.slots, s.seen = false → s.roc = 0

variable {t t' : Session} {s : SsrcState} {ssrc x : Nat} {S : Suite} {p q : Bytes} {cap : Nat}

theorem slotFor_sent (hslot : t.slotFor ssrc = some (s, t')) (hclean : Clean t) :
    s.ssrc = ssrc ∧ Clean t' ∧ sentOf t' = sentOf t ∧ Holds t' s ∧
      ∀ seq, senderRoc s seq = nextRoc (sentOf t ssrc) seq := by
  unfold Session.slotFor at hslot
  split at hslot
  · rename_i r hr
    cases hslot
    have hssrc : s.ssrc = ssrc := by simpa using List.find?_some hr
    refine ⟨hssrc, hclean, rfl, by rw [Holds, hssrc]; exact hr, fun seq => ?_⟩
    rw [sentOf, hr, senderRoc]
    cases hseen : s.seen with
    | false => simp [hseen, nextRoc, hclean s (mem_of_find?_eq_some hr) hseen]
    | true => simp [hseen, nextRoc]
  rename_i hnone
  split at hslot
  · cases hslot
    refine ⟨rfl, ?_, ?_, ?_, fun seq => ?_⟩
    · intro r hr hseen
      rcases mem_append.mp hr with hr | hr
      · exact hclean r hr hseen
      · cases mem_singleton.mp hr
        rfl
    · funext y
      rw [sentOf, sentOf, List.find?_append]
      cases hy : t.slots.find? (·.ssrc == y) with
      | some r => rfl
      | none =>
        by_cases hxy : ssrc = y
        · simp [hxy]
        · simp [hxy]
    · rw [Holds, List.find?_append, hnone]
      simp
    · rw [sentOf, hnone]
      rfl
  · cases hslot

theorem put_sent (s' : SsrcState) (hold : Holds t s) (hs : s'.ssrc = s.ssrc) (hseen : s'.seen)
    (hclean : Clean t) :
    Clean (t.put s') ∧
      sentOf (t.put s') = update (sentOf t) s'.ssrc (some (s'.roc, s'.sL)) := by
  constructor
  · intro r hr hr'
    obtain ⟨r₀, hr₀, rfl⟩ := mem_map.mp hr
    split at hr'
    · rw [hseen] at hr'
      cases hr'
    · rename_i hne
      rw [if_neg hne]
      exact hclean r₀ hr₀ hr'
  funext y
  by_cases hy : y = s'.ssrc
  · subst hy
    rw [update_self, sentOf, put_holds hold hs]
    simp [hseen]
  have hkey : ∀ r : SsrcState, ((if r.ssrc = s'.ssrc then s' else r).ssrc == y) = (r.ssrc == y) := by
    intro r
    split
    · rename_i heq
      rw [heq]
    · rfl
  rw [update_of_ne hy, sentOf, sentOf, Session.put, List.find?_map]
  simp only [comp_def, hkey]
  cases hfind : t.slots.find? (·.ssrc == y) with
  | none => rfl
  | some r =>
    have hr : r.ssrc ≠ s'.ssrc := by
      have hrs : r.ssrc = y := by simpa using List.find?_some hfind
      rw [hrs]
      exact hy
    simp [hr]

theorem protectRtp_sent (S : Suite) (t : Session) (p : Bytes) (cap : Nat) (hclean : Clean t) :
    Clean (protectRtp S t p cap).2 ∧
      ((∃ e, (protectRtp S t p cap).1 = .error e) ∧ sentOf (protectRtp S t p cap).2 = sentOf t ∨
      ∃ v q, (protectRtp S t p cap).1 = .ok q ∧ parseRtp p = some v ∧
        (∀ k, sealedAs k t p = some ⟨k, v.ssrc, nextRoc (sentOf t v.ssrc) v.seq, v.seq, p⟩) ∧
        sentOf (protectRtp S t p cap).2 =
          update (sentOf t) v.ssrc (some (nextRoc (sentOf t v.ssrc) v.seq, v.seq))) := by
  unfold protectRtp
  cases hv : parseRtp p with
  | none => exact ⟨hclean, .inl ⟨⟨_, rfl⟩, rfl⟩⟩
  | some v =>
    simp only
    split
    · exact ⟨hclean, .inl ⟨⟨_, rfl⟩, rfl⟩⟩
    cases hslot : t.slotFor v.ssrc with
    | none => exact ⟨hclean, .inl ⟨⟨_, rfl⟩, rfl⟩⟩
    | some r =>
      obtain ⟨s, t'⟩ := r
      obtain ⟨hssrc, hclean', hsent, hold, hroc⟩ := slotFor_sent hslot hclean
      simp only
      cases hseal : S.protect v (senderRoc s v.seq) p with
      | error e => exact ⟨hclean', .inl ⟨⟨_, rfl⟩, hsent⟩⟩
      | ok q =>
        obtain ⟨hclean'', hput⟩ :=
          put_sent (commitSender s (senderRoc s v.seq) v.seq) hold rfl rfl hclean'
        refine ⟨hclean'', .inr ⟨v, q, rfl, rfl, fun k => ?_, ?_⟩⟩
        · simp [sealedAs, hv, hslot, hroc]
        · rw [hput, hsent, ← hroc]
          simp only [commitSender, hssrc]

/-! ## The log -/

/-- The latest packet of the SSRC that was protected for the subscriber. -/
def latest (log : List Sealed) (k ssrc : Nat) : Option Sealed :=
  log.reverse.find? fun e => e.subscriber == k && e.ssrc == ssrc

def lastSent (log : List Sealed) (k ssrc : Nat) : Option (Nat × Nat) :=
  (latest log k ssrc).map fun e => (e.roc, e.seq)

variable {log : List Sealed} {e b : Sealed} {k : Nat}

theorem latest_snoc (log : List Sealed) (e : Sealed) (k ssrc : Nat) :
    latest (log ++ [e]) k ssrc =
      if e.subscriber = k ∧ e.ssrc = ssrc then some e else latest log k ssrc := by
  rw [latest, reverse_append, reverse_singleton, singleton_append, List.find?_cons]
  by_cases h : e.subscriber = k ∧ e.ssrc = ssrc
  · simp [h.1, h.2]
  rw [if_neg h]
  cases hkey : (e.subscriber == k && e.ssrc == ssrc) with
  | true => exact absurd (by simpa using hkey) h
  | false => rfl

theorem latest_mem (h : latest log k ssrc = some e) :
    e ∈ log ∧ e.subscriber = k ∧ e.ssrc = ssrc := by
  refine ⟨mem_reverse.mp (mem_of_find?_eq_some h), ?_⟩
  simpa using List.find?_some h

theorem latest_isSome (h : e ∈ log) : ∃ b, latest log e.subscriber e.ssrc = some b := by
  rw [← Option.isSome_iff_exists, latest, List.find?_isSome]
  exact ⟨e, mem_reverse.mpr h, by simp⟩

def Counted (before : List Sealed) (e : Sealed) : Prop :=
  e.roc = nextRoc (lastSent before e.subscriber e.ssrc) e.seq

/-- A packet with the sequence number of the one before it is the same packet. -/
def Repeats (before : List Sealed) (e : Sealed) : Prop :=
  ∀ b, latest before e.subscriber e.ssrc = some b → b.seq = e.seq → b.packet = e.packet

/-- The counter does not start again from 0. -/
def NoWrap (before : List Sealed) (e : Sealed) : Prop :=
  ∀ b, latest before e.subscriber e.ssrc = some b → e.seq < b.seq → b.roc + 1 < 2 ^ 32

/-- No two different packets are protected under the same key, SSRC, counter and
sequence number. -/
def Unique (log : List Sealed) : Prop :=
  ∀ a ∈ log, ∀ b ∈ log, a.subscriber = b.subscriber → a.ssrc = b.ssrc → a.roc = b.roc →
    a.seq = b.seq → a.packet = b.packet

/-- The packet is not behind `b`, and it is `b` if it is not before it. -/
def UpTo (a b : Sealed) : Prop :=
  (a.roc < b.roc ∨ a.roc = b.roc ∧ a.seq ≤ b.seq) ∧
    (a.roc = b.roc → a.seq = b.seq → a.packet = b.packet)

theorem UpTo.next {a} (h : UpTo a b) (hb : latest log e.subscriber e.ssrc = some b)
    (hcount : Counted log e) (hrep : Repeats log e) (hwrap : NoWrap log e) : UpTo a e := by
  have hroc : e.roc = if e.seq < b.seq then (b.roc + 1) % 2 ^ 32 else b.roc := by
    rw [hcount, lastSent, hb]
    rfl
  have hsame := hrep b hb
  have hlt := hwrap b hb
  obtain ⟨hle, heq⟩ := h
  by_cases hseq : e.seq < b.seq
  · rw [if_pos hseq, Nat.mod_eq_of_lt (hlt hseq)] at hroc
    exact ⟨.inl (by omega), fun h => by omega⟩
  rw [if_neg hseq] at hroc
  refine ⟨by omega, fun hr hs => ?_⟩
  have hab : a.seq = b.seq := by omega
  exact (heq (by omega) hab).trans (hsame (by omega))

theorem upTo_latest (hcount : Each Counted log) (hrep : Each Repeats log) (hwrap : Each NoWrap log) :
    ∀ a ∈ log, ∀ b, latest log a.subscriber a.ssrc = some b → UpTo a b := by
  induction log using List.reverseRecOn with
  | nil => nofun
  | append_singleton log e ih =>
    intro a ha b hb
    rw [latest_snoc] at hb
    split at hb
    · rename_i hkey
      cases hb
      rcases mem_append.mp ha with ha | ha
      · obtain ⟨c, hc⟩ := latest_isSome ha
        have hac := ih hcount.of_append hrep.of_append hwrap.of_append a ha c hc
        rw [← hkey.1, ← hkey.2] at hc
        exact hac.next hc hcount.last hrep.last hwrap.last
      · cases mem_singleton.mp ha
        exact ⟨.inr ⟨rfl, Nat.le_refl _⟩, fun _ _ => rfl⟩
    rename_i hkey
    rcases mem_append.mp ha with ha | ha
    · exact ih hcount.of_append hrep.of_append hwrap.of_append a ha b hb
    · cases mem_singleton.mp ha
      exact absurd ⟨rfl, rfl⟩ hkey

theorem unique_iff (hcount : Each Counted log) (hwrap : Each NoWrap log) :
    Unique log ↔ Each Repeats log := by
  constructor
  · intro hunique before e after hsplit b hb hseq
    obtain ⟨hmem, hsub, hssrc⟩ := latest_mem hb
    have hroc : b.roc = e.roc := by
      have hc := hcount before e after hsplit
      rw [Counted, lastSent, hb] at hc
      simp only [Option.map_some, nextRoc, hseq, Nat.lt_irrefl, if_false] at hc
      exact hc.symm
    refine hunique b ?_ e ?_ hsub hssrc hroc hseq
    · rw [hsplit]
      exact mem_append_left _ hmem
    · rw [hsplit]
      exact mem_append_right _ mem_cons_self
  intro hrep
  induction log using List.reverseRecOn with
  | nil => nofun
  | append_singleton log e ih =>
    have hrest := ih hcount.of_append hwrap.of_append hrep.of_append
    have hnew : ∀ a ∈ log ++ [e], a.subscriber = e.subscriber → a.ssrc = e.ssrc → a.roc = e.roc →
        a.seq = e.seq → a.packet = e.packet := by
      intro a ha hsub hssrc
      refine (upTo_latest hcount hrep hwrap a ha e ?_).2
      rw [latest_snoc, if_pos ⟨hsub.symm, hssrc.symm⟩]
    intro a ha b hb hsub hssrc hroc hseq
    rcases mem_append.mp hb with hb' | hb'
    · rcases mem_append.mp ha with ha' | ha'
      · exact hrest a ha' b hb' hsub hssrc hroc hseq
      · cases mem_singleton.mp ha'
        exact (hnew b hb hsub.symm hssrc.symm hroc.symm hseq.symm).symm
    · cases mem_singleton.mp hb'
      exact hnew a ha hsub hssrc hroc hseq

/-! ## Runs of the hub -/

structure HubInv (hub : Hub) : Prop where
  peers : ∀ k m, hub.peers[k]? = some m →
    Clean m.outbound ∧ sentOf m.outbound = lastSent hub.log k
  known : ∀ e ∈ hub.log, e.subscriber < hub.peers.length
  counted : Each Counted hub.log

variable {hub : Hub} {m m' : Media} {codec : Codec} {data : Bytes}

theorem lastSent_snoc (log : List Sealed) (e : Sealed) (k : Nat) :
    lastSent (log ++ [e]) k = if e.subscriber = k then
      update (lastSent log k) e.ssrc (some (e.roc, e.seq)) else lastSent log k := by
  funext ssrc
  rw [lastSent, latest_snoc]
  by_cases hk : e.subscriber = k
  · by_cases hs : ssrc = e.ssrc
    · rw [if_pos ⟨hk, hs.symm⟩, if_pos hk, hs, update_self]
      rfl
    · rw [if_neg fun h => hs h.2.symm, if_pos hk, update_of_ne hs]
      rfl
  · rw [if_neg fun h => hk h.1, if_neg hk]
    rfl

section
variable (h : HubInv hub)
include h

theorem HubInv.setPeer (hk : hub.peers[k]? = some m)
    (hout : m'.outbound = m.outbound) : HubInv (hub.setPeer k m') where
  peers i r hr := by
    have hlt : k < hub.peers.length := (List.getElem?_eq_some_iff.mp hk).1
    rw [Hub.setPeer, List.getElem?_set, if_pos hlt] at hr
    split at hr
    · rename_i hi
      subst hi
      cases hr
      rw [hout]
      exact h.peers k m hk
    · exact h.peers i r hr
  known e he := by
    rw [Hub.setPeer, length_set]
    exact h.known e he
  counted := h.counted

theorem HubInv.sendRtpProtected (k : Nat) (data : Bytes) :
    HubInv (sendRtpProtected hub k data) := by
  unfold Relay.sendRtpProtected
  split
  · exact h
  rename_i m hk
  obtain ⟨hclean, hsent⟩ := h.peers k m hk
  obtain ⟨hclean', hcases⟩ := protectRtp_sent m.suiteOut m.outbound data kMediaScratch hclean
  have hlt : k < hub.peers.length := (List.getElem?_eq_some_iff.mp hk).1
  -- the other sessions, and their packets, are not concerned
  have hother : ∀ (t : Session) (i : Nat) (r : Media),
      (hub.setPeer k { m with outbound := t }).peers[i]? = some r →
      (i = k ∧ r = { m with outbound := t }) ∨ (i ≠ k ∧ hub.peers[i]? = some r) := by
    intro t i r hr
    rw [Hub.setPeer, List.getElem?_set, if_pos hlt] at hr
    split at hr
    · rename_i hi
      cases hr
      exact .inl ⟨hi.symm, rfl⟩
    · rename_i hi
      exact .inr ⟨fun h => hi h.symm, hr⟩
  rcases hrun : protectRtp m.suiteOut m.outbound data kMediaScratch with ⟨result, t⟩
  simp only [hrun] at hclean' hcases
  rcases hcases with ⟨⟨err, rfl⟩, hsame⟩ | ⟨v, q, rfl, hv, hsealed, hnew⟩
  · simp only
    refine ⟨fun i r hr => ?_, ?_, h.counted⟩
    · rcases hother t i r hr with ⟨rfl, rfl⟩ | ⟨-, hr⟩
      · exact ⟨hclean', hsame.trans hsent⟩
      · exact h.peers i r hr
    · simpa [Hub.setPeer] using h.known
  simp only [hsealed, Option.toList_some]
  refine ⟨fun i r hr => ?_, ?_, h.counted.snoc ?_⟩
  · simp only [lastSent_snoc]
    rcases hother t i r hr with ⟨rfl, rfl⟩ | ⟨hi, hr⟩
    · rw [if_pos rfl, ← hsent]
      exact ⟨hclean', hnew⟩
    · rw [if_neg fun h => hi h.symm]
      exact h.peers i r hr
  · intro e he
    rw [Hub.setPeer, length_set]
    rcases mem_append.mp he with he | he
    · exact h.known e he
    · cases mem_singleton.mp he
      exact hlt
  · rw [Counted, ← hsent]

theorem HubInv.sendRtp (k : Nat) (data : Bytes) :
    HubInv (sendRtp codec hub k data) := by
  unfold Relay.sendRtp
  split
  · exact h
  rename_i m hk
  split
  · exact h
  · refine HubInv.sendRtpProtected ?_ k data
    exact h.setPeer hk rfl

theorem HubInv.forward (src : Nat) (plain : Bytes) :
    HubInv (forwardRtpToOthers codec hub src plain) := by
  unfold forwardRtpToOthers
  generalize List.range hub.peers.length = l
  induction l generalizing hub with
  | nil => exact h
  | cons q l ih =>
    rw [foldl_cons]
    refine ih ?_
    split
    · exact h
    · exact h.sendRtp q plain

theorem HubInv.answerNack (k : Nat) (ask : Nat × Nat) :
    HubInv (answerNack codec k hub ask) := by
  unfold Relay.answerNack
  split
  · exact h
  rename_i m hk
  split
  · split
    · exact h
    · exact h.sendRtpProtected k _
  split
  · exact h
  split
  · exact h
  split
  · exact h
  split
  · exact h
  simp only
  split
  · exact h.setPeer hk rfl
  · refine HubInv.sendRtpProtected ?_ k _
    exact h.setPeer hk rfl

theorem HubInv.feedMedia (k : Nat) (data : Bytes) :
    HubInv (feedMedia codec hub k data) := by
  unfold Relay.feedMedia
  split
  · exact h
  rename_i m hk
  split
  · split
    · exact h.setPeer hk rfl
    rename_i plain t _
    have hset : HubInv (hub.setPeer k { m with inbound := t }) := h.setPeer hk rfl
    generalize hub.setPeer k { m with inbound := t } = hub₁ at hset
    generalize (codec.nacks plain).getD [] = asks
    induction asks generalizing hub₁ with
    | nil => exact hset
    | cons ask asks ih => exact ih _ (hset.answerNack k ask)
  split
  · exact h.setPeer hk rfl
  rename_i plain t _
  simp only
  have hset : HubInv (hub.setPeer k { m with inbound := t }) := h.setPeer hk rfl
  have hlt : k < hub.peers.length := (List.getElem?_eq_some_iff.mp hk).1
  have hk' : (hub.setPeer k { m with inbound := t }).peers[k]? =
      some { m with inbound := t } := by
    simp [Hub.setPeer, hlt]
  split
  · exact hset
  split
  · exact hset
  rename_i m₁ htrack
  refine (hset.setPeer hk' ?_).forward k plain
  unfold Media.trackFor at htrack
  split at htrack
  · cases htrack
    rfl
  split at htrack
  · cases htrack
    rfl
  · cases htrack

theorem HubInv.ensureMedia (m : Media) : HubInv (ensureMedia hub m) := by
  unfold Relay.ensureMedia
  split
  · refine ⟨fun k r hr => ?_, fun e he => ?_, h.counted⟩
    · rw [List.getElem?_append] at hr
      split at hr
      · exact h.peers k r hr
      rename_i hlt
      have hr' : r = { m with inbound := {}, outbound := {} } := by
        have hmem := mem_of_getElem? hr
        simpa using hmem
      subst hr'
      refine ⟨nofun, ?_⟩
      -- nothing was protected for a peer that was not there
      funext ssrc
      have hnone : latest hub.log k ssrc = none := by
        cases hl : latest hub.log k ssrc with
        | none => rfl
        | some e =>
          obtain ⟨hmem, rfl, -⟩ := latest_mem hl
          exact absurd (h.known e hmem) hlt
      rw [lastSent, hnone]
      rfl
    · rw [length_append]
      exact Nat.lt_add_right _ (h.known e he)
  · exact h

end

theorem HubInv.run (codec : Codec) (ops : List Op) : HubInv (run codec ops) := by
  have hinit : HubInv {} := ⟨nofun, nofun, each_nil⟩
  have hsteps : ∀ hub, HubInv hub → HubInv (ops.foldl (step codec) hub) := by
    induction ops with
    | nil => exact fun hub h => h
    | cons op ops ih =>
      intro hub h
      refine ih _ ?_
      cases op with
      | key m => exact h.ensureMedia m
      | media k data => exact h.feedMedia k data
      | write k data => exact h.sendRtp k data
  exact hsteps {} hinit

/-- As long as no rollover counter starts again from 0, a run of the relay protects no
two different packets for a subscriber under the same SSRC, counter and sequence number
precisely if every packet that has the SSRC and sequence number of the packet protected
before it is that packet. -/
theorem relay_keystream (codec : Codec) (ops : List Op) (hwrap : Each NoWrap (run codec ops).log) :
    Unique (run codec ops).log ↔ Each Repeats (run codec ops).log :=
  unique_iff (HubInv.run codec ops).counted hwrap

/-! ## Two publishers of one SSRC -/

def plainCodec : Codec where
  parse p := some (p.drop 12)
  serialize _ _ _ _ _ := none
  nacks _ := none

def plainPeer : Media where
  suiteIn := tagOnly
  rtcpIn := ⟨4, fun _ _ _ => .error .cryptoFail, fun _ _ _ => .error .authFail⟩
  suiteOut := tagOnly
  recovery := .resend {}

/-- A datagram of SSRC 7, protected under the counter 0. -/
def datagram (seq payload : UInt8) : Bytes :=
  [0x80, 96, 0, seq, 0, 0, 0, 0, 0, 0, 0, 7, payload] ++ rocTag 0

/-- Three peers, and packets from the first two. -/
def threePeers (packets : List (Nat × Bytes)) : Hub :=
  run plainCodec (List.replicate 3 (.key plainPeer) ++ packets.map fun p => .media p.1 p.2)

/-- Two publishers send different packets 10 of SSRC 7: for the third peer both are
protected under the counter 0. -/
theorem two_publishers_share_keystream :
    ∃ a ∈ (threePeers [(0, datagram 10 1), (1, datagram 10 2)]).log,
      ∃ b ∈ (threePeers [(0, datagram 10 1), (1, datagram 10 2)]).log,
        a.subscriber = 2 ∧ b.subscriber = 2 ∧ a.ssrc = b.ssrc ∧ a.roc = b.roc ∧ a.seq = b.seq ∧
          a.packet ≠ b.packet := by
  decide +kernel

theorem relay_keystream_in_order :
    (threePeers [(0, datagram 10 1), (0, datagram 11 2)]).log.length = 4 ∧
      Unique (threePeers [(0, datagram 10 1), (0, datagram 11 2)]).log := by
  have hlog : ∀ a ∈ (threePeers [(0, datagram 10 1), (0, datagram 11 2)]).log,
      a.roc = 0 ∧ ∀ b ∈ (threePeers [(0, datagram 10 1), (0, datagram 11 2)]).log,
        b.seq = a.seq → b.packet = a.packet := by decide +kernel
  have hmem : ∀ before e after b,
      (threePeers [(0, datagram 10 1), (0, datagram 11 2)]).log = before ++ e :: after →
      latest before e.subscriber e.ssrc = some b →
      b ∈ (threePeers [(0, datagram 10 1), (0, datagram 11 2)]).log ∧
        e ∈ (threePeers [(0, datagram 10 1), (0, datagram 11 2)]).log := by
    intro before e after b hsplit hb
    rw [hsplit]
    exact ⟨mem_append_left _ (latest_mem hb).1, mem_append_right _ mem_cons_self⟩
  refine ⟨by decide +kernel, (relay_keystream plainCodec _ ?_).mpr ?_⟩
  · intro before e after hsplit b hb _
    rw [(hlog b (hmem before e after b hsplit hb).1).1]
    decide
  · intro before e after hsplit b hb hseq
    obtain ⟨hb', he⟩ := hmem before e after b hsplit hb
    exact (hlog e he).2 b hb' hseq

end BoltApi.WebRtc.Relay
