import Mathlib.Algebra.Group.Int.Defs
import Mathlib.Algebra.GroupWithZero.Nat
import Mathlib.Data.List.Chain
import BoltApi.Lib.Keyed

/-! # Reception reports

`ReportInterceptor` of `interceptor.h`: the inbound counters of each SSRC and the
report blocks built from them, beside the extended highest sequence number that
RFC 3550 asks a block to carry. -/
namespace BoltApi.WebRtc.Reports
open List Lib

structure Stat where
  ssrc : UInt32
  packets : UInt32 := 0
  octets : UInt32 := 0
  highestSeq : UInt32 := 0
  rtpTs : UInt32 := 0

structure ReportBlock where
  ssrc : UInt32
  fractionLost : UInt8 := 0
  cumulativeLost : Int := 0
  highestSeq : UInt32
  jitter : UInt32 := 0
  lsr : UInt32 := 0
  dlsr : UInt32 := 0

/-- What the interceptor reads of an inbound packet. -/
structure Inbound where
  ssrc : UInt32
  sequence : UInt16

def kMaxTrackedSsrc : Nat := 32
def kMaxReportBlocks : Nat := 31

def statFor (table : List Stat) (ssrc : UInt32) : Option (List Stat × Stat) :=
  match Keyed.find Stat.ssrc table ssrc with
  | some s => some (table, s)
  | none => if table.length < kMaxTrackedSsrc then some (table ++ [{ ssrc }], { ssrc }) else none

def onInboundRtp (table : List Stat) (p : Inbound) : List Stat :=
  match statFor table p.ssrc with
  | none => table
  | some (table, s) =>
    Keyed.put Stat.ssrc { s with packets := s.packets + 1, highestSeq := p.sequence.toUInt32 } table

/-- The report blocks of `build_reports`. -/
def reportBlocks (table : List Stat) : List ReportBlock :=
  (table.take kMaxReportBlocks).map fun s => { ssrc := s.ssrc, highestSeq := s.highestSeq }

def received (packets : List Inbound) : List Stat := packets.foldl onInboundRtp []

/-- The sequence numbers received on an SSRC. -/
def sequences (ssrc : UInt32) (packets : List Inbound) : List UInt16 :=
  (packets.filter (·.ssrc = ssrc)).map (·.sequence)

def arrivals (packets : List Inbound) : List UInt32 :=
  packets.foldl (fun l p => if p.ssrc ∈ l then l else l ++ [p.ssrc]) []

/-- The first 31 of them, which have a block. -/
def reported (packets : List Inbound) : List UInt32 := (arrivals packets).take kMaxReportBlocks

/-! ## The extended highest sequence number -/

def extend (high : Nat) (sequence : UInt16) : Nat :=
  let ahead := (sequence.toNat + 2 ^ 16 - high % 2 ^ 16) % 2 ^ 16
  if ahead < 2 ^ 15 then high + ahead else high

/-- The cycles are in the upper sixteen bits. -/
def extendedHighest : List UInt16 → Nat
  | [] => 0
  | s :: l => l.foldl extend s.toNat

/-- No packet behind the one before it, or past the end of the range. -/
def InOrder (l : List UInt16) : Prop :=
  l.IsChain fun a b => a.toNat ≤ b.toNat ∧ b.toNat < a.toNat + 2 ^ 15

variable {l : List UInt16} {s : UInt16} {table : List Stat} {packets : List Inbound} {p : Inbound}

theorem extendedHighest_concat (h : l ≠ []) :
    extendedHighest (l ++ [s]) = extend (extendedHighest l) s := by
  cases l with
  | nil => exact absurd rfl h
  | cons a l => rw [cons_append, extendedHighest, extendedHighest, foldl_concat]

theorem inOrder_concat {a : UInt16} : InOrder (l ++ [a] ++ [s]) ↔
    InOrder (l ++ [a]) ∧ a.toNat ≤ s.toNat ∧ s.toNat < a.toNat + 2 ^ 15 := by
  rw [InOrder, isChain_append]
  simp [InOrder]

theorem InOrder.highest (h : InOrder (l ++ [s])) : extendedHighest (l ++ [s]) = s.toNat := by
  induction l using List.reverseRecOn generalizing s with
  | nil => rfl
  | append_singleton l a ih =>
    obtain ⟨ha, hle, hlt⟩ := inOrder_concat.mp h
    have hs := s.toNat_lt
    rw [extendedHighest_concat (by simp), ih ha, extend]
    split <;> omega

theorem inOrder_iff (h : InOrder l) :
    s.toUInt32 = UInt32.ofNat (extendedHighest (l ++ [s])) ↔ InOrder (l ++ [s]) := by
  rw [← UInt32.toNat_inj, UInt16.toNat_toUInt32, UInt32.toNat_ofNat']
  have hs := s.toNat_lt
  constructor
  · intro hext
    rcases eq_nil_or_concat' l with rfl | ⟨l, a, rfl⟩
    · exact .singleton s
    have ha := a.toNat_lt
    rw [extendedHighest_concat (by simp), h.highest, extend] at hext
    refine inOrder_concat.mpr ⟨h, ?_⟩
    split at hext <;> omega
  · intro hl
    rw [hl.highest, Nat.mod_eq_of_lt (by omega)]

/-! ## The table -/

theorem onInboundRtp_spec (table : List Stat) (p : Inbound) :
    ((onInboundRtp table p).map Stat.ssrc = table.map Stat.ssrc ∧
        (p.ssrc ∈ table.map Stat.ssrc ∨ ¬ table.length < kMaxTrackedSsrc) ∨
      (onInboundRtp table p).map Stat.ssrc = table.map Stat.ssrc ++ [p.ssrc] ∧
        p.ssrc ∉ table.map Stat.ssrc ∧ table.length < kMaxTrackedSsrc) ∧
    ∀ s ∈ onInboundRtp table p, s.ssrc = p.ssrc ∧ s.highestSeq = p.sequence.toUInt32 ∨
      s.ssrc ≠ p.ssrc ∧ s ∈ table := by
  unfold onInboundRtp statFor
  cases hfind : Keyed.find Stat.ssrc table p.ssrc with
  | some s =>
    obtain ⟨hmem, hs⟩ := Keyed.find_mem hfind
    refine ⟨.inl ⟨Keyed.keys_put, .inl (hs ▸ mem_map_of_mem hmem)⟩, fun t ht => ?_⟩
    rw [← hs]
    exact (Keyed.mem_put ht).imp (by rintro rfl; exact ⟨rfl, rfl⟩) id
  | none =>
    have hnew := Keyed.find_eq_none_iff.mp hfind
    by_cases hroom : table.length < kMaxTrackedSsrc
    · rw [if_pos hroom]
      refine ⟨.inr ⟨by rw [Keyed.keys_put, map_append, map_singleton], hnew, hroom⟩, fun t ht => ?_⟩
      rcases Keyed.mem_put ht with rfl | ⟨hk, ht⟩
      · exact .inl ⟨rfl, rfl⟩
      refine .inr ⟨hk, (mem_append.mp ht).resolve_right fun ht => hk ?_⟩
      rw [mem_singleton.mp ht]
    · rw [if_neg hroom]
      exact ⟨.inl ⟨rfl, .inr hroom⟩, fun t ht => .inr ⟨fun h => hnew (h ▸ mem_map_of_mem ht), ht⟩⟩

theorem sequences_concat {x} : sequences x (packets ++ [p]) =
    if p.ssrc = x then sequences x packets ++ [p.sequence] else sequences x packets := by
  by_cases h : p.ssrc = x <;> simp [sequences, h]

structure Tracks (packets : List Inbound) (table : List Stat) : Prop where
  last : ∀ s ∈ table, ∃ l a, sequences s.ssrc packets = l ++ [a] ∧ s.highestSeq = a.toUInt32
  fresh : ∀ x ∉ table.map Stat.ssrc, table.length < kMaxTrackedSsrc → sequences x packets = []

theorem Tracks.step (h : Tracks packets table) : Tracks (packets ++ [p]) (onInboundRtp table p) where
  last := by
    intro s hs
    rcases (onInboundRtp_spec table p).2 s hs with ⟨hx, hseq⟩ | ⟨hx, hold⟩
    · exact ⟨_, _, by rw [sequences_concat, if_pos hx.symm], hseq⟩
    · rw [sequences_concat, if_neg (Ne.symm hx)]
      exact h.last s hold
  fresh := by
    intro x hx hroom
    rw [← length_map Stat.ssrc] at hroom
    rcases (onInboundRtp_spec table p).1 with ⟨hkeys, hp⟩ | ⟨hkeys, -, hp⟩
    · rw [hkeys] at hx
      rw [hkeys, length_map] at hroom
      rw [sequences_concat, if_neg, h.fresh x hx hroom]
      rintro rfl
      exact hp.elim hx (absurd hroom)
    · rw [hkeys, mem_append, mem_singleton, not_or] at hx
      rw [sequences_concat, if_neg (Ne.symm hx.2), h.fresh x hx.1 hp]

theorem received_concat : received (packets ++ [p]) = onInboundRtp (received packets) p :=
  foldl_concat ..

theorem tracks (packets : List Inbound) : Tracks packets (received packets) := by
  induction packets using List.reverseRecOn with
  | nil => exact ⟨nofun, fun x _ _ => rfl⟩
  | append_singleton packets p ih =>
    rw [received_concat]
    exact ih.step

theorem keys_received (packets : List Inbound) :
    (received packets).map Stat.ssrc = (arrivals packets).take kMaxTrackedSsrc := by
  induction packets using List.reverseRecOn with
  | nil => rfl
  | append_singleton packets p ih =>
    have hnext : arrivals (packets ++ [p]) =
        if p.ssrc ∈ arrivals packets then arrivals packets else arrivals packets ++ [p.ssrc] := foldl_concat ..
    have hlen := congrArg length ih
    rw [length_map, length_take] at hlen
    rw [received_concat, hnext]
    rcases (onInboundRtp_spec (received packets) p).1 with ⟨hkeys, hp⟩ | ⟨hkeys, hnew, hroom⟩
    · rw [hkeys, ih]
      split
      · rfl
      · rename_i hnew
        have hfull := hp.resolve_left fun hmem => hnew (mem_of_mem_take (ih ▸ hmem))
        rw [take_append_of_le_length (by omega)]
    have hall : (arrivals packets).take kMaxTrackedSsrc = arrivals packets :=
      take_of_length_le (by omega)
    rw [hkeys, ih, hall]
    rw [ih, hall] at hnew
    rw [if_neg hnew, take_of_length_le (by rw [length_append, length_singleton]; omega)]

theorem reported_eq (packets : List Inbound) :
    reported packets = ((received packets).map Stat.ssrc).take kMaxReportBlocks := by
  rw [reported, keys_received, take_take]
  rfl

theorem reported_blocks (packets : List Inbound) :
    (reportBlocks (received packets)).map (·.ssrc) = reported packets := by
  rw [reported_eq, reportBlocks, map_map, map_take]
  rfl

theorem reported_mono : reported packets ⊆ reported (packets ++ [p]) := by
  rw [reported_eq, reported_eq, received_concat]
  rcases (onInboundRtp_spec (received packets) p).1 with ⟨h, -⟩ | ⟨h, -⟩
  · rw [h]
    exact Subset.refl _
  · rw [h, take_append]
    exact subset_append_left _ _

theorem reported_concat {x} (hx : x ∈ reported (packets ++ [p])) :
    x ∈ reported packets ∨ x = p.ssrc ∧ sequences x packets = [] := by
  rw [reported_eq, received_concat] at hx
  rw [reported_eq]
  rcases (onInboundRtp_spec (received packets) p).1 with ⟨h, -⟩ | ⟨h, hnew, hroom⟩
  · exact .inl (h ▸ hx)
  rw [h, take_append, mem_append] at hx
  refine hx.imp_right fun hx => ?_
  obtain rfl := mem_singleton.mp (mem_of_mem_take hx)
  exact ⟨rfl, (tracks packets).fresh _ hnew hroom⟩

theorem block_last {b : ReportBlock} (hb : b ∈ reportBlocks (received packets)) :
    ∃ l a, sequences b.ssrc packets = l ++ [a] ∧ b.highestSeq = a.toUInt32 := by
  obtain ⟨s, hs, rfl⟩ := mem_map.mp hb
  exact (tracks packets).last s (mem_of_mem_take hs)

/-- Every report along the way carries the extended highest sequence numbers exactly when, on the
SSRCs it reports, no packet came behind the one before it and none went round the range. -/
theorem reports_extended_iff (packets : List Inbound) :
    (∀ before, before <+: packets → ∀ b ∈ reportBlocks (received before),
      b.highestSeq = UInt32.ofNat (extendedHighest (sequences b.ssrc before))) ↔
    ∀ x ∈ reported packets, InOrder (sequences x packets) := by
  induction packets using List.reverseRecOn with
  | nil => simp [reported, arrivals, received, reportBlocks]
  | append_singleton packets p ih =>
    simp only [prefix_concat_iff, forall_eq_or_imp, ih]
    constructor
    · rintro ⟨hext, hold⟩ x hx
      obtain ⟨b, hb, rfl⟩ := mem_map.mp (reported_blocks _ ▸ hx)
      have hin : InOrder (sequences b.ssrc packets) := by
        rcases reported_concat hx with hx | ⟨-, hnil⟩
        · exact hold _ hx
        · rw [hnil]
          exact .nil
      obtain ⟨l, a, hlast, hseq⟩ := block_last hb
      have hb := hext b hb
      rw [sequences_concat] at hlast hb ⊢
      split
      · rename_i hp
        rw [if_pos hp] at hlast hb
        obtain ⟨-, rfl⟩ := append_inj' hlast rfl |>.imp_right List.singleton_inj.mp
        exact (inOrder_iff hin).mp (hseq ▸ hb)
      · exact hin
    intro hin
    refine ⟨fun b hb => ?_, fun x hx => ?_⟩
    · have hin := hin b.ssrc (reported_blocks _ ▸ mem_map_of_mem hb)
      obtain ⟨l, a, hlast, hseq⟩ := block_last hb
      rw [hlast] at hin ⊢
      exact hseq.trans ((inOrder_iff (IsChain.left_of_append hin)).mpr hin)
    have hin := hin x (reported_mono hx)
    rw [sequences_concat] at hin
    split at hin
    · exact IsChain.left_of_append hin
    · exact hin

/-- A packet that arrives late takes the report back, and a cycle is not counted. -/
theorem late_packet_lowers_report :
    (reportBlocks (received [⟨7, 10⟩, ⟨7, 9⟩])).map (·.highestSeq) = [9] ∧
      extendedHighest (sequences 7 [⟨7, 10⟩, ⟨7, 9⟩]) = 10 ∧
      (reportBlocks (received [⟨7, 65535⟩, ⟨7, 0⟩])).map (·.highestSeq) = [0] ∧
      extendedHighest (sequences 7 [⟨7, 65535⟩, ⟨7, 0⟩]) = 2 ^ 16 := by
  decide +kernel

end BoltApi.WebRtc.Reports
