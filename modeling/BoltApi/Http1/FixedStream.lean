import Mathlib.Data.List.Induction
import BoltApi.Http1.Response

/-! # The two sinks of a fixed-length response

`stream_fixed_h1` writes a fixed stream to the socket as it is produced;
`materialize_fixed` collects it first. Each has its own sink. A write goes
with `none` when `stream_send_all` sends it, and with `some n` when that fails
after `n` octets. -/
namespace BoltApi.Http1.FixedStream
open Octets Response List

/-- A write, and what becomes of it at the socket. -/
abbrev Write := Bytes × Option Nat

/-- `FixedStreamResult`, as `stream_fixed_h1` returns it. -/
inductive FixedStreamResult
  | complete
  | lengthMismatch
  | peerGone
  deriving DecidableEq

/-- The variables of the sink, and the body octets on the socket. -/
structure Sink where
  written : Nat := 0
  peerGone : Bool := false
  overrun : Bool := false
  wire : Bytes := []

def Sink.write (declared : Nat) (k : Sink) (w : Write) : Sink :=
  if w.1.isEmpty || k.peerGone || k.overrun then k
  else if declared - k.written < w.1.length then { k with overrun := true }
  else
    match w.2 with
    | some n => { k with peerGone := true, wire := k.wire ++ w.1.take n }
    | none => { k with written := k.written + w.1.length, wire := k.wire ++ w.1 }

def sink (declared : Nat) (ws : List Write) : Sink :=
  ws.foldl (Sink.write declared) {}

/-- What `stream_fixed_h1` returns, once its head is sent. -/
def Sink.result (declared : Nat) (k : Sink) : FixedStreamResult :=
  if k.overrun || k.written ≠ declared then .lengthMismatch
  else if k.peerGone then .peerGone else .complete

def produced (ws : List Write) : Bytes := (ws.map (·.1)).flatten

def Fails (w : Write) : Prop := w.1 ≠ [] ∧ w.2 ≠ none

/-- What holds of the sink after these writes. -/
structure Kept (declared : Nat) (ws : List Write) (k : Sink) : Prop where
  bound : k.wire.length ≤ declared
  wire : k.wire <+: produced ws
  whole : k.peerGone = false → k.written = k.wire.length ∧ ∃ n, k.wire = produced (ws.take n)
  all : k.peerGone = false → k.overrun = false → k.wire = produced ws ∧ ∀ w ∈ ws, ¬ Fails w
  gone : k.peerGone → ∃ w ∈ ws, Fails w
  overran : k.overrun → declared < (produced ws).length

variable {declared : Nat} {ws : List Write} {k : Sink}

theorem produced_concat (ws : List Write) (w : Write) :
    produced (ws ++ [w]) = produced ws ++ w.1 := by
  simp [produced]

theorem Kept.skip (h : Kept declared ws k) (w : Write)
    (hw : k.peerGone = false → k.overrun = false → w.1 = []) : Kept declared (ws ++ [w]) k := by
  refine ⟨h.bound, ?_, fun hp => ?_, fun hp ho => ?_, fun hp => ?_, fun ho => ?_⟩
  · rw [produced_concat]
    exact h.wire.trans (prefix_append _ _)
  · obtain ⟨hlen, n, hn⟩ := h.whole hp
    refine ⟨hlen, min n ws.length, ?_⟩
    rw [take_append_of_le_length (Nat.min_le_right _ _), ← take_eq_take_min, hn]
  · obtain ⟨hall, hsent⟩ := h.all hp ho
    refine ⟨by rw [produced_concat, hw hp ho, append_nil, hall], ?_⟩
    exact forall_mem_append.mpr ⟨hsent, forall_mem_singleton.mpr fun hf => hf.1 (hw hp ho)⟩
  · obtain ⟨w', hmem, hf⟩ := h.gone hp
    exact ⟨w', mem_append_left _ hmem, hf⟩
  · rw [produced_concat, length_append]
    exact Nat.lt_add_right _ (h.overran ho)

theorem sink_kept (declared : Nat) (ws : List Write) : Kept declared ws (sink declared ws) := by
  induction ws using List.reverseRecOn with
  | nil =>
    exact ⟨Nat.zero_le _, prefix_rfl, fun _ => ⟨rfl, 0, rfl⟩, fun _ _ => ⟨rfl, forall_mem_nil _⟩,
      nofun, nofun⟩
  | append_singleton ws w ih =>
    rw [sink, foldl_concat, ← sink]
    generalize sink declared ws = k at ih ⊢
    unfold Sink.write
    split
    · rename_i hskip
      refine ih.skip w fun hp ho => ?_
      simpa [hp, ho] using hskip
    rename_i hlive
    simp only [Bool.or_eq_true, List.isEmpty_iff, not_or, Bool.not_eq_true] at hlive
    obtain ⟨⟨hne, hp⟩, ho⟩ := hlive
    obtain ⟨hlen, n, hn⟩ := ih.whole hp
    obtain ⟨hall, hsent⟩ := ih.all hp ho
    have hprod := produced_concat ws w
    have hbound := ih.bound
    have htotal := congrArg length hall
    split
    · -- the write would pass the declared length
      rename_i hover
      refine ⟨hbound, hprod ▸ ih.wire.trans (prefix_append _ _), fun _ => ⟨hlen, ws.length, ?_⟩,
        nofun, fun h => absurd h (by simp [hp]), fun _ => ?_⟩
      · rw [take_left, hall]
      · rw [hprod, length_append]
        omega
    rename_i hfits
    cases hw : w.2 with
    | some n =>
      refine ⟨?_, ?_, nofun, nofun, fun _ => ⟨w, ?_, hne, by simp [hw]⟩,
        fun h => absurd h (by simp [ho])⟩
      · rw [length_append, length_take]
        omega
      · rw [hprod, hall]
        exact (prefix_append_right_inj _).mpr (List.take_prefix _ _)
      · exact mem_append_right _ (mem_singleton.mpr rfl)
    | none =>
      refine ⟨?_, ?_, fun _ => ⟨?_, ws.length + 1, ?_⟩, fun _ _ => ⟨?_, ?_⟩,
        fun h => absurd h (by simp [hp]), fun h => absurd h (by simp [ho])⟩
      · rw [length_append]
        omega
      · simp only [hprod, hall, prefix_rfl]
      · rw [length_append, hlen]
      · rw [take_of_length_le (by simp), hprod, hall]
      · rw [hprod, hall]
      · exact forall_mem_append.mpr ⟨hsent, forall_mem_singleton.mpr fun hf => hf.2 hw⟩

theorem fixedWrites_eq (declared : Nat) (bodies : List Bytes) :
    fixedWrites declared bodies =
        ⟨(sink declared (bodies.map (·, none))).wire, (sink declared (bodies.map (·, none))).overrun⟩ ∧
      (sink declared (bodies.map (·, none))).peerGone = false := by
  induction bodies using List.reverseRecOn with
  | nil => exact ⟨rfl, rfl⟩
  | append_singleton bodies s ih =>
    have hkept := sink_kept declared (bodies.map (·, none))
    simp only [fixedWrites, sink, map_append, map_singleton, foldl_concat] at ih hkept ⊢
    generalize (bodies.map fun s => (s, (none : Option Nat))).foldl _ ({} : Sink) = k at ih hkept ⊢
    have hlen := (hkept.whole ih.2).1
    rw [ih.1, fixedWrite, Sink.write, ih.2, hlen]
    simp only [Bool.or_false]
    split
    · exact ⟨rfl, ih.2⟩
    split
    · exact ⟨rfl, rfl⟩
    · exact ⟨rfl, rfl⟩

theorem Kept.present (h : Kept declared ws k) (hsent : ∀ w ∈ ws, ¬ Fails w) :
    k.peerGone = false := by
  by_contra hgone
  obtain ⟨w, hmem, hf⟩ := h.gone (by simpa using hgone)
  exact hsent w hmem hf

theorem Kept.clean (h : Kept declared ws k) (hlen : (produced ws).length = declared) :
    k.overrun = false := by
  by_contra hover
  have := h.overran (by simpa using hover)
  omega

theorem result_complete_iff (declared : Nat) (ws : List Write) :
    (sink declared ws).result declared = .complete ↔
      (produced ws).length = declared ∧ ∀ w ∈ ws, ¬ Fails w := by
  have h := sink_kept declared ws
  generalize sink declared ws = k at h ⊢
  unfold Sink.result
  constructor
  · intro hc
    split_ifs at hc with hbad hp
    simp only [Bool.or_eq_true, decide_eq_true_eq, not_or, Bool.not_eq_true, not_not] at hbad hp
    obtain ⟨hall, hsent⟩ := h.all hp hbad.1
    rw [← hall, ← (h.whole hp).1]
    exact ⟨hbad.2, hsent⟩
  rintro ⟨hlen, hsent⟩
  have ho := h.clean hlen
  have hp := h.present hsent
  have hwritten : k.written = declared := by rw [(h.whole hp).1, (h.all hp ho).1, hlen]
  simp [ho, hp, hwritten]

theorem materializeFixed_body (r : CoroHttpResponse) (capacity : Nat) :
    (materializeFixed r capacity).map (·.body) =
      if r.declared ≤ capacity ∧ r.writes.flatten.length = r.declared then some r.writes.flatten
      else none := by
  obtain ⟨heq, hp⟩ := fixedWrites_eq r.declared r.writes
  have h := sink_kept r.declared (r.writes.map (·, none))
  have hprod : produced (r.writes.map (·, none)) = r.writes.flatten := by
    simp [produced, Function.comp_def]
  generalize sink r.declared (r.writes.map (·, none)) = k at heq hp h
  have hdone : (fixedWrites r.declared r.writes).complete r.declared ↔
      r.writes.flatten.length = r.declared := by
    simp only [heq, FixedSink.complete, Bool.and_eq_true, Bool.not_eq_true', beq_iff_eq]
    constructor
    · rintro ⟨ho, hlen⟩
      rw [← hprod, ← (h.all hp ho).1, hlen]
    · intro hlen
      have ho := h.clean (by rw [hprod, hlen])
      exact ⟨ho, by rw [(h.all hp ho).1, hprod, hlen]⟩
  unfold materializeFixed
  by_cases hcap : r.declared ≤ capacity
  · simp only [Nat.not_lt.mpr hcap, if_false, hdone, hcap, true_and]
    split
    · rename_i hlen
      have hall := (h.all hp (h.clean (by rw [hprod, hlen]))).1
      simp only [heq, Option.map_some, hall, hprod]
    · rfl
  · simp [Nat.not_le.mp hcap, hcap]

/-- **The two ways of sending a fixed stream agree.** On the socket stand at most the
declared number of octets, the front of what the producer wrote, in whole writes
unless one fails to be sent; the result is complete exactly if the writes are as
long as declared and all sent. The other way, within its capacity, succeeds for
the writes that are as long as declared, with all of them as the body. -/
theorem fixed_paths_agree (response : CoroHttpResponse) (capacity : Nat) (ws : List Write) :
    let r := { response with streamProducer := some (ws.map (·.1)) }
    let k := sink r.declared ws
    k.wire.length ≤ r.declared ∧ k.wire <+: r.writes.flatten ∧
      ((∀ w ∈ ws, ¬ Fails w) → ∃ n, k.wire = (r.writes.take n).flatten) ∧
      (k.result r.declared = .complete ↔
        r.writes.flatten.length = r.declared ∧ ∀ w ∈ ws, ¬ Fails w) ∧
      (k.result r.declared = .complete → k.wire = r.writes.flatten) ∧
      (materializeFixed r capacity).map (·.body) =
        if r.declared ≤ capacity ∧ r.writes.flatten.length = r.declared then some r.writes.flatten
        else none := by
  intro r k
  have h : Kept r.declared ws k := sink_kept r.declared ws
  have hprod : produced ws = r.writes.flatten := rfl
  have hcomplete := result_complete_iff r.declared ws
  rw [hprod] at hcomplete
  refine ⟨h.bound, hprod ▸ h.wire, fun hsent => ?_, hcomplete, fun hc => ?_,
    materializeFixed_body r capacity⟩
  · obtain ⟨-, n, hn⟩ := h.whole (h.present hsent)
    exact ⟨n, by rw [hn, produced, map_take]; rfl⟩
  · obtain ⟨hlen, hsent⟩ := hcomplete.mp hc
    rw [← hprod]
    exact (h.all (h.present hsent) (h.clean (hprod ▸ hlen))).1

/-- A write of two octets that fails after the first. -/
theorem fixed_write_cut :
    let r : CoroHttpResponse := { streamProducer := some [ascii "ab"], fixedStreamLength := 2 }
    let k := sink r.declared [(ascii "ab", some 1)]
    (∀ n, k.wire ≠ (r.writes.take n).flatten) ∧ k.overrun = false ∧
      r.writes.flatten.length = r.declared ∧ k.result r.declared ≠ .complete ∧
      (materializeFixed r 2).isSome = true := by
  refine ⟨fun n => ?_, by decide, by decide, by decide, by decide +kernel⟩
  cases n with
  | zero => decide
  | succ n => rw [take_of_length_le (by simp [CoroHttpResponse.writes])]; decide

end BoltApi.Http1.FixedStream
