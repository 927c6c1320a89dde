import BoltApi.Lib.History
import BoltApi.Http2.ReceiveRefinement
import Mathlib.Algebra.Ring.Int.Defs

/-! # Limits of HTTP/2 over whole runs -/
namespace BoltApi.Http2.FlowControl
open List Wire Connection Receive Protocol Refinement ReceiveRefinement Lib.History

variable {X : Type}

/-- **A connection stays within its limits**: the streams and the ranges of their windows. A
client that is closed has no streams. -/
theorem connection_bounded (w : World X) (isServer : Bool) (x : X) (ops : List Op) :
    let c := run w isServer x ops
    (c.streams.map (·.id)).Nodup ∧ c.streams.length ≤ kMaxConcurrentStreams ∧
      (∀ s ∈ c.streams,
        s.id ≤ c.lastStreamId ∧ WindowRange s.sendWindow ∧ RecvRange s.recvWindow) ∧
      RecvRange c.connectionRecvWindow ∧
      (c.isServer = false → c.state = .closed → c.streams = []) := by
  have h := (run_steps w isServer x ops (p := True) (.inl trivial)).tidy
  refine ⟨h.nodup, h.small, fun s hs => ?_, h.sound.recv, h.emptied⟩
  obtain ⟨-, hss⟩ := h.sound.stream ((Lib.Keyed.find_eq_some_iff h.nodup).mpr ⟨hs, rfl⟩)
  exact ⟨hss.le_last, hss.window, hss.recv⟩

/-! ## The connection's send window -/

def credit : Event → Int
  | .received f => if f.type = .windowUpdate ∧ f.streamId = 0 then getU31 f.payload else 0
  | .queued f => if f.type = .data then -f.length else 0
  | _ => 0

def balance (t : List Event) : Int := 65535 + (t.map credit).sum

theorem balance_append (t es : List Event) :
    balance (t ++ es) = balance t + (es.map credit).sum := by
  simp only [balance, map_append, sum_append, add_assoc]

def due : Option Held → Int
  | none => 0
  | some g => credit (.received g.frame)

theorem due_nonneg (hand : Option Held) : 0 ≤ due hand := by
  cases hand with
  | none => exact Int.le_refl 0
  | some g =>
    simp only [due, credit]
    split
    · exact Int.natCast_nonneg _
    · exact Int.le_refl 0

/-- An event that uses credit finds it. -/
def Paid (before : List Event) (ev : Event) : Prop := credit ev < 0 → 0 ≤ balance before + credit ev

structure Funded (e : Endpoint) : Prop where
  window : e.sendWindow + due e.hand ≤ balance e.trace
  paid : Each Paid e.trace

variable {early : Prop} {e e' : Endpoint} {es : List Event}

theorem Funded.event (h : Funded e) {ev} (hev : Paid e.trace ev)
    (hw : e'.sendWindow + due e'.hand ≤ balance e.trace + credit ev)
    (ht : e'.trace = e.trace ++ [ev]) : Funded e' := by
  refine ⟨?_, ht ▸ h.paid.snoc hev⟩
  rwa [ht, balance_append, map_singleton, sum_singleton]

theorem Funded.quiet (h : Funded e) (hw : e'.sendWindow = e.sendWindow)
    (hd : due e'.hand ≤ due e.hand) (hes : ∀ ev ∈ es, credit ev = 0)
    (ht : e'.trace = e.trace ++ es) : Funded e' := by
  have hsum : (es.map credit).sum = 0 := by
    rw [map_congr_left hes]
    simp
  have := h.window
  refine ⟨?_, ht ▸ h.paid.append_of_forall fun ev hev _ hlt => ?_⟩
  · rw [ht, balance_append, hsum, hw]
    omega
  · exact absurd hlt (hes ev hev ▸ Int.lt_irrefl 0)

theorem credit_headerBlock {id b fs} (h : IsHeaderBlock id b fs) :
    ∀ ev ∈ fs.map Event.queued, credit ev = 0 := by
  obtain ⟨f, rest, rfl, hf, -, -, hrest⟩ := h
  intro ev hev
  obtain ⟨g, hg, rfl⟩ := mem_map.mp hev
  rcases mem_cons.mp hg with rfl | hg
  · simp [credit, hf]
  · simp [credit, (hrest g hg).1]

theorem Funded.step (h : Funded e) (hs : Step early e e') : Funded e' := by
  have hnil : ∀ ev ∈ ([] : List Event), credit ev = 0 := forall_mem_nil _
  have hone : ∀ {ev : Event}, credit ev = 0 → ∀ ev' ∈ [ev], credit ev' = 0 :=
    fun hev ev' h' => mem_singleton.mp h' ▸ hev
  have hw := h.window
  cases hs with
  | receive f hhand =>
    rw [hhand, due, add_zero] at hw
    refine h.event (fun hlt => ?_) (Int.add_le_add_right hw _) rfl
    exact absurd (due_nonneg (held f)) (Int.not_le.mpr hlt)
  | done | settings => exact h.quiet rfl (due_nonneg _) hnil (append_nil _).symm
  | window | goawayReceived | preface | seen | close =>
    exact h.quiet rfl (Int.le_refl _) hnil (append_nil _).symm
  | control f hf =>
    refine h.quiet rfl (Int.le_refl _) (hone ?_) rfl
    rcases hf with hf | hf | hf | hf <;> simp [credit, hf]
  | fatal | fatalSettings | graceful | openServer | finish =>
    exact h.quiet rfl (Int.le_refl _) (hone rfl) rfl
  | grant f hhand htype hid hmax =>
    rw [hhand] at hw
    simp only [due, credit, htype, hid, and_self, if_true] at hw
    exact ⟨by rwa [due, add_zero], h.paid⟩
  | stream s s' es hand hget ht =>
    cases ht with
    | grant | requestData => exact h.quiet rfl (due_nonneg _) hnil rfl
    | refill | requestTrailers => exact h.quiet rfl (Int.le_refl _) hnil rfl
    | respond _ _ _ _ hfs =>
      refine h.quiet rfl (Int.le_refl _) ?_ rfl
      exact forall_mem_cons.mpr ⟨rfl, credit_headerBlock hfs⟩
    | spoil hf =>
      refine h.quiet rfl ?_ hnil rfl
      rw [hf.1]
      exact Int.le_refl _
    | request | interim | final | responseTrailers =>
      exact h.quiet rfl (Int.le_refl _) (hone rfl) rfl
    | responseData =>
      refine h.quiet rfl (due_nonneg _) ?_ rfl
      simp only [dataEvents]
      split
      · exact hnil
      · exact hone rfl
  | pump s n hget hst hhand hpending hn hmax hwin =>
    have hlen : credit (.queued (Http2Connection.dataFrame s n)) = -n := by
      simp [credit, Http2Connection.dataFrame, Frame.length]
      omega
    rw [hhand, due] at hw
    refine h.event (fun _ => ?_) ?_ rfl
    · rw [hlen]
      omega
    · rw [hlen]
      simp only [Endpoint.log, Endpoint.put, hhand, due]
      omega
  | openClient id fields facts body fs _ _ _ _ hfs =>
    refine h.quiet rfl (Int.le_refl _) ?_ rfl
    exact forall_mem_cons.mpr ⟨rfl, forall_mem_cons.mpr ⟨rfl, credit_headerBlock hfs⟩⟩

/-- **No DATA beyond the credit.** In every run, each DATA frame is covered by what is then
left of the initial window and the WINDOW_UPDATE frames received. -/
theorem data_within_credit (w : World X) (isServer : Bool) (x : X) (ops : List Op) :
    Each Paid (run w isServer x ops).trace := by
  have hstart : Funded (view none (Http2Connection.create isServer x)) := by
    refine ⟨Int.le_refl 65535, each_of_forall fun ev hev _ hlt => ?_⟩
    cases mem_singleton.mp hev
    exact absurd hlt (Int.lt_irrefl 0)
  have hrun := run_steps w isServer x ops (p := True) (.inl trivial)
  exact (hrun.steps.keeps (fun _ _ => Funded.step) hstart).paid

end BoltApi.Http2.FlowControl
