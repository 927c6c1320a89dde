import BoltApi.Lib.History
import BoltApi.Quic.Recovery

/-! # Bytes in flight

`bytes_in_flight_` is adjusted by every operation on the trackers, and set outright by
none but the promotion to the established state; a restart forgets the trackers and
leaves the counter. Both are conserved exactly when nothing was in flight that the other
one keeps. -/
namespace BoltApi.Quic.Recovery
open Lib.History List Function

def weight (picks : SentPacket → Bool) (sent : List SentPacket) : Nat :=
  ((sent.filter picks).map SentPacket.size).sum

variable (picks : SentPacket → Bool)

@[simp] theorem weight_nil : weight picks [] = 0 := rfl

@[simp] theorem weight_cons (s : SentPacket) (sent : List SentPacket) :
    weight picks (s :: sent) = (if picks s then s.size else 0) + weight picks sent := by
  cases h : picks s <;> simp [weight, h]

@[simp] theorem weight_append (sent rest : List SentPacket) :
    weight picks (sent ++ rest) = weight picks sent + weight picks rest := by
  simp [weight]

/-- The bytes of the tracked packets of all spaces that are ack-eliciting and neither
acknowledged, lost nor discarded. -/
def outstanding (r : Recovery) : Nat :=
  weight SentPacket.unresolved (r.sent .initial) +
    weight SentPacket.unresolved (r.sent .handshake) +
    weight SentPacket.unresolved (r.sent .application)

def Balanced (r : Recovery) : Prop := r.bytesInFlight = r.outstanding

def Tidy (r : Recovery) : Prop := ∀ sp, ∀ s ∈ r.sent sp, s.inFlight = s.unresolved

variable {r r' : Recovery} {sent : List SentPacket} {sp : Space}

theorem outstanding_update (h : r'.sent = update r.sent sp sent) :
    r'.outstanding + weight SentPacket.unresolved (r.sent sp) =
      r.outstanding + weight SentPacket.unresolved sent := by
  cases sp <;> simp [outstanding, h, update] <;> omega

theorem Tidy.update (h : r.Tidy) (heq : r'.sent = update r.sent sp sent)
    (hsent : ∀ s ∈ sent, s.inFlight = s.unresolved) : r'.Tidy := by
  intro sp' s hs
  rw [heq] at hs
  by_cases hsp : sp' = sp
  · subst hsp
    exact hsent s (by simpa using hs)
  · exact h sp' s (by simpa [update_of_ne hsp] using hs)

/-! ## Resolving packets -/

def Settles (mark : SentPacket → SentPacket) : Prop :=
  ∀ s, (mark s).inFlight = false ∧ (mark s).unresolved = false

theorem settles_markAcked : Settles SentPacket.markAcked := fun s => by
  simp [SentPacket.markAcked, SentPacket.unresolved]

theorem settles_markLost : Settles SentPacket.markLost := fun s => by
  simp [SentPacket.markLost, SentPacket.unresolved]

variable {mark : SentPacket → SentPacket}

theorem weight_map_mark (hmark : Settles mark) (picks : SentPacket → Bool)
    (h : ∀ s ∈ sent, s.inFlight = s.unresolved) :
    weight SentPacket.unresolved (sent.map fun s => if picks s then mark s else s) +
      weight (fun s => picks s && s.inFlight) sent = weight SentPacket.unresolved sent := by
  induction sent with
  | nil => rfl
  | cons s sent ih =>
    have ih := ih fun s hs => h s (mem_cons_of_mem _ hs)
    have hs := h s mem_cons_self
    cases hp : picks s <;> simp [hp, hs, (hmark s).2] <;> omega

structure Sound (r : Recovery) : Prop where
  tidy : r.Tidy
  balanced : r.Balanced

theorem Tidy.resolve (h : r.Tidy) (sp : Space) (picks : SentPacket → Bool) (hmark : Settles mark) :
    (r.resolve sp picks mark).Tidy := by
  refine h.update rfl fun s hs => ?_
  obtain ⟨t, ht, rfl⟩ := mem_map.mp hs
  split
  · rw [(hmark t).1, (hmark t).2]
  · exact h sp t ht

theorem outstanding_resolve (h : r.Tidy) (sp : Space) (picks : SentPacket → Bool) (hmark : Settles mark) :
    (r.resolve sp picks mark).outstanding + weight (fun s => picks s && s.inFlight) (r.sent sp) =
      r.outstanding := by
  have hsum := @outstanding_update r (r.resolve sp picks mark) _ sp rfl
  have hmap := weight_map_mark hmark picks (h sp)
  omega

section
variable (h : r.Sound)
include h

theorem Sound.resolve (sp : Space) (picks : SentPacket → Bool) (hmark : Settles mark) :
    (r.resolve sp picks mark).Sound := by
  refine ⟨h.tidy.resolve sp picks hmark, ?_⟩
  have hout := outstanding_resolve h.tidy sp picks hmark
  have hbal : r.bytesInFlight = r.outstanding := h.balanced
  change r.bytesInFlight - weight (fun s => picks s && s.inFlight) (r.sent sp) = _
  omega

theorem Sound.of_eq (hsent : r'.sent = r.sent)
    (hbytes : r'.bytesInFlight = r.bytesInFlight) : r'.Sound := by
  refine ⟨fun sp s hs => h.tidy sp s (hsent ▸ hs), ?_⟩
  have hbal : r.bytesInFlight = r.outstanding := h.balanced
  simpa [Balanced, outstanding, hsent, hbytes] using hbal

theorem Sound.lose (sp : Space) (picks : SentPacket → Bool) :
    (r.lose sp picks).Sound :=
  (h.resolve sp picks settles_markLost).of_eq rfl rfl

/-! ## The operations -/

theorem Sound.evict (sp : Space) : (r.evict sp).Sound := by
  unfold Recovery.evict
  split
  · exact h
  rename_i old rest hsent
  split
  · refine ⟨h.tidy.update rfl fun t ht => h.tidy sp t (hsent ▸ mem_cons_of_mem _ ht), ?_⟩
    have hfreed : ∀ q : Recovery, q.sent = update r.sent sp rest →
        q.bytesInFlight = r.bytesInFlight - (if old.inFlight then old.size else 0) →
        q.Balanced := by
      intro q hq hbytes
      have hsum := outstanding_update hq
      have hbal : r.bytesInFlight = r.outstanding := h.balanced
      rw [hsent, weight_cons, ← h.tidy sp old (hsent ▸ mem_cons_self)] at hsum
      unfold Balanced
      omega
    exact hfreed _ rfl rfl
  · exact h

theorem Sound.track (sp : Space) {s : SentPacket} (hs : s.inFlight = s.unresolved)
    (hnew : s.unresolved = s.ackEliciting) : (r.track sp s).Sound := by
  refine ⟨h.tidy.update rfl fun t ht => ?_, ?_⟩
  · rcases mem_append.mp ht with ht | ht
    · exact h.tidy sp t ht
    · rwa [mem_singleton.mp ht]
  have hsum := @outstanding_update r (r.track sp s) _ sp rfl
  have hbal : r.bytesInFlight = r.outstanding := h.balanced
  simp only [weight_append, weight_cons, weight_nil, hnew] at hsum
  change r.bytesInFlight + (if s.ackEliciting then s.size else 0) = _
  omega

theorem Sound.send (sp : Space) (now wire : Nat)
    (ackEliciting : Bool) (carried : List ControlFrame) :
    (r.send sp now wire ackEliciting carried).Sound := by
  have hadv : (r.advance sp).Sound := h.of_eq rfl rfl
  unfold Recovery.send Recovery.recordSent
  split
  · exact hadv.of_eq rfl rfl
  · exact (hadv.evict sp).track sp (by simp [packet, SentPacket.unresolved])
      (by simp [packet, SentPacket.unresolved])

omit h in
theorem Sound.ackRanges {largest now} (bounds : List (Nat × Nat)) {r} (h : r.1.Sound) :
    (bounds.foldl (ackRange sp largest now) r).1.Sound := by
  induction bounds generalizing r with
  | nil => exact h
  | cons bound bounds ih =>
    refine ih ?_
    have hnext := h.resolve sp (inRange bound.1 bound.2) settles_markAcked
    unfold ackRange
    split
    · exact hnext.of_eq rfl rfl
    · exact hnext

theorem Sound.handleAck (sp : Space) (a : AckFrame) (now : Nat) :
    (r.handleAck sp a now).Sound := by
  unfold Recovery.handleAck
  split
  · have hacked : (r.beforeLoss sp a now).Sound := by
      have hfold := @Sound.ackRanges sp a.largestAcked now a.bounds
        (r.raise sp a.largestAcked, none) (h.of_eq rfl rfl)
      unfold beforeLoss acknowledge
      generalize a.bounds.foldl _ _ = acked at hfold ⊢
      obtain ⟨q, _ | rtt⟩ := acked
      · exact hfold
      dsimp only
      split
      · exact hfold.of_eq rfl rfl
      · exact hfold
    exact hacked.lose sp _
  · exact h

theorem Sound.expire (sp : Space) : (r.expire sp).Sound := by
  unfold Recovery.expire
  split
  · exact h.lose sp _
  · exact h

theorem Sound.discardSpace (sp : Space) : (r.discardSpace sp).Sound := by
  unfold Recovery.discardSpace
  split
  · exact h
  · exact (h.resolve sp _ settles_markAcked).of_eq rfl rfl

end

theorem weight_all (h : ∀ s ∈ sent, s.inFlight = s.unresolved) :
    weight (fun s => true && s.inFlight) sent = weight SentPacket.unresolved sent := by
  unfold weight
  rw [filter_congr fun s hs => by rw [Bool.true_and, h s hs]]

/-! ## Steps and runs -/

/-- What has to be out of flight when the counter or the trackers are reset. -/
def Clear (r : Recovery) : Event → Prop
  | .establish =>
    weight SentPacket.unresolved (r.sent .initial) = 0 ∧
      weight SentPacket.unresolved (r.sent .application) = 0 ∧
      (r.discarded .handshake → weight SentPacket.unresolved (r.sent .handshake) = 0)
  | .restart => r.outstanding = 0
  | _ => True

theorem Tidy.establish (h : r.Tidy) : r.establish.Tidy := by
  have hzero : Tidy { r with bytesInFlight := 0 } := h
  unfold Recovery.establish Recovery.discardSpace
  split
  · exact hzero
  · exact hzero.resolve .handshake _ settles_markAcked

theorem balanced_establish_iff (h : r.Tidy) : r.establish.Balanced ↔ r.Clear .establish := by
  have hout := @outstanding_resolve { r with bytesInFlight := 0 } _ h .handshake
    (fun _ => true) settles_markAcked
  rw [weight_all (h .handshake)] at hout
  by_cases hd : r.discarded .handshake = true
  · have heq : r.establish = { r with bytesInFlight := 0 } := by
      simp [Recovery.establish, Recovery.discardSpace, hd]
    simp only [heq, Clear, Balanced, outstanding, hd, true_imp_iff]
    omega
  have heq : r.establish.Balanced ↔
      0 = (({ r with bytesInFlight := 0 } : Recovery).resolve .handshake
        (fun _ => true) SentPacket.markAcked).outstanding := by
    simp [Recovery.establish, Recovery.discardSpace, hd, Balanced, resolve, outstanding]
  rw [heq]
  simp only [Clear, hd, false_imp_iff, and_true, Bool.false_eq_true]
  have hr : Recovery.outstanding { r with bytesInFlight := 0 } = r.outstanding := rfl
  rw [hr] at hout
  unfold outstanding at hout ⊢
  omega

theorem Tidy.step (h : r.Sound) (ev : Event) : (r.step ev).Tidy := by
  cases ev with
  | send sp now wire ackEliciting carried =>
    exact (h.send sp now wire ackEliciting carried).tidy
  | ack sp a now => exact (h.handleAck sp a now).tidy
  | pto sp => exact (h.expire sp).tidy
  | speedUp => exact ((h.lose .initial _).lose .handshake _).tidy
  | discard sp => exact (h.discardSpace sp).tidy
  | establish => exact h.tidy.establish
  | restart => exact fun sp s hs => absurd hs not_mem_nil

theorem balanced_step_iff (h : r.Sound) (ev : Event) : (r.step ev).Balanced ↔ r.Clear ev := by
  cases ev with
  | send sp now wire ackEliciting carried =>
    exact iff_of_true (h.send sp now wire ackEliciting carried).balanced trivial
  | ack sp a now => exact iff_of_true (h.handleAck sp a now).balanced trivial
  | pto sp => exact iff_of_true (h.expire sp).balanced trivial
  | speedUp => exact iff_of_true ((h.lose .initial _).lose .handshake _).balanced trivial
  | discard sp => exact iff_of_true (h.discardSpace sp).balanced trivial
  | establish => exact balanced_establish_iff h.tidy
  | restart =>
    have hbal : r.bytesInFlight = r.outstanding := h.balanced
    change r.bytesInFlight = 0 ↔ r.outstanding = 0
    rw [hbal]

theorem sound_run {events} (h : Each (fun before ev => (run before).Clear ev) events) :
    (run events).Sound := by
  refine Each.invariant (fun events => (run events).Sound) h
    ⟨fun sp s hs => absurd hs not_mem_nil, rfl⟩ fun before ev hsound hclear => ?_
  rw [run_append]
  exact ⟨Tidy.step hsound ev, (balanced_step_iff hsound ev).mpr hclear⟩

/-- The counter is the weight of the unresolved packets after every event of a run
exactly if each promotion finds no Initial or 1-RTT packet in flight (nor a Handshake
packet once those are discarded) and each restart finds nothing in flight. -/
theorem balanced_iff_clear (events : List Event) :
    (∀ reached, reached <+: events → (run reached).Balanced) ↔
      Each (fun before ev => (run before).Clear ev) events := by
  constructor
  · intro h
    induction events using List.reverseRecOn with
    | nil => exact each_nil
    | append_singleton events ev ih =>
      have hbefore := ih fun reached hpre => h reached (hpre.trans (prefix_append _ _))
      have hlast := h _ prefix_rfl
      rw [run_append] at hlast
      exact hbefore.snoc ((balanced_step_iff (sound_run hbefore) ev).mp hlast)
  · intro h reached hpre
    exact (sound_run (h.of_isPrefix hpre)).balanced

/-- A ClientHello in an Initial packet of 1200 bytes is answered by a Retry: the new one
finds the counter at 1200 already. -/
theorem retry_counts_twice :
    (run [.send .initial 0 1200 true [], .restart, .send .initial 100 1200 true []]).bytesInFlight
        = 2400 ∧
      (run [.send .initial 0 1200 true [], .restart,
        .send .initial 100 1200 true []]).outstanding = 1200 := by
  decide +kernel

end BoltApi.Quic.Recovery
