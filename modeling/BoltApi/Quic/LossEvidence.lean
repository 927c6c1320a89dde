import BoltApi.Lib.History
import BoltApi.Quic.Recovery
import Mathlib.Order.Nat

/-! # Evidence of loss

`detect_loss` compares a packet with the largest number acknowledged in its own space,
but with the send time of the packet that any space had acknowledged last. The runs here
are watched: beside the recovery state stands what was sent and what ACK frames named
since the last restart, which is what evidence is about. -/
namespace BoltApi.Quic.Recovery
open Lib.History List Function

variable (r : Recovery) (sp : Space)

def newlyAcks (a : AckFrame) : Bool :=
  (r.sent sp).any fun s => s.pn == a.largestAcked && !s.acked && !s.lost

structure Watch where
  recovery : Recovery := {}
  sentAt : Space → List (Nat × Nat) := fun _ => []
  named : Space → List AckFrame := fun _ => []
  own : Space → Bool := fun _ => true
  clock : Nat := 0

namespace Watch

def accept (w : Watch) (sp : Space) (a : AckFrame) : Watch :=
  { w with
    named := update w.named sp (w.named sp ++ [a])
    own := if w.recovery.newlyAcks sp a then (· == sp) else w.own }

def step (w : Watch) (ev : Event) : Watch :=
  match ev with
  | .send sp now wire _ _ =>
    { w with
      recovery := w.recovery.step ev
      sentAt := if wire = 0 then w.sentAt
        else update w.sentAt sp (w.sentAt sp ++ [(w.recovery.nextPn sp, now)])
      clock := now }
  | .ack sp a _ =>
    if w.recovery.acceptable sp a then { w.accept sp a with recovery := w.recovery.step ev }
    else w
  | .restart =>
    { w with
      recovery := w.recovery.step ev
      sentAt := fun _ => []
      named := fun _ => []
      own := fun _ => w.recovery.timeLargestAckedSent == 0 }
  | _ => { w with recovery := w.recovery.step ev }

def run (events : List Event) : Watch := events.foldl step {}

theorem run_append (events : List Event) (ev : Event) :
    run (events ++ [ev]) = (run events).step ev := by simp [run]

theorem step_recovery (w : Watch) (ev : Event) : (w.step ev).recovery = w.recovery.step ev := by
  cases ev <;> try rfl
  case ack sp a now =>
    by_cases h : w.recovery.acceptable sp a = true
    · simp [step, h]
    · simp [step, h, Recovery.step, handleAck]

def Acknowledged (w : Watch) (sp : Space) (n : Nat) : Prop :=
  ∃ a ∈ w.named sp, ∃ b ∈ a.bounds, b.1 ≤ n ∧ n ≤ b.2

/-- A later packet of the space was acknowledged, and is ahead by the packet or by the
time threshold. -/
def Evidence (w : Watch) (sp : Space) (s : SentPacket) (delay : Nat) : Prop :=
  ∃ n, s.pn < n ∧ w.Acknowledged sp n ∧
    (s.pn + 3 ≤ n ∨ ∃ t, (n, t) ∈ w.sentAt sp ∧ s.timeSent + delay ≤ t)

end Watch

/-! ## What an operation leaves alone -/

structure Traces (r r' : Recovery) : Prop where
  sent : ∀ sp, ∀ s ∈ r'.sent sp, ∃ t ∈ r.sent sp, t.pn = s.pn ∧ t.timeSent = s.timeSent
  nextPn : r'.nextPn = r.nextPn

structure Keeps (r r' : Recovery) : Prop extends Traces r r' where
  largest : r'.largestAcked = r.largestAcked
  time : r'.timeLargestAckedSent = r.timeLargestAckedSent

theorem Traces.trans {r q p} (h : Traces r q) (h' : Traces q p) : Traces r p := by
  refine ⟨fun sp s hs => ?_, h'.nextPn.trans h.nextPn⟩
  obtain ⟨t, ht, hpn, htime⟩ := h'.sent sp s hs
  obtain ⟨u, hu, hpn', htime'⟩ := h.sent sp t ht
  exact ⟨u, hu, hpn'.trans hpn, htime'.trans htime⟩

theorem Keeps.trans {r q p} (h : Keeps r q) (h' : Keeps q p) : Keeps r p :=
  ⟨h.toTraces.trans h'.toTraces, h'.largest.trans h.largest, h'.time.trans h.time⟩

theorem Keeps.of_eq {r : Recovery} {r' : Recovery} (hsent : r'.sent = r.sent) (hnext : r'.nextPn = r.nextPn)
    (hlargest : r'.largestAcked = r.largestAcked)
    (htime : r'.timeLargestAckedSent = r.timeLargestAckedSent) : Keeps r r' :=
  ⟨⟨fun _ s hs => ⟨s, hsent ▸ hs, rfl, rfl⟩, hnext⟩, hlargest, htime⟩

theorem keeps_resolve (picks : SentPacket → Bool) (mark : SentPacket → SentPacket)
    (hmark : ∀ s, (mark s).pn = s.pn ∧ (mark s).timeSent = s.timeSent) :
    Keeps r (r.resolve sp picks mark) := by
  refine ⟨⟨fun sp' s hs => ?_, rfl⟩, rfl, rfl⟩
  by_cases hsp : sp' = sp
  · subst hsp
    simp only [resolve, update_self, mem_map] at hs
    obtain ⟨t, ht, rfl⟩ := hs
    refine ⟨t, ht, ?_⟩
    split
    · exact ⟨(hmark t).1.symm, (hmark t).2.symm⟩
    · exact ⟨rfl, rfl⟩
  · simp only [resolve, update_of_ne hsp] at hs
    exact ⟨s, hs, rfl, rfl⟩

theorem keeps_lose (picks : SentPacket → Bool) : Keeps r (r.lose sp picks) :=
  (keeps_resolve r sp picks SentPacket.markLost fun _ => ⟨rfl, rfl⟩).trans (.of_eq rfl rfl rfl rfl)

theorem keeps_discardSpace : Keeps r (r.discardSpace sp) := by
  unfold discardSpace
  split
  · exact .of_eq rfl rfl rfl rfl
  · exact (keeps_resolve r sp _ SentPacket.markAcked fun _ => ⟨rfl, rfl⟩).trans (.of_eq rfl rfl rfl rfl)

theorem keeps_expire : Keeps r (r.expire sp) := by
  unfold expire
  split
  · exact keeps_lose r sp _
  · exact .of_eq rfl rfl rfl rfl

theorem keeps_evict : Keeps r (r.evict sp) := by
  unfold evict
  split
  · exact .of_eq rfl rfl rfl rfl
  rename_i old rest hsent
  split
  · refine ⟨⟨fun sp' s hs => ⟨s, ?_, rfl, rfl⟩, rfl⟩, rfl, rfl⟩
    by_cases hsp : sp' = sp
    · subst hsp
      rw [hsent]
      exact mem_cons_of_mem _ (by simpa using hs)
    · simpa [update_of_ne hsp] using hs
  · exact .of_eq rfl rfl rfl rfl

/-! ## Acknowledging -/

/-- What the ranges of a frame do: `Acks r sp n r'` says that `r'` comes from `r` by
acknowledging packets of `sp`, and where the time came from if `n` was among them. -/
structure Acks (r : Recovery) (sp : Space) (n : Nat) (r' : Recovery) : Prop extends
    Traces r r' where
  largest : r'.largestAcked = r.largestAcked
  others : ∀ sp', sp' ≠ sp → r'.sent sp' = r.sent sp'
  fresh : ∀ s ∈ r'.sent sp, s.acked = false → s.lost = false → s ∈ r.sent sp
  time : r'.timeLargestAckedSent = r.timeLargestAckedSent ∨
    ∃ s ∈ r.sent sp, s.pn = n ∧ s.acked = false ∧ s.lost = false ∧
      r'.timeLargestAckedSent = s.timeSent

theorem Acks.refl (n : Nat) : Acks r sp n r :=
  ⟨⟨fun _ s hs => ⟨s, hs, rfl, rfl⟩, rfl⟩, rfl, fun _ _ => rfl, fun _ hs _ _ => hs, .inl rfl⟩

theorem acks_ackRange {r sp n p} (h : Acks r sp n p.1) (now : Nat) (bound : Nat × Nat) :
    Acks r sp n (ackRange sp n now p bound).1 := by
  have hkeeps := keeps_resolve p.1 sp (inRange bound.1 bound.2) SentPacket.markAcked
    fun _ => ⟨rfl, rfl⟩
  have hacked : Acks r sp n (p.1.resolve sp (inRange bound.1 bound.2) SentPacket.markAcked) := by
    refine ⟨h.toTraces.trans hkeeps.toTraces, hkeeps.largest.trans h.largest, ?_, ?_, h.time⟩
    · intro sp' hsp
      rw [← h.others sp' hsp]
      exact update_of_ne hsp _ _
    intro s hs ha hl
    simp only [resolve, update_self, mem_map] at hs
    obtain ⟨t, ht, rfl⟩ := hs
    split at ha
    · simp [SentPacket.markAcked] at ha
    · rename_i hout
      rw [if_neg hout] at hl ⊢
      exact h.fresh t ht ha hl
  unfold ackRange
  split
  · rename_i s hfind
    have hs := mem_of_find?_eq_some hfind
    have htest := List.find?_some hfind
    simp only [inRange, Bool.and_eq_true, Bool.not_eq_true', beq_iff_eq] at htest
    obtain ⟨⟨⟨_, ha⟩, hl⟩, hpn⟩ := htest
    exact ⟨⟨hacked.sent, hacked.nextPn⟩, hacked.largest, hacked.others, hacked.fresh,
      .inr ⟨s, h.fresh s hs ha hl, hpn, ha, hl, rfl⟩⟩
  · exact hacked

theorem acks_ranges {r sp n} (now : Nat) (bounds : List (Nat × Nat)) {p} (h : Acks r sp n p.1) :
    Acks r sp n (bounds.foldl (ackRange sp n now) p).1 := by
  induction bounds generalizing p with
  | nil => exact h
  | cons bound bounds ih => exact ih (acks_ackRange h now bound)

theorem acks_beforeLoss (a : AckFrame) (now : Nat) :
    Acks (r.raise sp a.largestAcked) sp a.largestAcked (r.beforeLoss sp a now) := by
  have hfold := acks_ranges now a.bounds (p := (r.raise sp a.largestAcked, none))
    (Acks.refl _ sp a.largestAcked)
  unfold beforeLoss acknowledge
  generalize a.bounds.foldl _ _ = acked at hfold ⊢
  obtain ⟨q, _ | rtt⟩ := acked
  · exact hfold
  dsimp only
  split
  · exact ⟨⟨hfold.sent, hfold.nextPn⟩, hfold.largest, hfold.others, hfold.fresh, hfold.time⟩
  · exact hfold

theorem time_ranges {r : Recovery} {sp n p} (h : Acks r sp n p.1) (now : Nat) (bounds : List (Nat × Nat))
    (hset : ∃ s ∈ r.sent sp, s.pn = n ∧ p.1.timeLargestAckedSent = s.timeSent) :
    ∃ s ∈ r.sent sp, s.pn = n ∧
      (bounds.foldl (ackRange sp n now) p).1.timeLargestAckedSent = s.timeSent := by
  rcases (acks_ranges now bounds (Acks.refl p.1 sp n)).time with htime | ⟨s, hs, hpn, ha, hl, htime⟩
  · rwa [htime]
  · exact ⟨s, h.fresh s hs ha hl, hpn, htime⟩

theorem beforeLoss_time (a : AckFrame) (now : Nat) :
    (r.beforeLoss sp a now).timeLargestAckedSent =
      (a.bounds.foldl (ackRange sp a.largestAcked now)
        (r.raise sp a.largestAcked, none)).1.timeLargestAckedSent := by
  unfold beforeLoss acknowledge
  generalize a.bounds.foldl _ _ = acked
  obtain ⟨q, _ | rtt⟩ := acked
  · rfl
  · dsimp only
    split <;> rfl

theorem time_of_newlyAcks {r : Recovery} {sp : Space} {a : AckFrame} {now : Nat}
    (h : r.newlyAcks sp a) :
    ∃ s ∈ r.sent sp, s.pn = a.largestAcked ∧
      (r.beforeLoss sp a now).timeLargestAckedSent = s.timeSent := by
  obtain ⟨s, hs, htest⟩ := any_eq_true.mp h
  simp only [Bool.and_eq_true, beq_iff_eq, Bool.not_eq_true'] at htest
  obtain ⟨⟨hpn, ha⟩, hl⟩ := htest
  have hsome : ((r.sent sp).find? fun s => inRange (a.largestAcked - a.firstAckRange)
      a.largestAcked s && s.pn == a.largestAcked).isSome :=
    List.find?_isSome.mpr ⟨s, hs, by simp [inRange, hpn, ha, hl]⟩
  obtain ⟨t, ht⟩ := Option.isSome_iff_exists.mp hsome
  rw [beforeLoss_time]
  have hfirst := acks_ackRange (p := (r.raise sp a.largestAcked, none))
    (Acks.refl _ sp a.largestAcked) now (a.largestAcked - a.firstAckRange, a.largestAcked)
  refine time_ranges hfirst now _ ⟨t, mem_of_find?_eq_some ht, ?_, ?_⟩
  · have := List.find?_some ht
    simp only [Bool.and_eq_true, beq_iff_eq] at this
    exact this.2
  · simp [ackRange, raise, ht]

theorem time_of_not_newlyAcks {r : Recovery} {sp : Space} {a : AckFrame} {now : Nat}
    (h : r.newlyAcks sp a = false) :
    (r.beforeLoss sp a now).timeLargestAckedSent = r.timeLargestAckedSent := by
  rcases (acks_beforeLoss r sp a now).time with htime | ⟨s, hs, hpn, ha, hl, _⟩
  · exact htime
  · have := any_eq_false.mp h s hs
    simp [hpn, ha, hl] at this

theorem handleAck_others (a : AckFrame) (now : Nat) {sp'} (hsp : sp' ≠ sp) :
    (r.handleAck sp a now).sent sp' = r.sent sp' := by
  unfold handleAck
  split
  · have hothers := (acks_beforeLoss r sp a now).others sp' hsp
    exact (update_of_ne hsp _ _).trans hothers
  · rfl

theorem send_spec (now wire : Nat) (ackEliciting : Bool) (carried : List ControlFrame) :
    (∀ sp', ∀ s ∈ (r.send sp now wire ackEliciting carried).sent sp',
      (∃ t ∈ r.sent sp', t.pn = s.pn ∧ t.timeSent = s.timeSent) ∨
        (sp' = sp ∧ wire ≠ 0 ∧ s.pn = r.nextPn sp ∧ s.timeSent = now)) ∧
      (r.send sp now wire ackEliciting carried).nextPn =
        update r.nextPn sp (r.nextPn sp + 1) ∧
      (r.send sp now wire ackEliciting carried).largestAcked = r.largestAcked ∧
      (r.send sp now wire ackEliciting carried).timeLargestAckedSent =
        r.timeLargestAckedSent := by
  have hkeeps := keeps_evict (r.advance sp) sp
  by_cases hwire : wire = 0
  · simp only [send, recordSent, packet, hwire, if_true]
    exact ⟨fun sp' s hs => .inl ⟨s, hs, rfl, rfl⟩, rfl, rfl, rfl⟩
  simp only [send, recordSent, packet, hwire, if_false]
  refine ⟨fun sp' s hs => ?_, hkeeps.nextPn, hkeeps.largest, hkeeps.time⟩
  by_cases hsp : sp' = sp
  · subst hsp
    simp only [track, update_self, mem_append, mem_singleton] at hs
    rcases hs with hs | rfl
    · exact .inl (hkeeps.sent sp' s hs)
    · exact .inr ⟨rfl, hwire, rfl, rfl⟩
  · simp only [track, update_of_ne hsp] at hs
    exact .inl (hkeeps.sent sp' s hs)

/-! ## Watched runs -/

namespace Watch

/-- What the condition asks of an event: the clock does not run backwards, and an ACK
frame finds the time set by its own space, or sets it. -/
def Meets (w : Watch) : Event → Prop
  | .send _ now _ _ _ => w.clock ≤ now
  | .ack sp a _ =>
    w.recovery.acceptable sp a = true → w.recovery.newlyAcks sp a ∨ w.own sp = true
  | _ => True

instance (w : Watch) : (ev : Event) → Decidable (w.Meets ev)
  | .send .. => Nat.decLe _ _
  | .ack .. => inferInstanceAs (Decidable (_ → _))
  | .pto _ | .speedUp | .discard _ | .establish | .restart => .isTrue trivial

structure Holds (w : Watch) : Prop where
  tracked : ∀ sp, ∀ s ∈ w.recovery.sent sp, (s.pn, s.timeSent) ∈ w.sentAt sp
  past : ∀ sp, ∀ p ∈ w.sentAt sp, p.1 < w.recovery.nextPn sp ∧ p.2 ≤ w.clock
  ordered : ∀ sp, ∀ p ∈ w.sentAt sp, ∀ q ∈ w.sentAt sp, p.1 ≤ q.1 → p.2 ≤ q.2
  largest : ∀ sp n, w.recovery.largestAcked sp = some n → w.Acknowledged sp n
  owned : ∀ sp, w.own sp → w.recovery.timeLargestAckedSent = 0 ∨
    ∃ n, w.Acknowledged sp n ∧ (n, w.recovery.timeLargestAckedSent) ∈ w.sentAt sp

theorem Holds.keeps {w : Watch} (h : w.Holds) {r : Recovery} (hk : Keeps w.recovery r) :
    Holds { w with recovery := r } := by
  refine ⟨fun sp s hs => ?_, ?_, h.ordered, ?_, ?_⟩
  · obtain ⟨t, ht, hpn, htime⟩ := hk.sent sp s hs
    rw [← hpn, ← htime]
    exact h.tracked sp t ht
  · simpa only [hk.nextPn] using h.past
  · exact fun sp n hn => h.largest sp n (hk.largest ▸ hn)
  intro sp hown
  dsimp only
  rw [hk.time]
  exact h.owned sp hown

theorem Holds.send {w : Watch} (h : w.Holds) (sp : Space) {now : Nat} (wire : Nat)
    (ackEliciting : Bool) (carried : List ControlFrame) (hclock : w.clock ≤ now) :
    (w.step (.send sp now wire ackEliciting carried)).Holds := by
  obtain ⟨hsent, hnext, hlargest, htime⟩ := send_spec w.recovery sp now wire ackEliciting carried
  have hcount : ∀ sp', w.recovery.nextPn sp' ≤
      (w.recovery.send sp now wire ackEliciting carried).nextPn sp' := fun sp' => by
    rw [hnext]
    by_cases hsp : sp' = sp
    · subst hsp; simp
    · rw [update_of_ne hsp]
  -- What has gone out: as before, and the packet itself if it did.
  have hcases : ∀ sp', ∀ p ∈ (w.step (.send sp now wire ackEliciting carried)).sentAt sp',
      p ∈ w.sentAt sp' ∨ (sp' = sp ∧ p = (w.recovery.nextPn sp, now)) := by
    intro sp' p hp
    by_cases hwire : wire = 0
    · exact .inl (by simpa [Watch.step, hwire] using hp)
    by_cases hsp : sp' = sp
    · subst hsp
      simpa [Watch.step, hwire] using hp
    · exact .inl (by simpa [Watch.step, hwire, update_of_ne hsp] using hp)
  have hmono : ∀ sp', ∀ p ∈ w.sentAt sp',
      p ∈ (w.step (.send sp now wire ackEliciting carried)).sentAt sp' := by
    intro sp' p hp
    by_cases hwire : wire = 0
    · simpa [Watch.step, hwire] using hp
    by_cases hsp : sp' = sp
    · subst hsp
      simpa [Watch.step, hwire] using .inl hp
    · simpa [Watch.step, hwire, update_of_ne hsp] using hp
  refine ⟨fun sp' s hs => ?_, fun sp' p hp => ?_, fun sp' p hp q hq hle => ?_,
    fun sp' n hn => h.largest sp' n (hlargest ▸ hn), fun sp' hown => ?_⟩
  · rcases hsent sp' s hs with ⟨t, ht, hpn, hts⟩ | ⟨rfl, hwire, hpn, hts⟩
    · rw [← hpn, ← hts]
      exact hmono sp' _ (h.tracked sp' t ht)
    · simp [Watch.step, hwire, hpn, hts]
  · rcases hcases sp' p hp with hp | ⟨rfl, rfl⟩
    · have hpast := h.past sp' p hp
      exact ⟨hpast.1.trans_le (hcount sp'), hpast.2.trans hclock⟩
    · refine ⟨?_, le_rfl⟩
      change _ < (w.recovery.send sp' now wire ackEliciting carried).nextPn sp'
      simp [hnext]
  · rcases hcases sp' p hp with hp' | ⟨rfl, rfl⟩
    · rcases hcases sp' q hq with hq' | ⟨rfl, rfl⟩
      · exact h.ordered sp' p hp' q hq' hle
      · exact (h.past _ p hp').2.trans hclock
    · rcases hcases sp' q hq with hq' | ⟨_, rfl⟩
      · exact absurd (h.past sp' q hq').1 (Nat.not_lt.mpr hle)
      · exact le_rfl
  rcases h.owned sp' hown with hzero | ⟨n, hn, hsentAt⟩
  · exact .inl (htime.trans hzero)
  · refine .inr ⟨n, hn, hmono sp' _ ?_⟩
    change (n, (w.recovery.send sp now wire ackEliciting carried).timeLargestAckedSent) ∈ _
    rwa [htime]

theorem acknowledged_accept {w : Watch} (sp : Space) (a : AckFrame) {sp' : Space} {n : Nat}
    (h : w.Acknowledged sp' n) : (w.accept sp a).Acknowledged sp' n := by
  obtain ⟨b, hb, hrange⟩ := h
  refine ⟨b, ?_, hrange⟩
  by_cases hsp : sp' = sp
  · subst hsp
    simpa [accept] using .inl hb
  · simpa [accept, update_of_ne hsp] using hb

theorem acknowledged_largest (w : Watch) (sp : Space) (a : AckFrame) :
    (w.accept sp a).Acknowledged sp a.largestAcked :=
  ⟨a, by simp [accept], _, mem_cons_self, Nat.sub_le _ _, le_rfl⟩

theorem Holds.beforeLoss {w : Watch} (h : w.Holds) (sp : Space) (a : AckFrame) (now : Nat) :
    Holds { w.accept sp a with recovery := w.recovery.beforeLoss sp a now } := by
  have hacks := acks_beforeLoss w.recovery sp a now
  refine ⟨fun sp' s hs => ?_, fun sp' p hp => ?_, h.ordered, fun sp' n hn => ?_, fun sp' hown => ?_⟩
  · obtain ⟨t, ht, hpn, hts⟩ := hacks.sent sp' s hs
    rw [← hpn, ← hts]
    exact h.tracked sp' t ht
  · dsimp only
    rw [hacks.nextPn]
    exact h.past sp' p hp
  · change (w.accept sp a).Acknowledged sp' n
    dsimp only at hn
    rw [hacks.largest] at hn
    by_cases hsp : sp' = sp
    · subst hsp
      -- The larger of the two is one of them.
      cases hold : w.recovery.largestAcked sp' with
      | none =>
        have : a.largestAcked = n := by simpa [raise, hold] using hn
        exact this ▸ acknowledged_largest w sp' a
      | some m =>
        have hn : max a.largestAcked m = n := by simpa [raise, hold] using hn
        rcases Nat.le_total m a.largestAcked with hle | hle
        · rw [← hn, Nat.max_eq_left hle]
          exact acknowledged_largest w sp' a
        · rw [← hn, Nat.max_eq_right hle]
          exact acknowledged_accept sp' a (h.largest sp' m hold)
    · refine acknowledged_accept sp a (h.largest sp' n ?_)
      simpa [raise, update_of_ne hsp] using hn
  change _ = 0 ∨ ∃ n, (w.accept sp a).Acknowledged sp' n ∧ _
  dsimp only
  cases hnew : w.recovery.newlyAcks sp a with
  | true =>
    obtain rfl : sp' = sp := by simpa [accept, hnew] using hown
    obtain ⟨s, hs, hpn, htime⟩ := @time_of_newlyAcks _ _ _ now hnew
    rw [htime]
    exact .inr ⟨s.pn, hpn ▸ acknowledged_largest w sp' a, h.tracked sp' s hs⟩
  | false =>
    rw [time_of_not_newlyAcks hnew]
    rcases h.owned sp' (by simpa [accept, hnew] using hown) with hzero | ⟨n, hn, hsent⟩
    · exact .inl hzero
    · exact .inr ⟨n, acknowledged_accept sp a hn, hsent⟩

theorem step_ack {w : Watch} {sp : Space} {a : AckFrame} (hacc : w.recovery.acceptable sp a)
    (now : Nat) : w.step (.ack sp a now) =
      { w.accept sp a with recovery := (w.recovery.beforeLoss sp a now).detectLoss sp } := by
  simp [Watch.step, hacc, Recovery.step, handleAck]

theorem Holds.ack {w : Watch} (h : w.Holds) (sp : Space) (a : AckFrame) (now : Nat) :
    (w.step (.ack sp a now)).Holds := by
  by_cases hacc : w.recovery.acceptable sp a = true
  · rw [step_ack hacc]
    exact (h.beforeLoss sp a now).keeps (keeps_lose _ sp _)
  · simpa [Watch.step, hacc] using h

theorem Holds.step {w : Watch} (h : w.Holds) {ev : Event} (hev : w.Meets ev) :
    (w.step ev).Holds := by
  cases ev with
  | send sp now wire ackEliciting carried => exact h.send sp wire ackEliciting carried hev
  | ack sp a now => exact h.ack sp a now
  | pto sp => exact h.keeps (keeps_expire _ sp)
  | speedUp => exact h.keeps ((keeps_lose _ .initial _).trans (keeps_lose _ .handshake _))
  | discard sp => exact h.keeps (keeps_discardSpace _ sp)
  | establish =>
    have hzero : Keeps w.recovery { w.recovery with bytesInFlight := 0 } :=
      .of_eq rfl rfl rfl rfl
    exact h.keeps (hzero.trans (keeps_discardSpace _ .handshake))
  | restart =>
    refine ⟨fun sp s hs => absurd hs not_mem_nil, fun sp p hp => absurd hp not_mem_nil,
      fun sp p hp => absurd hp not_mem_nil, fun _ _ hn => (nomatch hn), fun sp hown => ?_⟩
    exact .inl (by simpa [Watch.step, Recovery.step, restart] using hown)

theorem holds_run {events : List Event}
    (h : Each (fun before ev => (run before).Meets ev) events) : (run events).Holds := by
  refine Each.invariant (fun events => (run events).Holds) h ?_ fun before ev hholds hmeets => ?_
  · exact ⟨fun _ _ hs => absurd hs not_mem_nil, fun _ _ hp => absurd hp not_mem_nil,
      fun _ _ hp => absurd hp not_mem_nil, fun _ _ hn => (nomatch hn), fun _ _ => .inl rfl⟩
  · rw [run_append]
    exact hholds.step hmeets

theorem Holds.evidence {w : Watch} (h : w.Holds) {sp : Space} (hown : w.own sp)
    {r : Recovery} (hlargest : r.largestAcked = w.recovery.largestAcked)
    (htime : r.timeLargestAckedSent = w.recovery.timeLargestAckedSent) {s : SentPacket}
    (hs : (s.pn, s.timeSent) ∈ w.sentAt sp) (hover : r.overdue sp s) :
    w.Evidence sp s r.rtt.lossDelay := by
  have hdelay : 1000 ≤ r.rtt.lossDelay := Nat.le_max_right _ _
  unfold overdue at hover
  split at hover
  · exact absurd hover Bool.false_ne_true
  rename_i n hn
  simp only [Bool.and_eq_true, Bool.or_eq_true, decide_eq_true_eq] at hover
  obtain ⟨⟨_, hlt⟩, hpkt | hlate⟩ := hover
  · exact ⟨n, hlt, h.largest sp n (hlargest ▸ hn), .inl hpkt⟩
  rw [htime] at hlate
  rcases h.owned sp hown with hzero | ⟨m, hm, hsent⟩
  · omega
  -- A number up to the packet's own would have been sent no later than it.
  · refine ⟨m, Nat.lt_of_not_le fun hle => ?_, hm, .inr ⟨_, hsent, hlate⟩⟩
    have := h.ordered sp _ hsent _ hs hle
    dsimp only at this
    omega

theorem run_recovery (events : List Event) : (run events).recovery = Recovery.run events := by
  induction events using List.reverseRecOn with
  | nil => rfl
  | append_singleton events ev ih => rw [run_append, step_recovery, ih, Recovery.run_append]

/-- As long as the clock does not run backwards and every ACK frame finds the time set by
its own space or sets it, each packet that `detect_loss` declares lost on an ACK has
evidence in its own space, with a threshold of 9/8 of the larger round-trip estimate and at
least a millisecond, and the packets of the other spaces stay as they are. -/
theorem losses_evidenced_of_meets (before : List Event) (sp : Space) (a : AckFrame) (now : Nat)
    (h : Each (fun before ev => (run before).Meets ev) (before ++ [.ack sp a now])) :
    let r := (Recovery.run before).beforeLoss sp a now
    ((Recovery.run before).acceptable sp a = true →
      ∀ s ∈ r.sent sp, r.overdue sp s = true →
        (run (before ++ [.ack sp a now])).Evidence sp s
          (max (9 * max r.rtt.smoothed r.rtt.latest / 8) 1000)) ∧
      ∀ sp', sp' ≠ sp →
        (Recovery.run (before ++ [.ack sp a now])).sent sp' = (Recovery.run before).sent sp' := by
  intro r
  unfold r
  rw [← run_recovery before]
  refine ⟨fun hacc s hs hover => ?_, fun sp' hsp => ?_⟩
  · have hown : ((run before).accept sp a).own sp := by
      rcases h.last hacc with hnew | hown
      · simp [accept, hnew]
      · cases hnew : (run before).recovery.newlyAcks sp a <;> simp [accept, hnew, hown]
    have hafter := (holds_run h.of_append).beforeLoss sp a now
    rw [run_append, step_ack hacc]
    exact hafter.evidence hown rfl rfl (hafter.tracked sp s hs) hover
  · rw [Recovery.run_append, run_recovery]
    exact handleAck_others _ sp a now hsp

def fourSent : List Event := (List.range 4).map fun n => .send .application n 100 true []

/-- All but the first are acknowledged, and the first is lost. -/
theorem losses_evidenced_of_meets_threshold :
    let r := (Recovery.run fourSent).beforeLoss .application ⟨3, 2, [], 0⟩ 50
    ∃ s ∈ r.sent .application, r.overdue .application s = true ∧
      (run (fourSent ++ [.ack .application ⟨3, 2, [], 0⟩ 50])).Evidence .application s
        (max (9 * max r.rtt.smoothed r.rtt.latest / 8) 1000) := by
  have h := (losses_evidenced_of_meets fourSent .application ⟨3, 2, [], 0⟩ 50
    (by decide +kernel)).1 (by decide +kernel)
  exact ⟨{ pn := 0, timeSent := 0, size := 100, ackEliciting := true }, by decide +kernel,
    by decide +kernel, h _ (by decide +kernel) (by decide +kernel)⟩

/-- A client's first Handshake packet, and two 1-RTT packets, of which the second is
acknowledged; later both the first and another Handshake packet are. -/
def twoSpaces : List Event :=
  [.send .handshake 500 100 true [], .send .application 1000 100 true [],
    .send .application 1001 100 true [], .ack .application ⟨1, 0, [], 0⟩ 2000,
    .send .handshake 5000 100 true [], .ack .handshake ⟨1, 1, [], 0⟩ 5100]

/-- The first 1-RTT packet is then declared lost on a repeated ACK frame, against the send
time of the Handshake packet: the only later 1-RTT packet is one ahead and was sent a
microsecond later. -/
theorem lost_by_other_space :
    let r := (Recovery.run twoSpaces).beforeLoss .application ⟨1, 0, [], 0⟩ 5200
    ∃ s ∈ r.sent .application, r.overdue .application s = true ∧
      ¬ (run (twoSpaces ++ [.ack .application ⟨1, 0, [], 0⟩ 5200])).Evidence .application s
        (max (9 * max r.rtt.smoothed r.rtt.latest / 8) 1000) := by
  refine ⟨{ pn := 0, timeSent := 1000, size := 100, ackEliciting := true }, by decide +kernel,
    by decide +kernel, ?_⟩
  have hnamed : (run (twoSpaces ++ [.ack .application ⟨1, 0, [], 0⟩ 5200])).named .application =
    [⟨1, 0, [], 0⟩, ⟨1, 0, [], 0⟩] := by decide +kernel
  have hsent : (run (twoSpaces ++ [.ack .application ⟨1, 0, [], 0⟩ 5200])).sentAt .application =
    [(0, 1000), (1, 1001)] := by decide +kernel
  rintro ⟨n, _, ⟨a, ha, b, hb, _, hle⟩, hfar | ⟨t, ht, hlate⟩⟩
  · simp only [hnamed, mem_cons, not_mem_nil, or_false, or_self] at ha
    subst ha
    obtain rfl : b = (1, 1) := by simpa [AckFrame.bounds, AckFrame.descend] using hb
    dsimp only at hfar hle
    omega
  simp only [hsent, mem_cons, not_mem_nil, or_false, Prod.mk.injEq] at ht
  have hle := Nat.le_trans (Nat.add_le_add_left (Nat.le_max_right _ 1000) _) hlate
  dsimp only at hle
  omega

end Watch

end BoltApi.Quic.Recovery
