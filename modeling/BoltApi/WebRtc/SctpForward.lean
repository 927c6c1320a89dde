import BoltApi.Lib.History
import BoltApi.WebRtc.SctpHandshake

/-! # FORWARD-TSN

A FORWARD-TSN tells the peer that nothing up to a TSN is still to come. The
sender moves that TSN to every chunk it gives up, so it must give up, with a
chunk, everything outstanding below it and the rest of its message. -/
namespace BoltApi.WebRtc.Sctp
open Octets Lib Lib.History Wire List

variable {env : Env} {a b : Assoc} {chunk p : Bytes} {now base : Nat} {l l' : List Event}

/-! ## Reading the history -/

/-- The TSN belongs to a message accepted under these terms. -/
def SentAs (l : List Event) (t : Nat) (rel : SctpReliability) : Prop :=
  ∃ tsn n m i, Event.accepted tsn n rel m ∈ l ∧ i < n ∧ t = tsnAdd tsn i

def Queued (l : List Event) (t : Nat) : Prop := ∃ rel, SentAs l t rel

def Sacked (l : List Event) (t : Nat) : Prop :=
  ∃ cum ranges, Event.sacked cum ranges ∈ l ∧
    (tsnLe t cum ∨ ∃ g ∈ ranges, inRange g t)

def GivenUp (l : List Event) (t : Nat) : Prop := Event.abandoned t ∈ l

def SameMessage (l : List Event) (t u : Nat) : Prop :=
  ∃ tsn n rel m i j, Event.accepted tsn n rel m ∈ l ∧ i < n ∧ j < n ∧ t = tsnAdd tsn i ∧ u = tsnAdd tsn j

/-- The new cumulative TSN of a FORWARD-TSN packet. -/
def forwardCum (p : Bytes) : Option Nat :=
  if octet p kHdrLen = 192 then some (rd32 p (kHdrLen + 4)) else none

/-- A message with a chunk given up has no chunk outstanding. -/
def Whole (l : List Event) : Prop :=
  ∀ tsn n rel m, Event.accepted tsn n rel m ∈ l → (∃ i < n, GivenUp l (tsnAdd tsn i)) →
    ∀ i < n, GivenUp l (tsnAdd tsn i) ∨ Sacked l (tsnAdd tsn i)

/-- A FORWARD-TSN covers only what the peer has acknowledged or what was given
up, messages were given up as a whole, and of a reliable message it covers only
what was acknowledged. -/
def ForwardOk (before : List Event) : Event → Prop
  | .shipped p => ∀ cum, forwardCum p = some cum →
      (∀ t, Queued before t → tsnLe t cum → Sacked before t ∨ GivenUp before t) ∧
        Whole before ∧
        ∀ t rel, SentAs before t rel → rel.limited = false → tsnLe t cum → Sacked before t
  | _ => True

theorem forwardOk_shipped (h : forwardCum p = none) (before : List Event) :
    ForwardOk before (.shipped p) := by
  intro cum hcum
  rw [h] at hcum
  cases hcum

def chunkCount : List Event → Nat
  | [] => 0
  | .accepted _ n _ _ :: l => n + chunkCount l
  | _ :: l => chunkCount l

theorem chunkCount_append (l l' : List Event) : chunkCount (l ++ l') = chunkCount l + chunkCount l' := by
  induction l with
  | nil => simp [chunkCount]
  | cons ev l ih => cases ev <;> simp [chunkCount, ih, Nat.add_assoc]

/-- Events of a step that accepts no message. -/
def Event.Late : Event → Prop
  | .accepted _ _ _ _ => False
  | _ => True

theorem chunkCount_late (h : ∀ ev ∈ l, ev.Late) : chunkCount l = 0 := by
  induction l with
  | nil => rfl
  | cons ev l ih =>
    have hl := ih fun x hx => h x (mem_cons_of_mem _ hx)
    have hev := h ev mem_cons_self
    cases ev with
    | accepted => exact hev.elim
    | _ => exact hl

variable {t : Nat}

theorem Sacked.mono (h : Sacked l t) : Sacked (l ++ l') t := by
  obtain ⟨cum, ranges, hmem, ht⟩ := h
  exact ⟨cum, ranges, mem_append_left _ hmem, ht⟩

theorem GivenUp.mono (h : GivenUp l t) : GivenUp (l ++ l') t := mem_append_left _ h

variable {rel : SctpReliability}

theorem SentAs.of_late (hl : ∀ ev ∈ l', ev.Late) (h : SentAs (l ++ l') t rel) : SentAs l t rel := by
  obtain ⟨tsn, n, m, i, hmem, hi, ht⟩ := h
  exact ⟨tsn, n, m, i, (mem_append.mp hmem).resolve_right fun hm => hl _ hm, hi, ht⟩

/-! ## Sequence numbers near each other -/

variable {j : Nat}

theorem tsnLe_add {k} (hj : j < 2 ^ 31) (hk : k < 2 ^ 31)
    (h : tsnLe (tsnAdd base j) (tsnAdd base k)) : j ≤ k := by
  rw [tsnLe_iff] at h
  unfold tsnSub tsnAdd at h
  omega

theorem tsnAdd_inj {k} (hj : j < 2 ^ 31) (hk : k < 2 ^ 31) (h : tsnAdd base j = tsnAdd base k) :
    j = k := by
  unfold tsnAdd at h
  omega

theorem not_tsnLe_before (hbase : base < 2 ^ 32) (hj : j < 2 ^ 31 - 1) :
    tsnLe (tsnAdd base j) (tsnSub base 1) = false := by
  rw [Bool.eq_false_iff, ne_eq, tsnLe_iff]
  unfold tsnSub tsnAdd
  omega

theorem tsnAdd_tsnAdd (t i j : Nat) : tsnAdd (tsnAdd t i) j = tsnAdd t (i + j) := by
  unfold tsnAdd
  omega

/-! ## The ledger of a sender -/

/-- One of the TSNs from `base` on that the accepted messages took. -/
def Used (base : Nat) (l : List Event) (t : Nat) : Prop := ∃ k < chunkCount l, t = tsnAdd base k

/-- `adv_ack_point_` is where it started, at a chunk given up or at a SACK. -/
def Reached (base : Nat) (l : List Event) (t : Nat) : Prop :=
  t = tsnSub base 1 ∨ GivenUp l t ∨ ∃ ranges, .sacked t ranges ∈ l

theorem Reached.mono (h : Reached base l t) : Reached base (l ++ l') t :=
  h.imp_right (.imp .mono fun ⟨ranges, hs⟩ => ⟨ranges, mem_append_left _ hs⟩)

/-- What a sender that gives up closed sets of chunks keeps true. Its TSNs are
those of `base` on, in the order the messages were accepted. -/
structure Ledger (base : Nat) (a : Assoc) : Prop where
  base_lt : base < 2 ^ 32
  next : a.nextTsn = tsnAdd base (chunkCount a.log)
  givenUp : ∀ t, GivenUp a.log t → Used base a.log t
  ring : ∀ o, some o ∈ a.outRing → Used base a.log o.tsn
  laid : ∀ t rel, SentAs a.log t rel → Used base a.log t
  terms : ∀ o, some o ∈ a.outRing → ∀ rel, SentAs a.log o.tsn rel → o.limited = rel.limited
  mortal : ∀ t, GivenUp a.log t → ∀ rel, SentAs a.log t rel → rel.limited = true
  held : ∀ t, Queued a.log t →
    (∃ o, some o ∈ a.outRing ∧ o.tsn = t ∧ o.abandoned = false) ∨ Sacked a.log t ∨ GivenUp a.log t
  adv_lt : a.advAckPoint < 2 ^ 32
  adv : Reached base a.log a.advAckPoint
  cover : ∀ o, some o ∈ a.outRing → o.abandoned = false →
    tsnLe o.tsn a.advAckPoint → Sacked a.log o.tsn
  whole : Whole a.log
  each : Each ForwardOk a.log
  data : ∀ o, some o ∈ a.outRing → forwardCum o.packet = none

def Closed (g : OutChunk → Bool) (a : Assoc) : Prop :=
  ∀ o, some o ∈ a.outRing → g o → ∀ x, some x ∈ a.outRing → x.abandoned = false →
    tsnLe x.tsn o.tsn ∨ SameMessage a.log x.tsn o.tsn → g x

variable (o : OutChunk) {g : OutChunk → Bool}

theorem Ledger.late (h : Ledger base a) (hlog : b.log = a.log ++ l)
    (hl : ∀ ev ∈ l, ev.Late) (heach : Each ForwardOk b.log) (hnext : b.nextTsn = a.nextTsn)
    (hlimited : ∀ o, g o → o.limited) (hclosed : Closed g a)
    (habandoned : ∀ t, .abandoned t ∈ l → ∃ o, some o ∈ a.outRing ∧ g o ∧ t = o.tsn)
    (hnew : ∀ o, some o ∈ a.outRing → g o → GivenUp b.log o.tsn)
    (hadv : b.advAckPoint = a.advAckPoint ∨
      (b.advAckPoint < 2 ^ 32 ∧ ∃ ranges, Event.sacked b.advAckPoint ranges ∈ b.log) ∨
      ∃ o, some o ∈ a.outRing ∧ g o ∧ b.advAckPoint = o.tsn)
    (hback : ∀ o', some o' ∈ b.outRing → ∃ o, some o ∈ a.outRing ∧ SameChunk o o' ∧
      (o'.abandoned = false → o.abandoned = false ∧ g o = false))
    (hforth : ∀ o, some o ∈ a.outRing → o.abandoned = false → g o = false →
      (∃ o', some o' ∈ b.outRing ∧ o'.tsn = o.tsn ∧ o'.abandoned = false) ∨ Sacked b.log o.tsn) :
    Ledger base b := by
  have hcount : chunkCount b.log = chunkCount a.log := by
    rw [hlog, chunkCount_append, chunkCount_late hl, Nat.add_zero]
  have hused : ∀ t, Used base a.log t → Used base b.log t := fun t ht => by rwa [Used, hcount]
  have hsent : ∀ t rel, SentAs b.log t rel → SentAs a.log t rel := by
    intro t rel ht
    rw [hlog] at ht
    exact ht.of_late hl
  have hacc : ∀ tsn n rel m, Event.accepted tsn n rel m ∈ b.log →
      Event.accepted tsn n rel m ∈ a.log := by
    intro tsn n rel m hmem
    rw [hlog] at hmem
    exact (mem_append.mp hmem).resolve_right fun hm => hl _ hm
  have hsacked : ∀ t, Sacked a.log t → Sacked b.log t := fun t ht => hlog ▸ ht.mono
  have hkept : ∀ t, GivenUp a.log t → GivenUp b.log t := fun t ht => hlog ▸ ht.mono
  have hgiven : ∀ t, GivenUp b.log t →
      GivenUp a.log t ∨ ∃ o, some o ∈ a.outRing ∧ g o ∧ t = o.tsn := by
    intro t ht
    rw [hlog] at ht
    exact (mem_append.mp ht).imp_right (habandoned t)
  exact {
    base_lt := h.base_lt
    next := by rw [hnext, hcount, h.next]
    givenUp := by
      intro t ht
      refine hused t ?_
      rcases hgiven t ht with ht | ⟨o, ho, -, rfl⟩
      · exact h.givenUp t ht
      · exact h.ring o ho
    ring := by
      intro o' ho'
      obtain ⟨o, ho, hsame, -⟩ := hback o' ho'
      exact hused _ (hsame.1 ▸ h.ring o ho)
    laid := fun t rel ht => hused t (h.laid t rel (hsent t rel ht))
    terms := by
      intro o' ho' rel hrel
      obtain ⟨o, ho, hsame, -⟩ := hback o' ho'
      rw [hsame.2.2]
      exact h.terms o ho rel (hsame.1 ▸ hsent _ rel hrel)
    mortal := by
      intro t ht rel hrel
      rcases hgiven t ht with ht | ⟨o, ho, hg, rfl⟩
      · exact h.mortal t ht rel (hsent t rel hrel)
      · rw [← h.terms o ho rel (hsent _ rel hrel)]
        exact hlimited o hg
    held := by
      rintro t ⟨rel, ht⟩
      rcases h.held t ⟨rel, hsent t rel ht⟩ with ⟨o, ho, rfl, hout⟩ | hs | hg
      · cases hgo : g o with
        | true => exact .inr (.inr (hnew o ho hgo))
        | false => exact (hforth o ho hout hgo).imp_right .inl
      · exact .inr (.inl (hsacked t hs))
      · exact .inr (.inr (hkept t hg))
    adv_lt := by
      rcases hadv with hadv | hadv | ⟨o, ho, -, hadv⟩
      · exact hadv ▸ h.adv_lt
      · exact hadv.1
      · obtain ⟨k, -, hk⟩ := h.ring o ho
        rw [hadv, hk]
        exact tsnAdd_lt _ _
    adv := by
      rcases hadv with hadv | ⟨-, hadv⟩ | ⟨o, ho, hg, hadv⟩
      · rw [hadv, hlog]
        exact h.adv.mono
      · exact .inr (.inr hadv)
      · rw [hadv]
        exact .inr (.inl (hnew o ho hg))
    cover := by
      intro o' ho' hout' hle
      obtain ⟨o, ho, hsame, hout⟩ := hback o' ho'
      obtain ⟨hout, hgo⟩ := hout hout'
      rw [hsame.1] at hle ⊢
      rcases hadv with hadv | ⟨-, ranges, hadv⟩ | ⟨x, hx, hg, hadv⟩
      · exact hsacked _ (h.cover o ho hout (hadv ▸ hle))
      · exact ⟨_, ranges, hadv, .inl hle⟩
      · rw [hadv] at hle
        rw [hclosed x hx hg o ho hout (.inl hle)] at hgo
        cases hgo
    whole := by
      intro tsn n rel m hmem ⟨i, hi, hg⟩ j hj
      have hmem := hacc tsn n rel m hmem
      rcases hgiven _ hg with hg | ⟨o, ho, hgo, ht⟩
      · exact (h.whole tsn n rel m hmem ⟨i, hi, hg⟩ j hj).imp (hkept _) (hsacked _)
      rcases h.held _ ⟨rel, tsn, n, m, j, hmem, hj, rfl⟩ with ⟨x, hx, hxt, hout⟩ | hsk | hg
      · left
        have hsame : SameMessage a.log x.tsn o.tsn :=
          ⟨tsn, n, rel, m, j, i, hmem, hj, hi, hxt, ht.symm⟩
        rw [← hxt]
        exact hnew x hx (hclosed o ho hgo x hx hout (.inr hsame))
      · exact .inr (hsacked _ hsk)
      · exact .inl (hkept _ hg)
    each := heach
    data := by
      intro o' ho'
      obtain ⟨o, ho, hsame, -⟩ := hback o' ho'
      rw [hsame.2.1]
      exact h.data o ho }

/-! ## Steps that give nothing up -/

def Event.Quiet : Event → Prop
  | .shipped _ => True
  | .delivered _ => True
  | .sacked _ _ => True
  | .accepted _ _ _ _ => False
  | .abandoned _ => False

variable {ev : Event}

theorem Event.Quiet.late (h : ev.Quiet) : ev.Late := by
  cases ev with
  | accepted => exact h.elim
  | _ => trivial

def Persists (r r' : List (Option OutChunk)) : Prop :=
  ∀ o', some o' ∈ r' → ∃ o, some o ∈ r ∧ SameChunk o o' ∧
    (o'.abandoned = false → o.abandoned = false)

theorem Persists.refl (r : List (Option OutChunk)) : Persists r r :=
  fun o ho => ⟨o, ho, .refl o, id⟩

theorem Ledger.quiet (h : Ledger base a) (hlog : b.log = a.log ++ l) (hl : ∀ ev ∈ l, ev.Quiet)
    (heach : Each ForwardOk b.log) (hnext : b.nextTsn = a.nextTsn)
    (hadv : b.advAckPoint = a.advAckPoint ∨
      b.advAckPoint < 2 ^ 32 ∧ ∃ ranges, Event.sacked b.advAckPoint ranges ∈ b.log)
    (hback : Persists a.outRing b.outRing) (hforth : ∀ o, some o ∈ a.outRing → o.abandoned = false →
      (∃ o', some o' ∈ b.outRing ∧ o'.tsn = o.tsn ∧ o'.abandoned = false) ∨ Sacked b.log o.tsn) :
    Ledger base b := by
  refine h.late (g := fun _ => false) hlog (fun ev hev => (hl ev hev).late) heach hnext
    (fun _ hg => by cases hg) (fun _ _ hg => by cases hg) (fun t ht => (hl _ ht).elim)
    (fun _ _ hg => by cases hg) (hadv.imp_right .inl) (fun o' ho' => ?_)
    fun o ho hout _ => hforth o ho hout
  obtain ⟨o, ho, hsame, hout⟩ := hback o' ho'
  exact ⟨o, ho, hsame, fun h => ⟨hout h, rfl⟩⟩

/-! ## Steps that give chunks up -/

structure SweptBy (g : OutChunk → Bool) (a : Assoc) (done : List OutChunk) (b : Assoc) : Prop where
  next : b.nextTsn = a.nextTsn
  log : ∃ l, b.log = a.log ++ l ∧
    (∀ ev ∈ l, ∃ o ∈ done, ev = .shipped o.packet ∨ g o ∧ ev = .abandoned o.tsn) ∧
    ∀ o ∈ done, g o → .abandoned o.tsn ∈ l
  adv : b.advAckPoint = a.advAckPoint ∨ ∃ o ∈ done, g o ∧ b.advAckPoint = o.tsn

theorem SweptBy.trans {c done done'} (h : SweptBy g a done b) (h' : SweptBy g b done' c) :
    SweptBy g a (done ++ done') c where
  next := h'.next.trans h.next
  log := by
    obtain ⟨l, hl, hev, hdone⟩ := h.log
    obtain ⟨l', hl', hev', hdone'⟩ := h'.log
    refine ⟨l ++ l', by rw [hl', hl, append_assoc],
      forall_mem_append.mpr ⟨fun ev hmem => ?_, fun ev hmem => ?_⟩,
      forall_mem_append.mpr ⟨fun o ho hg => mem_append_left _ (hdone o ho hg),
        fun o ho hg => mem_append_right _ (hdone' o ho hg)⟩⟩
    · obtain ⟨o, ho, hev⟩ := hev ev hmem
      exact ⟨o, mem_append_left _ ho, hev⟩
    · obtain ⟨o, ho, hev⟩ := hev' ev hmem
      exact ⟨o, mem_append_right _ ho, hev⟩
  adv := by
    rcases h'.adv with hadv | ⟨o, ho, hg⟩
    · rw [hadv]
      exact h.adv.imp_right fun ⟨o, ho, hg⟩ => ⟨o, mem_append_left _ ho, hg⟩
    · exact .inr ⟨o, mem_append_right _ ho, hg⟩

structure Turn (g : OutChunk → Bool) (a : Assoc) (o : OutChunk) (r : Assoc × OutChunk) : Prop where
  ring : r.1.outRing = a.outRing
  same : SameChunk o r.2
  mark : r.2.abandoned = (o.abandoned || g o)
  swept : SweptBy g a [o] r.1

theorem sweepRing_swept {f} (hf : ∀ b o, Turn g b o (f b o)) (a : Assoc) :
    SweptBy g a (Slots.entries a.outRing) (sweepRing f a) ∧
      List.Forall₂ (Option.Rel fun o o' => SameChunk o o' ∧ o'.abandoned = (o.abandoned || g o))
        a.outRing (sweepRing f a).outRing := by
  obtain ⟨hby, hring⟩ := Slots.sweep_induction (f := f) (s := a) (l := a.outRing) (d := [])
    (I := SweptBy g a) (Q := fun o o' => SameChunk o o' ∧ o'.abandoned = (o.abandoned || g o))
    (fun done b o _ h => ⟨h.trans (hf b o).swept, (hf b o).same, (hf b o).mark⟩)
    ⟨rfl, ⟨[], by simp, by simp, by simp⟩, .inl rfl⟩
  exact ⟨⟨hby.next, hby.log, hby.adv⟩, hring⟩

/-! ### The three loops -/

def Assoc.books (a : Assoc) : List Event × Nat × Nat × List (Option OutChunk) :=
  (a.log, a.nextTsn, a.advAckPoint, a.outRing)

theorem land_books (a : Assoc) (n : Nat) : (a.land n).books = a.books := by
  unfold Assoc.land
  split <;> rfl

theorem giveUp_turn {o} (hg : g o) : Turn g a o (giveUp a o) := by
  have hland : (if o.sent then a.land o.payloadLen else a).books = a.books := by
    split
    · exact land_books a _
    · rfl
  unfold giveUp
  generalize (if o.sent then a.land o.payloadLen else a) = c at hland ⊢
  simp only [Assoc.books, Prod.mk.injEq] at hland
  obtain ⟨hlog, hnext, hadv, hring⟩ := hland
  have hmark : true = (o.abandoned || g o) := by rw [hg, Bool.or_true]
  have hlog' : ∃ l, c.log ++ [.abandoned o.tsn] = a.log ++ l ∧
      (∀ ev ∈ l, ∃ x ∈ [o], ev = .shipped x.packet ∨ g x ∧ ev = .abandoned x.tsn) ∧
      ∀ x ∈ [o], g x → .abandoned x.tsn ∈ l :=
    ⟨[.abandoned o.tsn], by rw [hlog], by simp [hg], by simp⟩
  unfold Assoc.skipTo
  split
  · exact ⟨hring, ⟨rfl, rfl, rfl⟩, hmark, hnext, hlog', .inr ⟨o, mem_singleton_self o, hg, rfl⟩⟩
  · exact ⟨hring, ⟨rfl, rfl, rfl⟩, hmark, hnext, hlog', .inl hadv⟩

theorem skip_turn {o} (hg : g o = false) : Turn g a o (a, o) :=
  ⟨rfl, .refl o, by rw [hg, Bool.or_false], rfl, ⟨[], by simp, by simp, by simp [hg]⟩, .inl rfl⟩

theorem resend_turn {o} (hg : g o = false) : Turn g a o (resend env a o) := by
  have hskip : Turn g a o (a, o) := skip_turn hg
  unfold resend
  split
  · refine ⟨emit_ring a _, ⟨rfl, rfl, rfl⟩, hskip.mark, ?_⟩
    unfold emit
    split
    · exact ⟨rfl, ⟨[.shipped o.packet], rfl, by simp, by simp [hg]⟩, .inl rfl⟩
    · exact ⟨rfl, hskip.swept.log, .inl rfl⟩
  · exact hskip

theorem fastStep_turn : Turn (fun o => o.missing && o.spent) a o (fastStep env a o) := by
  unfold fastStep
  cases hm : o.missing with
  | false => exact skip_turn (by simp [hm])
  | true =>
    cases hs : o.spent with
    | false => exact resend_turn (by simp [hs])
    | true => exact giveUp_turn (by simp [hm, hs])

theorem t3Step_turn : Turn OutChunk.lost a o (t3Step a o) := by
  unfold t3Step
  cases hl : o.lost with
  | false => exact skip_turn hl
  | true =>
    have h : Turn OutChunk.lost (a.needForward true) o (giveUp (a.needForward true) o) :=
      giveUp_turn hl
    exact ⟨h.ring, h.same, h.mark, h.swept.next, h.swept.log, h.swept.adv⟩

theorem expireStep_turn : Turn (OutChunk.expired now) a o (expireStep now a o) := by
  unfold expireStep
  cases he : o.expired now with
  | false => exact skip_turn he
  | true => exact giveUp_turn he

/-! ### The ledger behind them -/

theorem OutChunk.limited_of_spent {o : OutChunk} (h : o.spent) : o.limited := by
  simp only [OutChunk.spent, Bool.and_eq_true] at h
  simp [OutChunk.limited, h.1]

theorem fast_limited (h : (o.missing && o.spent)) : o.limited := by
  simp only [Bool.and_eq_true] at h
  exact OutChunk.limited_of_spent h.2

theorem lost_limited (h : o.lost) : o.limited := by
  simp only [OutChunk.lost, Bool.and_eq_true] at h
  exact OutChunk.limited_of_spent h.2

theorem expired_limited (h : o.expired now) : o.limited := by
  simp only [OutChunk.expired, Bool.and_eq_true, Bool.or_eq_true] at h
  rcases h.2 with h | h
  · simp [OutChunk.limited, h.1]
  · simp [OutChunk.limited, h.1.1]

theorem Ledger.swept {f} (h : Ledger base a) (hlimited : ∀ o, g o → o.limited)
    (hclosed : Closed g a) (hf : ∀ b o, Turn g b o (f b o)) : Ledger base (sweepRing f a) := by
  obtain ⟨hby, hring⟩ := sweepRing_swept hf a
  obtain ⟨l, hlog, hev, hdone⟩ := hby.log
  simp only [Slots.mem_entries] at hev hdone
  have hadv := hby.adv
  simp only [Slots.mem_entries] at hadv
  refine h.late hlog ?_ ?_ hby.next hlimited hclosed ?_ ?_ (hadv.imp_right .inr) ?_ ?_
  · intro ev hmem
    obtain ⟨o, -, rfl | ⟨-, rfl⟩⟩ := hev ev hmem <;> trivial
  · rw [hlog]
    refine h.each.append_of_forall fun ev hmem before => ?_
    obtain ⟨o, ho, rfl | ⟨-, rfl⟩⟩ := hev ev hmem
    · exact forwardOk_shipped (h.data o ho) before
    · trivial
  · intro t ht
    obtain ⟨o, ho, heq | ⟨hg, heq⟩⟩ := hev _ ht
    · cases heq
    · cases heq
      exact ⟨o, ho, hg, rfl⟩
  · intro o ho hg
    rw [hlog]
    exact mem_append_right _ (hdone o ho hg)
  · intro o' ho'
    obtain ⟨o, ho, hsame, hmark⟩ := Slots.exists_of_mem_right hring ho'
    refine ⟨o, ho, hsame, fun hout => ?_⟩
    rwa [hmark, Bool.or_eq_false_iff] at hout
  · intro o ho hout hg
    obtain ⟨o', ho', hsame, hmark⟩ := Slots.exists_of_mem_left hring ho
    exact .inl ⟨o', ho', hsame.1, by rw [hmark, hout, hg]; rfl⟩

theorem forwardCum_framePacket (tag : Nat) (chunk : Bytes) :
    forwardCum (framePacket env tag chunk) =
      if octet chunk 0 = 192 then some (rd32 chunk 4) else none := by
  have hoct := octet_drop (framePacket env tag chunk) kHdrLen 0
  have hrd := rd32_drop (framePacket env tag chunk) kHdrLen 4
  rw [framePacket_drop] at hoct hrd
  rw [Nat.add_zero] at hoct
  rw [forwardCum, hoct, hrd]

theorem forwardCum_chunkOf {t} (ht : t ≠ .forwardTsn) (tag : Nat) (flags : UInt8)
    (value rest : Bytes) :
    forwardCum (framePacket env tag (chunkOf t flags value ++ rest)) = none := by
  have hcode : octet (chunkOf t flags value ++ rest) 0 = t.code.toNat := rfl
  rw [forwardCum_framePacket, hcode, if_neg]
  cases t <;> first | exact absurd rfl ht | decide

theorem forwardCum_chunk {t} (ht : t ≠ .forwardTsn) (tag : Nat) (flags : UInt8) (value : Bytes) :
    forwardCum (framePacket env tag (chunkOf t flags value)) = none := by
  rw [← append_nil (chunkOf t flags value), forwardCum_chunkOf ht]

variable {cum : Nat}

theorem forwardCum_forward {tag es} (h : cum < 2 ^ 32) :
    forwardCum (framePacket env tag (forwardTsnChunk cum es)) = some cum := by
  have hread : rd32 (forwardTsnChunk cum es) 4 = cum := by
    rw [forwardTsnChunk, chunkOf, rd32_append_right (n := 0) (by rfl)]
    exact rd32_wr32 h
  rw [forwardCum_framePacket, hread]
  rfl

theorem Ledger.forwardOk (h : Ledger base a) (tag : Nat) (es : List (Nat × Nat)) :
    ForwardOk a.log (.shipped (framePacket env tag (forwardTsnChunk a.advAckPoint es))) := by
  intro cum hcum
  rw [forwardCum_forward h.adv_lt] at hcum
  cases hcum
  have hcover : ∀ t, Queued a.log t → tsnLe t a.advAckPoint →
      Sacked a.log t ∨ GivenUp a.log t := by
    intro t ht hle
    rcases h.held t ht with ⟨o, ho, rfl, hout⟩ | hs | hg
    · exact .inl (h.cover o ho hout hle)
    · exact .inl hs
    · exact .inr hg
  refine ⟨hcover, h.whole, fun t rel hrel hfree hle => ?_⟩
  rcases hcover t ⟨rel, hrel⟩ hle with hs | hg
  · exact hs
  · rw [h.mortal t hg rel hrel] at hfree
    cases hfree

variable {q : Bytes}

theorem ships_log (h : Ships q a b) : ∃ l, b.log = a.log ++ l ∧ (l = [] ∨ l = [.shipped q]) := by
  cases h with
  | nothing => exact ⟨[], by simp, .inl rfl⟩
  | shipped => exact ⟨_, rfl, .inr rfl⟩

theorem ships_keeps (h : Ships q a b) : b.nextTsn = a.nextTsn ∧
    b.advAckPoint = a.advAckPoint ∧ b.outRing = a.outRing := by
  cases h <;> exact ⟨rfl, rfl, rfl⟩

theorem Ledger.announceSkip (h : Ledger base a) : Ledger base (announceSkip env a) := by
  have hships : Ships _ ((a.needForward true).needForward false)
      (sendForwardTsn env (a.needForward true)) := shipPacket_ships _ _ _
  unfold Sctp.announceSkip
  generalize sendForwardTsn env (a.needForward true) = c at hships ⊢
  obtain ⟨l, hlog, hl⟩ := ships_log hships
  obtain ⟨hnext, hadv, -⟩ := ships_keeps hships
  refine h.quiet hlog ?_ ?_ hnext (.inl hadv) ?_ ?_
  · rcases hl with rfl | rfl
    · exact forall_mem_nil _
    · exact forall_mem_singleton.mpr trivial
  · change Each ForwardOk c.log
    rw [hlog]
    rcases hl with rfl | rfl
    · rw [append_nil]
      exact h.each
    · exact h.each.snoc (h.forwardOk _ _)
  · intro o ho
    exact ⟨o, (Slots.mem_freeWhere.mp ho).1, .refl o, id⟩
  · intro o ho hout
    exact .inl ⟨o, Slots.mem_freeWhere.mpr ⟨ho, by simp [hout]⟩, rfl, hout⟩

/-! ## Steps that leave every outstanding chunk in the ring -/

/-- Events that send no FORWARD-TSN either. -/
def Event.Plain (ring : List (Option OutChunk)) : Event → Prop
  | .shipped p => forwardCum p = none ∨ ∃ o, some o ∈ ring ∧ p = o.packet
  | ev => ev.Quiet

structure Steady (a b : Assoc) : Prop where
  next : b.nextTsn = a.nextTsn
  adv : b.advAckPoint = a.advAckPoint
  log : ∃ l, b.log = a.log ++ l ∧ ∀ ev ∈ l, ev.Plain a.outRing
  back : Persists a.outRing b.outRing
  forth : ∀ o, some o ∈ a.outRing → o.abandoned = false →
    ∃ o', some o' ∈ b.outRing ∧ o'.tsn = o.tsn ∧ o'.abandoned = false

theorem Event.Plain.quiet {ring} (h : ev.Plain ring) : ev.Quiet := by
  cases ev with
  | shipped => trivial
  | _ => exact h

theorem Event.Plain.mono {r r'} (h : ev.Plain r') (hr : Persists r r') : ev.Plain r := by
  cases ev with
  | shipped p =>
    rcases h with h | ⟨o', ho', rfl⟩
    · exact .inl h
    · obtain ⟨o, ho, hsame, -⟩ := hr o' ho'
      exact .inr ⟨o, ho, hsame.2.1⟩
  | _ => exact h

theorem Ledger.each_plain (h : Ledger base a) (hl : ∀ ev ∈ l, ev.Plain a.outRing) :
    Each ForwardOk (a.log ++ l) := by
  refine h.each.append_of_forall fun ev hev before => ?_
  have hplain := hl ev hev
  cases ev with
  | shipped p =>
    refine forwardOk_shipped ?_ before
    rcases hplain with hp | ⟨o, ho, rfl⟩
    · exact hp
    · exact h.data o ho
  | _ => trivial

theorem Persists.trans {r r' r''} (h : Persists r r') (h' : Persists r' r'') : Persists r r'' := by
  intro o'' ho''
  obtain ⟨o', ho', hsame', hout'⟩ := h' o'' ho''
  obtain ⟨o, ho, hsame, hout⟩ := h o' ho'
  exact ⟨o, ho, hsame.trans hsame', fun h => hout (hout' h)⟩

theorem Steady.trans {c} (h : Steady a b) (h' : Steady b c) : Steady a c where
  next := h'.next.trans h.next
  adv := h'.adv.trans h.adv
  log := by
    obtain ⟨l, hl, hev⟩ := h.log
    obtain ⟨l', hl', hev'⟩ := h'.log
    refine ⟨l ++ l', by rw [hl', hl, append_assoc], fun ev hmem => ?_⟩
    rcases mem_append.mp hmem with hmem | hmem
    · exact hev ev hmem
    · exact (hev' ev hmem).mono h.back
  back := h.back.trans h'.back
  forth := by
    intro o ho hout
    obtain ⟨o', ho', htsn', hout'⟩ := h.forth o ho hout
    obtain ⟨o'', ho'', htsn'', hout''⟩ := h'.forth o' ho' hout'
    exact ⟨o'', ho'', htsn''.trans htsn', hout''⟩

theorem Ledger.steady (h : Ledger base a) (hs : Steady a b) : Ledger base b := by
  obtain ⟨l, hlog, hl⟩ := hs.log
  exact h.quiet hlog (fun ev hev => (hl ev hev).quiet) (hlog ▸ h.each_plain hl) hs.next
    (.inl hs.adv) hs.back fun o ho hout => .inl (hs.forth o ho hout)

theorem Steady.of_same (hring : b.outRing = a.outRing) (hnext : b.nextTsn = a.nextTsn)
    (hadv : b.advAckPoint = a.advAckPoint)
    (hlog : ∃ l, b.log = a.log ++ l ∧ ∀ ev ∈ l, ev.Plain a.outRing) : Steady a b :=
  ⟨hnext, hadv, hlog, hring ▸ .refl _, fun o ho hout => ⟨o, hring ▸ ho, rfl, hout⟩⟩

theorem Steady.refl (a : Assoc) : Steady a a :=
  .of_same rfl rfl rfl ⟨[], by simp, by simp⟩

theorem Steady.of_ships (h : Ships q a b)
    (hq : forwardCum q = none ∨ ∃ o, some o ∈ a.outRing ∧ q = o.packet) : Steady a b := by
  obtain ⟨hnext, hadv, hring⟩ := ships_keeps h
  obtain ⟨l, hlog, hl⟩ := ships_log h
  refine .of_same hring hnext hadv ⟨l, hlog, ?_⟩
  rcases hl with rfl | rfl
  · exact forall_mem_nil _
  · exact forall_mem_singleton.mpr hq

variable {i : Nat}

theorem Steady.set {o o'} (hget : a.outRing[i]? = some (some o)) (hsame : SameChunk o o')
    (hmark : o'.abandoned = o.abandoned) : Steady a (a.setRing (a.outRing.set i (some o'))) where
  next := rfl
  adv := rfl
  log := ⟨[], by simp [Assoc.setRing], by simp⟩
  back := by
    intro x hx
    rcases mem_or_eq_of_mem_set hx with hx | hx
    · exact ⟨x, hx, .refl x, id⟩
    · cases hx
      exact ⟨o, mem_of_getElem? hget, hsame, fun h => hmark ▸ h⟩
  forth := by
    intro x hx hout
    obtain ⟨j, hj⟩ := List.getElem?_of_mem hx
    by_cases hij : i = j
    · subst hij
      rw [hget] at hj
      cases hj
      refine ⟨o', ?_, hsame.1, hmark.trans hout⟩
      exact mem_set (List.getElem?_eq_some_iff.mp hget).1 _
    · refine ⟨x, mem_of_getElem? (i := j) ?_, rfl, hout⟩
      rw [Assoc.setRing, List.getElem?_set_ne hij]
      exact hj

theorem Steady.map {f} (hf : ∀ o, SameChunk o (f o)) (hmark : ∀ o, (f o).abandoned = o.abandoned)
    (a : Assoc) : Steady a (a.setRing (a.outRing.map (Option.map f))) where
  next := rfl
  adv := rfl
  log := ⟨[], by simp [Assoc.setRing], by simp⟩
  back := by
    intro x hx
    obtain ⟨y, hy, hfy⟩ := mem_map.mp hx
    obtain ⟨o, rfl, rfl⟩ := Option.map_eq_some_iff.mp hfy
    exact ⟨o, hy, hf o, fun h => hmark o ▸ h⟩
  forth := by
    intro o ho hout
    exact ⟨f o, mem_map.mpr ⟨some o, ho, rfl⟩, (hf o).1, (hmark o).trans hout⟩

/-! ## The handlers -/

theorem Steady.of_receiving (h : Receiving env a b) : Steady a b := by
  obtain ⟨l, hlog, hl⟩ := h.log
  obtain ⟨-, hnext, hadv, hring⟩ : _ ∧ _ ∧ _ ∧ _ := by
    simpa only [Assoc.sendSide, Prod.mk.injEq] using h.side
  refine .of_same hring hnext hadv ⟨l, hlog, fun ev hev => ?_⟩
  cases hl ev hev with
  | delivered m => trivial
  | control ht => exact .inl (forwardCum_chunk ht _ _ _)

theorem emit_steady {o} (ho : some o ∈ a.outRing) : Steady a (emit env a o.packet).2 :=
  .of_ships (emit_ships a o.packet) (.inr ⟨o, ho, rfl⟩)

theorem launch_steady {o} (hget : a.outRing[i]? = some (some o)) : Steady a (a.launch now i o) := by
  have hset : Steady a (a.setRing (a.outRing.set i
      (some { o with sent := true, sentAtMs := now, rttPending := true }))) :=
    .set hget ⟨rfl, rfl, rfl⟩ rfl
  refine hset.trans (.of_same (launch_ring a now i o) ?_ ?_ ⟨[], ?_, by simp⟩)
  · simp only [Assoc.launch]
    split <;> rfl
  · simp only [Assoc.launch]
    split <;> rfl
  · simp only [Assoc.launch, append_nil]
    split <;> rfl

theorem flushSend_steady (a : Assoc) : Steady a (flushSend env now a) :=
  flushSend_induction (fun _ _ ho h => h.trans (emit_steady ho))
    (fun _ _ _ hget h => h.trans (launch_steady hget)) (.refl a)

theorem Steady.of_books (h : b.books = a.books) : Steady a b := by
  simp only [Assoc.books, Prod.mk.injEq] at h
  obtain ⟨hlog, hnext, hadv, hring⟩ := h
  exact .of_same hring hnext hadv ⟨[], by simp [hlog], by simp⟩

theorem onDataAcked_steady (a : Assoc) (o : OutChunk) : Steady a (onDataAcked now a o) := by
  have hland : Steady a (a.land o.payloadLen) := .of_books (land_books a _)
  simp only [onDataAcked]
  split
  · exact hland.trans (.of_books rfl)
  · exact hland

theorem Ledger.ackWhere {q} (h : Ledger base a) (now : Nat)
    (hq : ∀ o, q o → Sacked a.log o.tsn) : Ledger base (ackWhere now a q).2 := by
  have hfold : Steady a (((a.outRing.filterMap id).filter fun o => o.sent && q o).foldl
      (onDataAcked now) a) :=
    foldlRecOn _ _ (.refl a) fun b hb o _ => hb.trans (onDataAcked_steady b o)
  obtain ⟨l, hlog, hl⟩ := hfold.log
  have hlog : (Sctp.ackWhere now a q).2.log = a.log ++ l := hlog
  refine h.quiet hlog (fun ev hev => (hl ev hev).quiet) (hlog ▸ h.each_plain hl) hfold.next
    (.inl hfold.adv) ?_ ?_
  · intro o ho
    exact ⟨o, (Slots.mem_freeWhere.mp ho).1, .refl o, id⟩
  intro o ho hout
  cases hhit : o.sent && q o with
  | false => exact .inl ⟨o, Slots.mem_freeWhere.mpr ⟨ho, hhit⟩, rfl, hout⟩
  | true =>
    right
    rw [hlog]
    exact (hq o (Bool.and_eq_true_iff.mp hhit).2).mono

theorem Ledger.ackAll {tests} (h : Ledger base a) (now : Nat)
    (hq : ∀ q ∈ tests, ∀ o, q o → Sacked a.log o.tsn) :
    Ledger base (ackAll now a tests).2 := by
  refine (foldlRecOn (motive := fun r : List OutChunk × Assoc =>
    Ledger base r.2 ∧ a.log <+: r.2.log) tests _ ⟨h, prefix_rfl⟩ ?_).1
  rintro r ⟨hr, l, hl⟩ q hmem
  refine ⟨hr.ackWhere now fun o ho => ?_, .trans ⟨l, hl⟩ (ackWhere_sending now r.2 q).log⟩
  rw [← hl]
  exact (hq q hmem o ho).mono

theorem Ledger.sacked (h : Ledger base a) (cum rwnd : Nat) (ranges : List (Nat × Nat)) :
    Ledger base ((setRwnd a rwnd).note (.sacked cum ranges)) := by
  have hs : Steady a ((setRwnd a rwnd).note (.sacked cum ranges)) :=
    .of_same rfl rfl rfl ⟨[.sacked cum ranges], rfl, forall_mem_singleton.mpr trivial⟩
  exact h.steady hs

theorem countMisses_steady (highest : Nat) (a : Assoc) : Steady a (countMisses highest a).2 := by
  refine Steady.map (fun o => ?_) (fun o => ?_) a
  · split
    · exact ⟨rfl, rfl, rfl⟩
    · exact .refl o
  · split <;> rfl

theorem growCwnd_steady (acked : Nat) (a : Assoc) : Steady a (growCwnd now acked a) := by
  simp only [growCwnd]
  split <;> exact .of_books rfl

theorem ackTests_sacked {ranges} (hmem : Event.sacked cum ranges ∈ l) :
    ∀ q ∈ ackTests cum ranges, ∀ o, q o → Sacked l o.tsn := by
  intro q hq o ho
  rcases mem_cons.mp hq with rfl | hq
  · exact ⟨cum, ranges, hmem, .inl ho⟩
  · obtain ⟨g, hg, rfl⟩ := mem_map.mp hq
    exact ⟨cum, ranges, hmem, .inr ⟨g, hg, ho⟩⟩

section
variable (h : Ledger base a)
include h

theorem Ledger.takeSack (now : Nat) (chunk : Bytes) :
    Ledger base (takeSack now a chunk).2 ∧
      Event.sacked (rd32 chunk 4) (sackRanges chunk) ∈ (Sctp.takeSack now a chunk).2.log := by
  have hmem : Event.sacked (rd32 chunk 4) (sackRanges chunk) ∈
      ((setRwnd a (rd32 chunk 8)).note (.sacked (rd32 chunk 4) (sackRanges chunk))).log :=
    mem_append_right _ (mem_singleton.mpr rfl)
  have hacks := (h.sacked (rd32 chunk 4) (rd32 chunk 8) (sackRanges chunk)).ackAll now
    (ackTests_sacked hmem)
  refine ⟨?_, (takeSack_noted now a chunk).log.mem hmem⟩
  simp only [Sctp.takeSack]
  split
  · exact hacks.steady (countMisses_steady _ _)
  · exact hacks.steady ((countMisses_steady _ _).trans (growCwnd_steady _ _))

/-- The chunks `fast_retransmit` gives up when it runs behind a SACK. -/
def FastClosed (now : Nat) (a : Assoc) (chunk : Bytes) : Prop :=
  (takeSack now a chunk).1 →
    Closed (fun o => o.missing && o.spent) (takeSack now a chunk).2

theorem Ledger.fastRetransmit
    (hclosed : Closed (fun o => o.missing && o.spent) a) : Ledger base (fastRetransmit env a) := by
  have hwin : Ledger base (a.setWindow a.halfWindow a.halfWindow) :=
    h.steady (.of_books rfl)
  have hswept := hwin.swept (f := fastStep env) fast_limited hclosed fun b o => fastStep_turn o
  unfold Sctp.fastRetransmit
  simp only
  split
  · exact hswept.announceSkip
  · exact hswept

theorem Ledger.skipTo (ranges : List (Nat × Nat))
    (hcum : cum < 2 ^ 32) (hmem : Event.sacked cum ranges ∈ a.log) : Ledger base (a.skipTo cum) := by
  unfold Assoc.skipTo
  split
  · refine h.quiet (l := []) (by simp) (forall_mem_nil _) h.each rfl ?_ (.refl _)
      fun o ho hout => .inl ⟨o, ho, rfl, hout⟩
    exact .inr ⟨hcum, ranges, hmem⟩
  · exact h

theorem Ledger.handleSack (hclosed : FastClosed now a chunk) :
    Ledger base (handleSack env now a chunk) := by
  simp only [Sctp.handleSack]
  split
  · exact h
  obtain ⟨htake, hmem⟩ := h.takeSack now chunk
  refine Ledger.steady (Ledger.skipTo ?_ (sackRanges chunk) (rd32_lt _ _) ?_)
    (flushSend_steady _)
  · split
    · rename_i hagain
      exact htake.fastRetransmit (hclosed hagain)
    · exact htake
  · split
    · exact (fastRetransmit_sending _).log.mem hmem
    · exact hmem

theorem Ledger.abandonExpired (hclosed : Closed (·.expired now) a) :
    Ledger base (abandonExpired env now a) := by
  have hswept := h.swept (f := expireStep now) expired_limited hclosed fun b o => expireStep_turn o
  unfold Sctp.abandonExpired
  simp only
  split
  · exact hswept.announceSkip
  · exact hswept

end

theorem resendLowest_steady {low} (h : ∀ i o, low = some (i, o) → a.outRing[i]? = some (some o)) :
    Steady a (resendLowest env now a low) := by
  cases low with
  | none => exact .of_books rfl
  | some io =>
    obtain ⟨i, o⟩ := io
    have hget := h i o rfl
    have ht : Turn (fun _ => false) a o (resend env a o) := resend_turn rfl
    have hfirst : Steady a (resend env a o).1 := by
      obtain ⟨l, hlog, hev, -⟩ := ht.swept.log
      refine .of_same ht.ring ht.swept.next (ht.swept.adv.resolve_right ?_) ⟨l, hlog, ?_⟩
      · rintro ⟨_, -, hf, -⟩
        cases hf
      intro ev hmem
      obtain ⟨x, hx, rfl | ⟨hf, -⟩⟩ := hev ev hmem
      · cases mem_singleton.mp hx
        exact .inr ⟨o, mem_of_getElem? hget, rfl⟩
      · cases hf
    have hset := Steady.set (ht.ring ▸ hget) ht.same (by rw [ht.mark, Bool.or_false])
    exact (hfirst.trans hset).trans (.of_books rfl)

section
variable (h : Ledger base a)
include h

theorem Ledger.onT3Timeout (hclosed : Closed OutChunk.lost a) :
    Ledger base (onT3Timeout env now a) := by
  have hback : Ledger base (backOff a) := h.steady (.of_books rfl)
  have hswept := hback.swept (f := t3Step) lost_limited hclosed fun b o => t3Step_turn o
  unfold Sctp.onT3Timeout
  simp only
  split
  · exact hback.steady (.of_receiving (abortAssoc_delivering _).toReceiving)
  refine Ledger.steady ?_ (resendLowest_steady fun i o hlow => ?_)
  · split
    · exact hswept.announceSkip
    · exact hswept
  obtain ⟨hget, hp⟩ := lowestSlot_mem hlow
  simp only [Bool.and_eq_true, Bool.not_eq_true'] at hp
  split
  · exact Slots.getElem?_freeWhere hget (by simp [hp.2])
  · exact hget

theorem Ledger.tick (hexp : Closed (·.expired now) a)
    (ht3 : (Sctp.abandonExpired env now a).t3Due now →
      Closed OutChunk.lost (Sctp.abandonExpired env now a)) : Ledger base (tick env now a).2 := by
  have hdriven : Ledger base (tickT3 env now (Sctp.abandonExpired env now a)) := by
    have hexpired : Ledger base (Sctp.abandonExpired env now a) := h.abandonExpired hexp
    unfold tickT3
    split
    · rename_i hdue
      split
      · exact hexpired.onT3Timeout (ht3 hdue)
      · exact hexpired.steady (.of_books rfl)
    · exact hexpired
  simp only [Sctp.tick]
  split
  · exact h
  split
  · exact hdriven
  · exact hdriven.steady (flushSend_steady _)

/-! ## Handshakes -/

theorem Ledger.ships (hs : Ships q a b)
    (hq : forwardCum q = none) : Ledger base b := h.steady (.of_ships hs (.inl hq))

theorem Ledger.become (st : State) : Ledger base (a.become st) :=
  h.steady (.of_books rfl)

theorem Ledger.setPeer (tag tsn rwnd : Nat) :
    Ledger base (a.setPeer tag tsn rwnd) := h.steady (.of_books rfl)

theorem Ledger.sendInitAck (tag tsn rwnd : Nat) :
    Ledger base (sendInitAck env a tag tsn rwnd) :=
  (h.setPeer tag tsn rwnd).ships (shipPacket_ships _ _ _) (forwardCum_chunk (by decide) _ _ _)

theorem Ledger.sendCookieEcho (cookie : Bytes) :
    Ledger base (sendCookieEcho env a cookie) := by
  have hships : ∀ rest, Ledger base (shipPacket env a a.peerTag
      (chunkOf .cookieEcho 0 (cookie.take kSctpCookieLen) ++ rest)).2 := fun rest =>
    h.ships (shipPacket_ships _ _ _) (forwardCum_chunkOf (by decide) _ _ _ _)
  simp only [Sctp.sendCookieEcho]
  split
  · exact (hships _).become _
  · exact hships _

theorem Ledger.handleInit : Ledger base (handleInit env a chunk) := by
  unfold Sctp.handleInit
  split
  · exact h
  split
  · exact h.become _
  · exact h.sendInitAck _ _ _

theorem Ledger.handleInitAck : Ledger base (handleInitAck env a chunk) := by
  unfold Sctp.handleInitAck
  split
  · exact h
  split
  · exact h
  simp only
  split
  · exact (h.setPeer _ _ _).become _
  split
  · exact (h.setPeer _ _ _).become _
  · exact (h.setPeer _ _ _).become _
  · exact (h.setPeer _ _ _).sendCookieEcho _

theorem Ledger.handleCookieAck : Ledger base (handleCookieAck a) := by
  unfold Sctp.handleCookieAck
  split
  · exact h.become _
  · exact h

end

variable {n : Nat} {m : Message}

theorem not_accepted (h : chunkCount l = 0) {tsn} (hmem : Event.accepted tsn n rel m ∈ l) :
    n = 0 := by
  induction l with
  | nil => cases hmem
  | cons ev l ih =>
    rcases mem_cons.mp hmem with rfl | hmem
    · simp only [chunkCount] at h
      omega
    · refine ih ?_ hmem
      cases ev <;> simp only [chunkCount] at h <;> omega

section
variable (h : Ledger base a)
include h

theorem Ledger.restart (hnone : chunkCount a.log = 0) (hlog : b.log = a.log)
    (hring : b.outRing = a.outRing) (hnext : b.nextTsn < 2 ^ 32)
    (hadv : b.advAckPoint = tsnSub b.nextTsn 1) : Ledger b.nextTsn b := by
  have hempty : ∀ o, some o ∉ b.outRing := by
    intro o ho
    obtain ⟨k, hk, -⟩ := h.ring o (hring ▸ ho)
    omega
  have hqueued : ∀ t, ¬Queued b.log t := by
    rintro t ⟨rel, tsn, n, m, i, hmem, hi, -⟩
    have := not_accepted (hlog ▸ hnone) hmem
    omega
  exact {
    base_lt := hnext
    next := by rw [hlog, hnone, tsnAdd, Nat.add_zero, Nat.mod_eq_of_lt hnext]
    givenUp := fun t ht => by
      obtain ⟨k, hk, -⟩ := h.givenUp t (hlog ▸ ht)
      omega
    ring := fun o ho => absurd ho (hempty o)
    laid := fun t rel ht => absurd ⟨rel, ht⟩ (hqueued t)
    terms := fun o ho => absurd ho (hempty o)
    mortal := fun t _ rel ht => absurd ⟨rel, ht⟩ (hqueued t)
    held := fun t ht => absurd ht (hqueued t)
    adv_lt := by rw [hadv]; exact tsnSub_lt _ _
    adv := .inl hadv
    cover := fun o ho => absurd ho (hempty o)
    whole := hlog ▸ h.whole
    each := hlog ▸ h.each
    data := fun o ho => absurd ho (hempty o) }

theorem Ledger.handleCookieEcho (hnone : chunkCount a.log = 0) :
    ∃ base', Ledger base' (handleCookieEcho env a chunk) := by
  unfold Sctp.handleCookieEcho
  split
  · exact ⟨base, h.become _⟩
  split
  · exact ⟨base, h.become _⟩
  have hnew : Ledger _ (a.restore (rd32 chunk 8) (rd32 chunk 12) (rd32 chunk 16)) :=
    h.restart hnone rfl rfl (rd32_lt _ _) rfl
  have hships : Ships _ _ (sendCookieAck env
      (a.restore (rd32 chunk 8) (rd32 chunk 12) (rd32 chunk 16))) := shipPacket_ships _ _ _
  exact ⟨_, (hnew.ships hships (forwardCum_chunk (by decide) _ _ _)).become _⟩

/-! ## `send` -/

omit h in
theorem enqueueLoop_ring {ssn tsn} (h : enqueueLoop env now rel m ssn tsn n i a = some b) :
    b.log = a.log ∧ b.advAckPoint = a.advAckPoint ∧
      (a.nextTsn < 2 ^ 32 → b.nextTsn = tsnAdd a.nextTsn n) ∧
      (∀ o, some o ∈ a.outRing → some o ∈ b.outRing) ∧
      (∀ o, some o ∈ b.outRing → some o ∈ a.outRing ∨
        ∃ j < n, o.tsn = tsnAdd tsn (i + j) ∧ forwardCum o.packet = none ∧ o.limited = rel.limited) ∧
      ∀ j < n, ∃ o, some o ∈ b.outRing ∧ o.tsn = tsnAdd tsn (i + j) ∧ o.abandoned = false := by
  induction n generalizing i a with
  | zero =>
    cases h
    refine ⟨rfl, rfl, fun hlt => ?_, fun o ho => ho, fun o ho => .inl ho, fun j hj => ?_⟩
    · rw [tsnAdd, Nat.add_zero, Nat.mod_eq_of_lt hlt]
    · omega
  | succ n ih =>
    obtain ⟨q, hq, hrest⟩ := Option.bind_eq_some_iff.mp h
    obtain ⟨ring, hring, rfl⟩ := Option.map_eq_some_iff.mp hq
    obtain ⟨hlog, hadv, hnext, hkeep, hback, hnew⟩ := ih hrest
    refine ⟨hlog, hadv, fun hlt => ?_, fun o ho => ?_, fun o ho => ?_, fun j hj => ?_⟩
    · rw [hnext (tsnAdd_lt _ _)]
      simp only [Assoc.nextChunk, Assoc.setRing, tsnAdd_tsnAdd]
      rw [Nat.add_comm 1 n]
    · exact hkeep o ((Slots.mem_alloc hring).mpr (.inr ho))
    · rcases hback o ho with ho | ⟨j, hj, htsn, hfwd⟩
      · rcases (Slots.mem_alloc hring).mp ho with rfl | ho
        · exact .inr ⟨0, by omega, rfl, forwardCum_chunkOf (by decide) _ _ _ _, rfl⟩
        · exact .inl ho
      · exact .inr ⟨j + 1, by omega, by rw [htsn, Nat.add_assoc, Nat.add_comm 1 j], hfwd⟩
    cases j with
    | zero => exact ⟨_, hkeep _ ((Slots.mem_alloc hring).mpr (.inl rfl)), rfl, rfl⟩
    | succ j =>
      obtain ⟨o, ho, htsn, hout⟩ := hnew j (by omega)
      exact ⟨o, ho, by rw [htsn, Nat.add_assoc, Nat.add_comm 1 j], hout⟩

theorem Ledger.accept (hfew : chunkCount a.log + n < 2 ^ 31 - 1)
    (hlog : b.log = a.log ++ [.accepted a.nextTsn n rel m]) (hadv : b.advAckPoint = a.advAckPoint)
    (hnext : b.nextTsn = tsnAdd a.nextTsn n) (hkeep : ∀ o, some o ∈ a.outRing → some o ∈ b.outRing)
    (hback : ∀ o, some o ∈ b.outRing → some o ∈ a.outRing ∨
      ∃ j < n, o.tsn = tsnAdd a.nextTsn j ∧ forwardCum o.packet = none ∧ o.limited = rel.limited)
    (hnew : ∀ j < n, ∃ o, some o ∈ b.outRing ∧ o.tsn = tsnAdd a.nextTsn j ∧ o.abandoned = false) :
    Ledger base b := by
  have hcount : chunkCount b.log = chunkCount a.log + n := by
    rw [hlog, chunkCount_append]
    rfl
  have hgiven : ∀ t, GivenUp b.log t → GivenUp a.log t := by
    intro t ht
    rw [hlog] at ht
    rcases mem_append.mp ht with ht | ht
    · exact ht
    · cases mem_singleton.mp ht
  have hgiven' : ∀ t, GivenUp a.log t → GivenUp b.log t := fun t ht => hlog ▸ ht.mono
  have hsacked : ∀ t, Sacked a.log t → Sacked b.log t := fun t ht => hlog ▸ ht.mono
  have htsn : ∀ j, tsnAdd a.nextTsn j = tsnAdd base (chunkCount a.log + j) := by
    intro j
    rw [h.next, tsnAdd_tsnAdd]
  -- the new TSNs are none of those used so far
  have hfresh : ∀ {t j : Nat}, Used base a.log t → j < n → t = tsnAdd a.nextTsn j → False := by
    rintro t j ⟨k, hk, rfl⟩ hj heq
    rw [htsn] at heq
    have := tsnAdd_inj (by omega) (by omega) heq
    omega
  have hused : ∀ t, Used base a.log t → Used base b.log t :=
    fun t ⟨k, hk, ht⟩ => ⟨k, by omega, ht⟩
  have hnewUsed : ∀ j < n, Used base b.log (tsnAdd a.nextTsn j) :=
    fun j hj => ⟨chunkCount a.log + j, by omega, htsn j⟩
  have hsent : ∀ t rel', SentAs b.log t rel' →
      SentAs a.log t rel' ∨ rel' = rel ∧ ∃ i < n, t = tsnAdd a.nextTsn i := by
    rintro t rel' ⟨tsn, n', m', i, hmem, hi, rfl⟩
    rw [hlog] at hmem
    rcases mem_append.mp hmem with hmem | hmem
    · exact .inl ⟨tsn, n', m', i, hmem, hi, rfl⟩
    · cases mem_singleton.mp hmem
      exact .inr ⟨rfl, i, hi, rfl⟩
  exact {
    base_lt := h.base_lt
    next := by rw [hnext, htsn, hcount]
    givenUp := fun t ht => hused t (h.givenUp t (hgiven t ht))
    ring := by
      intro o ho
      rcases hback o ho with ho | ⟨j, hj, ht, -⟩
      · exact hused _ (h.ring o ho)
      · exact ht ▸ hnewUsed j hj
    laid := by
      intro t rel' ht
      rcases hsent t rel' ht with ht | ⟨-, i, hi, rfl⟩
      · exact hused t (h.laid t rel' ht)
      · exact hnewUsed i hi
    terms := by
      intro o ho rel' hrel
      rcases hback o ho with ho | ⟨j, hj, ht, -, hlim⟩
      · rcases hsent _ rel' hrel with hrel | ⟨-, i, hi, ht⟩
        · exact h.terms o ho rel' hrel
        · exact (hfresh (h.ring o ho) hi ht).elim
      · rcases hsent _ rel' hrel with hrel | ⟨rfl, -⟩
        · exact (hfresh (h.laid _ rel' hrel) hj ht).elim
        · exact hlim
    mortal := by
      intro t ht rel' hrel
      have ht := hgiven t ht
      rcases hsent t rel' hrel with hrel | ⟨-, i, hi, heq⟩
      · exact h.mortal t ht rel' hrel
      · exact (hfresh (h.givenUp t ht) hi heq).elim
    held := by
      rintro t ⟨rel', ht⟩
      rcases hsent t rel' ht with ht | ⟨-, i, hi, rfl⟩
      · rcases h.held t ⟨rel', ht⟩ with ⟨o, ho, ht, hout⟩ | hs | hg
        · exact .inl ⟨o, hkeep o ho, ht, hout⟩
        · exact .inr (.inl (hsacked _ hs))
        · exact .inr (.inr (hgiven' _ hg))
      · exact .inl (hnew i hi)
    adv_lt := hadv ▸ h.adv_lt
    adv := by
      rw [hadv, hlog]
      exact h.adv.mono
    cover := by
      intro o ho hout hle
      rw [hadv] at hle
      rcases hback o ho with ho | ⟨j, hj, ht, -⟩
      · exact hsacked _ (h.cover o ho hout hle)
      rw [ht, htsn] at hle ⊢
      -- a new TSN is ahead of the start and of everything given up
      rcases h.adv with h0 | hg | ⟨ranges, hs⟩
      · rw [h0, not_tsnLe_before h.base_lt (by omega)] at hle
        cases hle
      · obtain ⟨k, hk, hadvk⟩ := h.givenUp _ hg
        rw [hadvk] at hle
        have := tsnLe_add (by omega) (by omega) hle
        omega
      · exact ⟨_, ranges, hlog ▸ mem_append_left _ hs, .inl hle⟩
    whole := by
      intro tsn n' rel' m' hmem ⟨i, hi, hg⟩ j hj
      rw [hlog] at hmem
      have hg := hgiven _ hg
      rcases mem_append.mp hmem with hmem | hmem
      · exact (h.whole tsn n' rel' m' hmem ⟨i, hi, hg⟩ j hj).imp (hgiven' _) (hsacked _)
      · cases mem_singleton.mp hmem
        exact (hfresh (h.givenUp _ hg) hi rfl).elim
    each := hlog ▸ h.each.snoc trivial
    data := by
      intro o ho
      rcases hback o ho with ho | ⟨j, hj, -, hfwd, -⟩
      · exact h.data o ho
      · exact hfwd }

theorem Ledger.send {sid ppid data rel}
    (hfew : chunkCount a.log + fragCount data < 2 ^ 31 - 1) :
    Ledger base (send env now a sid ppid data rel).2 := by
  rcases send_cases env now a sid ppid data rel with hs | ⟨q, hq, hs⟩
  · rw [hs]
    exact h
  rw [hs]
  obtain ⟨hlog, hadv, hnext, hkeep, hback, hnew⟩ := enqueueLoop_ring hq
  simp only [Nat.zero_add] at hback hnew
  have hlt : a.nextTsn < 2 ^ 32 := by
    rw [h.next]
    exact tsnAdd_lt _ _
  -- counting the stream's next number touches none of the fields of the ledger
  have hbump : ∀ c, (c = q ∨ c = q.bumpSsn sid (a.outSsn.getD sid 0)) → ∀ m,
      Ledger base (c.note (.accepted a.nextTsn (fragCount data) rel m)) := by
    rintro c (rfl | rfl) m
    · exact h.accept hfew (congrArg (· ++ _) hlog) hadv (hnext hlt) hkeep hback hnew
    · exact h.accept hfew (congrArg (· ++ _) hlog) hadv (hnext hlt) hkeep hback hnew
  refine Ledger.steady (hbump _ ?_ _) (flushSend_steady _)
  split
  · exact .inl rfl
  · exact .inr rfl

/-! ## Runs -/

/-- What a chunk of the peer has to respect: a SACK makes the association give up
closed sets only, and a COOKIE-ECHO comes before the first message. -/
def CalmChunk (now : Nat) (a : Assoc) (chunk : Bytes) : Prop :=
  match ChunkType.ofCode (octet chunk 0) with
  | some .sack => FastClosed now a chunk
  | some .cookieEcho => chunkCount a.log = 0
  | _ => True

def CalmLoop (env : Env) (now : Nat) : Nat → Assoc → Bytes → Prop
  | 0, _, _ => True
  | fuel + 1, a, rest =>
    rest.length < 4 ∨ rd16 rest 2 < 4 ∨ rest.length < rd16 rest 2 ∨
      CalmChunk now a rest ∧
        CalmLoop env now fuel (handleChunk env now a rest) (rest.drop (pad4 (rd16 rest 2)))

def Calm (env : Env) (a : Assoc) : Call → Prop
  | .connect => True
  | .feed now p => CalmLoop env now p.length a (p.drop kHdrLen)
  | .send _ _ _ data _ => chunkCount a.log + fragCount data < 2 ^ 31 - 1
  | .tick now => Closed (·.expired now) a ∧
      ((abandonExpired env now a).t3Due now → Closed OutChunk.lost (abandonExpired env now a))

inductive CalmReach : Assoc → Prop
  | init (role : Role) (tag : Nat) {tsn : Nat} (h : tsn < 2 ^ 32) : CalmReach (init role tag tsn)
  | call (env : Env) (c : Call) {a : Assoc} (h : CalmReach a) (hc : Calm env a c) :
      CalmReach (call env a c)

theorem Ledger.handleChunk (hc : CalmChunk now a chunk) :
    ∃ base', Ledger base' (handleChunk env now a chunk) := by
  unfold CalmChunk at hc
  unfold Sctp.handleChunk
  split <;> rename_i htype <;> rw [htype] at hc
  · exact ⟨base, h.handleInit⟩
  · exact ⟨base, h.handleInitAck⟩
  · exact h.handleCookieEcho hc
  · exact ⟨base, h.handleCookieAck⟩
  · have hrecv : Receiving env a (handleData env a chunk) := handleData_receiving _ _
    exact ⟨base, h.steady (.of_receiving hrecv)⟩
  · exact ⟨base, h.handleSack hc⟩
  · have hrecv : Receiving env a (handleForwardTsn env a chunk) := handleForwardTsn_receiving _ _
    exact ⟨base, h.steady (.of_receiving hrecv)⟩
  · exact ⟨base, h.become _⟩
  · exact ⟨base, h⟩

omit h in
theorem Ledger.init (role : Role) (tag : Nat) {tsn} (h : tsn < 2 ^ 32) :
    Ledger tsn (init role tag tsn) where
  base_lt := h
  next := (Nat.mod_eq_of_lt h).symm
  givenUp _ ht := absurd ht not_mem_nil
  ring o ho := by simp [Sctp.init] at ho
  laid t rel := by
    rintro ⟨_, _, _, _, hmem, -⟩
    cases hmem
  terms o ho := by simp [Sctp.init] at ho
  mortal _ ht := absurd ht not_mem_nil
  held t := by
    rintro ⟨_, _, _, _, _, hmem, -⟩
    cases hmem
  adv_lt := tsnSub_lt _ _
  adv := .inl rfl
  cover o ho := by simp [Sctp.init] at ho
  whole _ _ _ _ hmem := absurd hmem not_mem_nil
  each := each_nil
  data o ho := by simp [Sctp.init] at ho

theorem Ledger.call {c} (hc : Calm env a c) :
    ∃ base', Ledger base' (call env a c) := by
  cases c with
  | connect =>
    simp only [Sctp.call, connect]
    split
    · exact ⟨base, h⟩
    have hships : Ledger base (shipPacket env a 0
        (chunkOf .init 0 (initValue a ++ forwardTsnSupported))).2 :=
      h.ships (shipPacket_ships _ _ _) (forwardCum_chunk (by decide) _ _ _)
    simp only [sendInit]
    split
    · exact ⟨base, hships.become _⟩
    · exact ⟨base, hships⟩
  | feed now p =>
    exact feed_induction (L := CalmLoop env now) (I := fun b => ∃ base, Ledger base b)
      (fun _ _ _ h => h) (fun _ _ hq h => h.elim fun _ h => h.handleChunk hq) ⟨base, h⟩ hc
  | send now sid ppid data rel => exact ⟨base, h.send hc⟩
  | tick now => exact ⟨base, h.tick hc.1 hc.2⟩

end

theorem CalmReach.ledger (h : CalmReach a) : ∃ base, Ledger base a := by
  induction h with
  | init role tag h => exact ⟨_, .init role tag h⟩
  | call env c _ hc ih =>
    obtain ⟨base, hbase⟩ := ih
    exact hbase.call hc

/-- Under calls that give up closed sets of chunks, every FORWARD-TSN covers only
TSNs that the peer has acknowledged or whose chunk was given up, and at any time only
whole messages are given up. -/
theorem forward_covers_given_up (h : CalmReach a) : Each ForwardOk a.log ∧ Whole a.log := by
  obtain ⟨base, hbase⟩ := h.ledger
  exact ⟨hbase.each, hbase.whole⟩

/-! ### Two runs of the server -/

theorem Closed.of_all (h : ∀ o ∈ Slots.entries a.outRing, g o) : Closed g a :=
  fun _ _ _ x hx _ _ => h x (Slots.mem_entries.mpr hx)

theorem Closed.of_none (h : ∀ o ∈ Slots.entries a.outRing, g o = false) : Closed g a := by
  intro o ho hg
  rw [h o (Slots.mem_entries.mpr ho)] at hg
  cases hg

def once : SctpReliability := { rexmitLimited := true }

def given0 : Assoc := call openEnv server2 (.send 2 0 51 (ascii "a") once)
def given1 : Assoc := call openEnv given0 (.tick 5000)

theorem server2_calm : CalmReach server2 := by
  have h1 : CalmReach server1 := by
    refine .call openEnv _ (.init _ _ (by decide)) ?_
    have hlen : (lastShipped client1).length = 35 + 1 := by decide +kernel
    have htype : ChunkType.ofCode (octet ((lastShipped client1).drop kHdrLen) 0) = some .init := by
      decide +kernel
    rw [Calm, hlen]
    refine .inr (.inr (.inr ⟨?_, .inl (by decide +kernel)⟩))
    rw [CalmChunk, htype]
    trivial
  refine .call openEnv _ h1 ?_
  have hlen : (lastShipped client2).length = 47 + 1 := by decide +kernel
  have htype : ChunkType.ofCode (octet ((lastShipped client2).drop kHdrLen) 0) =
      some .cookieEcho := by decide +kernel
  rw [Calm, hlen]
  refine .inr (.inr (.inr ⟨?_, .inl (by decide +kernel)⟩))
  rw [CalmChunk, htype]
  decide +kernel

theorem given0_calm : CalmReach given0 :=
  .call openEnv _ server2_calm (by unfold Calm; decide +kernel)

/-- The only message sent is given up, and the FORWARD-TSN covers it. -/
theorem forward_covers_given_message :
    (Each ForwardOk given1.log ∧ Whole given1.log) ∧ GivenUp given1.log 100 ∧
      ∃ p ∈ shippedBy given1, forwardCum p = some 100 := by
  refine ⟨forward_covers_given_up (.call openEnv _ given0_calm ⟨?_, fun _ => ?_⟩),
    ?_, ?_⟩
  · exact .of_none (by decide +kernel)
  · exact .of_all (by decide +kernel)
  · unfold GivenUp
    decide +kernel
  · decide +kernel

def skipped0 : Assoc := call openEnv server2 (.send 2 0 51 (ascii "a") (.reliable false))
def skipped1 : Assoc := call openEnv skipped0 (.send 2 0 51 (ascii "b") once)
def skipped2 : Assoc := call openEnv skipped1 (.tick 5000)

def sacksOf (a : Assoc) : List Nat :=
  a.log.filterMap fun
    | .sacked cum _ => some cum
    | _ => none

/-- The FORWARD-TSN for the second message covers the first, which is reliable
and which the peer has not acknowledged. -/
theorem forward_skips_reliable :
    Reach skipped2 ∧ SentAs skipped2.log 100 (.reliable false) ∧
      (∃ p ∈ shippedBy skipped2, forwardCum p = some 101) ∧ tsnLe 100 101 = true ∧
      ¬Sacked skipped2.log 100 ∧ ¬GivenUp skipped2.log 100 := by
  obtain ⟨hship, hnone, hgiven⟩ : (∃ p ∈ shippedBy skipped2, forwardCum p = some 101) ∧
      sacksOf skipped2 = [] ∧ ¬GivenUp skipped2.log 100 := by
    unfold GivenUp
    decide +kernel
  refine ⟨.call openEnv _ (.call openEnv _ (.call openEnv _ server2_reach)), ?_, hship, ?_, ?_, hgiven⟩
  · exact ⟨100, 1, { streamId := 0, ppid := 51, unordered := false, data := ascii "a" }, 0,
      by decide +kernel, by decide, by decide⟩
  · decide +kernel
  rintro ⟨cum, ranges, hmem, -⟩
  have hcum : cum ∈ sacksOf skipped2 := mem_filterMap.mpr ⟨_, hmem, rfl⟩
  rw [hnone] at hcum
  cases hcum

end BoltApi.WebRtc.Sctp
