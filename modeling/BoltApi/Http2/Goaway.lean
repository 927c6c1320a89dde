import BoltApi.Http2.ReceiveRefinement
import BoltApi.Http2.HpackWorld

/-! # GOAWAY

The last stream ids of the GOAWAY frames a server sends never grow, and after a
GOAWAY no stream above its id is admitted. The second part fails when a graceful
GOAWAY goes out before the client's preface is there: the connection then still
becomes active. -/
namespace BoltApi.Http2.Goaway
open Octets Hpack.Tables Wire Fields List
open Connection Connection.Http2Connection Receive
open Protocol Refinement ReceiveRefinement

def goawayId : Event → Option Nat
  | .queued f => if f.type = .goaway then some (getU31 f.payload) else none
  | _ => none

def admitted : Event → Option Nat
  | .opened id _ => some id
  | .request s => some s.id
  | _ => none

/-- What a GOAWAY says about an event behind it. -/
def Shrinks (a b : Event) : Prop :=
  ∀ last next, goawayId a = some last → goawayId b = some next → next ≤ last

def Honours (a b : Event) : Prop :=
  ∀ last id, goawayId a = some last → admitted b = some id → id ≤ last

/-! ## What a step adds -/

variable {early : Prop} {e e' : Endpoint} {s s' : Http2Stream} {es : List Event}
variable {hand : Option Held}

theorem goawayId_goawayFrame {last} (h : last < 2 ^ 31) (error : ErrorCode) (debugData : Bytes) :
    goawayId (.queued (goawayFrame last error debugData)) = some last := by
  simp only [goawayId, goawayFrame, if_true, append_assoc, getU31_putU32 h]

theorem goawayId_control {f} (h : IsControl f) : goawayId (.queued f) = none := by
  rcases h with h | h | h | h <;> simp [goawayId, h]

theorem goawayId_headerBlock {id b fs} (h : IsHeaderBlock id b fs) :
    ∀ ev ∈ fs.map Event.queued, goawayId ev = none ∧ admitted ev = none := by
  obtain ⟨f, rest, rfl, htype, _, _, hrest⟩ := h
  intro ev hev
  obtain ⟨g, hg, rfl⟩ := mem_map.mp hev
  rcases mem_cons.mp hg with rfl | hg
  · exact ⟨by simp [goawayId, htype], rfl⟩
  · exact ⟨by simp [goawayId, (hrest g hg).1], rfl⟩

theorem transition_events (h : Transition e s s' es hand) :
    ∀ ev ∈ es, goawayId ev = none ∧ ∀ id, admitted ev = some id → id = s.id := by
  intro ev hev
  cases h with
  | respond _ _ _ _ hfs =>
    rcases mem_cons.mp hev with rfl | hev
    · exact ⟨rfl, nofun⟩
    · obtain ⟨hg, ha⟩ := goawayId_headerBlock hfs ev hev
      exact ⟨hg, by rw [ha]; nofun⟩
  | request =>
    rw [mem_singleton.mp hev]
    exact ⟨rfl, fun id hid => (Option.some.inj hid).symm⟩
  | responseData =>
    simp only [dataEvents] at hev
    split at hev
    · cases hev
    · rw [mem_singleton.mp hev]
      exact ⟨rfl, nofun⟩
  | interim | final | responseTrailers =>
    rw [mem_singleton.mp hev]
    exact ⟨rfl, nofun⟩
  | _ => cases hev

/-! ## The invariant -/

/-- The ids of the GOAWAY frames against the endpoint. Without `early`, the
server stops admitting streams when it sends the first one. -/
structure Announced (early : Prop) (e : Endpoint) : Prop where
  server : e.isServer = true
  accepted_lt : e.accepted < 2 ^ 31
  accepted_le : e.accepted ≤ e.lastStreamId
  sent_lt : e.sentGoaway < 2 ^ 31
  streams : ∀ id, e.streams id ≠ none → id ≤ e.accepted
  sent_le : ∀ ev ∈ e.trace, ∀ last, goawayId ev = some last → e.sentGoaway ≤ last
  shrinks : e.trace.Pairwise Shrinks
  first : ¬ early → (∀ ev ∈ e.trace, goawayId ev = none) → e.sentGoaway = 2 ^ 31 - 1
  stopped : ¬ early → (∃ ev ∈ e.trace, goawayId ev ≠ none) →
    e.state ≠ .active ∧ e.state ≠ .prefacePending
  covered : ¬ early → e.accepted ≤ e.sentGoaway
  honours : ¬ early → e.trace.Pairwise Honours

section
variable (h : Announced early e)
include h

theorem Announced.quiet (hs : e'.isServer = e.isServer)
    (ha : e'.accepted = e.accepted) (hl : e.lastStreamId ≤ e'.lastStreamId)
    (hg : e'.sentGoaway = e.sentGoaway) (hst : ∀ id, e'.streams id ≠ none → e.streams id ≠ none)
    (hstate : e.state ≠ .active ∧ e.state ≠ .prefacePending →
      e'.state ≠ .active ∧ e'.state ≠ .prefacePending) (ht : e'.trace = e.trace ++ es)
    (hes : ∀ ev ∈ es, goawayId ev = none ∧ ∀ id, admitted ev = some id → id ≤ e.accepted) :
    Announced early e' := by
  have hmem : ∀ ev ∈ e'.trace, goawayId ev ≠ none → ev ∈ e.trace := by
    intro ev hev hne
    rcases mem_append.mp (ht ▸ hev) with hev | hev
    · exact hev
    · exact absurd (hes ev hev).1 hne
  refine ⟨hs.trans h.server, ha ▸ h.accepted_lt, ha ▸ Nat.le_trans h.accepted_le hl,
    hg ▸ h.sent_lt, ?_, ?_, ?_, ?_, ?_, ?_, ?_⟩
  · intro id hid
    rw [ha]
    exact h.streams id (hst id hid)
  · intro ev hev last hlast
    rw [hg]
    exact h.sent_le ev (hmem ev hev (by simp [hlast])) last hlast
  · rw [ht, pairwise_append]
    refine ⟨h.shrinks, pairwise_of_forall_mem_list ?_, ?_⟩
    · intro a ha b _ last next hlast
      simp [(hes a ha).1] at hlast
    · intro a _ b hb last next _ hnext
      simp [(hes b hb).1] at hnext
  · intro hne hnone
    rw [hg]
    exact h.first hne fun ev hev => hnone ev (ht ▸ mem_append_left es hev)
  · rintro hne ⟨ev, hev, hid⟩
    exact hstate (h.stopped hne ⟨ev, hmem ev hev hid, hid⟩)
  · intro hne
    rw [ha, hg]
    exact h.covered hne
  intro hne
  rw [ht, pairwise_append]
  refine ⟨h.honours hne, pairwise_of_forall_mem_list ?_, ?_⟩
  · intro a ha b _ last id hlast
    simp [(hes a ha).1] at hlast
  · intro a ha' b hb last id hlast hid
    exact Nat.le_trans ((hes b hb).2 id hid)
      (Nat.le_trans (h.covered hne) (h.sent_le a ha' last hlast))

theorem Announced.silent (hs : e'.isServer = e.isServer)
    (ha : e'.accepted = e.accepted) (hl : e.lastStreamId ≤ e'.lastStreamId)
    (hg : e'.sentGoaway = e.sentGoaway) (hst : ∀ id, e'.streams id ≠ none → e.streams id ≠ none)
    (hstate : e.state ≠ .active ∧ e.state ≠ .prefacePending →
      e'.state ≠ .active ∧ e'.state ≠ .prefacePending)
    (ht : e'.trace = e.trace) : Announced early e' :=
  h.quiet hs ha hl hg hst hstate (ht.trans (append_nil _).symm)
    fun _ hev => absurd hev not_mem_nil

theorem Announced.goaway (hs : e'.isServer = e.isServer)
    (ha : e'.accepted = e.accepted) (hl : e'.lastStreamId = e.lastStreamId)
    (hg : e'.sentGoaway = e.cutoff) (hst : ∀ id, e'.streams id ≠ none → e.streams id ≠ none)
    (hstate : ¬ early → e'.state ≠ .active ∧ e'.state ≠ .prefacePending) {error debugData}
    (ht : e'.trace = e.trace ++ [.queued (goawayFrame e.cutoff error debugData)]) :
    Announced early e' := by
  have hcut : e.cutoff = min e.sentGoaway e.accepted := by
    rw [Endpoint.cutoff, if_pos h.server]
  have hsent : e.cutoff ≤ e.sentGoaway := by omega
  have hlt : e.cutoff < 2 ^ 31 := Nat.lt_of_le_of_lt hsent h.sent_lt
  have hid := goawayId_goawayFrame hlt error debugData
  have hle : ∀ ev ∈ e'.trace, ∀ last, goawayId ev = some last → e.cutoff ≤ last := by
    intro ev hev last hlast
    rcases mem_append.mp (ht ▸ hev) with hev | hev
    · exact Nat.le_trans hsent (h.sent_le ev hev last hlast)
    · rw [mem_singleton.mp hev, hid] at hlast
      exact Nat.le_of_eq (Option.some.inj hlast)
  refine ⟨hs.trans h.server, ha ▸ h.accepted_lt, by rw [ha, hl]; exact h.accepted_le, hg ▸ hlt,
    ?_, ?_, ?_, ?_, fun hne _ => hstate hne, ?_, ?_⟩
  · intro id hsome
    rw [ha]
    exact h.streams id (hst id hsome)
  · rw [hg]
    exact hle
  · rw [ht, pairwise_append]
    refine ⟨h.shrinks, pairwise_singleton _ _, ?_⟩
    intro a ha' b hb last next hlast hnext
    rw [mem_singleton.mp hb, hid] at hnext
    rw [← Option.some.inj hnext]
    exact Nat.le_trans hsent (h.sent_le a ha' last hlast)
  · intro _ hnone
    have := hnone _ (ht ▸ mem_append_right _ (mem_singleton_self _))
    rw [hid] at this
    cases this
  · intro hne
    have := h.covered hne
    rw [ha, hg, hcut]
    omega
  intro hne
  rw [ht, pairwise_append]
  refine ⟨h.honours hne, pairwise_singleton _ _, ?_⟩
  intro a _ b hb last id _ hadm
  rw [mem_singleton.mp hb] at hadm
  cases hadm

theorem Announced.opened (hact : e.state = .active) {id}
    (hlast : e.lastStreamId < id) (hid : id < 2 ^ 31) (hs : e'.isServer = e.isServer)
    (ha : e'.accepted = id) (hl : e'.lastStreamId = id) (hg : e'.sentGoaway = e.sentGoaway)
    (hst : ∀ i, e'.streams i ≠ none → i = id ∨ e.streams i ≠ none) {fields}
    (ht : e'.trace = e.trace ++ [.opened id fields]) : Announced early e' := by
  have hacc := h.accepted_le
  -- an active server has not sent a GOAWAY yet, unless it was early
  have hnone : ¬ early → ∀ ev ∈ e.trace, goawayId ev = none := by
    intro hne ev hev
    by_contra hsome
    exact (h.stopped hne ⟨ev, hev, hsome⟩).1 hact
  have hnone' : ¬ early → ∀ ev ∈ e'.trace, goawayId ev = none := by
    intro hne ev hev
    rcases mem_append.mp (ht ▸ hev) with hev | hev
    · exact hnone hne ev hev
    · rw [mem_singleton.mp hev]
      rfl
  refine ⟨hs.trans h.server, ha ▸ hid, by rw [ha, hl], hg ▸ h.sent_lt, ?_, ?_, ?_, ?_, ?_, ?_, ?_⟩
  · intro i hi
    rw [ha]
    rcases hst i hi with rfl | hi
    · exact Nat.le_refl _
    · have := h.streams i hi
      omega
  · intro ev hev last hgo
    rw [hg]
    rcases mem_append.mp (ht ▸ hev) with hev | hev
    · exact h.sent_le ev hev last hgo
    · rw [mem_singleton.mp hev] at hgo
      cases hgo
  · rw [ht, pairwise_append]
    refine ⟨h.shrinks, pairwise_singleton _ _, ?_⟩
    intro a _ b hb last next _ hnext
    rw [mem_singleton.mp hb] at hnext
    cases hnext
  · intro hne _
    rw [hg]
    exact h.first hne (hnone hne)
  · rintro hne ⟨ev, hev, hsome⟩
    exact absurd (hnone' hne ev hev) hsome
  · intro hne
    have := h.first hne (hnone hne)
    rw [ha, hg]
    omega
  intro hne
  refine pairwise_of_forall_mem_list fun a ha' b _ last i hgo _ => ?_
  rw [hnone' hne a ha'] at hgo
  cases hgo

theorem Announced.step (hs : Step early e e') : Announced early e' := by
  -- the stream that takes a step was there before
  have hput : ∀ {t : Http2Stream}, e.streams t.id ≠ none → ∀ i, (e.put t).streams i ≠ none →
      e.streams i ≠ none := by
    intro t ht i hi
    rcases Endpoint.put_dom hi with rfl | hi
    · exact ht
    · exact hi
  have hover : ∀ st : ConnectionState, st = .goawayReceived ∨ st = .goawaySent ∨ st = .closed →
      st ≠ .active ∧ st ≠ .prefacePending := by
    rintro _ (rfl | rfl | rfl) <;> decide
  have hno : ∀ ev id, admitted ev = none → admitted ev = some id → id ≤ e.accepted := by
    intro ev id hnone hsome
    rw [hnone] at hsome
    cases hsome
  cases hs with
  | receive f =>
    refine h.quiet rfl rfl (Nat.le_refl _) rfl (fun _ => id) id rfl fun ev hev => ?_
    rw [mem_singleton.mp hev]
    exact ⟨rfl, fun id => hno _ id rfl⟩
  | done | window | grant =>
    exact h.silent rfl rfl (Nat.le_refl _) rfl (fun _ => id) id rfl
  | goawayReceived =>
    exact h.silent rfl rfl (Nat.le_refl _) rfl (fun _ => id) (fun _ => hover _ (.inl rfl)) rfl
  | preface _ hpre =>
    exact h.silent rfl rfl (Nat.le_refl _) rfl (fun _ => id) (fun hst => absurd hpre hst.2) rfl
  | seen id _ hlt =>
    exact h.silent rfl rfl (Nat.le_of_lt hlt) rfl (fun _ hi => hi) (fun hst => hst) rfl
  | control f hf =>
    refine h.quiet rfl rfl (Nat.le_refl _) rfl (fun _ => id) id rfl fun ev hev => ?_
    rw [mem_singleton.mp hev]
    exact ⟨goawayId_control hf, fun id => hno _ id rfl⟩
  | fatal error debugData hne =>
    exact h.goaway rfl rfl rfl rfl (fun _ => id) (fun _ => hover _ (.inr (.inr rfl))) rfl
  | fatalSettings streams i m error hne hsame =>
    refine h.goaway rfl rfl rfl rfl (fun id hid => ?_) (fun _ => hover _ (.inr (.inr rfl))) rfl
    obtain ⟨t, ht⟩ := Option.ne_none_iff_exists'.mp hid
    obtain ⟨t', ht', _⟩ := retuned_some (hsame id) ht
    simp [ht']
  | graceful debugData hne hearly =>
    refine h.goaway rfl rfl rfl rfl (fun _ => id) (fun hn => ?_) rfl
    simp only [Endpoint.log]
    split
    · exact hover _ (.inr (.inl rfl))
    · rename_i hact
      exact ⟨hact, fun hpre => hn (hearly hpre)⟩
  | settings f i m streams _ _ _ _ _ _ _ _ hstreams =>
    refine h.silent rfl rfl (Nat.le_refl _) rfl (fun id hid hnone => ?_) id rfl
    exact hid (by simp [hstreams id, hnone])
  | stream s s' es hand hs ht =>
    have hdom : e.streams s'.id ≠ none := by rw [ht.id_eq, hs]; exact Option.some_ne_none _
    refine h.quiet rfl rfl (Nat.le_refl _) rfl (hput hdom) id rfl fun ev hev => ?_
    obtain ⟨hgo, hadm⟩ := transition_events ht ev hev
    refine ⟨hgo, fun i hi => ?_⟩
    rw [hadm i hi]
    exact h.streams s.id (by rw [hs]; exact Option.some_ne_none _)
  | pump s n hs =>
    have hdom : e.streams (s.pumped n e.isServer).id ≠ none := by rw [pumped_id, hs]; exact Option.some_ne_none _
    refine h.quiet rfl rfl (Nat.le_refl _) rfl (hput hdom) id rfl fun ev hev => ?_
    rw [mem_singleton.mp hev]
    exact ⟨rfl, fun id => hno _ id rfl⟩
  | openServer id endStream fields facts _ hact hlast _ hid =>
    exact h.opened hact hlast hid rfl rfl rfl rfl (fun i hi => Endpoint.put_dom hi) rfl
  | openClient _ _ _ _ _ hclient => exact absurd h.server (by simp [hclient])
  | close s _ _ =>
    exact h.silent rfl rfl (Nat.le_refl _) rfl (fun i hi => Endpoint.remove_dom hi) id rfl
  | finish s ev hclient => exact absurd h.server (by simp [hclient])

theorem Announced.steps (hs : Steps early e e') : Announced early e' :=
  hs.keeps (fun _ _ he hstep => Announced.step he hstep) h

end

/-! ## Runs -/

variable {X : Type}

theorem create_announced (x : X) : Announced early (view none (create true x)) := by
  have htrace : ∀ ev ∈ (view none (create true x)).trace, goawayId ev = none := by
    intro ev hev
    rw [mem_singleton.mp hev]
    rfl
  have hnone : ∀ ev ∈ (view none (create true x)).trace, ∀ last, goawayId ev ≠ some last := by
    intro ev hev last hlast
    rw [htrace ev hev] at hlast
    cases hlast
  have hzero : 0 < 2 ^ 31 := by decide
  have hfirst : 0x7FFFFFFF < 2 ^ 31 := by decide
  refine ⟨rfl, hzero, Nat.le_refl _, hfirst, fun _ hid => absurd rfl hid,
    fun ev hev last hlast => absurd hlast (hnone ev hev last), pairwise_singleton _ _,
    fun _ _ => rfl, ?_, fun _ => Nat.zero_le _, fun _ => pairwise_singleton _ _⟩
  rintro _ ⟨ev, hev, hsome⟩
  exact absurd (htrace ev hev) hsome

/-- **GOAWAY ids.** In every run of a server the ids of its GOAWAY frames never
grow; and when no graceful GOAWAY precedes the client's preface, no stream above
the id of a GOAWAY is opened or handed to the application after it. -/
theorem goaway_ids (w : World X) (x : X) (ops : List Op) :
    (run w true x ops).trace.Pairwise Shrinks ∧
      (Timely w (create true x) ops → (run w true x ops).trace.Pairwise Honours) := by
  constructor
  · have hrun := run_steps w true x ops (p := True) (.inl trivial)
    exact ((create_announced x).steps hrun.steps).shrinks
  · intro htimely
    have hrun := run_steps w true x ops (p := False) (.inr htimely)
    exact ((create_announced x).steps hrun.steps).honours id

/-- A client: its preface, an empty SETTINGS frame and `GET /` on stream 1. -/
def firstRequest : Bytes :=
  CONNECTION_PREFACE ++
    Frame.encode { type := .settings, flags := 0, streamId := 0, payload := [] } ++
    Frame.encode
      { type := .headers, flags := END_HEADERS ||| END_STREAM, streamId := 1
        payload := [0x82, 0x84, 0x87] }

/-- A graceful GOAWAY behind the first request. -/
theorem goaway_ids_first_request :
    (run (HpackWorld.hpackWorld fun _ => []) true {}
      [.input firstRequest, .call (.sendGoaway NO_ERROR [])]).trace.Pairwise Honours :=
  (goaway_ids _ _ _).2
    ⟨nofun, fun _ _ => by decide +kernel, trivial⟩

/-- A graceful GOAWAY before the client's preface carries the id 0, and the request
on stream 1 is opened nevertheless. -/
theorem early_goaway_admits :
    ¬ (run (HpackWorld.hpackWorld fun _ => []) true {}
      [.call (.sendGoaway NO_ERROR []), .input firstRequest]).trace.Pairwise Honours := by
  intro h
  have hpair :=
    pairwise_iff_getElem.mp h 1 5 (by decide +kernel) (by decide +kernel) (by decide)
  exact absurd (hpair 0 1 (by decide +kernel) (by decide +kernel)) (by decide)

end BoltApi.Http2.Goaway
