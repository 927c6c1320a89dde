import BoltApi.Lib.History
import BoltApi.Http2.FieldRules
import BoltApi.Http2.ReceiveRefinement
import BoltApi.Http2.HpackWorld

/-! # Requests at the application

What a server hands to the request callback: at most one request for each stream,
whose header section keeps the rules, and whose body is the concatenation of the
payloads of the DATA frames received on the stream, of the declared length. -/
namespace BoltApi.Http2.Requests
open Octets Hpack.Tables Wire Fields List
open FieldRules Lib.History
open Connection Connection.Http2Connection Receive
open Protocol Refinement ReceiveRefinement

/-! ## Received bodies -/

def frameData (id : Nat) (f : Frame) : Bytes :=
  if f.type = .data ∧ f.streamId = id then unpadded f else []

def arrived (id : Nat) : Event → Bytes
  | .received f => frameData id f
  | _ => []

def dataReceived (id : Nat) (trace : List Event) : Bytes := trace.flatMap (arrived id)

/-- The request is as the application may expect it after these events. -/
structure Delivered (before : List Event) (s : Http2Stream) : Prop where
  once : ∀ t, .request t ∈ before → t.id ≠ s.id
  body : s.requestBody = dataReceived s.id before
  admitted : ∃ fields, .opened s.id fields ∈ before ∧ RequestRules fields ∧
    Declares fields (some s.requestBody.length) ∧ s.requestHeaders = fields.foldl addField []

def RequestOk (before : List Event) : Event → Prop
  | .request s => Delivered before s
  | _ => True

/-! ## The invariant -/

variable {early : Prop} {e e' : Endpoint} {s s' : Http2Stream} {es : List Event} {id : Nat}

def inHand (e : Endpoint) (id : Nat) : Bytes := (e.hand.map fun g => frameData id g.frame).getD []

structure Account (e : Endpoint) (s : Http2Stream) : Prop where
  body : s.requestBody ++ inHand e s.id = dataReceived s.id e.trace
  count : ¬ e.Spoiled s.id → s.bodyReceived = s.requestBody.length
  admitted : ∃ fields facts, .opened s.id fields ∈ e.trace ∧
    validateFields .request fields = some facts ∧ s.contentLength = facts.contentLength ∧
    s.requestHeaders = fields.foldl addField []

structure Accounts (e : Endpoint) : Prop where
  stream : ∀ {id s}, e.streams id = some s → Account e s
  fresh : ∀ id, e.lastStreamId < id → dataReceived id e.trace = inHand e id
  asked : ∀ t, .request t ∈ e.trace → t.id ≤ e.lastStreamId ∧
    ∀ s, e.streams t.id = some s → s.requestComplete

structure Served (e : Endpoint) : Prop where
  server : e.isServer = true
  sound : Sound e
  hand : e.RefusesData
  each : Each RequestOk e.trace
  accounts : e.state ≠ .closed → Accounts e

structure SameRequest (s s' : Http2Stream) : Prop where
  id : s'.id = s.id
  body : s'.requestBody = s.requestBody
  contentLength : s'.contentLength = s.contentLength
  headers : s'.requestHeaders = s.requestHeaders
  complete : s.requestComplete → s'.requestComplete

/-! ## What steps keep -/

def Quiet : Event → Prop
  | .received _ => False
  | .request _ => False
  | _ => True

theorem arrived_quiet {ev} (h : Quiet ev) (id : Nat) : arrived id ev = [] := by
  cases ev with
  | received => cases h
  | _ => rfl

theorem dataReceived_quiet (hq : ∀ ev ∈ es, Quiet ev) (trace : List Event) :
    dataReceived id (trace ++ es) = dataReceived id trace := by
  have hnil : es.flatMap (arrived id) = [] :=
    flatMap_eq_nil_iff.mpr fun ev hev => arrived_quiet (hq ev hev) id
  rw [dataReceived, flatMap_append, hnil, append_nil]
  rfl

theorem Account.keep (h : Account e s) (hs : SameRequest s s')
    (hcount : ¬ e'.Spoiled s.id → ¬ e.Spoiled s.id ∧ s'.bodyReceived = s.bodyReceived)
    (hbody : s.requestBody ++ inHand e' s.id = dataReceived s.id e'.trace)
    (ht : e'.trace = e.trace ++ es) : Account e' s' := by
  refine ⟨by rw [hs.body, hs.id]; exact hbody, ?_, ?_⟩
  · rw [hs.id, hs.body]
    intro hsp
    obtain ⟨hsp, heq⟩ := hcount hsp
    rw [heq]
    exact h.count hsp
  · obtain ⟨fields, facts, hopen, hrest⟩ := h.admitted
    rw [hs.id, hs.contentLength, hs.headers]
    exact ⟨fields, facts, ht ▸ mem_append_left _ hopen, hrest⟩

theorem Accounts.keep (h : Accounts e)
    (hst : ∀ i s', e'.streams i = some s' → ∃ s, e.streams i = some s ∧ SameRequest s s' ∧
      (¬ e'.Spoiled s.id → ¬ e.Spoiled s.id ∧ s'.bodyReceived = s.bodyReceived) ∧
      inHand e' s.id = inHand e s.id) (hl : e.lastStreamId ≤ e'.lastStreamId)
    (hfresh : ∀ i, e'.lastStreamId < i → inHand e' i = inHand e i)
    (ht : e'.trace = e.trace ++ es) (hq : ∀ ev ∈ es, Quiet ev) : Accounts e' := by
  have hdata : ∀ i, dataReceived i e'.trace = dataReceived i e.trace :=
    fun i => by rw [ht, dataReceived_quiet hq]
  refine ⟨?_, ?_, ?_⟩
  · intro i s' hs'
    obtain ⟨s, hs, hsame, hcount, hhand⟩ := hst i s' hs'
    have hacc := h.stream hs
    exact hacc.keep hsame hcount (by rw [hhand, hdata]; exact hacc.body) ht
  · intro i hi
    rw [hdata, hfresh i hi]
    exact h.fresh i (Nat.lt_of_le_of_lt hl hi)
  intro t hreq
  have hold : .request t ∈ e.trace := by
    rcases mem_append.mp (ht ▸ hreq) with hreq | hreq
    · exact hreq
    · exact (hq _ hreq).elim
  obtain ⟨hle, hcomplete⟩ := h.asked t hold
  refine ⟨Nat.le_trans hle hl, fun s' hs' => ?_⟩
  obtain ⟨s, hs, hsame, -⟩ := hst t.id s' hs'
  exact hsame.complete (hcomplete s hs)

theorem SameRequest.refl (s : Http2Stream) : SameRequest s s := ⟨rfl, rfl, rfl, rfl, fun h => h⟩

theorem Accounts.quiet (h : Accounts e)
    (hst : ∀ i s', e'.streams i = some s' → ∃ s, e.streams i = some s ∧ SameRequest s s' ∧
      s'.bodyReceived = s.bodyReceived)
    (hl : e.lastStreamId ≤ e'.lastStreamId) (hh : e'.hand = e.hand)
    (ht : e'.trace = e.trace ++ es) (hq : ∀ ev ∈ es, Quiet ev) : Accounts e' := by
  have hhand : ∀ i, inHand e' i = inHand e i := fun i => by rw [inHand, hh]; rfl
  have hspoiled : ∀ i, e'.Spoiled i ↔ e.Spoiled i := fun i => by rw [Endpoint.Spoiled, hh]; rfl
  refine h.keep ?_ hl (fun i _ => hhand i) ht hq
  intro i s' hs'
  obtain ⟨s, hs, hsame, hcount⟩ := hst i s' hs'
  exact ⟨s, hs, hsame, fun hsp => ⟨(hspoiled _).not.mp hsp, hcount⟩, hhand _⟩

theorem inHand_free (hf : e.Free id) : inHand e id = [] := by
  unfold inHand frameData
  cases hg : e.hand with
  | none => rfl
  | some g => exact if_neg fun hdata => hf g hg hdata.1 hdata.2

section
variable (h : Accounts e)
include h

theorem Accounts.settled (hsound : Sound e) (href : e.RefusesData)
    (hset : ∀ g, e.hand = some g → e.Settled g.frame) : Accounts { e with hand := none } := by
  have hlive : ∀ {i s}, e.streams i = some s → e.Free s.id := by
    intro i s hs g hg hdata hid
    have hnone := ((hset g hg).1 hdata).1
    rw [hid, (hsound.stream hs).1, hs] at hnone
    cases hnone
  refine h.keep ?_ (Nat.le_refl _) ?_ (append_nil _).symm (forall_mem_nil _)
  · intro i s hs
    have hfree := hlive hs
    exact ⟨s, hs, .refl s, fun _ => ⟨href.not_spoiled hfree, rfl⟩, (inHand_free hfree).symm⟩
  intro i hi
  refine (inHand_free fun g hg hdata hid => ?_).symm
  have := ((hset g hg).1 hdata).2.2
  simp only at hi
  omega

theorem Accounts.dropped (href : e.RefusesData) {f} (hh : e.hand = held f)
    (hdata : f.type ≠ .data)
    (hst : ∀ i s', e'.streams i = some s' → ∃ s, e.streams i = some s ∧ SameRequest s s' ∧ s'.bodyReceived = s.bodyReceived)
    (hl : e'.lastStreamId = e.lastStreamId) (hh' : e'.hand = none) (ht : e'.trace = e.trace) :
    Accounts e' := by
  have hfree : ∀ i, e.Free i := by
    intro i g hg htype
    rw [hh] at hg
    cases hg
    exact absurd htype hdata
  have hfree' : ∀ i, e'.Free i := fun i g hg => by rw [hh'] at hg; cases hg
  have hhand : ∀ i, inHand e' i = inHand e i :=
    fun i => (inHand_free (hfree' i)).trans (inHand_free (hfree i)).symm
  refine h.keep ?_ (Nat.le_of_eq hl.symm) (fun i _ => hhand i)
    (ht.trans (append_nil _).symm) (forall_mem_nil _)
  intro i s' hs'
  obtain ⟨s, hs, hsame, hcount⟩ := hst i s' hs'
  exact ⟨s, hs, hsame, fun _ => ⟨href.not_spoiled (hfree _), hcount⟩, hhand _⟩

theorem Accounts.receive (href : e.RefusesData) (f : Frame) (hh : e.hand = none) :
    Accounts ({ e with hand := held f }.log [.received f]) := by
  have hfree : ∀ i, e.Free i := fun i g hg => by rw [hh] at hg; cases hg
  have hdata : ∀ i, dataReceived i (e.trace ++ [.received f]) =
      dataReceived i e.trace ++ frameData i f := by
    intro i
    simp only [dataReceived, flatMap_append, flatMap_singleton, arrived]
  refine ⟨?_, ?_, ?_⟩
  · intro i s hs
    have hacc := h.stream hs
    refine hacc.keep (.refl s) (fun _ => ⟨href.not_spoiled (hfree _), rfl⟩) ?_ rfl
    have hbody := hacc.body
    rw [inHand_free (hfree _), append_nil] at hbody
    exact (congrArg (· ++ frameData s.id f) hbody).trans (hdata s.id).symm
  · intro i hi
    have hnil := h.fresh i hi
    rw [inHand_free (hfree _)] at hnil
    exact (hdata i).trans (by rw [hnil]; rfl)
  intro t ht
  rcases mem_append.mp ht with ht | ht
  · exact h.asked t ht
  · cases mem_singleton.mp ht

theorem Accounts.requestData (hsound : Sound e) (href : e.RefusesData) {f r}
    (hs : e.streams s.id = some s) (hf : e.HoldsData s.id f) :
    Accounts { e.put { s with recvWindow := r, bodyReceived := s.bodyReceived + (unpadded f).length
                              requestBody := s.requestBody ++ unpadded f
                              state := s.state.dataReceived (f.has END_STREAM) } with
      hand := none } := by
  obtain ⟨hhand, hdata, hid⟩ := hf
  -- the frame in hand is for this stream only
  have hfree : ∀ i, i ≠ s.id → e.Free i := by
    intro i hi g hg _ hgid
    rw [hhand] at hg
    cases hg
    exact hi (hgid.symm.trans hid)
  have hown : inHand e s.id = unpadded f := by simp [inHand, hhand, frameData, hdata, hid]
  refine ⟨?_, ?_, ?_⟩
  · intro i t ht
    rcases Endpoint.put_eq_some ht with ⟨-, rfl⟩ | ⟨hi, ht⟩
    · have hacc := h.stream hs
      refine ⟨?_, fun _ => ?_, hacc.admitted⟩
      · have hbody := hacc.body
        rw [hown] at hbody
        exact (append_nil _).trans hbody
      have hunspoiled : ¬ e.Spoiled s.id := by
        rintro ⟨g, hg, hrefused, -⟩
        rw [hhand] at hg
        cases hg
        cases hrefused
      simp only [length_append, hacc.count hunspoiled]
    have hacc := h.stream ht
    have hfree := hfree t.id ((hsound.stream ht).1 ▸ hi)
    refine hacc.keep (.refl t) (fun _ => ⟨href.not_spoiled hfree, rfl⟩) ?_ (append_nil _).symm
    have hbody := hacc.body
    rw [inHand_free hfree] at hbody
    exact hbody
  · intro i hi
    have hle := (hsound.stream hs).2.le_last
    have hi : e.lastStreamId < i := hi
    exact (h.fresh i hi).trans (inHand_free (hfree i (by omega)))
  intro t ht
  obtain ⟨hle, hcomplete⟩ := h.asked t ht
  refine ⟨hle, fun s' hs' => ?_⟩
  rcases Endpoint.put_eq_some hs' with ⟨hi, rfl⟩ | ⟨-, hs'⟩
  · exact hcomplete s (hi ▸ hs)
  · exact hcomplete s' hs'

theorem Accounts.request (hsound : Sound e) (hs : e.streams s.id = some s) :
    Accounts ((e.put { s with requestComplete := true }).log
      [.request { s with requestComplete := true }]) := by
  have hquiet : ∀ i, dataReceived i (e.trace ++ [.request { s with requestComplete := true }]) =
      dataReceived i e.trace := by
    intro i
    simp only [dataReceived, flatMap_append, flatMap_singleton, arrived, append_nil]
  refine ⟨?_, ?_, ?_⟩
  · intro i t ht
    rcases Endpoint.put_eq_some ht with ⟨-, rfl⟩ | ⟨-, ht⟩
    · have hacc := h.stream hs
      exact hacc.keep ⟨rfl, rfl, rfl, rfl, fun _ => rfl⟩ (fun hsp => ⟨hsp, rfl⟩)
        (hacc.body.trans (hquiet _).symm) rfl
    · have hacc := h.stream ht
      exact hacc.keep (.refl t) (fun hsp => ⟨hsp, rfl⟩) (hacc.body.trans (hquiet _).symm) rfl
  · intro i hi
    exact (hquiet i).trans (h.fresh i hi)
  intro t ht
  have hold : t.id ≤ e.lastStreamId ∧ (t.id ≠ s.id → ∀ s, e.streams t.id = some s →
      s.requestComplete) := by
    rcases mem_append.mp ht with ht | ht
    · exact ⟨(h.asked t ht).1, fun _ => (h.asked t ht).2⟩
    · cases mem_singleton.mp ht
      exact ⟨(hsound.stream hs).2.le_last, fun hne => absurd rfl hne⟩
  refine ⟨hold.1, fun s' hs' => ?_⟩
  rcases Endpoint.put_eq_some hs' with ⟨-, rfl⟩ | ⟨hne, hs'⟩
  · rfl
  · exact hold.2 hne s' hs'

theorem Accounts.opened {i} (hl : e.lastStreamId < i) {fields facts}
    (hv : validateFields .request fields = some facts) (endStream : Bool) :
    Accounts ({ e.put (serverStream i e.initialWindow endStream fields facts) with
      lastStreamId := i, accepted := i }.log [.opened i fields]) := by
  have hquiet : ∀ k, dataReceived k (e.trace ++ [.opened i fields]) = dataReceived k e.trace := by
    intro k
    simp only [dataReceived, flatMap_append, flatMap_singleton, arrived, append_nil]
  refine ⟨?_, ?_, ?_⟩
  · intro k t ht
    rcases Endpoint.put_eq_some ht with ⟨-, rfl⟩ | ⟨-, ht⟩
    · refine ⟨?_, fun _ => rfl, fields, facts, ?_, hv, rfl, rfl⟩
      · exact (h.fresh i hl).symm.trans (hquiet i).symm
      · exact mem_append_right _ (mem_singleton_self _)
    · have hacc := h.stream ht
      exact hacc.keep (.refl t) (fun hsp => ⟨hsp, rfl⟩) (hacc.body.trans (hquiet _).symm) rfl
  · intro k hk
    have hk : i < k := hk
    exact (hquiet k).trans (h.fresh k (by omega))
  intro t ht
  rcases mem_append.mp ht with ht | ht
  · obtain ⟨hle, hcomplete⟩ := h.asked t ht
    refine ⟨Nat.le_trans hle (Nat.le_of_lt hl), fun s' hs' => ?_⟩
    rcases Endpoint.put_eq_some hs' with ⟨hi, -⟩ | ⟨-, hs'⟩
    · have hi : t.id = i := hi
      omega
    · exact hcomplete s' hs'
  · cases mem_singleton.mp ht

theorem Accounts.delivered (href : e.RefusesData) (hs : e.streams s.id = some s)
    (hcomplete : s.requestComplete = false)
    (hlength : s.contentLength.all (· = s.bodyReceived)) (hfree : e.Free s.id) :
    Delivered e.trace { s with requestComplete := true } := by
  obtain ⟨hbody, hcount, fields, facts, hopen, hv, hcl, hheaders⟩ := h.stream hs
  rw [inHand_free hfree, append_nil] at hbody
  refine ⟨?_, hbody, fields, hopen, validateFields_request hv, ?_, hheaders⟩
  · intro t ht heq
    have := (h.asked t ht).2 s (by rw [heq]; exact hs)
    rw [hcomplete] at this
    cases this
  intro field hfield hname
  obtain ⟨k, hk, hfacts⟩ := validateFields_length hv field hfield hname
  refine ⟨k, hk, ?_⟩
  rw [hcl, hfacts] at hlength
  have hk' : k = s.bodyReceived := by simpa using hlength
  rw [hk', hcount (href.not_spoiled hfree)]

end

theorem quiet_queued (fs : List Frame) : ∀ ev ∈ fs.map Event.queued, Quiet ev := by
  intro ev hev
  obtain ⟨f, -, rfl⟩ := mem_map.mp hev
  exact trivial

theorem sameRequest_pumped (s : Http2Stream) (n : Nat) (b : Bool) :
    SameRequest s (s.pumped n b) ∧ (s.pumped n b).bodyReceived = s.bodyReceived := by
  simp only [Http2Stream.pumped]
  split <;> exact ⟨⟨rfl, rfl, rfl, rfl, fun h => h⟩, rfl⟩

theorem Accounts.put (h : Accounts e) (hs : e.streams s.id = some s)
    (hst : e'.streams = (e.put s').streams) (hsame : SameRequest s s')
    (hcount : s'.bodyReceived = s.bodyReceived) (hl : e'.lastStreamId = e.lastStreamId) (hh : e'.hand = e.hand)
    (ht : e'.trace = e.trace ++ es) (hq : ∀ ev ∈ es, Quiet ev) : Accounts e' := by
  refine h.quiet ?_ (Nat.le_of_eq hl.symm) hh ht hq
  intro i t hi
  rw [hst] at hi
  rcases Endpoint.put_eq_some hi with ⟨rfl, rfl⟩ | ⟨-, hi⟩
  · exact ⟨s, hsame.id ▸ hs, hsame, hcount⟩
  · exact ⟨t, hi, .refl t, rfl⟩

theorem Accounts.transition (h : Accounts e) (hsound : Sound e) (href : e.RefusesData)
    (hserver : e.isServer) {hand} (hs : e.streams s.id = some s)
    (ht : Transition e s s' es hand) : Accounts ({ e.put s' with hand := hand }.log es) := by
  cases ht with
  | grant hh htype =>
    refine h.dropped href hh (by simp [htype]) ?_ rfl rfl (append_nil _)
    intro i t hi
    rcases Endpoint.put_eq_some hi with ⟨rfl, rfl⟩ | ⟨-, hi⟩
    · exact ⟨s, hs, ⟨rfl, rfl, rfl, rfl, fun h => h⟩, rfl⟩
    · exact ⟨t, hi, .refl t, rfl⟩
  | refill | requestTrailers =>
    exact h.put hs rfl ⟨rfl, rfl, rfl, rfl, fun h => h⟩ rfl rfl rfl rfl (forall_mem_nil _)
  | respond =>
    refine h.put hs rfl ?_ ?_ rfl rfl rfl ?_
    · split <;> exact ⟨rfl, rfl, rfl, rfl, fun h => h⟩
    · split <;> rfl
    intro ev hev
    rcases mem_cons.mp hev with rfl | hev
    · exact trivial
    · exact quiet_queued _ ev hev
  | @spoil f r n hf hr =>
    obtain ⟨hh, hdata, hid⟩ := hf
    have hunspoiled : ∀ i, ¬ e.Spoiled i := by
      rintro i ⟨g, hg, hrefused, -⟩
      rw [hh] at hg
      cases hg
      cases hrefused
    have hhand : ∀ {e' : Endpoint}, e'.hand = refused f → ∀ i, inHand e' i = inHand e i := by
      intro e' he' i
      simp only [inHand, he', hh, Option.map_some]
    refine h.keep ?_ (Nat.le_refl _) (fun i _ => hhand rfl i) rfl (forall_mem_nil _)
    intro i t ht
    rcases Endpoint.put_eq_some ht with ⟨rfl, rfl⟩ | ⟨-, ht⟩
    · refine ⟨s, hs, ⟨rfl, rfl, rfl, rfl, fun h => h⟩, fun hsp => ?_, hhand rfl _⟩
      exact absurd ⟨⟨f, true⟩, rfl, rfl, hid⟩ hsp
    · exact ⟨t, ht, .refl t, fun _ => ⟨hunspoiled _, rfl⟩, hhand rfl _⟩
  | requestData _ hf =>
    rw [Endpoint.log_nil]
    exact h.requestData hsound href hs hf
  | request => exact h.request hsound hs
  | interim hclient | final hclient | responseData hclient | responseTrailers hclient =>
    exact absurd hserver (by simp [hclient])

theorem Accounts.step (h : Accounts e) (hsound : Sound e) (href : e.RefusesData) (hserver : e.isServer)
    (hne : e'.state ≠ .closed) (hs : Step early e e') : Accounts e' := by
  have hsame : ∀ i s, e.streams i = some s → ∃ s', e.streams i = some s' ∧ SameRequest s' s ∧
      s.bodyReceived = s'.bodyReceived := fun i s hi => ⟨s, hi, .refl s, rfl⟩
  cases hs with
  | receive f hh => exact h.receive href f hh
  | done hset => exact h.settled hsound href (hset.resolve_left hne)
  | window | goawayReceived | preface =>
    exact h.quiet hsame (Nat.le_refl _) rfl (append_nil _).symm
      (forall_mem_nil _)
  | control | graceful =>
    exact h.quiet hsame (Nat.le_refl _) rfl rfl (quiet_queued [_])
  | fatal | fatalSettings => exact absurd rfl hne
  | seen id _ hlt =>
    exact h.quiet hsame (Nat.le_of_lt hlt) rfl (append_nil _).symm (forall_mem_nil _)
  | grant f hh htype => exact h.dropped href hh (by simp [htype]) hsame rfl rfl rfl
  | settings f i m streams hh _ htype _ _ _ _ _ hstreams =>
    refine h.dropped href hh (by simp [htype]) ?_ rfl rfl rfl
    intro i s' hs'
    obtain ⟨s, hs, rfl⟩ := Option.map_eq_some_iff.mp ((hstreams i).symm.trans hs')
    exact ⟨s, hs, ⟨rfl, rfl, rfl, rfl, fun h => h⟩, rfl⟩
  | stream s s' es hand hs ht => exact h.transition hsound href hserver hs ht
  | pump s n hs =>
    obtain ⟨hreq, hcount⟩ := sameRequest_pumped s n e.isServer
    exact h.put hs rfl hreq hcount rfl rfl rfl (quiet_queued [_])
  | openServer i endStream fields facts _ _ hl _ _ hv => exact h.opened hl hv endStream
  | openClient _ _ _ _ _ hclient => exact absurd hserver (by simp [hclient])
  | close s _ hs =>
    refine h.quiet ?_ (Nat.le_refl _) rfl (append_nil _).symm
      (forall_mem_nil _)
    exact fun i t hi => hsame i t (Endpoint.remove_eq_some hi).2
  | finish s ev hclient => exact absurd hserver (by simp [hclient])

theorem requests_of_step (hs : Step early e e') (hserver : e.isServer) :
    ∃ es, e'.trace = e.trace ++ es ∧ ((∀ ev ∈ es, ∀ before, RequestOk before ev) ∨
      ∃ s, es = [.request { s with requestComplete := true }] ∧ e.state ≠ .closed ∧
        e.streams s.id = some s ∧ s.requestComplete = false ∧
        s.contentLength.all (· = s.bodyReceived) ∧ e.Free s.id) := by
  have hone : ∀ {ev : Event}, (∀ before, RequestOk before ev) →
      ∀ ev' ∈ [ev], ∀ before, RequestOk before ev' :=
    fun h => forall_mem_singleton.mpr h
  cases hs with
  | receive | openServer | control | fatal | fatalSettings | graceful | pump =>
    exact ⟨_, rfl, .inl (hone fun _ => trivial)⟩
  | stream s s' es hand hs ht =>
    cases ht with
    | respond =>
      refine ⟨_, rfl, .inl fun ev hev => ?_⟩
      rcases mem_cons.mp hev with rfl | hev
      · exact fun _ => trivial
      · obtain ⟨f, -, rfl⟩ := mem_map.mp hev
        exact fun _ => trivial
    | request _ hne hcomplete _ hlength hfree =>
      exact ⟨_, rfl, .inr ⟨s, rfl, hne, hs, hcomplete, hlength, hfree⟩⟩
    | interim hclient | final hclient | responseData hclient | responseTrailers hclient =>
      exact absurd hserver (by simp [hclient])
    | _ => exact ⟨[], rfl, .inl (forall_mem_nil _)⟩
  | openClient _ _ _ _ _ hclient => exact absurd hserver (by simp [hclient])
  | finish s ev hclient => exact absurd hserver (by simp [hclient])
  | _ => exact ⟨[], (append_nil _).symm, .inl (forall_mem_nil _)⟩

theorem Served.step (h : Served e) (hs : Step early e e') : Served e' := by
  refine ⟨hs.isServer.trans h.server, h.sound.step hs, h.hand.step hs, ?_, ?_⟩
  · obtain ⟨es, ht, hes | ⟨s, rfl, hne, hstream, hcomplete, hlength, hfree⟩⟩ :=
      requests_of_step hs h.server
    · rw [ht]
      exact h.each.append_of_forall hes
    · rw [ht]
      exact h.each.snoc ((h.accounts hne).delivered h.hand hstream hcomplete hlength hfree)
  · intro hne
    exact (h.accounts (hs.live hne)).step h.sound h.hand h.server hne hs

theorem Served.steps (h : Served e) (hs : Steps early e e') : Served e' :=
  hs.keeps (fun _ _ he hstep => Served.step he hstep) h

/-! ## Runs -/

variable {X : Type}

theorem create_served (x : X) : Served (view none (create true x)) := by
  have hnone : ∀ i s, (view none (create true x)).streams i ≠ some s := fun _ _ => nofun
  refine ⟨rfl, (create_tidy true x).sound, (fun _ hg => by cases hg), ?_,
    fun _ => ⟨?_, fun _ _ => rfl, ?_⟩⟩
  · exact each_nil.append_of_forall (forall_mem_singleton.mpr fun _ => trivial)
  · exact fun hs => absurd hs (hnone _ _)
  · intro t ht
    cases mem_singleton.mp ht

/-- **Requests at the application.** In every run of a server, each request that
is handed to the application is the first one of its stream; the stream was
admitted with a header section that keeps the rules; and the body is what the DATA
frames of the stream carried, of the declared length. -/
theorem requests_delivered (w : World X) (x : X) (ops : List Op) (before after : List Event)
    (s : Http2Stream) (h : (run w true x ops).trace = before ++ .request s :: after) :
    Delivered before s := by
  have hrun := run_steps w true x ops (p := True) (.inl trivial)
  exact ((create_served x).steps hrun.steps).each before (.request s) after h

/-- A client: `POST /` on stream 1, whose body of five octets comes in two frames,
the first of them padded. -/
def post : Bytes :=
  CONNECTION_PREFACE ++
    Frame.encode { type := .settings, flags := 0, streamId := 0, payload := [] } ++
    Frame.encode
      { type := .headers, flags := END_HEADERS, streamId := 1
        payload := [0x83, 0x84, 0x87, 0x0F, 0x0D, 0x01, 0x35] } ++
    Frame.encode
      { type := .data, flags := PADDED, streamId := 1, payload := [2] ++ ascii "hel" ++ [0, 0] } ++
    Frame.encode { type := .data, flags := END_STREAM, streamId := 1, payload := ascii "lo" }

def postStream : Http2Stream :=
  { id := 1, state := .halfClosedRemote, sendWindow := 65535, recvWindow := 65527
    contentLength := some 5, bodyReceived := 5, requestComplete := true
    requestHeaders :=
      [(ascii ":method", ascii "POST"), (ascii ":path", ascii "/"), (ascii ":scheme", ascii "https"),
        (ascii "content-length", ascii "5")]
    requestBody := ascii "hello" }

theorem requests_delivered_post :
    Delivered ((run (HpackWorld.hpackWorld fun _ => []) true {} [.input post]).trace.take 7)
      postStream :=
  requests_delivered (HpackWorld.hpackWorld fun _ => []) {} [.input post] _ [] postStream
    (by decide +kernel)

end BoltApi.Http2.Requests
