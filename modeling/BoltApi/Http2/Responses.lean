import BoltApi.Http2.FieldRules
import BoltApi.Http2.ReceiveRefinement
import BoltApi.Http2.HpackWorld

/-! # Responses at the application

What the response callback of a client sees of one request: informational
headers, then the final response as far as it arrives, then one terminal event,
which comes at the latest when the connection shuts down. A response that
completes has the length it declared. -/
namespace BoltApi.Http2.Responses
open Octets Hpack.Tables Wire Fields List Function
open FieldRules
open Connection Connection.Http2Connection Receive
open Protocol Refinement ReceiveRefinement

/-! ## Exchanges -/

/-- What arrives for a request before its terminal event:
`Headers(1xx)* [Headers Data* [Trailers]]`. -/
structure Exchange where
  interim : List ResponseEvent
  final : Option ResponseEvent
  data : List ResponseEvent
  trailers : Option ResponseEvent
  interim_status : ∀ ev ∈ interim, ev.kind = .headers ∧ 100 ≤ ev.status ∧ ev.status < 200
  final_status : ∀ ev, final = some ev → ev.kind = .headers ∧ 200 ≤ ev.status
  data_kind : ∀ ev ∈ data, ev.kind = .data
  trailers_kind : ∀ ev, trailers = some ev → ev.kind = .trailers
  headless : final = none → data = [] ∧ trailers = none

namespace Exchange

def events (x : Exchange) : List ResponseEvent :=
  x.interim ++ x.final.toList ++ x.data ++ x.trailers.toList

/-- How many octets of the body were delivered. -/
def delivered (x : Exchange) : Nat := (x.data.map (·.data.length)).sum

def empty : Exchange where
  interim := []
  final := none
  data := []
  trailers := none
  interim_status := forall_mem_nil _
  final_status _ h := by cases h
  data_kind := forall_mem_nil _
  trailers_kind _ h := by cases h
  headless _ := ⟨rfl, rfl⟩

variable {x : Exchange} (ev : ResponseEvent)

theorem snoc_interim (hx : x.final = none) (hkind : ev.kind = .headers)
    (hstatus : 100 ≤ ev.status ∧ ev.status < 200) :
    ∃ y : Exchange, y.events = x.events ++ [ev] ∧ y.final = none ∧ y.trailers = none ∧
      y.delivered = x.delivered := by
  obtain ⟨hdata, htrailers⟩ := x.headless hx
  refine ⟨{ x with interim := x.interim ++ [ev], interim_status := ?_ }, ?_, hx, htrailers, rfl⟩
  · intro a ha
    rcases mem_append.mp ha with ha | ha
    · exact x.interim_status a ha
    · rw [mem_singleton.mp ha]
      exact ⟨hkind, hstatus⟩
  · simp [events, hx, hdata, htrailers]

theorem snoc_final (hx : x.final = none) (hkind : ev.kind = .headers) (hstatus : 200 ≤ ev.status) :
    ∃ y : Exchange, y.events = x.events ++ [ev] ∧ y.final = some ev ∧ y.trailers = none ∧
      y.delivered = x.delivered := by
  obtain ⟨hdata, htrailers⟩ := x.headless hx
  refine ⟨{ x with final := some ev, final_status := ?_, headless := nofun }, ?_, rfl, htrailers,
    rfl⟩
  · intro a ha
    rw [← Option.some.inj ha]
    exact ⟨hkind, hstatus⟩
  · simp [events, hx, hdata, htrailers]

theorem snoc_data {head} (hx : x.final = some head) (htrailers : x.trailers = none)
    (hkind : ev.kind = .data) :
    ∃ y : Exchange, y.events = x.events ++ [ev] ∧ y.final = some head ∧ y.trailers = none ∧
      y.delivered = x.delivered + ev.data.length := by
  refine ⟨{ x with data := x.data ++ [ev], data_kind := ?_, headless := ?_ }, ?_, hx, htrailers, ?_⟩
  · intro a ha
    rcases mem_append.mp ha with ha | ha
    · exact x.data_kind a ha
    · rw [mem_singleton.mp ha]
      exact hkind
  · simp [hx]
  · simp [events, htrailers]
  · simp [delivered]

theorem snoc_trailers {head} (hx : x.final = some head) (htrailers : x.trailers = none)
    (hkind : ev.kind = .trailers) :
    ∃ y : Exchange, y.events = x.events ++ [ev] ∧ y.final = some head ∧
      y.delivered = x.delivered := by
  refine ⟨{ x with trailers := some ev, trailers_kind := ?_, headless := ?_ }, ?_, hx, rfl⟩
  · intro a ha
    rw [← Option.some.inj ha]
    exact hkind
  · simp [hx]
  · simp [events, htrailers]

end Exchange

/-! ## Events of a stream -/

def responseOf (id : Nat) : Event → Option ResponseEvent
  | .response ev => if ev.streamId = id then some ev else none
  | _ => none

/-- What the response callback sees of a stream. -/
def responsesOf (id : Nat) (trace : List Event) : List ResponseEvent :=
  trace.filterMap (responseOf id)

def Foreign (id : Nat) : Event → Prop
  | .response ev => ev.streamId ≠ id
  | .opened i _ => i ≠ id
  | _ => True

variable {early : Prop} {e e' : Endpoint} {s s' : Http2Stream} {es : List Event} {id : Nat}

theorem responseOf_foreign {ev} (h : Foreign id ev) : responseOf id ev = none := by
  cases ev with
  | response ev => exact if_neg h
  | _ => rfl

theorem responsesOf_foreign (h : ∀ ev ∈ es, Foreign id ev) (trace : List Event) :
    responsesOf id (trace ++ es) = responsesOf id trace := by
  have hnil : es.filterMap (responseOf id) = [] :=
    filterMap_eq_nil_iff.mpr fun ev hev => responseOf_foreign (h ev hev)
  rw [responsesOf, filterMap_append, hnil, append_nil]
  rfl

variable {fields : List HPACKHeader}

theorem opened_foreign (h : ∀ ev ∈ es, Foreign id ev) {trace} (ho : .opened id fields ∈ trace ++ es) :
    .opened id fields ∈ trace := by
  rcases mem_append.mp ho with ho | ho
  · exact ho
  · exact absurd rfl (h _ ho)

variable {ev : ResponseEvent}

theorem responsesOf_snoc (h : ev.streamId = id) (trace : List Event) :
    responsesOf id (trace ++ [.response ev]) = responsesOf id trace ++ [ev] := by
  simp [responsesOf, responseOf, h]

/-! ## The invariant -/

structure Open (e : Endpoint) (s : Http2Stream) (x : Exchange) : Prop where
  events : responsesOf s.id e.trace = x.events
  waiting : s.responseStatus = 0 → x.final = none
  begun : s.responseStatus ≠ 0 → ∃ head, x.final = some head ∧ head.status = s.responseStatus ∧
    (s.isHead = false → head.status ≠ 304 → Declares head.headers s.contentLength)
  receiving : s.state.canReceive → x.trailers = none
  count : e.state ≠ .closed → ¬ e.Spoiled s.id → s.bodyReceived = x.delivered
  head : s.isHead → ∀ fields, .opened s.id fields ∈ e.trace → IsHead fields

/-- The terminal event of a request with these fields: a response that completes
is as long as it says, but for HEAD and 304. -/
def Ends (fields : List HPACKHeader) (x : Exchange) (t : ResponseEvent) : Prop :=
  t.kind = .reset ∨ t.kind = .complete ∧ ∃ head, x.final = some head ∧
    (IsHead fields ∨ head.status = 304 ∨ Declares head.headers (some x.delivered))

structure Talks (e : Endpoint) : Prop where
  opened : ∀ id fields, .opened id fields ∈ e.trace → id ≤ e.lastStreamId
  fresh : ∀ id, e.lastStreamId < id → responsesOf id e.trace = []
  live : ∀ {id s}, e.streams id = some s → ∃ x, Open e s x
  gone : ∀ id fields, .opened id fields ∈ e.trace → e.streams id = none →
    ∃ x t, responsesOf id e.trace = x.events ++ [t] ∧ Ends fields x t

structure SameResponse (s s' : Http2Stream) : Prop where
  id : s'.id = s.id
  status : s'.responseStatus = s.responseStatus
  isHead : s'.isHead = s.isHead
  contentLength : s'.contentLength = s.contentLength
  receiving : s'.state.canReceive → s.state.canReceive

theorem SameResponse.refl (s : Http2Stream) : SameResponse s s := ⟨rfl, rfl, rfl, rfl, fun h => h⟩

def Counts (e e' : Endpoint) (id : Nat) : Prop :=
  e'.state ≠ .closed → ¬ e'.Spoiled id → e.state ≠ .closed ∧ ¬ e.Spoiled id

variable {x : Exchange}

def Keeps (e e' : Endpoint) (s s' : Http2Stream) : Prop :=
  SameResponse s s' ∧ (e'.state ≠ .closed → ¬ e'.Spoiled s.id →
    e.state ≠ .closed ∧ ¬ e.Spoiled s.id ∧ s'.bodyReceived = s.bodyReceived)

theorem Counts.keeps (h : Counts e e' s.id) : Keeps e e' s s := by
  refine ⟨.refl s, fun hne hsp => ?_⟩
  obtain ⟨hne, hsp⟩ := h hne hsp
  exact ⟨hne, hsp, rfl⟩

theorem Open.keep (h : Open e s x) (hs : Keeps e e' s s')
    (ht : e'.trace = e.trace ++ es) (hes : ∀ ev ∈ es, Foreign s.id ev) : Open e' s' x := by
  obtain ⟨⟨hid, hstatus, hhead, hlength, hrecv⟩, hcount⟩ := hs
  refine ⟨?_, ?_, ?_, fun hr => h.receiving (hrecv hr), ?_, ?_⟩
  · rw [hid, ht, responsesOf_foreign hes]
    exact h.events
  · rw [hstatus]
    exact h.waiting
  · rw [hstatus, hhead, hlength]
    exact h.begun
  · intro hne hsp
    rw [hid] at hsp
    obtain ⟨hne, hsp, hsame⟩ := hcount hne hsp
    rw [hsame]
    exact h.count hne hsp
  · intro hh fields ho
    rw [hid, ht] at ho
    exact h.head (hhead ▸ hh) fields (opened_foreign hes ho)

structure TalksAt (e : Endpoint) (id : Nat) : Prop where
  opened : ∀ fields, .opened id fields ∈ e.trace → id ≤ e.lastStreamId
  fresh : e.lastStreamId < id → responsesOf id e.trace = []
  live : ∀ {s}, e.streams id = some s → ∃ x, Open e s x
  gone : ∀ fields, .opened id fields ∈ e.trace → e.streams id = none →
    ∃ x t, responsesOf id e.trace = x.events ++ [t] ∧ Ends fields x t

theorem talks_iff : Talks e ↔ ∀ id, TalksAt e id :=
  ⟨fun h id => ⟨h.opened id, h.fresh id, h.live, h.gone id⟩, fun h =>
    ⟨fun id => (h id).opened, fun id => (h id).fresh, (h _).live, fun id => (h id).gone⟩⟩

theorem TalksAt.keep (h : TalksAt e id) (hsound : Sound e)
    (hst : ∀ s', e'.streams id = some s' → ∃ s, e.streams id = some s ∧ Keeps e e' s s')
    (hdom : e'.streams id = none → e.streams id = none)
    (hl : e.lastStreamId ≤ e'.lastStreamId) (ht : e'.trace = e.trace ++ es)
    (hes : ∀ ev ∈ es, Foreign id ev) : TalksAt e' id := by
  have hopened : ∀ fields, .opened id fields ∈ e'.trace → .opened id fields ∈ e.trace :=
    fun fields ho => opened_foreign hes (ht ▸ ho)
  refine ⟨fun fields ho => Nat.le_trans (h.opened fields (hopened fields ho)) hl, fun hi => ?_, ?_, ?_⟩
  · rw [ht, responsesOf_foreign hes]
    exact h.fresh (Nat.lt_of_le_of_lt hl hi)
  · intro s' hs'
    obtain ⟨s, hs, hkeeps⟩ := hst s' hs'
    obtain ⟨x, hx⟩ := h.live hs
    exact ⟨x, hx.keep hkeeps ht ((hsound.stream hs).1 ▸ hes)⟩
  · intro fields ho hnone
    rw [ht, responsesOf_foreign hes]
    exact h.gone fields (hopened fields ho) (hdom hnone)

theorem TalksAt.same (h : TalksAt e id) (hsound : Sound e) (hst : e'.streams id = e.streams id)
    (hcount : ∀ s, e.streams id = some s → Counts e e' s.id) (hl : e.lastStreamId ≤ e'.lastStreamId)
    (ht : e'.trace = e.trace ++ es) (hes : ∀ ev ∈ es, Foreign id ev) : TalksAt e' id := by
  refine h.keep hsound (fun s hs => ?_) (fun hnone => hst ▸ hnone) hl ht hes
  rw [hst] at hs
  exact ⟨s, hs, (hcount s hs).keeps⟩

theorem Talks.speak (h : Talks e) (hsound : Sound e) (hs : e.streams s.id = some s)
    (hst : e'.streams = (e.put s').streams) (hid : s'.id = s.id)
    (hl : e'.lastStreamId = e.lastStreamId) (ht : e'.trace = e.trace ++ es)
    (hes : ∀ ev ∈ es, ∀ i, i ≠ s.id → Foreign i ev)
    (hcount : ∀ i, i ≠ s.id → Counts e e' i) (hnew : ∃ x, Open e' s' x) : Talks e' := by
  refine talks_iff.mpr fun i => ?_
  by_cases hi : i = s.id
  · have hle := (hsound.stream hs).2.le_last
    have hput : e'.streams i = some s' := by rw [hst, hi, ← hid]; exact update_self ..
    subst hi
    refine ⟨fun _ _ => hl ▸ hle, fun hlt => absurd hle (by omega), fun hs' => ?_, fun _ _ hnone => ?_⟩
    · cases hput.symm.trans hs'
      exact hnew
    · cases hput.symm.trans hnone
  refine (talks_iff.mp h i).same hsound ?_ (fun t ht => ?_) hl.ge ht fun ev hev => hes ev hev i hi
  · rw [hst]
    exact update_of_ne (hid ▸ hi) _ _
  · exact hcount t.id ((hsound.stream ht).1 ▸ hi)

/-! ## Steps of streams -/

theorem not_spoiled_held {f} (h : e.hand = held f) (i : Nat) : ¬ e.Spoiled i := by
  rintro ⟨g, hg, hrefused, -⟩
  rw [h] at hg
  cases hg
  cases hrefused

theorem Open.snoc {y : Exchange} (h : Open e s x) (hev : ev.streamId = s.id)
    (hy : y.events = x.events ++ [ev]) :
    responsesOf s.id (e.trace ++ [.response ev]) = y.events := by
  rw [responsesOf_snoc hev, h.events, hy]

theorem opened_response {trace : List Event}
    (ho : .opened id fields ∈ trace ++ [.response ev]) : .opened id fields ∈ trace := by
  rcases mem_append.mp ho with ho | ho
  · exact ho
  · cases mem_singleton.mp ho

theorem Open.responseData (h : Open e s x) {f : Frame}
    (hf : e.HoldsData s.id f) (hrecv : s.state.canReceive) (hstatus : s.responseStatus ≠ 0) (r : Int) :
    ∃ y, Open ({ e.put { s with recvWindow := r, bodyReceived := s.bodyReceived + (unpadded f).length
                                state := s.state.dataReceived (f.has END_STREAM) } with
      hand := none }.log (dataEvents s.id s.responseStatus f))
      { s with recvWindow := r, bodyReceived := s.bodyReceived + (unpadded f).length
               state := s.state.dataReceived (f.has END_STREAM) } y := by
  obtain ⟨head, hfinal, hhead⟩ := h.begun hstatus
  have hcount : e.state ≠ .closed → s.bodyReceived = x.delivered :=
    fun hne => h.count hne (not_spoiled_held hf.1 _)
  unfold dataEvents
  split
  · rename_i hempty
    refine ⟨x, ?_, h.waiting, h.begun, fun _ => h.receiving hrecv, fun hne _ => ?_, ?_⟩
    · exact (congrArg _ (append_nil _)).trans h.events
    · rw [hempty]
      exact hcount hne
    · intro hh fields ho
      exact h.head hh fields ((append_nil e.trace) ▸ ho)
  obtain ⟨y, hy, hyfinal, hytrailers, hdelivered⟩ := Exchange.snoc_data
    { kind := .data, streamId := s.id, status := s.responseStatus, data := unpadded f
      endStream := f.has END_STREAM } hfinal (h.receiving hrecv) rfl
  refine ⟨y, h.snoc rfl hy, fun h0 => absurd h0 hstatus, fun _ => ⟨head, hyfinal, hhead⟩,
    fun _ => hytrailers, fun hne _ => ?_, fun hh fields ho => h.head hh fields (opened_response ho)⟩
  rw [hdelivered, ← hcount hne]

theorem Talks.transition (h : Talks e) (hsound : Sound e) (hclient : e.isServer = false)
    {hand : Option Held} (hs : e.streams s.id = some s) (ht : Transition e s s' es hand) :
    Talks ({ e.put s' with hand := hand }.log es) := by
  obtain ⟨x, hx⟩ := h.live hs
  cases ht with
  | grant hh =>
    refine h.speak hsound hs rfl rfl rfl rfl (forall_mem_nil _)
      (fun i _ hne _ => ⟨hne, not_spoiled_held hh i⟩) ⟨x, ?_⟩
    exact hx.keep ⟨⟨rfl, rfl, rfl, rfl, fun h => h⟩,
      fun hne _ => ⟨hne, not_spoiled_held hh _, rfl⟩⟩ rfl (forall_mem_nil _)
  | refill =>
    refine h.speak hsound hs rfl rfl rfl rfl (forall_mem_nil _)
      (fun i _ hne hsp => ⟨hne, hsp⟩) ⟨x, ?_⟩
    exact hx.keep ⟨⟨rfl, rfl, rfl, rfl, fun h => h⟩,
      fun hne hsp => ⟨hne, hsp, rfl⟩⟩ rfl (forall_mem_nil _)
  | @spoil f r n hf =>
    refine h.speak hsound hs rfl rfl rfl rfl (forall_mem_nil _)
      (fun i _ hne _ => ⟨hne, not_spoiled_held hf.1 i⟩) ⟨x, ?_⟩
    refine hx.keep ⟨⟨rfl, rfl, rfl, rfl, fun h => h⟩, fun _ hsp => ?_⟩ rfl (forall_mem_nil _)
    exact absurd ⟨⟨f, true⟩, rfl, rfl, hf.2.2⟩ hsp
  | @interim fields facts _ hrecv hstatus hv hlt hlength =>
    refine h.speak hsound hs rfl rfl rfl rfl
      (forall_mem_singleton.mpr fun i hi => Ne.symm hi)
      (fun i _ hne hsp => ⟨hne, hsp⟩) ?_
    obtain ⟨y, hy, hfinal, htrailers, hdelivered⟩ :=
      Exchange.snoc_interim (sectionEvent .headers s.id facts.status fields false)
        (hx.waiting hstatus) rfl ⟨(validateFields_status hv).1, hlt⟩
    exact ⟨y, hx.snoc rfl hy, fun _ => hfinal, fun h0 => absurd hstatus h0, fun _ => htrailers,
      fun hne hsp => (hx.count hne hsp).trans hdelivered.symm,
      fun hh fields ho => hx.head hh fields (opened_response ho)⟩
  | @final fields facts endStream _ hrecv hstatus hv hge =>
    refine h.speak hsound hs rfl rfl rfl rfl
      (forall_mem_singleton.mpr fun i hi => Ne.symm hi)
      (fun i _ hne hsp => ⟨hne, hsp⟩) ?_
    obtain ⟨y, hy, hfinal, htrailers, hdelivered⟩ :=
      Exchange.snoc_final (sectionEvent .headers s.id facts.status fields endStream)
        (hx.waiting hstatus) rfl hge
    refine ⟨y, hx.snoc rfl hy, fun h0 => ?_, fun _ => ⟨_, hfinal, rfl, fun hhead hother => ?_⟩,
      fun _ => htrailers, fun hne hsp => (hx.count hne hsp).trans hdelivered.symm,
      fun hh fields ho => hx.head hh fields (opened_response ho)⟩
    · have h0 : facts.status = 0 := h0
      omega
    have hhead : s.isHead = false := hhead
    have hother : facts.status ≠ 304 := hother
    have hlength : (if s.isHead || facts.status = 304 then none else facts.contentLength) =
        facts.contentLength := if_neg (by simp [hhead, hother])
    simpa only [sectionEvent, hlength] using validateFields_length hv
  | @responseData f r _ hf hrecv hstatus hr =>
    refine h.speak hsound hs rfl rfl rfl rfl ?_ (fun i _ hne _ => ⟨hne, not_spoiled_held hf.1 i⟩)
      (hx.responseData hf hrecv hstatus r)
    intro ev hev i hi
    unfold dataEvents at hev
    split at hev
    · cases hev
    · rw [mem_singleton.mp hev]
      exact Ne.symm hi
  | @responseTrailers fields _ hrecv hstatus =>
    refine h.speak hsound hs rfl rfl rfl rfl
      (forall_mem_singleton.mpr fun i hi => Ne.symm hi)
      (fun i _ hne hsp => ⟨hne, hsp⟩) ?_
    obtain ⟨head, hfinal, hhead⟩ := hx.begun hstatus
    obtain ⟨y, hy, hyfinal, hdelivered⟩ :=
      Exchange.snoc_trailers (sectionEvent .trailers s.id s.responseStatus fields true) hfinal
        (hx.receiving hrecv) rfl
    refine ⟨y, hx.snoc rfl hy, fun h0 => absurd h0 hstatus, fun _ => ⟨head, hyfinal, hhead⟩,
      fun hr => ?_, fun hne hsp => (hx.count hne hsp).trans hdelivered.symm,
      fun hh fields ho => hx.head hh fields (opened_response ho)⟩
    simp [canReceive_headersReceived] at hr
  | respond hserver | requestData hserver | requestTrailers hserver | request hserver =>
    simp [hclient] at hserver

/-! ## Steps of endpoints -/

theorem Talks.opens (h : Talks e) (hsound : Sound e) {i} (hl : e.lastStreamId < i) {facts}
    (hv : validateFields .request fields = some facts) (body : Bytes) (fs : List Frame) :
    Talks ({ e.put (clientStream i e.initialWindow body facts.isHead) with lastStreamId := i }.log
      (.opened i fields :: .sending i body :: fs.map .queued)) := by
  have hsilent : ∀ k, ∀ ev ∈ Event.sending i body :: fs.map .queued, Foreign k ev := by
    intro k
    refine forall_mem_cons.mpr ⟨trivial, fun ev hev => ?_⟩
    obtain ⟨f, -, rfl⟩ := mem_map.mp hev
    trivial
  refine talks_iff.mpr fun k => ?_
  by_cases hk : k = i
  · subst hk
    -- nothing was said about the new id before
    have hnil : responsesOf k (e.trace ++ .sending k body :: fs.map .queued) = [] :=
      (responsesOf_foreign (hsilent k) _).trans (h.fresh k hl)
    rw [responsesOf, filterMap_append] at hnil
    refine ⟨fun _ _ => Nat.le_refl k, fun hlt => absurd hlt (Nat.lt_irrefl k), fun hs => ?_,
      fun _ _ hnone => ?_⟩
    · cases (update_self ..).symm.trans hs
      refine ⟨.empty, ?_, fun _ => rfl, fun hne => absurd rfl hne, fun _ => rfl, fun _ _ => rfl, ?_⟩
      · refine Eq.trans filterMap_append ?_
        rw [filterMap_cons_none rfl]
        exact hnil
      intro hhead fields' ho
      rcases mem_append.mp ho with ho | ho
      · exact absurd (h.opened k fields' ho) (Nat.not_le.mpr hl)
      rcases mem_cons.mp ho with ho | ho
      · cases ho
        exact validateFields_isHead hv hhead
      · exact absurd rfl (hsilent k _ ho)
    · cases (update_self ..).symm.trans hnone
  · exact (talks_iff.mp h k).same hsound (update_of_ne hk _ _) (fun _ _ h1 h2 => ⟨h1, h2⟩)
      hl.le rfl (forall_mem_cons.mpr ⟨Ne.symm hk, hsilent k⟩)

theorem declares_complete {o n} (h : Declares fields o) (ho : o.all (· = n)) :
    Declares fields (some n) := by
  intro field hfield hname
  obtain ⟨k, hk, rfl⟩ := h field hfield hname
  have hn : k = n := by simpa using ho
  exact ⟨k, hk, by rw [hn]⟩

theorem Talks.ends (h : Talks e) (hsound : Sound e) (href : e.RefusesData)
    (hs : e.streams s.id = some s) (ht : Terminal e s ev) :
    Talks ((e.remove s.id).log [.response ev]) := by
  have hev : ev.streamId = s.id := by cases ht <;> rfl
  have hle := (hsound.stream hs).2.le_last
  obtain ⟨x, hx⟩ := h.live hs
  refine talks_iff.mpr fun k => ?_
  by_cases hk : k = s.id
  · subst hk
    refine ⟨fun _ _ => hle, fun hlt => absurd hle (Nat.not_le.mpr hlt), fun hs => ?_, fun fields ho _ => ?_⟩
    · cases (update_self ..).symm.trans hs
    refine ⟨x, ev, (responsesOf_snoc hev _).trans (congrArg (· ++ [ev]) hx.events), ?_⟩
    cases ht with
    | reset => exact .inl rfl
    | complete hne _ hstatus hlength hfree _ =>
      obtain ⟨head, hfinal, -, hdeclares⟩ := hx.begun hstatus
      refine .inr ⟨rfl, head, hfinal, ?_⟩
      cases hhead : s.isHead with
      | true => exact .inl (hx.head hhead fields (opened_response ho))
      | false =>
        by_cases hother : head.status = 304
        · exact .inr (.inl hother)
        · rw [hx.count hne (href.not_spoiled hfree)] at hlength
          exact .inr (.inr (declares_complete (hdeclares hhead hother) hlength))
  · exact (talks_iff.mp h k).same hsound (update_of_ne hk _ _) (fun _ _ h1 h2 => ⟨h1, h2⟩)
      (Nat.le_refl _) rfl (forall_mem_singleton.mpr fun heq => hk (heq.symm.trans hev))

theorem Talks.same (h : Talks e) (hsound : Sound e) (hst : e'.streams = e.streams)
    (hcount : ∀ i s, e.streams i = some s → Counts e e' s.id)
    (hl : e'.lastStreamId = e.lastStreamId) (ht : e'.trace = e.trace ++ es)
    (hes : ∀ ev ∈ es, ∀ i, Foreign i ev) : Talks e' :=
  talks_iff.mpr fun i => (talks_iff.mp h i).same hsound (congrFun hst i) (hcount i) hl.ge ht
    fun ev hev => hes ev hev i

theorem sameResponse_pumped (s : Http2Stream) (n : Nat) (b : Bool) :
    SameResponse s (s.pumped n b) ∧ (s.pumped n b).bodyReceived = s.bodyReceived := by
  simp only [Http2Stream.pumped]
  split
  · exact ⟨⟨rfl, rfl, rfl, rfl, fun h => (canReceive_dataSent _).symm.trans h⟩, rfl⟩
  · exact ⟨⟨rfl, rfl, rfl, rfl, fun h => h⟩, rfl⟩

theorem Talks.step (h : Talks e) (hsound : Sound e) (href : e.RefusesData)
    (hclient : e.isServer = false) (hs : Step early e e') : Talks e' := by
  have hquiet : ∀ f : Frame, ∀ ev ∈ [Event.queued f], ∀ i, Foreign i ev :=
    fun f => forall_mem_singleton.mpr fun _ => trivial
  cases hs with
  | receive f hh =>
    refine h.same hsound rfl (fun i s _ hne _ => ⟨hne, ?_⟩) rfl rfl
      (forall_mem_singleton.mpr fun _ => trivial)
    rintro ⟨g, hg, -⟩
    rw [hh] at hg
    cases hg
  | done hset =>
    refine h.same hsound rfl (fun i s hs hne _ => ⟨hne, ?_⟩) rfl (append_nil _).symm
      (forall_mem_nil _)
    rintro ⟨g, hg, hrefused, hid⟩
    -- the stream of a refused frame is gone before the frame is
    have hnone := (((hset.resolve_left hne) g hg).1 (href g hg hrefused)).1
    rw [hid, (hsound.stream hs).1, hs] at hnone
    cases hnone
  | window =>
    exact h.same hsound rfl (fun _ _ _ hne hsp => ⟨hne, hsp⟩) rfl (append_nil _).symm
      (forall_mem_nil _)
  | control => exact h.same hsound rfl (fun _ _ _ hne hsp => ⟨hne, hsp⟩) rfl rfl (hquiet _)
  | fatal => exact h.same hsound rfl (fun _ _ _ hne _ => absurd rfl hne) rfl rfl (hquiet _)
  | fatalSettings streams i m error _ hsame =>
    refine talks_iff.mpr fun id => (talks_iff.mp h id).keep hsound (fun t ht => ?_)
      (retuned_none (hsame id)) (Nat.le_refl _) rfl fun ev hev => hquiet _ ev hev id
    obtain ⟨s, hs, heq, -⟩ := retuned_some (hsame id) ht
    refine ⟨s, hs, ?_, fun hne _ => absurd rfl hne⟩
    rw [heq]
    exact ⟨rfl, rfl, rfl, rfl, fun h => h⟩
  | graceful _ hne => exact h.same hsound rfl (fun _ _ _ _ hsp => ⟨hne, hsp⟩) rfl rfl (hquiet _)
  | goawayReceived hact =>
    exact h.same hsound rfl (fun _ _ _ _ hsp => ⟨by simp [hact], hsp⟩) rfl (append_nil _).symm
      (forall_mem_nil _)
  | grant f hh =>
    exact h.same hsound rfl (fun _ _ _ hne _ => ⟨hne, not_spoiled_held hh _⟩) rfl
      (append_nil _).symm (forall_mem_nil _)
  | settings f i m streams hh _ _ _ _ _ _ _ hstreams =>
    refine talks_iff.mpr fun id => (talks_iff.mp h id).keep hsound (fun t ht => ?_) (fun hid => ?_)
      (Nat.le_refl _) (append_nil _).symm (forall_mem_nil _)
    · obtain ⟨s, hs, rfl⟩ := Option.map_eq_some_iff.mp ((hstreams id).symm.trans ht)
      exact ⟨s, hs, ⟨rfl, rfl, rfl, rfl, fun h => h⟩,
        fun hne _ => ⟨hne, not_spoiled_held hh _, rfl⟩⟩
    · exact Option.map_eq_none_iff.mp ((hstreams id).symm.trans hid)
  | stream s s' es hand hs ht => exact h.transition hsound hclient hs ht
  | pump s n hs =>
    obtain ⟨x, hx⟩ := h.live hs
    obtain ⟨hsame, hcount⟩ := sameResponse_pumped s n e.isServer
    refine h.speak hsound hs rfl hsame.id rfl rfl (fun ev hev i _ => hquiet _ ev hev i)
      (fun _ _ hne hsp => ⟨hne, hsp⟩) ⟨x, ?_⟩
    exact hx.keep ⟨hsame, fun hne hsp => ⟨hne, hsp, hcount⟩⟩ rfl
      (fun ev hev => hquiet _ ev hev s.id)
  | openClient id fields facts body fs _ _ hl hv => exact h.opens hsound hl hv body fs
  | finish s ev _ hs ht => exact h.ends hsound href hs ht
  | seen _ hserver | preface hserver | close _ hserver | openServer _ _ _ _ hserver =>
    simp [hclient] at hserver

/-! ## Runs -/

structure Conversing (e : Endpoint) : Prop where
  client : e.isServer = false
  sound : Sound e
  hand : e.RefusesData
  talks : Talks e

theorem Conversing.step (h : Conversing e) (hs : Step early e e') : Conversing e' :=
  ⟨hs.isServer.trans h.client, h.sound.step hs, h.hand.step hs,
    h.talks.step h.sound h.hand h.client hs⟩

theorem Conversing.steps (h : Conversing e) (hs : Steps early e e') : Conversing e' :=
  hs.keeps (fun _ _ he hstep => Conversing.step he hstep) h

variable {X : Type}

theorem create_conversing (x : X) : Conversing (view none (create false x)) := by
  have hnone : ∀ i fields, .opened i fields ∉ (view none (create false x)).trace := by
    intro i fields ho
    cases mem_singleton.mp ho
  refine ⟨rfl, (create_tidy false x).sound, (fun _ hg => by cases hg), ?_, fun _ _ => rfl, ?_, ?_⟩
  · exact fun i fields ho => absurd ho (hnone i fields)
  · exact fun hs => by cases hs
  · exact fun i fields ho => absurd ho (hnone i fields)

/-- The stream ids `send_request` returns in a run. -/
def requestIds (w : World X) : Http2Connection X → List Op → List Nat
  | _, [] => []
  | c, .request fields body :: ops =>
    (c.sendRequest w fields body).1.toList ++
      requestIds w (apply w c (.request fields body)) ops
  | c, op :: ops => requestIds w (apply w c op) ops

theorem requestIds_opened (w : World X) (ops : List Op) :
    ∀ c : Http2Connection X, Tidy none c → ∀ id ∈ requestIds w c ops,
      ∃ fields, .opened id fields ∈ (ops.foldl (apply w) c).trace := by
  induction ops with
  | nil => exact fun c _ id hid => by cases hid
  | cons op ops ih =>
    intro c hc id hid
    have hop : Rests True c (apply w c op) := apply_sim hc op fun _ _ _ => trivial
    cases op with
    | request fields body =>
      rcases mem_append.mp hid with hid | hid
      · have hopened := (sendRequest_sim (w := w) (p := True) hc fields body).2 id
          (Option.mem_toList.mp hid)
        have hrest := ops_sim (w := w) (p := True) ops _ hop.tidy (.inl trivial)
        exact ⟨fields, hrest.steps.trace_prefix.mem hopened⟩
      · exact ih _ hop.tidy id hid
    | _ => exact ih _ hop.tidy id hid

theorem streams_of_wantsClose {c : Http2Connection X} (hc : Tidy none c)
    (hclient : c.isServer = false) (hw : c.wantsClose) : c.streams = [] := by
  simp only [wantsClose, Bool.or_eq_true, Bool.and_eq_true, decide_eq_true_eq,
    List.isEmpty_iff] at hw
  rcases hw with hclosed | ⟨_, hempty⟩
  · exact hc.emptied hclient hclosed
  · exact hempty

/-- **Responses at the application.** In every run of a client, the events of each
request it sent are those of one exchange, followed by at most one terminal event
and nothing else; the terminal event is there once the connection shuts down; and
a response that completes is as long as it declares. -/
theorem responses_delivered (w : World X) (x : X) (ops : List Op) (id : Nat)
    (hid : id ∈ requestIds w (create false x) ops) :
    ∃ (fields : List HPACKHeader) (exchange : Exchange) (terminal : Option ResponseEvent),
      .opened id fields ∈ (run w false x ops).trace ∧
      responsesOf id (run w false x ops).trace = exchange.events ++ terminal.toList ∧
      (∀ t, terminal = some t → Ends fields exchange t) ∧
      ((run w false x ops).wantsClose = true → terminal ≠ none) := by
  have hrun := run_steps w false x ops (p := True) (.inl trivial)
  have htalks := ((create_conversing x).steps hrun.steps).talks
  obtain ⟨fields, hopened⟩ := requestIds_opened w ops _ (create_tidy false x) id hid
  cases hs : (run w false x ops).getStream id with
  | none =>
    obtain ⟨y, t, hy, hends⟩ := htalks.gone id fields hopened hs
    refine ⟨fields, y, some t, hopened, hy, fun t' ht' => ?_, fun _ => nofun⟩
    rw [← Option.some.inj ht']
    exact hends
  | some s =>
    obtain ⟨y, hy⟩ := htalks.live hs
    have hevents := hy.events
    rw [getStream_id hs] at hevents
    refine ⟨fields, y, none, hopened, hevents.trans (append_nil _).symm, nofun, fun hw => ?_⟩
    have hempty := streams_of_wantsClose hrun.tidy hrun.steps.isServer hw
    rw [getStream, hempty] at hs
    cases hs

/-- `GET /`. -/
def getRoot : List HPACKHeader :=
  [{ name := ascii ":method", value := ascii "GET", sensitive := false },
    { name := ascii ":scheme", value := ascii "https", sensitive := false },
    { name := ascii ":path", value := ascii "/", sensitive := false }]

/-- The bytes of a server that starts with these frames. -/
def serverBytes (fs : List Frame) : Bytes :=
  Frame.encode { type := .settings, flags := 0, streamId := 0, payload := [] } ++
    fs.flatMap Frame.encode

/-- A response of two octets. -/
theorem responses_delivered_hi :
    let ops : List Op :=
      [.request getRoot [],
        .input (serverBytes
          [{ type := .headers, flags := END_HEADERS, streamId := 1
             payload := [0x88, 0x0F, 0x0D, 0x01, 0x32] },
            { type := .data, flags := END_STREAM, streamId := 1, payload := ascii "hi" }])]
    ∃ (fields : List HPACKHeader) (exchange : Exchange) (terminal : Option ResponseEvent),
      .opened 1 fields ∈ (run (HpackWorld.hpackWorld fun _ => []) false {} ops).trace ∧
      responsesOf 1 (run (HpackWorld.hpackWorld fun _ => []) false {} ops).trace =
        exchange.events ++ terminal.toList ∧
      (∀ t, terminal = some t → Ends fields exchange t) ∧
      ((run (HpackWorld.hpackWorld fun _ => []) false {} ops).wantsClose →
        terminal ≠ none) :=
  responses_delivered (HpackWorld.hpackWorld fun _ => []) {} _ 1 (by decide +kernel)

/-- A request that the server resets at once: its only event is the terminal one. -/
theorem reset_without_headers :
    ¬ ∃ (exchange : Exchange) (t : ResponseEvent), exchange.final ≠ none ∧
      responsesOf 1 (run (HpackWorld.hpackWorld fun _ => []) false {}
        [.request getRoot [],
          .input (serverBytes [rstFrame 1 REFUSED_STREAM])]).trace = exchange.events ++ [t] := by
  have hevents : responsesOf 1 (run (HpackWorld.hpackWorld fun _ => []) false {}
      [.request getRoot [], .input (serverBytes [rstFrame 1 REFUSED_STREAM])]).trace =
        [{ kind := .reset, streamId := 1, status := 0, error := REFUSED_STREAM }] := by
    decide +kernel
  rintro ⟨x, t, hfinal, hx⟩
  obtain ⟨head, hhead⟩ := Option.ne_none_iff_exists'.mp hfinal
  have hlength := congrArg List.length (hevents.symm.trans hx)
  simp [Exchange.events, hhead] at hlength
  omega

end BoltApi.Http2.Responses
