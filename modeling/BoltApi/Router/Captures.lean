import BoltApi.Router.Dispatch
import BoltApi.Router.StaticKey

/-! # What a request captures

A parametric route that is returned should hand over one pair per parameter,
named as the route names it, and for a wildcard the rest of the path. Abandoned
branches leave nothing behind. The names are those of the first route that
walked the parameter's node, though, and the slot of a wildcard is the
seventeenth when there are sixteen parameters. -/
namespace BoltApi.Router.Captures
open Octets Lib.ExactMap Model Paths List
open Registration Trie Lookup
open Dispatch StaticKey

/-- The captures a route asks for, from its pattern and the request's path;
`k` is the position of the first pattern. -/
def ownCaptures (path : Bytes) : Nat → List Pat → List RouteParam
  | _, [] => []
  | k, .literal _ :: ps => ownCaptures path (k + 1) ps
  | k, .param name :: ps =>
    ⟨name, (pathSegments path).getD k []⟩ :: ownCaptures path (k + 1) ps
  | k, .wildcard :: ps => ⟨ascii "*", restOfPath k path⟩ :: ownCaptures path (k + 1) ps

/-- Call `j` registered a parametric route of method `m` that is the same as `ps`
up to and including position `k`, names aside. -/
def Shares (acc : List Call) (m : Method) (ps : List Pat) (k j : Nat) : Prop :=
  ∃ q, acc[j]? = some (m, q) ∧ (pattern q).all Pat.isLiteral = false ∧
    ((pattern q).take (k + 1)).map patShape = (ps.take (k + 1)).map patShape

/-- Every parameter of `ps` has the name that the first route with the same
beginning gives it. -/
def NamesAgree (acc : List Call) (m : Method) (ps : List Pat) : Prop :=
  ∀ (k : Nat) (name : Bytes) (j : Nat) (q : Bytes), ps[k]? = some (.param name) →
    acc[j]? = some (m, q) → Shares acc m ps k j → (∀ j' < j, ¬ Shares acc m ps k j') →
    (pattern q)[k]? = some (.param name)

/-- There is a slot left for the wildcard. -/
def WildcardFits (ps : List Pat) : Prop :=
  .wildcard ∈ ps → ps.countP Pat.isParam < kMaxParams

variable {D T : Type} {b : Bolt D T}

/-! ## Captures along a route's edges -/

def NamesAt (name : Label → Bytes) (l es : Label) (ps : List Pat) : Prop :=
  ∀ i n, ps[i]? = some (.param n) → name (l ++ es.take (i + 1)) = n

theorem namesAt_cons {name l es e p ps} : NamesAt name l (e :: es) (p :: ps) ↔
      (∀ n, p = .param n → name (l ++ [e]) = n) ∧ NamesAt name (l ++ [e]) es ps := by
  constructor
  · intro h
    exact ⟨fun n hp => h 0 n (by simp [hp]), fun i n hi => by simpa using h (i + 1) n hi⟩
  rintro ⟨hp, h⟩ i n hi
  cases i with
  | zero => exact hp n (by simpa using hi)
  | succ i => simpa using h i n hi

theorem capturesOf_eq_iff {sgs : List Segment} {d path name pats} (h : List.Forall₂ (Represents b d) sgs pats) :
    ∀ {l : Label} {k : Nat} {vs : List SegView}, (pathViews path).drop k = vs →
      Fits b d (sgs.map segEdge) vs →
      (capturesOf name l (sgs.map segEdge) vs = ownCaptures path k pats ↔
        NamesAt name l (sgs.map segEdge) pats ∧
        (.wildcard ∈ pats → l.countP isParamEdge + pats.countP Pat.isParam < kMaxParams)) := by
  induction h with
  | nil =>
    intro l k vs _ hfit
    cases vs with
    | nil => simp [capturesOf, ownCaptures, NamesAt]
    | cons v vs => simp [Fits] at hfit
  | @cons sg p sgs pats hp hps ih =>
    intro l k vs hdrop hfit
    cases vs with
    | nil => exact absurd (fits_nil hfit) (by simp)
    | cons v vs =>
      have hv : (pathViews path)[k]? = some v := by
        have := congrArg List.head? hdrop
        simpa [List.head?_drop] using this
      have hdrop' : (pathViews path).drop (k + 1) = vs := by
        rw [← tail_drop, hdrop, tail_cons]
      cases p with
      | literal text =>
        have hedge : segEdge sg = .lit sg.litId := by simp [segEdge, hp.1]
        rw [map_cons, hedge] at hfit ⊢
        rw [capturesOf, ownCaptures, ih hdrop' hfit.2, namesAt_cons]
        simp [isParamEdge, Pat.isParam]
      | param n =>
        have hedge : segEdge sg = .param := by simp [segEdge, hp.1]
        have htext : (pathSegments path).getD k [] = v.text := by
          rw [← pathViews_text, getD_eq_getElem?_getD, List.getElem?_map, hv]
          rfl
        rw [map_cons, hedge] at hfit ⊢
        rw [capturesOf, ownCaptures, htext, List.cons.injEq, RouteParam.mk.injEq, ih hdrop' hfit,
          namesAt_cons]
        have hcount : (Pat.param n :: pats).countP Pat.isParam = pats.countP Pat.isParam + 1 :=
          countP_cons_of_pos rfl
        simp [isParamEdge, hcount, and_assoc, Nat.add_assoc, Nat.add_comm 1]
      | wildcard =>
        have hedge : segEdge sg = .wild := by simp [segEdge, show sg.kind = .wildcard from hp]
        rw [map_cons, hedge] at hfit ⊢
        have hnil : sgs = [] := map_eq_nil_iff.mp (fits_wild.mp hfit)
        subst hnil
        cases hps
        rw [capturesOf, ownCaptures, ownCaptures, pathViews_tail hv, map_nil, namesAt_cons]
        simp [NamesAt, Pat.isParam]

/-! ## The names at shared labels -/

theorem lookup_walkOf (sgs : List Segment) :
    ∀ {l : Label} {idx k : Nat}, k < sgs.length →
      (walkOf l idx sgs).lookup (l ++ (sgs.map segEdge).take (k + 1)) = some (idx + k) := by
  induction sgs with
  | nil => exact fun h => absurd h (Nat.not_lt_zero _)
  | cons sg sgs ih =>
    intro l idx k hk
    rw [walkOf, lookup_cons, map_cons, take_succ_cons, append_cons]
    cases k with
    | zero => simp
    | succ k =>
      rw [length_cons, Nat.succ_lt_succ_iff] at hk
      have hne : l ++ [segEdge sg] ++ (sgs.map segEdge).take (k + 1) ≠ l ++ [segEdge sg] := by
        intro h
        have hlen := congrArg List.length h
        rw [length_append, length_take, length_map] at hlen
        omega
      rw [beq_eq_false_iff_ne.mpr hne]
      dsimp only
      rw [ih hk]
      congr 1
      omega

theorem lookup_routeWalk {rt : Route} {segs k} (hk : k < (rt.segments segs).length) :
    (routeWalk segs rt).lookup
        ([.lit (methodTag rt.method)] ++ (routeEdges segs rt).take (k + 1)) =
      some (rt.firstSeg + k) := by
  have hne : [.lit (methodTag rt.method)] ++ (routeEdges segs rt).take (k + 1) ≠
      [.lit (methodTag rt.method)] := by
    intro h
    have hlen := congrArg List.length h
    rw [length_append, length_take, routeEdges, length_map] at hlen
    omega
  rw [routeWalk, lookup_cons, beq_eq_false_iff_ne.mpr hne]
  exact lookup_walkOf _ hk

theorem lookup_walksOf {segs l k} (hl : l.length = k + 2) (rts : List Route) :
    (∃ rt ∈ rts, rt.isStatic = false ∧ l <+: routeLabel segs rt) →
      ∃ (j : Nat) (rt : Route), rts[j]? = some rt ∧ rt.isStatic = false ∧
        l <+: routeLabel segs rt ∧ (∀ (j' : Nat) (rt' : Route), j' < j → rts[j']? = some rt' → rt'.isStatic = false →
          ¬ l <+: routeLabel segs rt') ∧
        (walksOf segs rts).lookup l = some (rt.firstSeg + k) := by
  induction rts with
  | nil => rintro ⟨rt, hmem, -⟩; simp at hmem
  | cons rt rts ih =>
    rintro ⟨rt₁, hmem, hst₁, hpre₁⟩
    by_cases hrt : rt.isStatic = false ∧ l <+: routeLabel segs rt
    · obtain ⟨hst, hpre⟩ := hrt
      refine ⟨0, rt, rfl, hst, hpre, fun j' _ hj' => absurd hj' (Nat.not_lt_zero _), ?_⟩
      have hlen := hpre.length_le
      have htake := prefix_iff_eq_take.mp hpre
      rw [routeLabel, length_cons, length_map, hl] at hlen
      rw [hl, routeLabel, take_succ_cons] at htake
      have hwalk : (routeWalk segs rt).lookup l = some (rt.firstSeg + k) := by
        rw [htake]
        exact lookup_routeWalk (by omega)
      rw [walksOf, lookup_append, hst]
      simp only [Bool.false_eq_true, if_false]
      rw [hwalk]
      rfl
    have hskip : (if rt.isStatic then [] else routeWalk segs rt).lookup l = none := by
      cases hst : rt.isStatic with
      | true => rfl
      | false =>
        refine lookup_eq_none_iff.mpr fun p hp => bne_iff_ne.mpr fun heq => hrt ⟨hst, ?_⟩
        simp only [Bool.false_eq_true, if_false] at hp
        have hmem : (l, p.2) ∈ walksOf segs [rt] := by
          rw [walksOf, hst, heq]
          simpa using .inl hp
        obtain ⟨rt', hrt', -, hpre⟩ := mem_walksOf hmem
        rw [mem_singleton.mp hrt'] at hpre
        exact hpre
    have hrest : ∃ rt ∈ rts, rt.isStatic = false ∧ l <+: routeLabel segs rt := by
      rcases mem_cons.mp hmem with rfl | hmem
      · exact absurd ⟨hst₁, hpre₁⟩ hrt
      · exact ⟨rt₁, hmem, hst₁, hpre₁⟩
    obtain ⟨j, rt₂, hj, hst₂, hpre₂, hmin, hlook⟩ := ih hrest
    refine ⟨j + 1, rt₂, hj, hst₂, hpre₂, ?_, ?_⟩
    · intro j' rt' hj' hget hst' hpre'
      cases j' with
      | zero =>
        cases hget
        exact hrt ⟨hst', hpre'⟩
      | succ j' => exact hmin j' rt' (Nat.lt_of_succ_lt_succ hj') hget hst' hpre'
    · rw [walksOf, lookup_append, hskip, Option.none_or, hlook]

section Names

variable {s : RouterImpl D T} {acc : List Call} {m : Method} {p : Bytes} {rt : Route} {k : Nat}

theorem routeEdges_length (hrt : RouteOf b s rt (m, p)) :
    (routeEdges s.segs rt).length = (pattern p).length := by
  rw [routeEdges, length_map, hrt.segs.length_eq]

theorem getD_segments {segs sg} (h : (rt.segments segs)[k]? = some sg) (dflt : Segment) :
    segs.getD (rt.firstSeg + k) dflt = sg := by
  have hlt : k < rt.segCount := by
    have := (List.getElem?_eq_some_iff.mp h).1
    rw [Route.segments, length_take] at this
    omega
  rw [Route.segments, List.getElem?_take_of_lt hlt, List.getElem?_drop] at h
  rw [getD_eq_getElem?_getD, h, Option.getD_some]

theorem param_of_shape {ps qs : List Pat} {n : Bytes} (hk : ps[k]? = some (.param n))
    (hshape : (qs.take (k + 1)).map patShape = (ps.take (k + 1)).map patShape) :
    ∃ n', qs[k]? = some (.param n') := by
  have hget := congrArg (fun xs : List Pat => xs[k]?) hshape
  simp only [List.getElem?_map, List.getElem?_take_of_lt (Nat.lt_succ_self k), hk,
    Option.map_some] at hget
  obtain ⟨x, hx, hshape⟩ := Option.map_eq_some_iff.mp hget
  cases x with
  | param n' => exact ⟨n', hx⟩
  | _ => cases hshape

theorem shares_iff (hb : b.Exact) (hreg : List.Forall₂ (RouteOf b s) s.routes acc)
    (hrt : RouteOf b s rt (m, p)) (hk : k < (pattern p).length) (j : Nat) :
    Shares acc m (pattern p) k j ↔
      ∃ rt', s.routes[j]? = some rt' ∧ rt'.isStatic = false ∧
        [.lit (methodTag m)] ++ (routeEdges s.segs rt).take (k + 1) <+: routeLabel s.segs rt' := by
  have hlen : ((routeEdges s.segs rt).take (k + 1)).length = k + 1 := by
    rw [length_take, routeEdges_length hrt]
    omega
  have hiff : ∀ {rt' : Route} {q : Bytes}, RouteOf b s rt' (m, q) →
      ((routeEdges s.segs rt').take (k + 1) = (routeEdges s.segs rt).take (k + 1) ↔
        ((pattern q).take (k + 1)).map patShape = ((pattern p).take (k + 1)).map patShape) := by
    intro rt' q hrt'
    rw [routeEdges, routeEdges, ← map_take, ← map_take]
    exact map_segEdge_eq_iff hb.dict (forall₂_take _ hrt.segs) (forall₂_take _ hrt'.segs)
  constructor
  · rintro ⟨q, hacc, hlit, hshape⟩
    obtain ⟨rt', hr', hrt'⟩ := route_of_call hreg hacc
    refine ⟨rt', hr', hrt'.isStatic.trans hlit, ?_⟩
    rw [routeLabel_eq hrt'.method, prefix_append_right_inj, ← (hiff hrt').mpr hshape]
    exact take_prefix _ _
  rintro ⟨rt', hr', hst', hpre⟩
  obtain ⟨⟨m', q⟩, hacc, hrt'⟩ := call_of_route hreg hr'
  have hm : m' = m := by
    obtain ⟨rest, hrest⟩ := hpre
    rw [routeLabel, hrt'.method, append_assoc, singleton_append, List.cons.injEq,
      Edge.lit.injEq] at hrest
    exact (methodTag_inj hrest.1).symm
  subst hm
  rw [routeLabel_eq hrt'.method, prefix_append_right_inj, prefix_iff_eq_take, hlen] at hpre
  exact ⟨q, hacc, hrt'.isStatic.symm.trans hst', (hiff hrt').mp hpre.symm⟩

theorem nameOf_shared (hb : b.Exact) (hreg : List.Forall₂ (RouteOf b s) s.routes acc) {r : Nat}
    (hr : s.routes[r]? = some rt) (hst : rt.isStatic = false) (hrt : RouteOf b s rt (m, p))
    {n : Bytes} (hk : (pattern p)[k]? = some (.param n)) :
    ∃ j q, acc[j]? = some (m, q) ∧ Shares acc m (pattern p) k j ∧
      (∀ j' < j, ¬ Shares acc m (pattern p) k j') ∧
      (pattern q)[k]? = some (.param (nameOf s.segs (walksOf s.segs s.routes)
        ([.lit (methodTag m)] ++ (routeEdges s.segs rt).take (k + 1)))) := by
  have hlt : k < (pattern p).length := (List.getElem?_eq_some_iff.mp hk).1
  have hlen : ([Edge.lit (methodTag m)] ++ (routeEdges s.segs rt).take (k + 1)).length = k + 2 := by
    rw [length_append, length_take, routeEdges_length hrt, length_singleton]
    omega
  have hself : [.lit (methodTag m)] ++ (routeEdges s.segs rt).take (k + 1) <+:
      routeLabel s.segs rt := by
    rw [routeLabel_eq hrt.method, prefix_append_right_inj]
    exact take_prefix _ _
  obtain ⟨j, rt', hj, hst', hpre, hmin, hlook⟩ :=
    lookup_walksOf hlen s.routes ⟨rt, mem_of_getElem? hr, hst, hself⟩
  have hshare : Shares acc m (pattern p) k j :=
    (shares_iff hb hreg hrt hlt j).mpr ⟨rt', hj, hst', hpre⟩
  obtain ⟨q, hacc, -, hshape⟩ := id hshare
  refine ⟨j, q, hacc, hshare, ?_, ?_⟩
  · intro j' hj' hshare'
    obtain ⟨rt₁, hr₁, hst₁, hpre₁⟩ := (shares_iff hb hreg hrt hlt j').mp hshare'
    exact hmin j' rt₁ hj' hr₁ hst₁ hpre₁
  obtain ⟨n', hn'⟩ := param_of_shape hk hshape
  obtain ⟨rt₁, hr₁, hrt₁⟩ := route_of_call hreg hacc
  cases hj.symm.trans hr₁
  obtain ⟨sg, hsg, hrep⟩ := forall₂_getElem? hrt₁.segs.flip hn'
  rw [nameOf, hlook, Option.getD_some, getD_segments hsg, hrep.2, hn']

/-- **The captures of a returned route** are its own exactly when its names agree
with those of the routes before it and its wildcard has a slot. -/
theorem found_captures_iff (hb : b.Exact) (hreg : List.Forall₂ (RouteOf b s) s.routes acc)
    {path : Bytes} {r : Nat} {caps : List RouteParam} (hf : Found b s m path r caps rt)
    (hacc : acc[r]? = some (m, p)) :
    caps = ownCaptures path 0 (pattern p) ↔
      NamesAgree acc m (pattern p) ∧ WildcardFits (pattern p) := by
  obtain ⟨c, hc, hrt⟩ := call_of_route hreg hf.get
  cases hacc.symm.trans hc
  have hall : (pathViews path).drop 0 = pathViews path := drop_zero
  rw [hf.captured, routeEdges, capturesOf_eq_iff hrt.segs hall hf.fits]
  refine and_congr ?_ ?_
  · constructor
    · intro hnames k n j q hk hq hshare hfirst
      obtain ⟨j', q', hq', hshare', hfirst', hname⟩ :=
        nameOf_shared hb hreg hf.get hf.isStatic hrt hk
      obtain rfl : j = j' := by
        rcases Nat.lt_trichotomy j j' with h | h | h
        · exact absurd hshare (hfirst' j h)
        · exact h
        · exact absurd hshare' (hfirst j' h)
      cases hq.symm.trans hq'
      rw [hname]
      exact congrArg (fun x => some (Pat.param x)) (hnames k n hk)
    intro hagree k n hk
    obtain ⟨j, q, hq, hshare, hfirst, hname⟩ :=
      nameOf_shared hb hreg hf.get hf.isStatic hrt hk
    have := hname.symm.trans (hagree k n j q hk hq hshare hfirst)
    exact Pat.param.inj (Option.some.inj this)
  · simp [WildcardFits, isParamEdge]

theorem matchRequest_found (hb : b.Exact) (hreg : List.Forall₂ (RouteOf b s) s.routes acc)
    (htbl : s.staticTbl = b.table.create kMaxRoutes) {path r}
    (hres : (matchRequest b (build b s) m path).routeId = some r) {c} (hacc : acc[r]? = some c)
    (hlit : (pattern c.2).all Pat.isLiteral = false) :
    ∃ rt, Found b s m path r (matchRequest b (build b s) m path).captured rt := by
  have hmiss : staticHit b (build b s) m path = none := by
    cases hhit : staticHit b (build b s) m path with
    | none => rfl
    | some hit =>
      obtain ⟨rt, hr, hst, -⟩ := staticHit_some hb htbl hhit
      have hid : r = hit := by
        rw [matchRequest] at hres
        split at hres
        · cases hres
        · rw [hhit] at hres
          exact (Option.some.inj hres).symm
      subst hid
      obtain ⟨c', hc', hrt⟩ := call_of_route hreg hr
      cases hacc.symm.trans hc'
      rw [hrt.isStatic, hlit] at hst
      cases hst
  have hlen : (pathSegments path).length ≤ kMaxSegments := by
    rw [matchRequest] at hres
    split at hres
    · cases hres
    · by_contra hlong
      rw [hmiss, splitPath_eq hb.swar, pathViews_length, if_neg hlong] at hres
      cases hres
  obtain ⟨o, hout, hid, hcaps⟩ := matchRequest_outcome hb hreg hlen hmiss
  rw [hres] at hid
  obtain ⟨⟨r', caps⟩, rfl, rfl⟩ := Option.map_eq_some_iff.mp hid.symm
  rw [hcaps _ rfl]
  exact hout

/-- **Captured parameters**: what a parametric route hands over is one pair per
parameter under the route's own names, and the rest of the path for a wildcard,
exactly when no earlier route gives a shared parameter another name and the
wildcard is not the seventeenth capture. -/
theorem captured_params_iff (hb : b.Exact) {calls : List Call}
    (hrun : addAll b (newRouter b) calls = some (s, acc)) {path : Bytes} {r : Nat}
    (hres : (matchRequest b (build b s) m path).routeId = some r) {c : Call}
    (hacc : acc[r]? = some c) (hlit : (pattern c.2).all Pat.isLiteral = false) :
    (matchRequest b (build b s) m path).captured = ownCaptures path 0 (pattern c.2) ↔
      NamesAgree acc m (pattern c.2) ∧ WildcardFits (pattern c.2) := by
  obtain ⟨hreg, -⟩ := addAll_some hb hrun
  have hroutes := register_routes hb calls
  have htbl := register_staticTbl (b := b) calls (newRouter b)
  rw [hreg] at hroutes htbl
  obtain ⟨rt, hf⟩ := matchRequest_found hb hroutes htbl hres hacc hlit
  obtain ⟨⟨m', p⟩, hc', hrt⟩ := call_of_route hroutes hf.get
  cases hacc.symm.trans hc'
  obtain rfl : m' = m := hrt.method.symm.trans hf.method
  exact found_captures_iff hb hroutes hf hacc

end Names

def userRouter := (register (listBolt 0) (newRouter (listBolt 0))
  [(.Get, ascii "/u/\x7bid\x7d")]).1

theorem captured_params_user :
    NamesAgree [(.Get, ascii "/u/\x7bid\x7d")] .Get (pattern (ascii "/u/\x7bid\x7d")) ∧
      WildcardFits (pattern (ascii "/u/\x7bid\x7d")) := by
  have hrun : addAll (listBolt 0) (newRouter (listBolt 0)) [(.Get, ascii "/u/\x7bid\x7d")] =
      some (userRouter, [(.Get, ascii "/u/\x7bid\x7d")]) := rfl
  have hres : (matchRequest (listBolt 0) (build (listBolt 0) userRouter) .Get
      (ascii "/u/7")).routeId = some 0 := by decide
  exact (captured_params_iff (listBolt_exact 0) hrun hres rfl rfl).mp (by decide)

/-- **A shared parameter has one name**: a request for the second route gets the
name that the first route gave the parameter. -/
theorem second_name_is_lost : ∃ s,
    addAll (listBolt 0) (newRouter (listBolt 0)) [(.Get, ascii "/u/\x7bid\x7d/a"),
      (.Get, ascii "/u/\x7bname\x7d/b")] = some (s, [(.Get, ascii "/u/\x7bid\x7d/a"),
      (.Get, ascii "/u/\x7bname\x7d/b")]) ∧
    (matchRequest (listBolt 0) (build (listBolt 0) s) .Get (ascii "/u/7/b")).routeId = some 1 ∧
    (matchRequest (listBolt 0) (build (listBolt 0) s) .Get (ascii "/u/7/b")).captured ≠
      ownCaptures (ascii "/u/7/b") 0 (pattern (ascii "/u/\x7bname\x7d/b")) :=
  ⟨_, rfl, by decide, by decide⟩

end BoltApi.Router.Captures
