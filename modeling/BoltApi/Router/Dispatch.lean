import BoltApi.Router.Lookup
import BoltApi.Router.Registration

/-! # Which route a request gets

What a router is for, in terms of the registered texts alone: a request gets the
first parametric route whose pattern matches its segments. The trie and the
search of the code do that, for every sequence of registrations whose segments
fit the array they are stored in. -/
namespace BoltApi.Router.Dispatch
open Octets Lib.ExactMap Lib.Machine Model List
open Paths Registration Trie
open Search Lookup

def Matches : List Pat → List Bytes → Prop
  | [], [] => True
  | .literal text :: ps, x :: xs => text = x ∧ Matches ps xs
  | .param _ :: ps, _ :: xs => Matches ps xs
  | [.wildcard], _ :: _ => True
  | _, _ => False

def patRank : Pat → Nat
  | .literal _ => 0
  | .param _ => 1
  | .wildcard => 2

def patShape : Pat → Pat
  | .param _ => .param []
  | p => p

/-- Route `r` was registered for method `m`, is not static, and matches. -/
def Candidate (acc : List Call) (m : Method) (segs : List Bytes) (r : Nat) : Prop :=
  ∃ path, acc[r]? = some (m, path) ∧ (pattern path).all Pat.isLiteral = false ∧
    Matches (pattern path) segs

def Chosen (acc : List Call) (m : Method) (segs : List Bytes) (r : Nat) : Prop :=
  ∃ path, acc[r]? = some (m, path) ∧ Candidate acc m segs r ∧
    ∀ r' path', acc[r']? = some (m, path') → Candidate acc m segs r' →
      LexLe ((pattern path).map patRank) ((pattern path').map patRank) ∧
      ((pattern path').map patShape = (pattern path).map patShape → r ≤ r')

variable {D T : Type} {b : Bolt D T}

/-! ## Segments and patterns -/

variable {d : D}

theorem segEdge_eq {sg p} (h : Represents b d sg p) : segEdge sg = match p with
      | .literal _ => .lit sg.litId
      | .param _ => .param
      | .wildcard => .wild := by
  cases p with
  | wildcard => simp [segEdge, show sg.kind = .wildcard from h]
  | _ => simp [segEdge, h.1]

variable {sgs : List Segment} {pats : List Pat}

theorem fits_iff_matches (hb : b.dict.Exact)
    (h : List.Forall₂ (Represents b d) sgs pats) (vs : List SegView) :
    Fits b d (sgs.map segEdge) vs ↔ Matches pats (vs.map SegView.text) := by
  induction h generalizing vs with
  | nil => cases vs <;> simp [Fits, Matches]
  | @cons sg p sgs pats hp hps ih =>
    rw [map_cons, segEdge_eq hp]
    cases vs with
    | nil => cases p <;> simp [Fits, Matches]
    | cons v vs =>
      cases p with
      | literal text =>
        simp only [map_cons, Fits, Matches, ih vs]
        refine and_congr_left fun _ => ⟨fun hf => hb.find_inj hp.2 hf, ?_⟩
        rintro rfl
        exact hp.2
      | param name => simp only [map_cons, Fits, Matches, ih vs]
      | wildcard =>
        rw [map_cons, fits_wild]
        cases hps with
        | nil => simp [Matches]
        | cons => simp [Matches]

theorem rank_segEdge (h : List.Forall₂ (Represents b d) sgs pats) :
    (sgs.map segEdge).map rank = pats.map patRank := by
  induction h with
  | nil => rfl
  | @cons sg p sgs pats hp hps ih =>
    rw [map_cons, map_cons, map_cons, ih, segEdge_eq hp]
    cases p <;> rfl

theorem isParamEdge_segEdge (h : List.Forall₂ (Represents b d) sgs pats) :
    (sgs.map segEdge).countP isParamEdge = pats.countP Pat.isParam := by
  induction h with
  | nil => rfl
  | @cons sg p sgs pats hp hps ih =>
    rw [map_cons, countP_cons, countP_cons, ih, segEdge_eq hp]
    cases p <;> rfl

theorem segEdge_eq_iff (hb : b.dict.Exact) {sg sg' p p'} (h : Represents b d sg p)
    (h' : Represents b d sg' p') : segEdge sg' = segEdge sg ↔ patShape p' = patShape p := by
  rw [segEdge_eq h, segEdge_eq h']
  cases p <;> cases p' <;> simp only [patShape, Edge.lit.injEq, Pat.literal.injEq, reduceCtorEq]
  case literal.literal text text' =>
    constructor
    · intro hid
      exact hb.find_inj (hid ▸ h'.2) h.2
    · rintro rfl
      exact Option.some.inj (h'.2.symm.trans h.2)

theorem map_segEdge_eq_iff (hb : b.dict.Exact) (h : List.Forall₂ (Represents b d) sgs pats) :
    ∀ {sgs' : List Segment} {pats' : List Pat}, List.Forall₂ (Represents b d) sgs' pats' →
      (sgs'.map segEdge = sgs.map segEdge ↔ pats'.map patShape = pats.map patShape) := by
  induction h with
  | nil => rintro sgs' pats' (_ | ⟨_, _⟩) <;> simp
  | @cons sg p sgs pats hp hps ih =>
    rintro sgs' pats' (_ | @⟨sg', p', sgs', pats', hp', hps'⟩)
    · simp
    · simp only [map_cons, List.cons.injEq, segEdge_eq_iff hb hp hp', ih hps']

/-! ## Walks and ends of the registered routes -/

theorem methodTag_inj {m m'} (h : methodTag m = methodTag m') : m = m' := by
  cases m <;> cases m' <;> first | rfl | exact absurd h (by decide)

theorem mem_walkOf :
    ∀ {l : Label} {idx : Nat} {l' : Label} {i : Nat}, (l', i) ∈ walkOf l idx sgs →
      l' <+: l ++ sgs.map segEdge := by
  induction sgs with
  | nil => exact fun h => by simp [walkOf] at h
  | cons sg sgs ih =>
    intro l idx l' i h
    rw [walkOf, mem_cons] at h
    rw [map_cons, append_cons]
    rcases h with h | h
    · cases h
      exact prefix_append _ _
    · exact ih h

variable {rts : List Route}

theorem mem_walksOf {segs l i} (h : (l, i) ∈ walksOf segs rts) :
    ∃ rt ∈ rts, rt.isStatic = false ∧ l <+: routeLabel segs rt := by
  induction rts with
  | nil => simp [walksOf] at h
  | cons rt rts ih =>
    rw [walksOf, mem_append] at h
    rcases h with h | h
    · cases hst : rt.isStatic with
      | true => simp [hst] at h
      | false =>
        refine ⟨rt, mem_cons_self .., hst, ?_⟩
        simp only [hst, Bool.false_eq_true, if_false, routeWalk, mem_cons] at h
        rcases h with h | h
        · cases h
          exact ⟨_, rfl⟩
        · exact mem_walkOf h
    · obtain ⟨rt', hmem, hrt'⟩ := ih h
      exact ⟨rt', mem_cons_of_mem _ hmem, hrt'⟩

theorem method_mem_walksOf (segs : List Segment) {rt : Route} (hmem : rt ∈ rts)
    (hst : rt.isStatic = false) : ([.lit (methodTag rt.method)], 0) ∈ walksOf segs rts := by
  induction rts with
  | nil => simp at hmem
  | cons rt' rts ih =>
    rw [walksOf, mem_append]
    rcases mem_cons.mp hmem with rfl | hmem
    · exact .inl (by simp [hst, routeWalk])
    · exact .inr (ih hmem)

theorem lookup_endsOf {segs} (rts : List Route) :
    ∀ {k : Nat} {l : Label} {r : Nat}, (endsOf segs k rts).lookup l = some r →
      ∃ i rt, r = k + i ∧ rts[i]? = some rt ∧ rt.isStatic = false ∧ routeLabel segs rt = l ∧
        ∀ j rt', rts[j]? = some rt' → rt'.isStatic = false → routeLabel segs rt' = l → i ≤ j := by
  induction rts with
  | nil => exact fun h => by simp [endsOf] at h
  | cons rt rts ih =>
    intro k l r h
    rw [endsOf, lookup_append] at h
    by_cases hrt : rt.isStatic = false ∧ routeLabel segs rt = l
    · obtain ⟨hst, rfl⟩ := hrt
      simp [hst] at h
      exact ⟨0, rt, by omega, rfl, hst, rfl, fun j _ _ _ _ => Nat.zero_le j⟩
    have hskip : (if rt.isStatic then [] else [(routeLabel segs rt, k)]).lookup l = none := by
      cases hst : rt.isStatic with
      | true => rfl
      | false =>
        have hne : l ≠ routeLabel segs rt := fun he => hrt ⟨hst, he.symm⟩
        simp [lookup_cons, beq_eq_false_iff_ne.mpr hne]
    rw [hskip, Option.none_or] at h
    obtain ⟨i, rt₁, rfl, hi, hst, hl, hmin⟩ := ih h
    refine ⟨i + 1, rt₁, by omega, hi, hst, hl, ?_⟩
    intro j rt' hj hst' hl'
    cases j with
    | zero =>
      cases hj
      exact absurd ⟨hst', hl'⟩ hrt
    | succ j => exact Nat.succ_le_succ (hmin j rt' hj hst' hl')

theorem lookup_endsOf_ne_none (segs : List Segment) {i : Nat} {rt : Route}
    (hi : rts[i]? = some rt) (hst : rt.isStatic = false) (k : Nat) :
    (endsOf segs k rts).lookup (routeLabel segs rt) ≠ none := by
  induction rts generalizing i k with
  | nil => cases hi
  | cons rt₁ rts ih =>
    rw [endsOf, lookup_append]
    cases i with
    | zero =>
      cases hi
      simp [hst]
    | succ i =>
      intro h
      exact ih hi (k + 1) (Option.or_eq_none_iff.mp h).2

/-! ## The search and the registered routes -/

section Found

variable {s : RouterImpl D T} {acc : List Call} {m : Method} {path : Bytes} {r : Nat}

def routeEdges (segs : List Segment) (rt : Route) : Label := (rt.segments segs).map segEdge

/-- The search has found the parametric route `rt` with id `r`. -/
structure Found (b : Bolt D T) (s : RouterImpl D T) (m : Method) (path : Bytes) (r : Nat)
    (caps : List RouteParam) (rt : Route) : Prop where
  get : s.routes[r]? = some rt
  isStatic : rt.isStatic = false
  method : rt.method = m
  fits : Fits b s.dict (routeEdges s.segs rt) (pathViews path)
  captured : caps = capturesOf (nameOf s.segs (walksOf s.segs s.routes)) [.lit (methodTag m)]
    (routeEdges s.segs rt) (pathViews path)
  first : ∀ (r' : Nat) (rt' : Route), s.routes[r']? = some rt' → rt'.isStatic = false →
    rt'.method = m → Fits b s.dict (routeEdges s.segs rt') (pathViews path) →
    LexLe ((routeEdges s.segs rt).map rank) ((routeEdges s.segs rt').map rank) ∧
      (routeEdges s.segs rt' = routeEdges s.segs rt → r ≤ r')

def NoneFits (b : Bolt D T) (s : RouterImpl D T) (m : Method) (path : Bytes) : Prop :=
  ∀ (r : Nat) (rt : Route), s.routes[r]? = some rt → rt.isStatic = false → rt.method = m →
    ¬ Fits b s.dict (routeEdges s.segs rt) (pathViews path)

def Outcome (b : Bolt D T) (s : RouterImpl D T) (m : Method) (path : Bytes) :
    Option (Nat × List RouteParam) → Prop
  | none => NoneFits b s m path
  | some (r, caps) => ∃ rt, Found b s m path r caps rt

theorem routeLabel_eq {segs rt} (h : rt.method = m) :
    routeLabel segs rt = [.lit (methodTag m)] ++ routeEdges segs rt := by
  rw [routeLabel, h]
  rfl

theorem countP_routeLabel {rt c} (h : RouteOf b s rt c) :
    (routeLabel s.segs rt).countP isParamEdge ≤ kMaxParams := by
  rw [routeLabel, countP_cons_of_neg (by simp [isParamEdge]), isParamEdge_segEdge h.segs]
  exact h.params

theorem segCount_le (hreg : List.Forall₂ (RouteOf b s) s.routes acc) :
    ∀ rt ∈ s.routes, rt.segCount ≤ kMaxSegments := by
  intro rt hmem
  obtain ⟨i, hi⟩ := mem_iff_getElem?.mp hmem
  obtain ⟨c, -, hrt⟩ := call_of_route hreg hi
  rw [hrt.count]
  exact hrt.depth

theorem outcome_explore (hb : b.Exact) (hreg : List.Forall₂ (RouteOf b s) s.routes acc)
    {mroot : Nat} (hroot : b.table.find (build b s).trie.childTbl (edgeKey 0 (methodTag m)) =
      some mroot) : Outcome b s m path (explore b (build b s) (pathViews path) mroot []) := by
  obtain ⟨labels, sp⟩ := build_spells hb.table (segCount_le hreg)
  have hpc : ∀ l ∈ labels, l.countP isParamEdge ≤ kMaxParams := by
    intro l hl
    rcases (sp.walked l).mp hl with rfl | ⟨i, hi⟩
    · exact Nat.zero_le _
    obtain ⟨rt, hmem, -, hpre⟩ := mem_walksOf hi
    obtain ⟨j, hj⟩ := mem_iff_getElem?.mp hmem
    obtain ⟨c, -, hrt⟩ := call_of_route hreg hj
    exact hpre.sublist.countP_le.trans (countP_routeLabel hrt)
  have hmroot : labels[mroot]? = some [.lit (methodTag m)] := by
    obtain ⟨l, hl, hlm⟩ := (sp.kids 0 (.lit (methodTag m)) mroot).mp hroot
    cases sp.root.symm.trans hl
    exact hlm
  have hbest := explore_best sp hpc (pathViews path) mroot _ [] hmroot (by simp [isParamEdge])
  cases hx : explore b (build b s) (pathViews path) mroot [] with
  | none =>
    rw [hx] at hbest
    intro r rt hr hst hm hfit
    refine lookup_endsOf_ne_none s.segs hr hst 0 ?_
    rw [routeLabel_eq hm]
    exact hbest _ trivial hfit
  | some rc =>
    obtain ⟨r, caps⟩ := rc
    rw [hx] at hbest
    obtain ⟨es, -, hfit, hend, hcaps, hmin⟩ := hbest
    obtain ⟨i, rt, rfl, hi, hst, hlabel, hfirst⟩ := lookup_endsOf s.routes hend
    rw [Nat.zero_add] at *
    have hm : rt.method = m := by
      rw [routeLabel, singleton_append, List.cons.injEq, Edge.lit.injEq] at hlabel
      exact methodTag_inj hlabel.1
    have hes : es = routeEdges s.segs rt := by
      rw [routeLabel_eq hm] at hlabel
      exact (append_cancel_left hlabel).symm
    subst hes
    refine ⟨rt, hi, hst, hm, hfit, hcaps, ?_⟩
    intro r' rt' hr' hst' hm' hfit'
    have hend' : (endsOf s.segs 0 s.routes).lookup
        ([.lit (methodTag m)] ++ routeEdges s.segs rt') ≠ none := by
      rw [← routeLabel_eq hm']
      exact lookup_endsOf_ne_none s.segs hr' hst' 0
    refine ⟨hmin _ trivial hfit' hend', fun heq => hfirst r' rt' hr' hst' ?_⟩
    rw [routeLabel_eq hm', heq]

theorem noneFits_of_miss (hb : b.Exact) (hreg : List.Forall₂ (RouteOf b s) s.routes acc)
    (hmiss : b.table.find (build b s).trie.childTbl (edgeKey 0 (methodTag m)) = none) :
    NoneFits b s m path := by
  obtain ⟨labels, sp⟩ := build_spells hb.table (segCount_le hreg)
  intro r rt hr hst hm _
  have hwalk := method_mem_walksOf s.segs (mem_of_getElem? hr) hst
  rw [hm] at hwalk
  obtain ⟨c, hc⟩ := mem_iff_getElem?.mp ((sp.walked _).mpr (.inr ⟨0, hwalk⟩))
  have hkid := (sp.kids 0 (.lit (methodTag m)) c).mpr ⟨[], sp.root, hc⟩
  rw [kid, hmiss] at hkid
  cases hkid

theorem noneFits_nil (hreg : List.Forall₂ (RouteOf b s) s.routes acc) : NoneFits b s m [] := by
  intro r rt hr hst _ hfit
  obtain ⟨c, -, hrt⟩ := call_of_route hreg hr
  have hnil : rt.segments s.segs = [] := map_eq_nil_iff.mp (fits_nil hfit)
  have hsegs := hrt.segs
  rw [hnil, forall₂_nil_left_iff] at hsegs
  rw [hrt.isStatic, hsegs] at hst
  cases hst

/-- **`match` without a static hit** returns what the search over the registered
parametric routes finds. -/
theorem matchRequest_outcome (hb : b.Exact) (hreg : List.Forall₂ (RouteOf b s) s.routes acc)
    (hlen : (pathSegments path).length ≤ kMaxSegments)
    (hmiss : staticHit b (build b s) m path = none) :
    ∃ o, Outcome b s m path o ∧ (matchRequest b (build b s) m path).routeId = o.map Prod.fst ∧
      ∀ rc, o = some rc → (matchRequest b (build b s) m path).captured = rc.2 := by
  rw [matchRequest]
  by_cases hp : path = []
  · rw [if_pos hp]
    exact ⟨none, hp ▸ noneFits_nil hreg, rfl, fun _ h => by cases h⟩
  rw [if_neg hp, hmiss, splitPath_eq hb.swar, pathViews_length, if_pos hlen]
  dsimp only
  cases hroot : b.table.find (build b s).trie.childTbl (edgeKey 0 (methodTag m)) with
  | none => exact ⟨none, noneFits_of_miss hb hreg hroot, rfl, fun _ h => by cases h⟩
  | some mroot =>
    have hsearch := searchFrom_eq b (build b s) (pathViews path) mroot
    refine ⟨_, outcome_explore hb hreg hroot, ?_⟩
    cases hx : explore b (build b s) (pathViews path) mroot [] with
    | none =>
      rw [hx] at hsearch
      exact ⟨hsearch, fun _ h => by cases h⟩
    | some rc =>
      rw [hx] at hsearch
      refine ⟨hsearch.1, fun rc' h => ?_⟩
      cases h
      exact hsearch.2

theorem candidate_iff (hb : b.Exact) (hreg : List.Forall₂ (RouteOf b s) s.routes acc) :
    Candidate acc m (pathSegments path) r ↔
      ∃ rt, s.routes[r]? = some rt ∧ rt.isStatic = false ∧ rt.method = m ∧
        Fits b s.dict (routeEdges s.segs rt) (pathViews path) := by
  constructor
  · rintro ⟨p, hacc, hlit, hmatch⟩
    obtain ⟨rt, hr, hrt⟩ := route_of_call hreg hacc
    refine ⟨rt, hr, hrt.isStatic.trans hlit, hrt.method, ?_⟩
    rw [routeEdges, fits_iff_matches hb.dict hrt.segs, pathViews_text]
    exact hmatch
  rintro ⟨rt, hr, hst, hm, hfit⟩
  obtain ⟨⟨m', p⟩, hc, hrt⟩ := call_of_route hreg hr
  obtain rfl : m' = m := hrt.method.symm.trans hm
  refine ⟨p, hc, hrt.isStatic.symm.trans hst, ?_⟩
  rw [routeEdges, fits_iff_matches hb.dict hrt.segs, pathViews_text] at hfit
  exact hfit

theorem chosen_of_found (hb : b.Exact) (hreg : List.Forall₂ (RouteOf b s) s.routes acc) {caps rt}
    (h : Found b s m path r caps rt) : Chosen acc m (pathSegments path) r := by
  obtain ⟨⟨m', p⟩, hc, hrt⟩ := call_of_route hreg h.get
  obtain rfl : m' = m := hrt.method.symm.trans h.method
  refine ⟨p, hc, (candidate_iff hb hreg).mpr ⟨rt, h.get, h.isStatic, h.method, h.fits⟩, ?_⟩
  intro r' p' hc' hcand
  obtain ⟨rt', hr', hst', hm', hfit'⟩ := (candidate_iff hb hreg).mp hcand
  obtain ⟨c', hc₁, hrt'⟩ := call_of_route hreg hr'
  cases hc'.symm.trans hc₁
  obtain ⟨hlex, hfirst⟩ := h.first r' rt' hr' hst' hm' hfit'
  rw [routeEdges, routeEdges, rank_segEdge hrt.segs, rank_segEdge hrt'.segs] at hlex
  exact ⟨hlex, fun hshape => hfirst ((map_segEdge_eq_iff hb.dict hrt.segs hrt'.segs).mpr hshape)⟩

end Found

/-! ## The router as a whole -/

/-- The calls have a defined outcome, and the router they build gives every
request without a static hit the chosen route, on a stack that stays within its
bounds. -/
def Dispatches (b : Bolt D T) (calls : List Call) : Prop :=
  ∃ s acc, addAll b (newRouter b) calls = some (s, acc) ∧
    ∀ m path, (pathSegments path).length ≤ kMaxSegments →
      staticHit b (build b s) m path = none →
      ((∃ r, (matchRequest b (build b s) m path).routeId = some r) ↔
        ∃ r, Candidate acc m (pathSegments path) r) ∧
      (∀ r, (matchRequest b (build b s) m path).routeId = some r →
        Chosen acc m (pathSegments path) r) ∧
      ∀ segs mroot k st, splitPath b.swarFind path kMaxSegments = some segs →
        iter (searchStep b (build b s) segs) k ⟨[⟨mroot, 0, 0, .literal⟩], noParams⟩ = .inr st →
        st.stack.length ≤ kMaxSegments + 1

/-- How many segments the calls store, those of refused calls included. -/
def storedSegments (b : Bolt D T) (calls : List Call) : Nat :=
  (register b (newRouter b) calls).1.segs.length

/-- **Routing is right** exactly when the segments the calls store fit the array
they are written to. -/
theorem dispatch_correct_iff (hb : b.Exact) (calls : List Call) :
    Dispatches b calls ↔ storedSegments b calls ≤ kSegs := by
  have hall := addAll_eq hb calls (s := newRouter b) (Nat.zero_le _)
  constructor
  · rintro ⟨s, acc, hrun, -⟩
    rw [hall] at hrun
    split at hrun
    case isTrue hle => exact hle
    case isFalse => cases hrun
  intro hle
  rw [if_pos (show (register b (newRouter b) calls).1.segs.length ≤ kSegs from hle)] at hall
  have hreg := register_routes hb calls
  refine ⟨_, _, hall, fun m path hlen hmiss => ?_⟩
  obtain ⟨o, hout, hres, -⟩ := matchRequest_outcome hb hreg hlen hmiss
  rw [hres]
  refine ⟨?_, ?_, ?_⟩
  · rcases o with _ | ⟨r, caps⟩
    · refine ⟨fun ⟨_, hr⟩ => (by cases hr), fun ⟨r, hcand⟩ => ?_⟩
      obtain ⟨rt, hr, hst, hm, hfit⟩ := (candidate_iff hb hreg).mp hcand
      exact absurd hfit (hout r rt hr hst hm)
    · obtain ⟨rt, hfound⟩ := hout
      obtain ⟨_, _, hcand, -⟩ := chosen_of_found hb hreg hfound
      exact ⟨fun _ => ⟨r, hcand⟩, fun _ => ⟨r, rfl⟩⟩
  · intro r hr
    obtain ⟨⟨r', caps⟩, rfl, rfl⟩ := Option.map_eq_some_iff.mp hr
    obtain ⟨rt, hfound⟩ := hout
    exact chosen_of_found hb hreg hfound
  intro segs mroot k st hsplit hrun
  rw [splitPath_eq hb.swar] at hsplit
  split at hsplit
  case isFalse => cases hsplit
  case isTrue hviews =>
    cases hsplit
    exact stack_bounded hviews hrun

theorem dispatch_correct_users :
    Dispatches (listBolt 0) [(.Get, ascii "/u/\x7bid\x7d"), (.Get, ascii "/u/*")] :=
  (dispatch_correct_iff (listBolt_exact 0) _).mpr (by decide)

/-! ## Refused calls fill the array -/

/-- 31 literals and a parameter without a name: the call is refused when its last
segment is read. -/
def nameless : Bytes := (List.replicate 31 (ascii "/a")).flatten ++ ascii "/\x7b\x7d"

theorem addLoop_nameless (d : {d : List Bytes // d.length ≤ kMaxRoutes * kMaxSegments})
    (hd : d.1 = [] ∨ d.1 = [ascii "a"]) :
    let r := addLoop (listBolt 0) (pathViews nameless) d true 0
    r.dict.1 = [ascii "a"] ∧ r.stored.length = 31 ∧ r.done = none := by
  obtain ⟨d, hlen⟩ := d
  rcases hd with rfl | rfl
  · exact ⟨rfl, rfl, rfl⟩
  · exact ⟨rfl, rfl, rfl⟩

theorem addUnbounded_nameless {s : RouterImpl _ _} (hr : s.routes = []) (hd : s.dict.1 = [] ∨ s.dict.1 = [ascii "a"]) :
    let s' := (addUnbounded (listBolt 0) s .Get nameless).1
    s'.routes = [] ∧ s'.dict.1 = [ascii "a"] ∧ s'.segs.length = s.segs.length + 31 := by
  obtain ⟨hdict, hstored, hdone⟩ := addLoop_nameless s.dict hd
  have hsplit : splitPath (listBolt 0).swarFind nameless kMaxSegments =
      some (pathViews nameless) := by
    rw [splitPath_eq (listBolt_exact 0).swar, if_pos (by decide)]
  have hhead : nameless.head? = some SLASH := rfl
  have hroom : ¬ kMaxRoutes ≤ ([] : List Route).length := by decide
  simp only [addUnbounded, hr, hsplit, hdone, hhead, if_neg hroom, ne_eq, not_true_eq_false,
    if_false]
  exact ⟨trivial, hdict, by rw [length_append, hstored]⟩

theorem register_nameless (n : Nat) :
    ∀ {s : RouterImpl _ _}, s.routes = [] → (s.dict.1 = [] ∨ s.dict.1 = [ascii "a"]) →
      (register (listBolt 0) s (List.replicate n (.Get, nameless))).1.segs.length =
        s.segs.length + 31 * n := by
  induction n with
  | zero => exact fun _ _ => rfl
  | succ n ih =>
    intro s hr hd
    obtain ⟨hr', hd', hlen⟩ := addUnbounded_nameless hr hd
    rw [replicate_succ, register]
    dsimp only
    rw [ih hr' (.inr hd'), hlen, Nat.mul_succ]
    omega

/-- **Refused calls break the router**: after 4361 calls that are all refused, the
array of segments has been written past its end. -/
theorem refused_calls_overflow :
    ¬ Dispatches (listBolt 0) (List.replicate 4361 (.Get, nameless)) := by
  have hstored := register_nameless 4361 (s := newRouter (listBolt 0)) rfl (.inl rfl)
  rintro ⟨s, acc, hrun, -⟩
  rw [addAll_eq (listBolt_exact 0) _ (Nat.zero_le _), hstored] at hrun
  simp [newRouter, kSegs, kMaxRoutes, kMaxSegments] at hrun

end BoltApi.Router.Dispatch
