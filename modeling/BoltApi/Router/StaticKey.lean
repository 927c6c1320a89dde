import BoltApi.Router.Registration

/-! # The static tier

A static route is stored under one 64-bit key, made of its method and a hash of
its segments, and a request is looked up under the key made the same way. The
table compares keys only. So a hit is the right route exactly when no static
route of another method or of other segments has the request's key. -/
namespace BoltApi.Router.StaticKey
open Octets Lib.ExactMap Model Paths List
open Registration

variable {D T : Type} {b : Bolt D T}

/-! ## What the table holds -/

variable {d : D}

theorem find_insertStatic (hb : b.table.Exact) {segs} (rts : List Route) :
    ∀ {tbl : T} {r k x : Nat}, b.table.find (insertStatic b d segs tbl r rts) k = some x →
      b.table.find tbl k = some x ∨
        ∃ i rt, x = r + i ∧ rts[i]? = some rt ∧ rt.isStatic ∧
          k = staticKey b rt.method (routeHash b d (rt.segments segs)) := by
  induction rts with
  | nil => exact fun h => .inl h
  | cons rt rts ih =>
    intro tbl r k x h
    rw [insertStatic] at h
    rcases ih h with h | ⟨i, rt', rfl, hi, hst, hk⟩
    · cases hst : rt.isStatic with
      | false =>
        simp only [hst, Bool.false_eq_true, if_false] at h
        exact .inl h
      | true =>
        simp only [hst, if_true] at h
        rcases hb.of_find_insert h with h | ⟨rfl, rfl⟩
        · exact .inl h
        · exact .inr ⟨0, rt, rfl, rfl, hst, rfl⟩
    · exact .inr ⟨i + 1, rt', by omega, hi, hst, hk⟩

theorem register_staticTbl (cs : List Call) :
    ∀ s : RouterImpl D T, (register b s cs).1.staticTbl = s.staticTbl := by
  induction cs with
  | nil => exact fun s => rfl
  | cons c cs ih =>
    intro s
    refine (ih _).trans ?_
    rcases addUnbounded_cases b s c.1 c.2 with
      ⟨-, h⟩ | ⟨raw, -, ⟨-, h⟩ | ⟨_, _, -, h⟩⟩ <;> rw [h]
    · rfl
    · rfl

/-! ## The hash of a static route -/

variable {path : Bytes}

theorem pattern_of_literal (h : (pattern path).all Pat.isLiteral) :
    pattern path = (pathSegments path).map Pat.literal := by
  refine map_congr_left fun seg hseg => ?_
  have hlit := all_eq_true.mp h (readPat seg) (mem_map_of_mem hseg)
  rw [readPat] at hlit ⊢
  split
  case isTrue hp => rw [if_pos hp] at hlit; cases hlit
  case isFalse hp =>
    rw [if_neg hp] at hlit
    split
    case isTrue hs => rw [if_pos hs] at hlit; cases hlit
    case isFalse => rfl

theorem foldl_resolve (hb : b.dict.Exact) {sgs} (texts : List Bytes) :
    List.Forall₂ (Represents b d) sgs (texts.map Pat.literal) → ∀ h : UInt64,
      sgs.foldl (fun h sg => fnvSegment h (b.dict.resolve d sg.litId)) h =
        texts.foldl fnvSegment h := by
  induction texts generalizing sgs with
  | nil =>
    intro hrep h
    rw [map_nil, forall₂_nil_right_iff] at hrep
    rw [hrep]
    rfl
  | cons text texts ih =>
    intro hrep h
    rw [map_cons, forall₂_cons_right_iff] at hrep
    obtain ⟨sg, sgs', hsg, hrest, rfl⟩ := hrep
    rw [foldl_cons, foldl_cons, hb.resolve_find hsg.2, ih hrest]

variable {s : RouterImpl D T}

theorem routeHash_eq (hb : b.Exact) {rt : Route} {c} (h : RouteOf b s rt c) (hst : rt.isStatic) :
    routeHash b s.dict (rt.segments s.segs) = segmentsHash (pathSegments c.2) := by
  have hsegs := h.segs
  rw [pattern_of_literal (h.isStatic.symm.trans hst)] at hsegs
  have hlen : (rt.segments s.segs).length = (pathSegments c.2).length := by
    rw [hsegs.length_eq, length_map]
  rw [routeHash, segmentsHash, foldl_resolve hb.dict _ hsegs, hlen]
  cases pathSegments c.2 <;> simp

/-- **A hit of the static tier** is a registered static route with the request's
key. -/
theorem staticHit_some (hb : b.Exact) (htbl : s.staticTbl = b.table.create kMaxRoutes) {m r}
    (h : staticHit b (build b s) m path = some r) :
    ∃ rt, s.routes[r]? = some rt ∧ rt.isStatic ∧
      staticKey b m (segmentsHash (pathSegments path)) =
        staticKey b rt.method (routeHash b s.dict (rt.segments s.segs)) := by
  rw [staticHit, requestStaticHash_eq, build] at h
  rcases find_insertStatic hb.table s.routes h with h | ⟨i, rt, rfl, hi, hst, hk⟩
  · rw [htbl, hb.table.find_create] at h
    cases h
  · rw [Nat.zero_add]
    exact ⟨rt, hi, hst, hk⟩

/-! ## Any exact table

Which of two routes under one key a table keeps is not known. The routes do not
depend on the table, and for every route there is an exact table that keeps it. -/

def withTable (b : Bolt D T) {T' : Type} (M : Table T' Nat Nat) : Bolt D T' where
  dict := b.dict
  newDict := b.newDict
  table := M
  swissMix := b.swissMix
  swarFind := b.swarFind

variable {T' : Type}

theorem withTable_exact (hb : b.Exact) {M : Table T' Nat Nat} (hM : M.Exact) :
    (withTable b M).Exact := ⟨hb.dict, hM, hb.swar⟩

structure Agree {T' : Type} (s : RouterImpl D T) (s' : RouterImpl D T') : Prop where
  dict : s.dict = s'.dict
  routes : s.routes = s'.routes
  segs : s.segs = s'.segs

variable (M : Table T' Nat Nat)

theorem addLoop_withTable (vs : List SegView) :
    ∀ (d : D) (isStatic : Bool) (pc : Nat),
      addLoop (withTable b M) vs d isStatic pc = addLoop b vs d isStatic pc := by
  induction vs with
  | nil => exact fun _ _ _ => rfl
  | cons v vs ih =>
    intro d isStatic pc
    have hread : readSegment (withTable b M) d v.text vs.isEmpty =
        readSegment b d v.text vs.isEmpty := rfl
    simp only [addLoop, hread, ih]

theorem addUnbounded_withTable {s'} (h : Agree s s') (m : Method)
    (path : Bytes) : Agree (addUnbounded b s m path).1 (addUnbounded (withTable b M) s' m path).1 ∧
      (addUnbounded b s m path).2 = (addUnbounded (withTable b M) s' m path).2 := by
  have hswar : (withTable b M).swarFind = b.swarFind := rfl
  simp only [addUnbounded, ← h.routes, ← h.dict, ← h.segs, hswar, addLoop_withTable M]
  split
  · exact ⟨h, rfl⟩
  split
  · exact ⟨h, rfl⟩
  cases splitPath b.swarFind path kMaxSegments with
  | none => exact ⟨h, rfl⟩
  | some raw =>
    dsimp only
    split
    · exact ⟨⟨rfl, rfl, rfl⟩, rfl⟩
    · exact ⟨⟨rfl, rfl, rfl⟩, rfl⟩

theorem register_withTable (cs : List Call) :
    ∀ {s : RouterImpl D T} {s' : RouterImpl D T'}, Agree s s' →
      Agree (register b s cs).1 (register (withTable b M) s' cs).1 ∧
        (register b s cs).2 = (register (withTable b M) s' cs).2 := by
  induction cs with
  | nil => exact fun h => ⟨h, rfl⟩
  | cons c cs ih =>
    intro s s' h
    obtain ⟨hone, hid⟩ := addUnbounded_withTable (b := b) M h c.1 c.2
    obtain ⟨hrest, hacc⟩ := ih hone
    refine ⟨hrest, ?_⟩
    rw [register, register, hid, hacc]

theorem find_favoured {rt : Route} {fav segs} (rts : List Route) :
    ∀ {tbl : Slots Nat Nat} {r : Nat}, rts.length ≤ (listTable fav).room tbl →
      ((listTable fav).find tbl (staticKey b rt.method (routeHash b d (rt.segments segs))) =
          some fav ∨ ∃ i, r + i = fav ∧ rts[i]? = some rt) → rt.isStatic →
      (listTable fav).find (insertStatic (withTable b (listTable fav)) d segs tbl r rts)
        (staticKey b rt.method (routeHash b d (rt.segments segs))) = some fav := by
  induction rts with
  | nil =>
    rintro tbl r - (h | ⟨i, -, hi⟩) hst
    · exact h
    · cases hi
  | cons rt₁ rts ih =>
    intro tbl r hroom h hst
    rw [length_cons] at hroom
    rw [insertStatic]
    cases hst₁ : rt₁.isStatic with
    | false =>
      simp only [Bool.false_eq_true, if_false]
      refine ih (by omega) (h.imp_right ?_) hst
      rintro ⟨i, hfav, hi⟩
      cases i with
      | zero =>
        cases hi
        rw [hst] at hst₁
        cases hst₁
      | succ i => exact ⟨i, by omega, hi⟩
    | true =>
      simp only [if_true]
      have hins := (listTable_exact fav).room_insert tbl
        (staticKey b rt₁.method (routeHash b d (rt₁.segments segs))) r
      refine ih (Nat.le_of_succ_le_succ (hroom.trans hins)) ?_ hst
      rcases h with h | ⟨i, hfav, hi⟩
      · exact .inl (listTable_keeps h _ _)
      cases i with
      | zero =>
        cases hi
        obtain rfl : r = fav := hfav
        exact .inl (listTable_takes ((listTable_exact r).insert_room _ _ (by omega)))
      | succ i => exact .inr ⟨i, by omega, hi⟩

/-! ## When a hit is right -/

/-- Whichever exact table the router runs on, a hit of the static tier is a route
that was registered with the request's method and segments. -/
def StaticSafe (b : Bolt D T) (calls : List Call) (m : Method) (path : Bytes) : Prop :=
  ∀ (T' : Type) (M : Table T' Nat Nat), M.Exact →
    ∀ s acc, addAll (withTable b M) (newRouter (withTable b M)) calls = some (s, acc) →
      path ≠ [] → ∀ r, staticHit (withTable b M) (build (withTable b M) s) m path = some r →
        ∃ p, acc[r]? = some (m, p) ∧ pattern p = (pathSegments path).map Pat.literal

/-- No static route of another method or of other segments has the request's key. -/
def KeyIsOwn (b : Bolt D T) (acc : List Call) (m : Method) (path : Bytes) : Prop :=
  ∀ (r : Nat) (m' : Method) (p : Bytes), acc[r]? = some (m', p) → (pattern p).all Pat.isLiteral →
    staticKey b m' (segmentsHash (pathSegments p)) =
      staticKey b m (segmentsHash (pathSegments path)) →
    m' = m ∧ pathSegments p = pathSegments path

theorem addAll_withTable (hb : b.Exact) {M : Table T' Nat Nat} (hM : M.Exact)
    {calls : List Call} {acc : List Call} (hrun : addAll b (newRouter b) calls = some (s, acc)) :
    ∃ s', addAll (withTable b M) (newRouter (withTable b M)) calls = some (s', acc) := by
  obtain ⟨hreg, hfit⟩ := addAll_some hb hrun
  have hnew : Agree (newRouter b) (newRouter (withTable b M)) := ⟨rfl, rfl, rfl⟩
  obtain ⟨hagree, hsame⟩ := register_withTable (b := b) M calls hnew
  rw [hreg] at hagree hsame
  refine ⟨(register (withTable b M) (newRouter (withTable b M)) calls).1, ?_⟩
  rw [addAll_eq (withTable_exact hb hM) calls (Nat.zero_le _), ← hagree.segs, if_pos hfit,
    show acc = _ from hsame]

theorem staticHit_favoured (hb : b.Exact) {calls : List Call} {r : Nat}
    {s : RouterImpl D (Slots Nat Nat)} {acc : List Call}
    (hrun : addAll (withTable b (listTable r)) (newRouter (withTable b (listTable r))) calls =
      some (s, acc)) {m' : Method} {p : Bytes} (hacc : acc[r]? = some (m', p))
    (hlit : (pattern p).all Pat.isLiteral) {m : Method}
    (hkey : staticKey b m' (segmentsHash (pathSegments p)) =
      staticKey b m (segmentsHash (pathSegments path))) :
    staticHit (withTable b (listTable r)) (build (withTable b (listTable r)) s) m path =
      some r := by
  have hM := withTable_exact hb (listTable_exact r)
  obtain ⟨hreg, -⟩ := addAll_some hM hrun
  have hspec := register_routes hM calls
  have htbl := register_staticTbl (b := withTable b (listTable r)) calls
    (newRouter (withTable b (listTable r)))
  have hle : (register (withTable b (listTable r)) (newRouter (withTable b (listTable r)))
      calls).1.routes.length ≤ kMaxRoutes := register_routes_le calls (Nat.zero_le _)
  rw [hreg] at hspec htbl hle
  obtain ⟨rt, hr, hrt⟩ := route_of_call hspec hacc
  have hst : rt.isStatic := hrt.isStatic.trans hlit
  have hfind : (listTable r).find
      (insertStatic (withTable b (listTable r)) s.dict s.segs s.staticTbl 0 s.routes)
      (staticKey b rt.method (routeHash b s.dict (rt.segments s.segs))) = some r := by
    refine find_favoured s.routes ?_ (.inr ⟨r, Nat.zero_add r, hr⟩) hst
    rw [show s.staticTbl = _ from htbl]
    exact hle
  have hhash : routeHash b s.dict (rt.segments s.segs) = segmentsHash (pathSegments p) :=
    routeHash_eq hM hrt hst
  rw [hhash, hrt.method, hkey] at hfind
  rw [staticHit, requestStaticHash_eq]
  exact hfind

/-- **The static tier is safe** for a request exactly when its key is its own. -/
theorem static_tier_iff (hb : b.Exact) {calls : List Call} {s : RouterImpl D T}
    {acc : List Call} (hrun : addAll b (newRouter b) calls = some (s, acc)) (m : Method)
    (path : Bytes) : StaticSafe b calls m path ↔ path = [] ∨ KeyIsOwn b acc m path := by
  constructor
  · intro hsafe
    by_cases hp : path = []
    · exact .inl hp
    refine .inr fun r m' p hacc hlit hkey => ?_
    obtain ⟨s', hrun'⟩ := addAll_withTable hb (listTable_exact r) hrun
    have hhit := staticHit_favoured hb hrun' hacc hlit hkey
    obtain ⟨p', hp', hpat⟩ := hsafe _ _ (listTable_exact r) s' acc hrun' hp r hhit
    cases hacc.symm.trans hp'
    rw [pattern_of_literal hlit] at hpat
    exact ⟨rfl, map_injective_iff.mpr (fun _ _ h => Pat.literal.inj h) hpat⟩
  intro hcond T' M hM s' acc' hrun' hp r hhit
  have hown : KeyIsOwn b acc m path := hcond.resolve_left hp
  obtain ⟨s₁, hrun₁⟩ := addAll_withTable hb hM hrun
  obtain ⟨rfl, rfl⟩ : s₁ = s' ∧ acc = acc' := by
    have := Option.some.inj (hrun₁.symm.trans hrun')
    exact ⟨congrArg Prod.fst this, congrArg Prod.snd this⟩
  have hb' := withTable_exact hb hM
  obtain ⟨hreg, -⟩ := addAll_some hb' hrun'
  have hspec := register_routes hb' calls
  have htbl := register_staticTbl (b := withTable b M) calls (newRouter (withTable b M))
  rw [hreg] at hspec htbl
  obtain ⟨rt, hr, hst, hkey⟩ := staticHit_some hb' htbl hhit
  obtain ⟨⟨m', p⟩, hacc, hrt⟩ := call_of_route hspec hr
  rw [routeHash_eq hb' hrt hst, hrt.method] at hkey
  have hlit := hrt.isStatic.symm.trans hst
  obtain ⟨rfl, hsegs⟩ := hown r m' p hacc hlit hkey.symm
  exact ⟨p, hacc, by rw [pattern_of_literal hlit, hsegs]⟩

theorem static_tier_ping :
    StaticSafe (listBolt 0) [(.Get, ascii "/ping")] .Get (ascii "/ping/") := by
  refine (static_tier_iff (listBolt_exact 0) rfl .Get (ascii "/ping/")).mpr (.inr ?_)
  intro r m' p hacc _ _
  obtain ⟨rfl, rfl⟩ : m' = .Get ∧ p = ascii "/ping" := by
    cases r with
    | zero => cases hacc; exact ⟨rfl, rfl⟩
    | succ r => cases hacc
  exact ⟨rfl, by decide⟩

/-! ## Two paths with one key -/

/-- The list-backed library with any mixing function. -/
def mixedBolt (mix : UInt64 → UInt64) :
    Bolt {d : List Bytes // d.length ≤ kMaxRoutes * kMaxSegments} (Slots Nat Nat) :=
  { listBolt 0 with swissMix := mix }

theorem same_shifted_hash :
    segmentsHash (pathSegments (ascii "/bXYoeH_wmmB")) <<< 3 =
      segmentsHash (pathSegments (ascii "/WmYEfo6US0B")) <<< 3 := by
  decide

/-- **A path that was never registered reaches a static handler**, whatever
`swiss_mix` computes. -/
theorem unregistered_path_hits : ¬ ∃ mix : UInt64 → UInt64,
    StaticSafe (mixedBolt mix) [(.Get, ascii "/bXYoeH_wmmB")] .Get (ascii "/WmYEfo6US0B") := by
  rintro ⟨mix, hsafe⟩
  have hb : (mixedBolt mix).Exact := ⟨(listBolt_exact 0).dict, listTable_exact 0, fun _ _ => rfl⟩
  obtain ⟨s, hrun⟩ : ∃ s, addAll (mixedBolt mix) (newRouter (mixedBolt mix))
      [(.Get, ascii "/bXYoeH_wmmB")] = some (s, [(.Get, ascii "/bXYoeH_wmmB")]) := ⟨_, rfl⟩
  obtain ⟨s', hrun'⟩ := addAll_withTable hb (listTable_exact 0) hrun
  have hkey : staticKey (mixedBolt mix) .Get (segmentsHash (pathSegments (ascii "/bXYoeH_wmmB"))) =
      staticKey (mixedBolt mix) .Get (segmentsHash (pathSegments (ascii "/WmYEfo6US0B"))) := by
    rw [staticKey, staticKey, same_shifted_hash]
  have hhit := staticHit_favoured hb hrun' rfl (by decide) hkey
  obtain ⟨p, hp, hpat⟩ := hsafe _ _ (listTable_exact 0) s' _ hrun' (by decide) 0 hhit
  cases hp
  exact absurd hpat (by decide)

end BoltApi.Router.StaticKey
