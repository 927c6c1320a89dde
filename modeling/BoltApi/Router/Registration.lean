import BoltApi.Router.Paths
import BoltApi.Lib.History
import Mathlib.Data.List.Forall2

/-! # What registration records

A route's text is a list of patterns. A successful `add` stores segments that
represent it, and later calls keep them: the pool only grows, and stored
segments stay where they are. A call that is refused may leave segments behind,
so `segs` can fill up with segments of no route. -/
namespace BoltApi.Router.Registration
open Octets Lib.ExactMap Lib.History Model Paths List

inductive Pat
  | literal (text : Bytes)
  | param (name : Bytes)
  | wildcard
  deriving DecidableEq

/-- `{name}` is a parameter, `*` the wildcard, anything else a literal. -/
def readPat (seg : Bytes) : Pat :=
  if isParamText seg then .param (innerText seg)
  else if seg = ascii "*" then .wildcard
  else .literal seg

def Pat.isLiteral : Pat → Bool
  | .literal _ => true
  | _ => false

def Pat.isParam : Pat → Bool
  | .param _ => true
  | _ => false

def pattern (path : Bytes) : List Pat := (pathSegments path).map readPat

/-- A call of `add`. -/
abbrev Call := Method × Bytes

variable {D T : Type}

def register (b : Bolt D T) : RouterImpl D T → List Call → RouterImpl D T × List Call
  | s, [] => (s, [])
  | s, c :: cs =>
    let r := addUnbounded b s c.1 c.2
    let t := register b r.1 cs
    (t.1, if r.2.isSome then c :: t.2 else t.2)

/-- The same with the bound of `segs`: `none` once a call writes past it. -/
def addAll (b : Bolt D T) : RouterImpl D T → List Call → Option (RouterImpl D T × List Call)
  | s, [] => some (s, [])
  | s, c :: cs =>
    (add b s c.1 c.2).bind fun r =>
      (addAll b r.1 cs).map fun t => (t.1, if r.2.isSome then c :: t.2 else t.2)

def Represents (b : Bolt D T) (d : D) (sg : Segment) : Pat → Prop
  | .literal text => sg.kind = .literal ∧ b.dict.find d text = some sg.litId
  | .param name => sg.kind = .param ∧ sg.name = name
  | .wildcard => sg.kind = .wildcard

def Extends (b : Bolt D T) (d d' : D) : Prop :=
  ∀ text code, b.dict.find d text = some code → b.dict.find d' text = some code

theorem Extends.refl (b : Bolt D T) (d : D) : Extends b d d := fun _ _ h => h

theorem Extends.trans {b : Bolt D T} {d d' d'' : D} (h : Extends b d d') (h' : Extends b d' d'') :
    Extends b d d'' := fun text code hf => h' text code (h text code hf)

theorem Represents.mono {b : Bolt D T} {d d' : D} {sg : Segment} {p : Pat}
    (h : Represents b d sg p) (hd : Extends b d d') : Represents b d' sg p := by
  cases p with
  | literal text => exact ⟨h.1, hd text _ h.2⟩
  | _ => exact h

theorem Represents.kind {b : Bolt D T} {d : D} {sg : Segment} {p : Pat} (h : Represents b d sg p) :
    decide (sg.kind = .param) = p.isParam ∧ decide (sg.kind = .literal) = p.isLiteral := by
  cases p with
  | wildcard => simp [show sg.kind = .wildcard from h, Pat.isParam, Pat.isLiteral]
  | _ => simp [h.1, Pat.isParam, Pat.isLiteral]

structure RouteOf (b : Bolt D T) (s : RouterImpl D T) (rt : Route) (c : Call) : Prop where
  method : rt.method = c.1
  count : rt.segCount = (pattern c.2).length
  segs : List.Forall₂ (Represents b s.dict) (rt.segments s.segs) (pattern c.2)
  isStatic : rt.isStatic = (pattern c.2).all Pat.isLiteral
  depth : (pattern c.2).length ≤ kMaxSegments
  params : (pattern c.2).countP Pat.isParam ≤ kMaxParams
  wildcard_last : ∀ i, (pattern c.2)[i]? = some .wildcard → i + 1 = (pattern c.2).length

/-! ## One call -/

section

variable {b : Bolt D T}

theorem readSegment_spec (hb : b.dict.Exact) (d : D) (seg : Bytes) (last : Bool) :
    Extends b d (readSegment b d seg last).1 ∧
      ∀ sg, (readSegment b d seg last).2 = some sg →
        Represents b (readSegment b d seg last).1 sg (readPat seg) ∧
          (readPat seg = .wildcard → last) := by
  have hintern : ∀ text, Extends b d (b.dict.intern d text).1 :=
    fun text _ _ h => hb.find_keep text h
  rw [readSegment, readPat]
  split
  case isTrue hpar =>
    split
    case isTrue => exact ⟨Extends.refl b d, fun sg h => by cases h⟩
    case isFalse =>
      cases hi : b.dict.intern d (innerText seg) with
      | mk d₁ code =>
        have hd₁ := hintern (innerText seg)
        rw [hi] at hd₁
        cases code with
        | none => exact ⟨hd₁, fun sg h => by cases h⟩
        | some code =>
          refine ⟨hd₁, fun sg h => ?_⟩
          cases h
          have hfind := hb.find_intern (d := d) (s := innerText seg) (c := code) (by rw [hi])
          rw [hi] at hfind
          exact ⟨⟨rfl, hb.resolve_find hfind⟩, fun h => by cases h⟩
  case isFalse hpar =>
    split
    case isTrue hstar =>
      cases last with
      | true => exact ⟨Extends.refl b d, fun sg h => by cases h; exact ⟨rfl, fun _ => rfl⟩⟩
      | false => exact ⟨Extends.refl b d, fun sg h => by cases h⟩
    case isFalse hstar =>
      cases hi : b.dict.intern d seg with
      | mk d₁ code =>
        have hd₁ := hintern seg
        rw [hi] at hd₁
        cases code with
        | none => exact ⟨hd₁, fun sg h => by cases h⟩
        | some code =>
          refine ⟨hd₁, fun sg h => ?_⟩
          cases h
          have hfind := hb.find_intern (d := d) (s := seg) (c := code) (by rw [hi])
          rw [hi] at hfind
          exact ⟨⟨rfl, hfind⟩, fun h => by cases h⟩

/-- What a loop of `add` that comes to its end has stored. -/
structure Stored (b : Bolt D T) (pats : List Pat) (isStatic isStatic' : Bool) (pc pc' : Nat)
    (r : AddLoop D) : Prop where
  segs : List.Forall₂ (Represents b r.dict) r.stored pats
  isStatic : isStatic' = (isStatic && pats.all Pat.isLiteral)
  params : pc' = pc + pats.countP Pat.isParam
  bound : pc ≤ kMaxParams → pc' ≤ kMaxParams
  wildcard_last : ∀ i, pats[i]? = some .wildcard → i + 1 = pats.length

theorem addLoop_spec (hb : b.dict.Exact) (vs : List SegView) :
    ∀ (d : D) (isStatic : Bool) (pc : Nat), Extends b d (addLoop b vs d isStatic pc).dict ∧
      ∀ isStatic' pc', (addLoop b vs d isStatic pc).done = some (isStatic', pc') →
        Stored b (vs.map fun v => readPat v.text) isStatic isStatic' pc pc'
          (addLoop b vs d isStatic pc) := by
  induction vs with
  | nil =>
    intro d isStatic pc
    refine ⟨Extends.refl b d, fun isStatic' pc' h => ?_⟩
    cases h
    exact ⟨.nil, by simp, by simp, id, by simp⟩
  | cons v vs ih =>
    intro d isStatic pc
    obtain ⟨hext, hrep⟩ := readSegment_spec hb d v.text vs.isEmpty
    rw [addLoop]
    cases hr : readSegment b d v.text vs.isEmpty with
    | mk d₁ out =>
      rw [hr] at hext hrep
      cases out with
      | none => exact ⟨hext, fun _ _ h => by cases h⟩
      | some out =>
        obtain ⟨hout, hlast⟩ := hrep out rfl
        obtain ⟨hparam, hlit⟩ := hout.kind
        have hcount : (if out.kind = .param then pc + 1 else pc) =
            pc + if (readPat v.text).isParam then 1 else 0 := by
          rw [← hparam]
          by_cases hk : out.kind = .param <;> simp [hk]
        simp only [hlit, hcount]
        generalize hpc₁ : (pc + if (readPat v.text).isParam then 1 else 0) = pc₁
        split
        case isTrue => exact ⟨hext, fun _ _ h => by cases h⟩
        case isFalse hpc =>
          obtain ⟨hext', hdone⟩ := ih d₁ (isStatic && (readPat v.text).isLiteral) pc₁
          refine ⟨hext.trans hext', fun isStatic' pc' h => ?_⟩
          obtain ⟨hsegs, hst, hpar, hbound, hwild⟩ := hdone isStatic' pc' h
          refine ⟨.cons (hout.mono hext') hsegs, ?_, ?_, ?_, ?_⟩
          · rw [hst, map_cons, all_cons, Bool.and_assoc]
          · rw [hpar, map_cons, countP_cons, ← hpc₁]
            omega
          · exact fun _ => hbound (Nat.le_of_not_lt hpc)
          intro i hi
          cases i with
          | zero =>
            have hnil : vs = [] := List.isEmpty_iff.mp (hlast (by simpa using hi))
            simp [hnil]
          | succ i =>
            rw [map_cons, List.getElem?_cons_succ] at hi
            rw [map_cons, length_cons, hwild i hi]

structure Enters (b : Bolt D T) (s : RouterImpl D T) (path : Bytes) (raw : List SegView) :
    Prop where
  room : s.routes.length < kMaxRoutes
  slash : path.head? = some SLASH
  split : splitPath b.swarFind path kMaxSegments = some raw

variable {s : RouterImpl D T}

theorem Enters.views {path raw} (h : Enters b s path raw)
    (hswar : ∀ w, w.length = 8 → b.swarFind w = w.findIdx? (· == SLASH)) :
    (pathViews path).length ≤ kMaxSegments ∧ pathViews path = raw := by
  simpa [splitPath_eq hswar] using h.split

def loaded (b : Bolt D T) (s : RouterImpl D T) (raw : List SegView) : RouterImpl D T :=
  let r := addLoop b raw s.dict true 0
  { s with dict := r.dict, segs := s.segs ++ r.stored }

theorem addUnbounded_cases (b : Bolt D T) (s : RouterImpl D T) (m : Method) (path : Bytes) :
    ((∀ raw, ¬ Enters b s path raw) ∧ addUnbounded b s m path = (s, none)) ∨
      ∃ raw, Enters b s path raw ∧
        ((addLoop b raw s.dict true 0).done = none ∧
            addUnbounded b s m path = (loaded b s raw, none) ∨
          ∃ isStatic pc, (addLoop b raw s.dict true 0).done = some (isStatic, pc) ∧
            addUnbounded b s m path = ({ loaded b s raw with
              routes := s.routes ++ [⟨m, raw.length, isStatic, s.segs.length, pc⟩] },
              some s.routes.length)) := by
  rw [addUnbounded]
  split
  case isTrue hfull => exact .inl ⟨fun raw h => Nat.not_le.mpr h.room hfull, rfl⟩
  case isFalse hroom =>
    split
    case isTrue hslash => exact .inl ⟨fun raw h => hslash h.slash, rfl⟩
    case isFalse hslash =>
      cases hsplit : splitPath b.swarFind path kMaxSegments with
      | none => exact .inl ⟨fun raw h => (nomatch hsplit.symm.trans h.split), rfl⟩
      | some raw =>
        refine .inr ⟨raw, ⟨Nat.lt_of_not_le hroom, not_not.mp hslash, hsplit⟩, ?_⟩
        cases hdone : (addLoop b raw s.dict true 0).done with
        | none => exact .inl ⟨rfl, by simp only [hdone, loaded]⟩
        | some done => exact .inr ⟨done.1, done.2, rfl, by simp only [hdone, loaded]⟩

theorem addUnbounded_spec (hb : b.Exact) (s : RouterImpl D T) (m : Method) (path : Bytes) :
    Extends b s.dict (addUnbounded b s m path).1.dict ∧
      s.segs <+: (addUnbounded b s m path).1.segs ∧
      (((addUnbounded b s m path).2 = none ∧ (addUnbounded b s m path).1.routes = s.routes) ∨
        ∃ rt, (addUnbounded b s m path).2 = some s.routes.length ∧
          (addUnbounded b s m path).1.routes = s.routes ++ [rt] ∧
          RouteOf b (addUnbounded b s m path).1 rt (m, path)) := by
  rcases addUnbounded_cases b s m path with
    ⟨-, h⟩ | ⟨raw, henter, ⟨-, h⟩ | ⟨isStatic, pc, hdone, h⟩⟩ <;> rw [h]
  · exact ⟨Extends.refl b s.dict, prefix_refl _, .inl ⟨rfl, rfl⟩⟩
  · exact ⟨(addLoop_spec hb.dict raw s.dict true 0).1, prefix_append _ _, .inl ⟨rfl, rfl⟩⟩
  obtain ⟨hext, hstored⟩ := addLoop_spec hb.dict raw s.dict true 0
  refine ⟨hext, prefix_append _ _, .inr ⟨_, rfl, rfl, ?_⟩⟩
  obtain ⟨hsegs, hst, hpar, hbound, hwild⟩ := hstored isStatic pc hdone
  obtain ⟨hlen, rfl⟩ := henter.views hb.swar
  have hpat : (pathViews path).map (fun v => readPat v.text) = pattern path := by
    rw [pattern, ← pathViews_text, map_map]
    rfl
  have hlen' : (pathViews path).length = (pattern path).length := by rw [← hpat, length_map]
  rw [hpat] at hsegs hst hpar hwild
  have hcount : (addLoop b (pathViews path) s.dict true 0).stored.length =
      (pathViews path).length := by rw [hsegs.length_eq, hlen']
  refine ⟨rfl, hlen', ?_, by simpa using hst, hlen' ▸ hlen, ?_, hwild⟩
  · simpa [loaded, Route.segments, ← hcount] using hsegs
  · rw [hpar, Nat.zero_add] at hbound
    exact hbound (Nat.zero_le _)

/-! ## Sequences of calls -/

variable {rt : Route}

theorem segments_of_longer {segs segs'} (hlen : (rt.segments segs).length = rt.segCount)
    (hpre : segs <+: segs') : rt.segments segs' = rt.segments segs := by
  obtain ⟨more, rfl⟩ := hpre
  rw [Route.segments, length_take] at hlen
  have hle : rt.segCount ≤ (segs.drop rt.firstSeg).length := by omega
  rw [Route.segments, drop_append, take_append_of_le_length hle, Route.segments]

variable {c : Call}

theorem RouteOf.mono {s' : RouterImpl D T} (h : RouteOf b s rt c)
    (hd : Extends b s.dict s'.dict) (hs : s.segs <+: s'.segs) : RouteOf b s' rt c := by
  have hlen : (rt.segments s.segs).length = rt.segCount := by rw [h.segs.length_eq, h.count]
  refine { h with segs := ?_ }
  rw [segments_of_longer hlen hs]
  exact h.segs.imp fun _ _ hr => hr.mono hd

theorem forall₂_getElem? {α β : Type} {R : α → β → Prop} {xs : List α} {ys : List β}
    (h : List.Forall₂ R xs ys) :
    ∀ {i : Nat} {x : α}, xs[i]? = some x → ∃ y, ys[i]? = some y ∧ R x y := by
  induction h with
  | nil => exact fun hi => by cases hi
  | @cons x₁ y₁ xs ys hone hrest ih =>
    intro i x hi
    cases i with
    | zero =>
      cases hi
      exact ⟨y₁, rfl, hone⟩
    | succ i => exact ih hi

variable {acc : List Call}

theorem call_of_route (h : List.Forall₂ (RouteOf b s) s.routes acc) {r : Nat}
    (hr : s.routes[r]? = some rt) : ∃ c, acc[r]? = some c ∧ RouteOf b s rt c :=
  forall₂_getElem? h hr

theorem route_of_call
    (h : List.Forall₂ (RouteOf b s) s.routes acc) {r : Nat} (hc : acc[r]? = some c) :
    ∃ rt, s.routes[r]? = some rt ∧ RouteOf b s rt c :=
  forall₂_getElem? h.flip hc

/-- **Registration**: the routes stand for the calls that were given an id, in
the order of their ids. -/
theorem register_spec (hb : b.Exact) (cs : List Call) :
    ∀ {s : RouterImpl D T} {acc : List Call}, List.Forall₂ (RouteOf b s) s.routes acc →
      List.Forall₂ (RouteOf b (register b s cs).1) (register b s cs).1.routes
        (acc ++ (register b s cs).2) := by
  induction cs with
  | nil =>
    intro s acc h
    simpa [register] using h
  | cons c cs ih =>
    intro s acc h
    obtain ⟨hd, hs, hcase⟩ := addUnbounded_spec hb s c.1 c.2
    have hkept := h.imp fun _ _ hr => hr.mono hd hs
    rw [register]
    rcases hcase with ⟨hnone, hroutes⟩ | ⟨rt, hsome, hroutes, hrt⟩
    · rw [← hroutes] at hkept
      simpa [hnone] using ih hkept
    have hall : List.Forall₂ (RouteOf b (addUnbounded b s c.1 c.2).1)
        (s.routes ++ [rt]) (acc ++ [c]) := rel_append hkept (.cons hrt .nil)
    rw [← hroutes] at hall
    simpa [hsome] using ih hall

theorem register_routes (hb : b.Exact) (calls : List Call) :
    List.Forall₂ (RouteOf b (register b (newRouter b) calls).1)
      (register b (newRouter b) calls).1.routes (register b (newRouter b) calls).2 := by
  have hnew : List.Forall₂ (RouteOf b (newRouter b)) (newRouter b).routes [] := .nil
  simpa using register_spec hb calls hnew

theorem register_segs (hb : b.Exact) (cs : List Call) :
    ∀ s : RouterImpl D T, s.segs <+: (register b s cs).1.segs := by
  induction cs with
  | nil => exact fun s => prefix_refl _
  | cons c cs ih => exact fun s => (addUnbounded_spec hb s c.1 c.2).2.1.trans (ih _)

theorem addAll_eq (hb : b.Exact) (cs : List Call) :
    ∀ {s : RouterImpl D T}, s.segs.length ≤ kSegs →
      addAll b s cs =
        if (register b s cs).1.segs.length ≤ kSegs then some (register b s cs) else none := by
  induction cs with
  | nil =>
    intro s hs
    rw [addAll, register, if_pos hs]
  | cons c cs ih =>
    intro s hs
    have hgrow := (register_segs hb cs (addUnbounded b s c.1 c.2).1).length_le
    rw [addAll, add, register]
    dsimp only
    by_cases hfit : (addUnbounded b s c.1 c.2).1.segs.length ≤ kSegs
    · rw [if_pos hfit, Option.bind_some, ih hfit]
      by_cases hall : (register b (addUnbounded b s c.1 c.2).1 cs).1.segs.length ≤ kSegs
      · rw [if_pos hall, if_pos hall, Option.map_some]
      · rw [if_neg hall, if_neg hall, Option.map_none]
    · rw [if_neg hfit, Option.bind_none, if_neg fun h => hfit (hgrow.trans h)]

theorem addAll_some (hb : b.Exact) {calls} (h : addAll b (newRouter b) calls = some (s, acc)) :
    register b (newRouter b) calls = (s, acc) ∧ s.segs.length ≤ kSegs := by
  rw [addAll_eq hb calls (Nat.zero_le _)] at h
  split at h
  case isTrue hle =>
    have heq := Option.some.inj h
    rw [heq] at hle
    exact ⟨heq, hle⟩
  case isFalse => cases h

/-! ## Refused calls -/

theorem register_routes_le (cs : List Call) :
    ∀ {s : RouterImpl D T}, s.routes.length ≤ kMaxRoutes →
      (register b s cs).1.routes.length ≤ kMaxRoutes := by
  induction cs with
  | nil => exact fun h => h
  | cons c cs ih =>
    intro s h
    refine ih ?_
    rcases addUnbounded_cases b s c.1 c.2 with
      ⟨-, heq⟩ | ⟨raw, henter, ⟨-, heq⟩ | ⟨_, _, -, heq⟩⟩ <;> rw [heq]
    · exact h
    · exact h
    · rw [length_append]
      exact henter.room

def after (b : Bolt D T) (calls : List Call) : RouterImpl D T := (register b (newRouter b) calls).1

theorem register_append (b : Bolt D T) (cs ds : List Call) :
    ∀ s, (register b s (cs ++ ds)).1 = (register b (register b s cs).1 ds).1 := by
  induction cs with
  | nil => exact fun s => rfl
  | cons c cs ih => exact fun s => ih _

theorem after_snoc (b : Bolt D T) (pre : List Call) (c : Call) :
    after b (pre ++ [c]) = (addUnbounded b (after b pre) c.1 c.2).1 := register_append b pre [c] _

/-- After the calls `pre` the call `c` returns `kInvalidRoute`. -/
def Refused (b : Bolt D T) (pre : List Call) (c : Call) : Prop :=
  (addUnbounded b (after b pre) c.1 c.2).2 = none

/-- Refused calls leave no trace in the counts, nor in what a request finds after
the remaining calls, and the segments never fill their array. -/
structure Traceless (b : Bolt D T) (calls : List Call) : Prop where
  segs : Each (fun pre c => Refused b pre c →
    (after b (pre ++ [c])).segs.length = (after b pre).segs.length) calls
  routes : Each (fun pre c => Refused b pre c →
    (after b (pre ++ [c])).routes.length = (after b pre).routes.length) calls
  later : ∀ pre c post, calls = pre ++ c :: post → Refused b pre c → ∀ m path,
    matchRequest b (build b (after b calls)) m path =
      matchRequest b (build b (after b (pre ++ post))) m path
  room : ∀ pre, pre <+: calls → (after b pre).segs.length < kSegs

/-- A call that is refused comes to no segment that it could store. -/
def Early (b : Bolt D T) (pre : List Call) (c : Call) : Prop :=
  Refused b pre c → ∀ v vs, Enters b (after b pre) c.2 (v :: vs) →
    (readSegment b (after b pre).dict v.text vs.isEmpty).2 = none

/-- A pool that refuses a text is left as it was. -/
def RefusesCleanly (b : Bolt D T) : Prop :=
  ∀ d text, (b.dict.intern d text).2 = none → (b.dict.intern d text).1 = d

theorem readSegment_none (hb : RefusesCleanly b) {d seg last}
    (h : (readSegment b d seg last).2 = none) : (readSegment b d seg last).1 = d := by
  have hpool := hb d
  grind [readSegment]

theorem Early.after_eq (hb : RefusesCleanly b) {pre} (h : Early b pre c) (href : Refused b pre c) :
    after b (pre ++ [c]) = after b pre := by
  have hnone := h href
  rw [Refused] at href
  rw [after_snoc]
  rcases addUnbounded_cases b (after b pre) c.1 c.2 with
    ⟨-, heq⟩ | ⟨raw, henter, ⟨hdone, heq⟩ | ⟨_, _, -, heq⟩⟩ <;> rw [heq] at href ⊢
  · cases raw with
    | nil => cases hdone
    | cons v vs =>
      have hnone := hnone v vs henter
      have hsame := readSegment_none hb hnone
      rw [loaded, addLoop]
      cases hr : readSegment b (after b pre).dict v.text vs.isEmpty with
      | mk d out =>
        rw [hr] at hnone hsame
        cases hnone
        cases hsame
        simp
  · cases href

theorem early_of_segs {pre} (h : (after b (pre ++ [c])).segs.length = (after b pre).segs.length) :
    Early b pre c := by
  intro _ v vs henter
  rw [after_snoc] at h
  cases hr : readSegment b (after b pre).dict v.text vs.isEmpty with
  | mk d out =>
    cases out with
    | none => rfl
    | some out =>
      have hpar : ¬ kMaxParams < if out.kind = .param then 0 + 1 else 0 := by split <;> decide
      have hgrow : (after b pre).segs.length < (loaded b (after b pre) (v :: vs)).segs.length := by
        simp [loaded, addLoop, hr, hpar]
      rcases addUnbounded_cases b (after b pre) c.1 c.2 with
        ⟨hno, -⟩ | ⟨raw, henter', ⟨-, heq⟩ | ⟨_, _, -, heq⟩⟩
      · exact absurd henter (hno _)
      all_goals
        cases henter.split.symm.trans henter'.split
        rw [heq] at h
        exact absurd h hgrow.ne'

theorem segs_le (hb : b.Exact) (hpool : RefusesCleanly b) {calls} (h : Each (Early b) calls) :
    (after b calls).segs.length ≤ kMaxSegments * (after b calls).routes.length := by
  refine h.invariant (fun calls => (after b calls).segs.length ≤
    kMaxSegments * (after b calls).routes.length) (Nat.zero_le _) fun pre c hle hearly => ?_
  by_cases href : Refused b pre c
  · rwa [hearly.after_eq hpool href]
  rw [Refused] at href
  rw [after_snoc]
  rcases addUnbounded_cases b (after b pre) c.1 c.2 with
    ⟨-, heq⟩ | ⟨raw, henter, ⟨-, heq⟩ | ⟨isStatic, pc, hdone, heq⟩⟩ <;> rw [heq] at href ⊢
  · exact absurd rfl href
  · exact absurd rfl href
  have hstored := ((addLoop_spec hb.dict raw _ true 0).2 isStatic pc hdone).segs.length_eq
  obtain ⟨hlen, rfl⟩ := henter.views hb.swar
  rw [length_map] at hstored
  simp only [loaded, length_append, hstored, length_singleton, Nat.mul_add, Nat.mul_one]
  omega

/-- **Refusals leave no trace when all of them are early**, and only then. -/
theorem traceless_iff (hb : b.Exact) (hpool : RefusesCleanly b) (calls : List Call) :
    Traceless b calls ↔ Each (Early b) calls := by
  constructor
  · exact fun h pre c post hcalls href =>
      early_of_segs (h.segs pre c post hcalls href) href
  intro h
  have hsame : ∀ pre c post, calls = pre ++ c :: post → Refused b pre c →
      after b (pre ++ [c]) = after b pre :=
    fun pre c post hcalls href => (h pre c post hcalls).after_eq hpool href
  refine ⟨fun pre c post hcalls href => by rw [hsame pre c post hcalls href],
    fun pre c post hcalls href => by rw [hsame pre c post hcalls href], ?_, ?_⟩
  · intro pre c post hcalls href m path
    have heq : after b calls = (register b (after b (pre ++ [c])) post).1 := by
      rw [hcalls, ← singleton_append, ← append_assoc]
      exact register_append b _ _ _
    rw [heq, hsame pre c post hcalls href, after, after, register_append]
  intro pre hpre
  have hle := segs_le hb hpool (h.of_isPrefix hpre)
  have hroutes : (after b pre).routes.length ≤ kMaxRoutes :=
    register_routes_le pre (Nat.zero_le _)
  simp only [kSegs, kMaxSegments, kMaxRoutes] at hle hroutes ⊢
  omega

theorem listBolt_refusesCleanly (fav : Nat) : RefusesCleanly (listBolt fav) := by
  intro d text h
  simp only [listBolt, listDictionary] at h ⊢
  grind

/-- Between two routes that are taken, one without a slash is refused; and behind them one
with a wildcard in front. -/
theorem traceless_unslashed : Traceless (listBolt 0)
    [(.Get, ascii "/a"), (.Get, ascii "b"), (.Post, ascii "/a/:id"), (.Get, ascii "/*/c")] := by
  refine (traceless_iff (listBolt_exact 0) (listBolt_refusesCleanly 0) _).mpr ?_
  have h1 : Each (Early (listBolt 0)) [(.Get, ascii "/a")] :=
    each_nil.snoc fun href => absurd href (by unfold Refused; decide +kernel)
  have h2 : Each (Early (listBolt 0)) [(.Get, ascii "/a"), (.Get, ascii "b")] :=
    h1.snoc fun _ v vs henter => by cases henter.slash
  have h3 : Each (Early (listBolt 0)) [(.Get, ascii "/a"), (.Get, ascii "b"), (.Post, ascii "/a/:id")] :=
    h2.snoc fun href => absurd href (by unfold Refused; decide +kernel)
  refine h3.snoc fun _ v vs henter => ?_
  obtain ⟨-, hraw⟩ := henter.views (listBolt_exact 0).swar
  have hviews : (pathViews (ascii "/*/c")).map SegView.text = [ascii "*", ascii "c"] := by decide +kernel
  obtain ⟨hv, hvs⟩ := List.cons.inj ((congrArg (List.map SegView.text) hraw).symm.trans hviews)
  have hlast : vs.isEmpty = false := by
    cases vs with
    | nil => cases hvs
    | cons => rfl
  rw [hv, hlast]
  decide +kernel

/-- **A refused call leaves a segment**: the wildcard in the middle is refused
after `a` was stored. -/
theorem refused_call_stores : ¬ Traceless (listBolt 0) [(.Get, ascii "/a/*/b")] := fun h =>
  absurd (h.segs [] _ [] rfl (show (_ : Option Nat) = none by decide)) (by decide)

end

end BoltApi.Router.Registration
