import BoltApi.Octets
import BoltApi.Lib.ExactMap
import BoltApi.Lib.Machine

/-! # The router

`src/src/router.cpp`: routes are registered with `add`, `build` turns them into
a static table and a segment trie, and `match` looks a request up in both.

* An index that is `kNoNode` or `kInvalidRoute` in the source is `none` here.
* The counters `route_count`, `seg_count` and `node_count` are the lengths of
  the lists that stand for the arrays they count.
* The pool, the tables, `swiss_mix` and the SWAR byte search come from the bolt
  library, which is not part of the repository: they are the fields of `Bolt`.
* `request_static_hash` asserts that a path has at most 64 KiB, so positions in
  a path are plain numbers. -/
namespace BoltApi.Router.Model
open Octets Lib.ExactMap Lib.Machine

inductive Method
  | Get
  | Head
  | Post
  | Put
  | Delete
  | Patch
  | Options
  | Unknown
  deriving DecidableEq

def Method.val : Method → UInt32
  | .Get => 0
  | .Head => 1
  | .Post => 2
  | .Put => 3
  | .Delete => 4
  | .Patch => 5
  | .Options => 6
  | .Unknown => 7

def kMaxParams : Nat := 16
def kMaxRoutes : Nat := 4096
def kMaxSegments : Nat := 32

/-- The number of elements of `RouterImpl::segs`. -/
def kSegs : Nat := kMaxRoutes * (kMaxSegments + 1)

def SLASH : UInt8 := 0x2F

/-- What the router takes from the bolt library. `swarFind w` is
`bolt_swar_find_byte_u64(w, '/')` on the eight bytes `w`. -/
structure Bolt (D T : Type) where
  dict : Dictionary D Bytes UInt32
  newDict : D
  table : Table T Nat Nat
  swissMix : UInt64 → UInt64
  swarFind : Bytes → Option Nat

/-- The pool and the tables are exact maps, and the SWAR search finds the first
slash among its eight bytes. -/
structure Bolt.Exact {D T : Type} (b : Bolt D T) : Prop where
  dict : b.dict.Exact
  table : b.table.Exact
  swar : ∀ w, w.length = 8 → b.swarFind w = w.findIdx? (· == SLASH)

inductive SegKind
  | literal
  | param
  | wildcard
  deriving DecidableEq

structure Segment where
  kind : SegKind
  litId : UInt32
  name : Bytes

structure Route where
  method : Method
  segCount : Nat
  isStatic : Bool
  firstSeg : Nat
  paramCount : Nat

structure TrieNode where
  paramKid : Option Nat
  wildKid : Option Nat
  routeId : Option Nat
  paramNameIdx : Nat

/-- The part of `RouterImpl` that `build` fills for the trie. -/
structure Trie (T : Type) where
  childTbl : T
  nodePool : List TrieNode

structure RouterImpl (D T : Type) where
  dict : D
  staticTbl : T
  routes : List Route
  segs : List Segment
  trie : Trie T

/-! ## Splitting a path -/

/-- A `string_view` into a path: the bytes it shows, and the path from its first
byte on. -/
structure SegView where
  text : Bytes
  tail : Bytes

def swarSkip (find : Bytes → Option Nat) : Nat → Bytes → Nat
  | 0, _ => 0
  | fuel + 1, p =>
    if p.length < 8 then 0
    else
      match find (p.take 8) with
      | some lane => lane
      | none => 8 + swarSkip find fuel (p.drop 8)

def segEnd (find : Bytes → Option Nat) (p : Bytes) : Nat :=
  let j := swarSkip find p.length p
  j + ((p.drop j).takeWhile (· != SLASH)).length

/-- The loop of `split_path`; `room` is how many more views the output takes. -/
def splitLoop (find : Bytes → Option Nat) : Nat → Nat → Bytes → Option (List SegView)
  | 0, _, _ => some []
  | fuel + 1, room, p =>
    if p = [] then some []
    else
      let j := segEnd find p
      let rest := p.drop (j + 1)
      if 0 < j then
        match room with
        | 0 => none
        | room + 1 => (splitLoop find fuel room rest).map (⟨p.take j, p⟩ :: ·)
      else splitLoop find fuel room rest

/-- `(n > 0 && p[0] == '/') ? 1 : 0`, as the rest of the path. -/
def skipSlash : Bytes → Bytes
  | [] => []
  | c :: p => if c = SLASH then p else c :: p

/-- `split_path`, `none` when there are more than `maxOut` segments. -/
def splitPath (find : Bytes → Option Nat) (path : Bytes) (maxOut : Nat) : Option (List SegView) :=
  splitLoop find path.length maxOut (skipSlash path)

section

variable {D T : Type}

/-! ## Registration -/

variable (b : Bolt D T)

/-- A fresh `RouterImpl`; the trie's tables are created by `build`. -/
def newRouter : RouterImpl D T where
  dict := b.newDict
  staticTbl := b.table.create kMaxRoutes
  routes := []
  segs := []
  trie := ⟨b.table.create 0, []⟩

/-- `seg.size() >= 2 && seg.front() == '{' && seg.back() == '}'`. -/
def isParamText (seg : Bytes) : Bool :=
  2 ≤ seg.length ∧ seg.head? = some 0x7B ∧ seg.getLast? = some 0x7D

def innerText (seg : Bytes) : Bytes := (seg.drop 1).take (seg.length - 2)

/-- The body of the loop of `add` up to the parameter count: the segment to be
stored, `none` for `return kInvalidRoute`. `last` is `k + 1 == nseg`. -/
def readSegment (d : D) (seg : Bytes) (last : Bool) : D × Option Segment :=
  if isParamText seg then
    if innerText seg = [] then (d, none)
    else
      match b.dict.intern d (innerText seg) with
      | (d', none) => (d', none)
      | (d', some code) => (d', some ⟨.param, code, b.dict.resolve d' code⟩)
  else if seg = ascii "*" then
    if last then (d, some ⟨.wildcard, 0, []⟩) else (d, none)
  else
    match b.dict.intern d seg with
    | (d', none) => (d', none)
    | (d', some code) => (d', some ⟨.literal, code, []⟩)

/-- What the loop of `add` leaves: the pool, the segments it stored, and
`is_static` and `param_cnt` unless it returned `kInvalidRoute`. -/
structure AddLoop (D : Type) where
  dict : D
  stored : List Segment
  done : Option (Bool × Nat)

/-- The loop of `add`. Segments stored before a `return kInvalidRoute` stay. -/
def addLoop (b : Bolt D T) : List SegView → D → Bool → Nat → AddLoop D
  | [], d, isStatic, paramCnt => ⟨d, [], some (isStatic, paramCnt)⟩
  | v :: vs, d, isStatic, paramCnt =>
    match readSegment b d v.text vs.isEmpty with
    | (d', none) => ⟨d', [], none⟩
    | (d', some out) =>
      let paramCnt' := if out.kind = .param then paramCnt + 1 else paramCnt
      if kMaxParams < paramCnt' then ⟨d', [], none⟩
      else
        let r := addLoop b vs d' (isStatic && out.kind = .literal) paramCnt'
        { r with stored := out :: r.stored }

variable (s : RouterImpl D T) (m : Method) (path : Bytes)

/-- `Router::add` without the bound of `segs`: the router, and the id of the
route or `none` for `kInvalidRoute`. Every `Method` is below `kMaxMethods`. -/
def addUnbounded : RouterImpl D T × Option Nat :=
  if kMaxRoutes ≤ s.routes.length then (s, none)
  else if path.head? ≠ some SLASH then (s, none)
  else
    match splitPath b.swarFind path kMaxSegments with
    | none => (s, none)
    | some raw =>
      let r := addLoop b raw s.dict true 0
      let s' := { s with dict := r.dict, segs := s.segs ++ r.stored }
      match r.done with
      | none => (s', none)
      | some (isStatic, paramCnt) =>
        ({ s' with routes := s.routes ++ [⟨m, raw.length, isStatic, s.segs.length, paramCnt⟩] },
          some s.routes.length)

/-- `none` when `segs[seg_count++] = out` writes past the array, which has no defined
outcome. -/
def add : Option (RouterImpl D T × Option Nat) :=
  let r := addUnbounded b s m path
  if r.1.segs.length ≤ kSegs then some r else none

/-! ## Building the trie and the static table -/

def freshNode : TrieNode := ⟨none, none, none, 0⟩

variable (t : Trie T)

def allocNode : Trie T × Nat :=
  ({ t with nodePool := t.nodePool ++ [freshNode] }, t.nodePool.length)

def edgeKey (node : Nat) (lit : UInt32) : Nat := node * 2 ^ 32 + lit.toNat

def literalChild (node : Nat) (lit : UInt32) : Trie T × Option Nat :=
  match b.table.find t.childTbl (edgeKey node lit) with
  | some hit => (t, some hit)
  | none =>
    let (t', child) := allocNode t
    let (tbl, ok) := b.table.insert t'.childTbl (edgeKey node lit) child
    ({ t' with childTbl := tbl }, if ok then some child else none)

def nodeAt (n : Nat) : TrieNode := t.nodePool.getD n freshNode

def methodTag : UInt32 := 0xF0000000 ||| m.val

/-- One step of the walk in `build`: the node below `cur` for the segment stored
at `idx`, created when it is not there. -/
def insertSegment (cur idx : Nat) (sg : Segment) : Trie T × Option Nat :=
  match sg.kind with
  | .literal => literalChild b t cur sg.litId
  | .param =>
    match (nodeAt t cur).paramKid with
    | some kid => (t, some kid)
    | none =>
      let kid := t.nodePool.length
      ({ t with nodePool :=
          (t.nodePool.modify cur fun n => { n with paramKid := some kid }) ++
            [{ freshNode with paramNameIdx := idx }] }, some kid)
  | .wildcard =>
    match (nodeAt t cur).wildKid with
    | some kid => (t, some kid)
    | none =>
      let kid := t.nodePool.length
      ({ t with nodePool :=
          (t.nodePool.modify cur fun n => { n with wildKid := some kid }) ++ [freshNode] },
        some kid)

/-- The walk over a route's segments, the first of them stored at `idx`. -/
def insertSegments (b : Bolt D T) : Trie T → Nat → Nat → List Segment → Trie T × Option Nat
  | t, cur, _, [] => (t, some cur)
  | t, cur, idx, sg :: sgs =>
    match insertSegment b t cur idx sg with
    | (t', none) => (t', none)
    | (t', some next) => insertSegments b t' next (idx + 1) sgs

def Route.segments (rt : Route) (segs : List Segment) : List Segment :=
  (segs.drop rt.firstSeg).take rt.segCount

def endRoute (n r : Nat) : Trie T :=
  { t with nodePool := t.nodePool.modify n fun nd =>
      if nd.routeId = none then { nd with routeId := some r } else nd }

/-- The body of the first loop of `build`, for the route `rt` with id `r`. -/
def insertRoute (segs : List Segment) (t : Trie T) (rt : Route) (r : Nat) : Trie T :=
  if rt.isStatic then t
  else
    match literalChild b t 0 (methodTag rt.method) with
    | (t', none) => t'
    | (t', some cur) =>
      match insertSegments b t' cur rt.firstSeg (rt.segments segs) with
      | (t'', none) => t''
      | (t'', some n) => endRoute t'' n r

def insertRoutes (b : Bolt D T) (segs : List Segment) : Trie T → Nat → List Route → Trie T
  | t, _, [] => t
  | t, r, rt :: rts => insertRoutes b segs (insertRoute b segs t rt r) (r + 1) rts

def fnvByte (h : UInt64) (c : UInt8) : UInt64 := (h ^^^ c.toUInt64) * 0x00000100000001B3

def fnvOffset : UInt64 := 0xCBF29CE484222325

def fnvSegment (h : UInt64) (text : Bytes) : UInt64 := text.foldl fnvByte (fnvByte h SLASH)

def staticKey (ph : UInt64) : Nat :=
  (b.swissMix ((ph <<< 3) ^^^ m.val.toUInt64)).toNat

def routeHash (d : D) (segs : List Segment) : UInt64 :=
  let ph := segs.foldl (fun h sg => fnvSegment h (b.dict.resolve d sg.litId)) fnvOffset
  if segs.length = 0 then fnvByte ph SLASH else ph

def insertStatic (b : Bolt D T) (d : D) (segs : List Segment) : T → Nat → List Route → T
  | tbl, _, [] => tbl
  | tbl, r, rt :: rts =>
    let tbl' :=
      if rt.isStatic then
        (b.table.insert tbl (staticKey b rt.method (routeHash b d (rt.segments segs))) r).1
      else tbl
    insertStatic b d segs tbl' (r + 1) rts

def build : RouterImpl D T :=
  let cap := 1 + s.routes.length * (kMaxSegments + 1)
  let root : Trie T := ⟨b.table.create cap, [freshNode]⟩
  { s with
    trie := insertRoutes b s.segs root 0 s.routes
    staticTbl := insertStatic b s.dict s.segs s.staticTbl 0 s.routes }

/-! ## Matching -/

structure RouteParam where
  name : Bytes
  value : Bytes
  deriving DecidableEq

structure MatchResult where
  routeId : Option Nat
  paramCount : Nat
  params : List RouteParam

/-- The pairs a caller reads: `params[0 .. param_count)`. -/
def MatchResult.captured (r : MatchResult) : List RouteParam := r.params.take r.paramCount

def noParams : List RouteParam := List.replicate kMaxParams ⟨[], []⟩

def noMatch : MatchResult := ⟨none, 0, noParams⟩

/-- The loop of `request_static_hash`; `any` says that a segment was seen. -/
def requestHashLoop : Nat → Bytes → UInt64 → Bool → UInt64 × Bool
  | 0, _, ph, any => (ph, any)
  | fuel + 1, p, ph, any =>
    if p = [] then (ph, any)
    else
      let seg := p.takeWhile (· != SLASH)
      let rest := p.drop (seg.length + 1)
      if 0 < seg.length then requestHashLoop fuel rest (fnvSegment ph seg) true
      else requestHashLoop fuel rest ph any

def requestStaticHash : UInt64 :=
  let r := requestHashLoop path.length (skipSlash path) fnvOffset false
  if r.2 then r.1 else fnvByte r.1 SLASH

def staticHit : Option Nat :=
  b.table.find s.staticTbl (staticKey b m (requestStaticHash path))

inductive Choice
  | literal
  | param
  | wildcard
  | exhausted
  deriving DecidableEq

structure Frame where
  node : Nat
  depth : Nat
  pcount : Nat
  choice : Choice

structure Search where
  stack : List Frame
  params : List RouteParam

def literalKid (node : Nat) (seg : Bytes) : Option Nat :=
  (b.dict.find s.dict seg).bind fun lit => b.table.find s.trie.childTbl (edgeKey node lit)

/-- The name a capture at the parameter node `kid` gets. -/
def paramName (kid : Nat) : Bytes :=
  (s.segs.getD (nodeAt s.trie kid).paramNameIdx ⟨.literal, 0, []⟩).name

def takeWildcard (f : Frame) (v : SegView) (params : List RouteParam) : Option MatchResult :=
  (nodeAt s.trie f.node).wildKid.bind fun kid =>
    (nodeAt s.trie kid).routeId.map fun r =>
      if f.pcount < kMaxParams then
        ⟨some r, f.pcount + 1, params.set f.pcount ⟨ascii "*", v.tail⟩⟩
      else ⟨some r, f.pcount, params⟩

def answerOr (st : Search) : Option MatchResult → MatchResult ⊕ Search
  | some r => .inl r
  | none => .inr st

/-- Choices 1 and 2 at the top frame `f` (`choice` not literal any more). -/
def tryParam (f : Frame) (below : List Frame) (v : SegView)
    (params : List RouteParam) : MatchResult ⊕ Search :=
  match f.choice, (nodeAt s.trie f.node).paramKid, decide (f.pcount < kMaxParams) with
  | .param, some kid, true =>
    .inr ⟨⟨kid, f.depth + 1, f.pcount + 1, .literal⟩ :: { f with choice := .wildcard } :: below,
      params.set f.pcount ⟨paramName s kid, v.text⟩⟩
  | .exhausted, _, _ => .inr ⟨below, params⟩
  | _, _, _ => answerOr ⟨below, params⟩ (takeWildcard s f v params)

def searchStep (segs : List SegView) (st : Search) : MatchResult ⊕ Search :=
  match st.stack with
  | [] => .inl ⟨none, 0, st.params⟩
  | f :: below =>
    match segs[f.depth]? with
    | none =>
      match (nodeAt s.trie f.node).routeId with
      | some r => .inl ⟨some r, f.pcount, st.params⟩
      | none => .inr ⟨below, st.params⟩
    | some v =>
      match f.choice, literalKid b s f.node v.text with
      | .literal, some c =>
        .inr ⟨⟨c, f.depth + 1, f.pcount, .literal⟩ :: { f with choice := .param } :: below,
          st.params⟩
      | .literal, none => tryParam s { f with choice := .param } below v st.params
      | _, _ => tryParam s f below v st.params

/-- Rounds that are enough for the search over `n` segments. -/
def searchFuel (n : Nat) : Nat := 4 * 2 ^ n

def searchFrom (segs : List SegView) (mroot : Nat) : MatchResult :=
  match iter (searchStep b s segs) (searchFuel segs.length) ⟨[⟨mroot, 0, 0, .literal⟩], noParams⟩ with
  | .inl r => r
  | .inr _ => noMatch

/-- `Router::match`. -/
def matchRequest : MatchResult :=
  if path = [] then noMatch
  else
    match staticHit b s m path with
    | some hit => ⟨some hit, 0, noParams⟩
    | none =>
      match splitPath b.swarFind path kMaxSegments with
      | none => noMatch
      | some segs =>
        match b.table.find s.trie.childTbl (edgeKey 0 (methodTag m)) with
        | none => noMatch
        | some mroot => searchFrom b s segs mroot

end

/-! ## A library the router can run on -/

/-- Texts and pairs in lists, `swiss_mix` the identity. The pool has the capacity
that `RouterImpl` asks for, and the tables favour the value `fav`. -/
def listBolt (fav : Nat) :
    Bolt {d : List Bytes // d.length ≤ kMaxRoutes * kMaxSegments} (Slots Nat Nat) where
  dict := listDictionary UInt32.ofNat UInt32.toNat (kMaxRoutes * kMaxSegments) []
  newDict := ⟨[], Nat.zero_le _⟩
  table := listTable fav
  swissMix := id
  swarFind w := w.findIdx? (· == SLASH)

theorem listBolt_exact (fav : Nat) : (listBolt fav).Exact where
  dict := listDictionary_exact fun i hi => by
    have : i < UInt32.size := Nat.lt_of_lt_of_le hi (by decide)
    exact UInt32.toNat_ofNat_of_lt' this
  table := listTable_exact fav
  swar _ _ := rfl

end BoltApi.Router.Model
