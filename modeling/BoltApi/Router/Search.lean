import BoltApi.Router.Trie

/-! # The search loop

`match` walks the trie with a stack of frames that keep their next choice and
share one array of capture slots. `explore` is the same search as a recursion
that carries its captures along. The loop returns what `explore` returns, in
fewer rounds than `searchFuel`, and its stack never has more frames than the
source reserves. -/
namespace BoltApi.Router.Search
open Octets Lib.ExactMap Lib.Machine Model List

variable {D T : Type}

/-- The route a wildcard below node `n` gives, and the captures with it. -/
def exploreWild (s : RouterImpl D T) (v : SegView) (n : Nat) (caps : List RouteParam) :
    Option (Nat × List RouteParam) :=
  (nodeAt s.trie n).wildKid.bind fun k => (nodeAt s.trie k).routeId.map fun r =>
    (r, if caps.length < kMaxParams then caps ++ [⟨ascii "*", v.tail⟩] else caps)

/-- Depth-first search from node `n`: a literal edge first, then the parameter,
then the wildcard. -/
def explore (b : Bolt D T) (s : RouterImpl D T) :
    List SegView → Nat → List RouteParam → Option (Nat × List RouteParam)
  | [], n, caps => (nodeAt s.trie n).routeId.map fun r => (r, caps)
  | v :: vs, n, caps =>
    ((literalKid b s n v.text).bind fun c => explore b s vs c caps).or
      (((nodeAt s.trie n).paramKid.bind fun k =>
          if caps.length < kMaxParams then
            explore b s vs k (caps ++ [⟨paramName s k, v.text⟩])
          else none).or
        (exploreWild s v n caps))

def Holds (params caps : List RouteParam) : Prop := params.length = kMaxParams ∧ caps <+: params

theorem Holds.take {params caps} (h : Holds params caps) :
    params.take caps.length = caps := (prefix_iff_eq_take.mp h.2).symm

theorem Holds.of_shorter {params caps caps'} (h : Holds params caps') (hpre : caps <+: caps') :
    Holds params caps := ⟨h.1, hpre.trans h.2⟩

theorem Holds.set {caps : List RouteParam} {params} (h : Holds params caps) (hlt : caps.length < kMaxParams)
    (x : RouteParam) : Holds (params.set caps.length x) (caps ++ [x]) := by
  refine ⟨by rw [length_set]; exact h.1, ?_⟩
  obtain ⟨rest, rfl⟩ := h.2
  cases rest with
  | nil =>
    have := h.1
    rw [append_nil] at this
    omega
  | cons y rest =>
    rw [set_append_right _ _ (Nat.le_refl _), Nat.sub_self, set_cons_zero]
    exact ⟨rest, by simp⟩

theorem holds_noParams : Holds noParams [] := ⟨length_replicate .., nil_prefix⟩

/-- From `st` the loop comes to an end within `n` rounds as `o` says: with the
answer, or back at the frames below with the captures of `caps` untouched. -/
def Ends (b : Bolt D T) (s : RouterImpl D T) (segs : List SegView) (below : List Frame)
    (caps : List RouteParam) (n : Nat) (st : Search) :
    Option (Nat × List RouteParam) → Prop
  | some (r, caps') => ∃ k res, k ≤ n ∧ iter (searchStep b s segs) k st = .inl res ∧
      res.routeId = some r ∧ res.captured = caps'
  | none => ∃ k params, k ≤ n ∧ iter (searchStep b s segs) k st = .inr ⟨below, params⟩ ∧
      Holds params caps

section Loop

variable {b : Bolt D T} {s : RouterImpl D T} {segs : List SegView} {below : List Frame}
  {caps : List RouteParam} {st st' : Search} {o o' : Option (Nat × List RouteParam)} {m n : Nat}

theorem Ends.step (hstep : searchStep b s segs st = .inr st')
    (h : Ends b s segs below caps n st' o) : Ends b s segs below caps (n + 1) st o := by
  rcases o with _ | ⟨r, caps'⟩
  · obtain ⟨k, params, hk, hp, hh⟩ := h
    exact ⟨k + 1, params, Nat.succ_le_succ hk, (iter_succ_inr hstep).trans hp, hh⟩
  · obtain ⟨k, res, hk, hr, hres⟩ := h
    exact ⟨k + 1, res, Nat.succ_le_succ hk, (iter_succ_inr hstep).trans hr, hres⟩

theorem Ends.mono (h : Ends b s segs below caps m st o) (hmn : m ≤ n) :
    Ends b s segs below caps n st o := by
  rcases o with _ | ⟨r, caps'⟩
  · obtain ⟨k, params, hk, hp⟩ := h
    exact ⟨k, params, hk.trans hmn, hp⟩
  · obtain ⟨k, res, hk, hr⟩ := h
    exact ⟨k, res, hk.trans hmn, hr⟩

variable {f : Frame}

theorem Ends.or {caps₁} (h : Ends b s segs (f :: below) caps₁ m st o) (hpre : caps <+: caps₁)
    (h' : ∀ params, Holds params caps → Ends b s segs below caps n ⟨f :: below, params⟩ o') :
    Ends b s segs below caps (m + n) st (o.or o') := by
  rcases o with _ | ⟨r, caps'⟩
  · obtain ⟨k, params, hk, hp, hh⟩ := h
    rcases o' with _ | ⟨r, caps'⟩
    · obtain ⟨k', params', hk', hp', hh'⟩ := h' params (hh.of_shorter hpre)
      exact ⟨k + k', params', Nat.add_le_add hk hk', (iter_add hp).trans hp', hh'⟩
    · obtain ⟨k', res, hk', hr, hres⟩ := h' params (hh.of_shorter hpre)
      exact ⟨k + k', res, Nat.add_le_add hk hk', (iter_add hp).trans hr, hres⟩
  · obtain ⟨k, res, hk, hr, hres⟩ := h
    exact ⟨k, res, hk.trans (Nat.le_add_right m n), hr, hres⟩

variable {params : List RouteParam}

theorem ends_leaf {n depth} (hd : segs[depth]? = none) (hh : Holds params caps) :
    Ends b s segs below caps 1 ⟨⟨n, depth, caps.length, .literal⟩ :: below, params⟩
      ((nodeAt s.trie n).routeId.map fun r => (r, caps)) := by
  cases hr : (nodeAt s.trie n).routeId with
  | some r =>
    refine ⟨1, ⟨some r, caps.length, params⟩, Nat.le_refl 1, iter_succ_inl ?_, rfl, hh.take⟩
    simp only [searchStep, hd, hr]
  | none =>
    refine ⟨1, params, Nat.le_refl 1, iter_succ_inr ?_, hh⟩
    simp only [searchStep, hd, hr]

variable {v : SegView}

theorem ends_wildcard (hf : f.pcount = caps.length) (hh : Holds params caps)
    (hstep : searchStep b s segs st = answerOr ⟨below, params⟩ (takeWildcard s f v params)) :
    Ends b s segs below caps 1 st (exploreWild s v f.node caps) := by
  cases hw : (nodeAt s.trie f.node).wildKid with
  | none =>
    simp only [takeWildcard, exploreWild, hw, Option.bind_none, answerOr] at hstep ⊢
    exact ⟨1, params, Nat.le_refl 1, iter_succ_inr hstep, hh⟩
  | some kid =>
    cases hr : (nodeAt s.trie kid).routeId with
    | none =>
      simp only [takeWildcard, exploreWild, hw, hr, Option.bind_some, Option.map_none, answerOr]
        at hstep ⊢
      exact ⟨1, params, Nat.le_refl 1, iter_succ_inr hstep, hh⟩
    | some r =>
      simp only [takeWildcard, exploreWild, hw, hr, hf, Option.bind_some, Option.map_some, answerOr]
        at hstep ⊢
      refine ⟨1, _, Nat.le_refl 1, iter_succ_inl hstep, ?_, ?_⟩
      · split <;> rfl
      by_cases hlt : caps.length < kMaxParams
      · rw [if_pos hlt, if_pos hlt]
        simpa [MatchResult.captured] using (hh.set hlt ⟨ascii "*", v.tail⟩).take
      · rw [if_neg hlt, if_neg hlt]
        exact hh.take

theorem ends_param (node : Nat) {depth vs} (hd : segs[depth]? = some v) (hh : Holds params caps)
    (hstep : searchStep b s segs st = tryParam s ⟨node, depth, caps.length, .param⟩ below v params)
    (ih : ∀ (kid : Nat) (caps' params' : List RouteParam) (fs : List Frame), Holds params' caps' →
      Ends b s segs fs caps' n ⟨⟨kid, depth + 1, caps'.length, .literal⟩ :: fs, params'⟩
        (explore b s vs kid caps')) :
    Ends b s segs below caps (n + 2) st
      (((nodeAt s.trie node).paramKid.bind fun k =>
          if caps.length < kMaxParams then explore b s vs k (caps ++ [⟨paramName s k, v.text⟩])
          else none).or (exploreWild s v node caps)) := by
  have hlast : ∀ params', Holds params' caps →
      Ends b s segs below caps 1 ⟨⟨node, depth, caps.length, .wildcard⟩ :: below, params'⟩
        (exploreWild s v node caps) := by
    intro params' hh'
    refine ends_wildcard (f := ⟨node, depth, caps.length, .wildcard⟩) rfl hh' ?_
    simp only [searchStep, hd, tryParam]
  cases hk : (nodeAt s.trie node).paramKid with
  | none =>
    rw [Option.bind_none, Option.none_or]
    refine (ends_wildcard (f := ⟨node, depth, caps.length, .param⟩) rfl hh ?_).mono (by omega)
    rw [hstep]
    simp only [tryParam, hk]
  | some kid =>
    rw [Option.bind_some]
    by_cases hlt : caps.length < kMaxParams
    · rw [if_pos hlt]
      have hpush : searchStep b s segs st = .inr
          ⟨⟨kid, depth + 1, (caps ++ [(⟨paramName s kid, v.text⟩ : RouteParam)]).length, .literal⟩ ::
            ⟨node, depth, caps.length, .wildcard⟩ :: below,
          params.set caps.length ⟨paramName s kid, v.text⟩⟩ := by
        rw [hstep]
        simp [tryParam, hk, hlt]
      have hchild := ih kid _ _ (⟨node, depth, caps.length, .wildcard⟩ :: below)
        (hh.set hlt ⟨paramName s kid, v.text⟩)
      exact (hchild.or (prefix_append _ _) hlast).step hpush
    rw [if_neg hlt, Option.none_or]
    refine (ends_wildcard (f := ⟨node, depth, caps.length, .param⟩) rfl hh ?_).mono (by omega)
    rw [hstep]
    simp only [tryParam, hk, hlt, decide_false]

/-- **The loop is `explore`**: by induction on the segments that are left. -/
theorem ends_explore (vs : List SegView) :
    ∀ (node : Nat) (caps params : List RouteParam) (fs : List Frame) (depth : Nat),
      segs.drop depth = vs → Holds params caps →
      Ends b s segs fs caps (searchFuel vs.length - 3)
        ⟨⟨node, depth, caps.length, .literal⟩ :: fs, params⟩ (explore b s vs node caps) := by
  induction vs with
  | nil =>
    intro node caps params fs depth hdrop hh
    exact ends_leaf (List.getElem?_eq_none (drop_eq_nil_iff.mp hdrop)) hh
  | cons v vs ih =>
    intro node caps params fs depth hdrop hh
    have hd : segs[depth]? = some v := by
      have := congrArg List.head? hdrop
      simpa [List.head?_drop] using this
    have hdrop' : segs.drop (depth + 1) = vs := by
      rw [← tail_drop, hdrop, tail_cons]
    have hfuel : 3 ≤ searchFuel vs.length := by
      have := Nat.one_le_two_pow (n := vs.length)
      simp only [searchFuel]
      omega
    have hfuel' : searchFuel (v :: vs).length = 2 * searchFuel vs.length := by
      simp only [searchFuel, length_cons, Nat.pow_succ]
      omega
    have ih' := fun kid caps' params' fs' => ih kid caps' params' fs' (depth + 1) hdrop'
    rw [explore]
    cases hlit : literalKid b s node v.text with
    | none =>
      rw [Option.bind_none, Option.none_or]
      refine (ends_param node hd hh ?_ ih').mono (by omega)
      simp only [searchStep, hd, hlit]
    | some c =>
      have hpush : searchStep b s segs ⟨⟨node, depth, caps.length, .literal⟩ :: fs, params⟩ = .inr
          ⟨⟨c, depth + 1, caps.length, .literal⟩ :: ⟨node, depth, caps.length, .param⟩ :: fs,
            params⟩ := by
        simp only [searchStep, hd, hlit]
      have hchild := ih' c caps params (⟨node, depth, caps.length, .param⟩ :: fs) hh
      have hrest : ∀ params', Holds params' caps →
          Ends b s segs fs caps (searchFuel vs.length - 3 + 2)
            ⟨⟨node, depth, caps.length, .param⟩ :: fs, params'⟩ _ :=
        fun params' hh' => ends_param node hd hh' (by simp only [searchStep, hd]) ih'
      exact ((hchild.or (prefix_refl _) hrest).step hpush).mono (by omega)

/-- **What the search returns**: the route and the captures of `explore`, or no
route when `explore` finds none. The fuel never runs out. -/
theorem searchFrom_eq (b : Bolt D T) (s : RouterImpl D T) (segs : List SegView) (mroot : Nat) :
    match explore b s segs mroot [] with
    | some (r, caps) => (searchFrom b s segs mroot).routeId = some r ∧
        (searchFrom b s segs mroot).captured = caps
    | none => (searchFrom b s segs mroot).routeId = none := by
  have hends := ends_explore (b := b) (s := s) segs mroot [] noParams [] 0 rfl holds_noParams
  rw [length_nil] at hends
  cases hx : explore b s segs mroot [] with
  | some rc =>
    rw [hx] at hends
    obtain ⟨k, res, hk, hres, hr, hcap⟩ := hends
    have hrun : searchFrom b s segs mroot = res := by
      rw [searchFrom, iter_mono hres (hk.trans (Nat.sub_le _ _))]
    simp only [hrun]
    exact ⟨hr, hcap⟩
  | none =>
    rw [hx] at hends
    obtain ⟨k, params, hk, hback, -⟩ := hends
    have hstop : iter (searchStep b s segs) (k + 1) ⟨[⟨mroot, 0, 0, .literal⟩], noParams⟩ =
        .inl ⟨none, 0, params⟩ := (iter_add hback).trans (iter_succ_inl rfl)
    have hfuel : k + 1 ≤ searchFuel segs.length := by
      have := Nat.one_le_two_pow (n := segs.length)
      simp only [searchFuel] at hk ⊢
      omega
    have hrun : searchFrom b s segs mroot = ⟨none, 0, params⟩ := by
      rw [searchFrom, iter_mono hstop hfuel]
    rw [hrun]

/-! ## The stack -/

/-- Frame `i` from the bottom of the stack looks at segment `i`. -/
def Stacked (n : Nat) : List Frame → Prop
  | [] => True
  | f :: fs => f.depth = fs.length ∧ f.depth ≤ n ∧ Stacked n fs

theorem Stacked.length_le {n} : ∀ {fs : List Frame}, Stacked n fs → fs.length ≤ n + 1
  | [], _ => Nat.zero_le _
  | f :: fs, h => by
    rw [length_cons, ← h.1]
    exact Nat.succ_le_succ h.2.1

theorem tryParam_stacked {st} (hd : segs[f.depth]? = some v) (hf : Stacked segs.length (f :: below))
    (h : tryParam s f below v params = .inr st) : Stacked segs.length st.stack := by
  have hlt : f.depth < segs.length := (List.getElem?_eq_some_iff.mp hd).1
  rw [tryParam] at h
  split at h
  · cases h
    exact ⟨by simp [hf.1], hlt, hf.1, hf.2.1, hf.2.2⟩
  · cases h
    exact hf.2.2
  cases hw : takeWildcard s f v params with
  | some r => rw [hw] at h; cases h
  | none =>
    rw [hw] at h
    cases h
    exact hf.2.2

theorem searchStep_stacked {st st'} (h : Stacked segs.length st.stack)
    (hstep : searchStep b s segs st = .inr st') : Stacked segs.length st'.stack := by
  obtain ⟨stack, params⟩ := st
  cases stack with
  | nil => cases hstep
  | cons f below =>
    simp only [searchStep] at hstep
    cases hd : segs[f.depth]? with
    | none =>
      simp only [hd] at hstep
      cases hr : (nodeAt s.trie f.node).routeId with
      | some r => simp only [hr] at hstep; cases hstep
      | none =>
        simp only [hr] at hstep
        cases hstep
        exact h.2.2
    | some v =>
      have hlt : f.depth < segs.length := (List.getElem?_eq_some_iff.mp hd).1
      simp only [hd] at hstep
      split at hstep
      · cases hstep
        exact ⟨by simp [h.1], hlt, h.1, h.2.1, h.2.2⟩
      · exact tryParam_stacked (f := { f with choice := .param }) hd h hstep
      · exact tryParam_stacked hd h hstep

/-- **The stack never overflows**: whatever number of rounds the loop has made,
there are at most `kMaxSegments + 1` frames. -/
theorem stack_bounded (hsegs : segs.length ≤ kMaxSegments) {mroot k st}
    (h : iter (searchStep b s segs) k ⟨[⟨mroot, 0, 0, .literal⟩], noParams⟩ = .inr st) :
    st.stack.length ≤ kMaxSegments + 1 := by
  have hstart : Stacked segs.length [⟨mroot, 0, 0, .literal⟩] := ⟨rfl, Nat.zero_le _, trivial⟩
  have hinv := iter_invariant (I := fun st : Search => Stacked segs.length st.stack)
    (fun _ _ => searchStep_stacked) hstart h
  exact hinv.length_le.trans (Nat.succ_le_succ hsegs)

end Loop

end BoltApi.Router.Search
