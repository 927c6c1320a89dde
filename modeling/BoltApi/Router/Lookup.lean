import BoltApi.Router.Search

/-! # What the search finds in a trie

On a trie that spells a set of labels, `explore` finds a label at which a route
ended and whose edges fit the request, and of those the first one when literal
edges come before parameters and these before wildcards. -/
namespace BoltApi.Router.Lookup
open Octets Lib.ExactMap Model Trie List
open Search

variable {D T : Type}

/-- The edges lead through the request's segments. -/
def Fits (b : Bolt D T) (d : D) : Label → List SegView → Prop
  | [], [] => True
  | .lit code :: es, v :: vs => b.dict.find d v.text = some code ∧ Fits b d es vs
  | .param :: es, _ :: vs => Fits b d es vs
  | [.wild], _ :: _ => True
  | _, _ => False

def rank : Edge → Nat
  | .lit _ => 0
  | .param => 1
  | .wild => 2

def LexLe : List Nat → List Nat → Prop
  | [], _ => True
  | _ :: _, [] => False
  | x :: xs, y :: ys => x < y ∨ x = y ∧ LexLe xs ys

theorem LexLe.refl : ∀ xs : List Nat, LexLe xs xs
  | [] => trivial
  | _ :: xs => .inr ⟨rfl, LexLe.refl xs⟩

def isParamEdge (e : Edge) : Bool := e = .param

def nameOf (segs : List Segment) (walks : List (Label × Nat)) (l : Label) : Bytes :=
  (segs.getD ((walks.lookup l).getD 0) ⟨.literal, 0, []⟩).name

def capturesOf (name : Label → Bytes) : Label → Label → List SegView → List RouteParam
  | l, .lit code :: es, _ :: vs => capturesOf name (l ++ [.lit code]) es vs
  | l, .param :: es, v :: vs =>
    ⟨name (l ++ [.param]), v.text⟩ :: capturesOf name (l ++ [.param]) es vs
  | l, .wild :: _, v :: _ =>
    if l.countP isParamEdge < kMaxParams then [⟨ascii "*", v.tail⟩] else []
  | _, _, _ => []

/-- `o` is the best find below `l` among the edge lists in `P`. -/
def Best (b : Bolt D T) (s : RouterImpl D T) (walks ends : List (Label × Nat)) (l : Label)
    (vs : List SegView) (caps : List RouteParam) (P : Label → Prop) :
    Option (Nat × List RouteParam) → Prop
  | none => ∀ es, P es → Fits b s.dict es vs → ends.lookup (l ++ es) = none
  | some (r, caps') => ∃ es, P es ∧ Fits b s.dict es vs ∧ ends.lookup (l ++ es) = some r ∧
      caps' = caps ++ capturesOf (nameOf s.segs walks) l es vs ∧
      ∀ es', P es' → Fits b s.dict es' vs → ends.lookup (l ++ es') ≠ none →
        LexLe (es.map rank) (es'.map rank)

section

variable {b : Bolt D T} {s : RouterImpl D T} {cap : Nat} {labels : List Label}
  {walks ends : List (Label × Nat)} {l : Label} {vs : List SegView} {v : SegView}
  {caps : List RouteParam} {P Q : Label → Prop} {o o' : Option (Nat × List RouteParam)}

theorem Best.or (h : Best b s walks ends l vs caps P o) (h' : Best b s walks ends l vs caps Q o')
    (hPQ : ∀ es es', P es → Q es' → LexLe (es.map rank) (es'.map rank)) :
    Best b s walks ends l vs caps (fun es => P es ∨ Q es) (o.or o') := by
  rcases o with _ | ⟨r, caps₁⟩
  · rcases o' with _ | ⟨r, caps₁⟩
    · rintro es (hp | hq) hfit
      · exact h es hp hfit
      · exact h' es hq hfit
    obtain ⟨es, hq, hfit, hr, hcaps, hmin⟩ := h'
    refine ⟨es, .inr hq, hfit, hr, hcaps, ?_⟩
    rintro es' (hp | hq') hfit' hend
    · exact absurd (h es' hp hfit') hend
    · exact hmin es' hq' hfit' hend
  obtain ⟨es, hp, hfit, hr, hcaps, hmin⟩ := h
  refine ⟨es, .inl hp, hfit, hr, hcaps, ?_⟩
  rintro es' (hp' | hq) hfit' hend
  · exact hmin es' hp' hfit' hend
  · exact hPQ es es' hp hq

theorem Spells.closed_append (sp : Spells b cap s.trie labels walks ends) (es : Label) :
    ∀ l : Label, l ++ es ∈ labels → l ∈ labels := by
  induction es with
  | nil => exact fun l h => by simpa using h
  | cons e es ih =>
    intro l h
    rw [append_cons] at h
    exact sp.closed l e (ih _ h)

theorem Spells.lookup_none (sp : Spells b cap s.trie labels walks ends) {n e}
    (hn : labels[n]? = some l) (hk : kid b s.trie n e = none) (es : Label) :
    ends.lookup (l ++ e :: es) = none := by
  cases hr : ends.lookup (l ++ e :: es) with
  | none => rfl
  | some r =>
    obtain ⟨xs, ys, hends, -⟩ := lookup_eq_some_iff.mp hr
    have hmem := sp.ended (l ++ e :: es) r (by simp [hends])
    rw [append_cons] at hmem
    obtain ⟨c, hc⟩ := mem_iff_getElem?.mp (Spells.closed_append sp es _ hmem)
    rw [(sp.kids n e c).mpr ⟨l, hn, hc⟩] at hk
    cases hk

theorem Best.cons {e more} (h : Best b s walks ends (l ++ [e]) vs (caps ++ more) (fun _ => True) o)
    (hfits : ∀ es, Fits b s.dict (e :: es) (v :: vs) ↔ Fits b s.dict es vs)
    (hcaps : ∀ es, capturesOf (nameOf s.segs walks) l (e :: es) (v :: vs) =
      more ++ capturesOf (nameOf s.segs walks) (l ++ [e]) es vs) :
    Best b s walks ends l (v :: vs) caps (fun es => ∃ es', es = e :: es') o := by
  rcases o with _ | ⟨r, caps₁⟩
  · rintro _ ⟨es, rfl⟩ hfit
    rw [append_cons]
    exact h es trivial ((hfits es).mp hfit)
  obtain ⟨es, -, hfit, hr, rfl, hmin⟩ := h
  refine ⟨e :: es, ⟨es, rfl⟩, (hfits es).mpr hfit, ?_, ?_, ?_⟩
  · rw [append_cons]
    exact hr
  · rw [hcaps, append_assoc]
  · rintro _ ⟨es', rfl⟩ hfit' hend
    rw [append_cons] at hend
    exact .inr ⟨rfl, hmin es' trivial ((hfits es').mp hfit') hend⟩

theorem Best.congr (h : Best b s walks ends l vs caps P o)
    (hPQ : ∀ es, Fits b s.dict es vs → (P es ↔ Q es)) : Best b s walks ends l vs caps Q o := by
  rcases o with _ | ⟨r, caps₁⟩
  · exact fun es hq hfit => h es ((hPQ es hfit).mpr hq) hfit
  · obtain ⟨es, hp, hfit, hr, hcaps, hmin⟩ := h
    exact ⟨es, (hPQ es hfit).mp hp, hfit, hr, hcaps,
      fun es' hq hfit' => hmin es' ((hPQ es' hfit').mpr hq) hfit'⟩

theorem fits_nil {d es} (h : Fits b d es []) : es = [] := by
  cases es with
  | nil => rfl
  | cons e es => cases e <;> exact absurd h (by simp [Fits])

theorem fits_wild {d es} : Fits b d (.wild :: es) (v :: vs) ↔ es = [] := by
  cases es <;> simp [Fits]

section
variable (sp : Spells b cap s.trie labels walks ends)
include sp

theorem explore_literal (v : SegView) {n}
    (hn : labels[n]? = some l)
    (ih : ∀ c e, labels[c]? = some (l ++ [.lit e]) →
      Best b s walks ends (l ++ [.lit e]) vs caps (fun _ => True) (explore b s vs c caps)) :
    Best b s walks ends l (v :: vs) caps (fun es => ∃ code es', es = .lit code :: es')
      ((literalKid b s n v.text).bind fun c => explore b s vs c caps) := by
  rw [literalKid]
  cases hf : b.dict.find s.dict v.text with
  | none =>
    rintro _ ⟨code, es, rfl⟩ hfit
    rw [Fits, hf] at hfit
    cases hfit.1
  | some code =>
    rw [Option.bind_some]
    have honly : ∀ es, Fits b s.dict es (v :: vs) →
        ((∃ es', es = .lit code :: es') ↔ ∃ code' es', es = .lit code' :: es') := by
      refine fun es hfit => ⟨fun ⟨es', he⟩ => ⟨code, es', he⟩, ?_⟩
      rintro ⟨code', es', rfl⟩
      rw [Fits, hf] at hfit
      cases hfit.1
      exact ⟨es', rfl⟩
    refine Best.congr ?_ honly
    cases hc : b.table.find s.trie.childTbl (edgeKey n code) with
    | none =>
      rintro _ ⟨es, rfl⟩ -
      exact Spells.lookup_none sp (e := .lit code) hn hc es
    | some c =>
      rw [Option.bind_some]
      obtain ⟨l', hl', hlc⟩ := (sp.kids n (.lit code) c).mp hc
      obtain rfl : l = l' := Option.some.inj (hn.symm.trans hl')
      have hrec : Best b s walks ends (l ++ [.lit code]) vs (caps ++ []) (fun _ => True)
          (explore b s vs c caps) := by
        rw [append_nil]
        exact ih c code hlc
      exact hrec.cons (v := v) (fun es => by simp [Fits, hf]) (fun es => rfl)

theorem explore_param (v : SegView)
    (hpc : ∀ l ∈ labels, l.countP isParamEdge ≤ kMaxParams) {n} (hn : labels[n]? = some l)
    (hcaps : caps.length = l.countP isParamEdge)
    (ih : ∀ c x, labels[c]? = some (l ++ [.param]) →
      Best b s walks ends (l ++ [.param]) vs (caps ++ [x]) (fun _ => True) (explore b s vs c (caps ++ [x]))) :
    Best b s walks ends l (v :: vs) caps (fun es => ∃ es', es = .param :: es')
      ((nodeAt s.trie n).paramKid.bind fun k =>
        if caps.length < kMaxParams then explore b s vs k (caps ++ [⟨paramName s k, v.text⟩])
        else none) := by
  cases hk : (nodeAt s.trie n).paramKid with
  | none =>
    rintro _ ⟨es, rfl⟩ -
    exact Spells.lookup_none sp (e := .param) hn hk es
  | some k =>
    obtain ⟨l', hl', hlk⟩ := (sp.kids n .param k).mp hk
    obtain rfl : l = l' := Option.some.inj (hn.symm.trans hl')
    -- a node behind a parameter is on the way of a route, and no route has too many
    have hlt : caps.length < kMaxParams := by
      have := hpc _ (mem_of_getElem? hlk)
      rw [countP_append, ← hcaps] at this
      exact this
    have hname : paramName s k = nameOf s.segs walks (l ++ [.param]) := by
      rw [paramName, nameOf, sp.name k l hlk, Option.getD_some]
    rw [Option.bind_some, if_pos hlt, hname]
    exact (ih k _ hlk).cons (fun es => Iff.rfl) (fun es => rfl)

theorem explore_wild (v : SegView) (vs : List SegView)
    {n} (hn : labels[n]? = some l) (hcaps : caps.length = l.countP isParamEdge) :
    Best b s walks ends l (v :: vs) caps (fun es => ∃ es', es = .wild :: es')
      (exploreWild s v n caps) := by
  rw [exploreWild]
  cases hk : (nodeAt s.trie n).wildKid with
  | none =>
    rintro _ ⟨es, rfl⟩ -
    exact Spells.lookup_none sp (e := .wild) hn hk es
  | some k =>
    obtain ⟨l', hl', hlk⟩ := (sp.kids n .wild k).mp hk
    obtain rfl : l = l' := Option.some.inj (hn.symm.trans hl')
    rw [Option.bind_some, sp.route k _ hlk]
    cases hr : ends.lookup (l ++ [.wild]) with
    | none =>
      rintro _ ⟨es, rfl⟩ hfit
      rw [fits_wild.mp hfit]
      exact hr
    | some r =>
      refine ⟨[.wild], ⟨[], rfl⟩, trivial, hr, ?_, ?_⟩
      · rw [capturesOf, hcaps]
        split <;> simp
      · rintro _ ⟨es, rfl⟩ hfit -
        rw [fits_wild.mp hfit]
        exact LexLe.refl _

/-- **What the search finds**: nothing when no label that fits has a route, and
otherwise the first of them with its captures. By induction on the segments. -/
theorem explore_best
    (hpc : ∀ l ∈ labels, l.countP isParamEdge ≤ kMaxParams) (vs : List SegView) :
    ∀ (n : Nat) (l : Label) (caps : List RouteParam), labels[n]? = some l →
      caps.length = l.countP isParamEdge →
      Best b s walks ends l vs caps (fun _ => True) (explore b s vs n caps) := by
  induction vs with
  | nil =>
    intro n l caps hn _
    rw [explore, sp.route n l hn]
    cases hr : ends.lookup l with
    | none =>
      intro es _ hfit
      rw [fits_nil hfit, append_nil]
      exact hr
    | some r =>
      refine ⟨[], trivial, trivial, by rw [append_nil]; exact hr, ?_, fun _ _ _ _ => trivial⟩
      simp [capturesOf]
  | cons v vs ih =>
    intro n l caps hn hcaps
    have hlit := explore_literal sp v hn fun c e hc =>
      ih c _ caps hc (by simp [hcaps, isParamEdge])
    have hpar := explore_param sp v hpc hn hcaps fun c x hc =>
      ih c _ (caps ++ [x]) hc (by simp [hcaps, isParamEdge])
    have hwild := explore_wild sp v vs hn hcaps
    rw [explore]
    refine ((hlit.or (hpar.or hwild ?_) ?_)).congr ?_
    · rintro _ _ ⟨es, rfl⟩ ⟨es', rfl⟩
      exact .inl (by decide)
    · rintro _ _ ⟨code, es, rfl⟩ (⟨es', rfl⟩ | ⟨es', rfl⟩)
      · exact .inl (by simp [rank])
      · exact .inl (by simp [rank])
    intro es hfit
    cases es with
    | nil => simp [Fits] at hfit
    | cons e es => cases e <;> simp

end

end

end BoltApi.Router.Lookup
