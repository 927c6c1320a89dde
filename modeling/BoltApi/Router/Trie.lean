import BoltApi.Router.Paths
import Mathlib.Data.List.Nodup

/-! # The trie that `build` makes

Every node of the trie stands for one label, the edges on the way to it from
the root. `Spells` says which labels there are and what is stored at them, in
terms of the walks that made the trie: the labels that were walked, in order,
each with the index of its segment, and the labels at which a route ended. One
step of a walk keeps it, so the trie `build` returns spells the routes. -/
namespace BoltApi.Router.Trie
open Octets Lib.ExactMap Model List

inductive Edge
  | lit (code : UInt32)
  | param
  | wild
  deriving DecidableEq

abbrev Label := List Edge

def segEdge (sg : Segment) : Edge :=
  match sg.kind with
  | .literal => .lit sg.litId
  | .param => .param
  | .wildcard => .wild

variable {D T : Type}

def kid (b : Bolt D T) (t : Trie T) (n : Nat) : Edge → Option Nat
  | .lit code => b.table.find t.childTbl (edgeKey n code)
  | .param => (nodeAt t n).paramKid
  | .wild => (nodeAt t n).wildKid

/-- The trie holds exactly the labels in `labels`, node by node. `walks` are the
labels walked so far with the index of the segment behind the last edge, and
`ends` the labels at which a route ended. A node's name index and route are
those of the first walk and the first end there. -/
structure Spells (b : Bolt D T) (cap : Nat) (t : Trie T) (labels : List Label)
    (walks ends : List (Label × Nat)) : Prop where
  len : t.nodePool.length = labels.length
  root : labels[0]? = some []
  nodup : labels.Nodup
  closed : ∀ l e, l ++ [e] ∈ labels → l ∈ labels
  kids : ∀ n e c, kid b t n e = some c ↔ ∃ l, labels[n]? = some l ∧ labels[c]? = some (l ++ [e])
  walked : ∀ l, l ∈ labels ↔ l = [] ∨ ∃ i, (l, i) ∈ walks
  ended : ∀ l r, (l, r) ∈ ends → l ∈ labels
  name : ∀ n l, labels[n]? = some (l ++ [.param]) →
    walks.lookup (l ++ [.param]) = some (nodeAt t n).paramNameIdx
  route : ∀ n l, labels[n]? = some l → (nodeAt t n).routeId = ends.lookup l
  room : cap < t.nodePool.length + b.table.room t.childTbl
  size : t.nodePool.length ≤ 1 + walks.length

theorem edgeKey_inj {n n' k k'} (h : edgeKey n k = edgeKey n' k') : n = n' ∧ k = k' := by
  have hk := k.toNat_lt
  have hk' := k'.toNat_lt
  simp only [edgeKey] at h
  have hn : n = n' := by omega
  subst hn
  exact ⟨rfl, UInt32.toNat_inj.mp (by omega)⟩

theorem lookup_append_of_mem {l : Label} {i : Nat} {xs ys : List (Label × Nat)}
    (h : (l, i) ∈ xs) : (xs ++ ys).lookup l = xs.lookup l := by
  rw [lookup_append]
  cases hx : xs.lookup l with
  | some j => rfl
  | none => simpa using lookup_eq_none_iff.mp hx _ h

theorem lookup_append_ne {l l' : Label} {i : Nat} {xs : List (Label × Nat)} (h : l ≠ l') :
    (xs ++ [(l', i)]).lookup l = xs.lookup l := by
  rw [lookup_append, lookup_cons, beq_eq_false_iff_ne.mpr h]
  simp

theorem lookup_append_new {l : Label} {i : Nat} {xs : List (Label × Nat)}
    (h : ∀ j, (l, j) ∉ xs) : (xs ++ [(l, i)]).lookup l = some i := by
  have hnone : xs.lookup l = none := by
    refine lookup_eq_none_iff.mpr fun p hp => bne_iff_ne.mpr fun hl => h p.2 ?_
    rw [hl]
    exact hp
  simp [lookup_append, hnone]

theorem getElem?_inj {labels : List Label} (hnd : labels.Nodup) {m n : Nat} {l : Label}
    (hm : labels[m]? = some l) (hn : labels[n]? = some l) : m = n := by
  obtain ⟨hm', hml⟩ := List.getElem?_eq_some_iff.mp hm
  obtain ⟨hn', hnl⟩ := List.getElem?_eq_some_iff.mp hn
  exact (List.Nodup.getElem_inj_iff hnd).mp (hml.trans hnl.symm)

section Step

variable {b : Bolt D T} {cap : Nat} {t t' : Trie T} {labels : List Label}
  {walks ends : List (Label × Nat)} {n c i : Nat} {l : Label} {e : Edge}

theorem Spells.again (h : Spells b cap t labels walks ends) (hn : labels[n]? = some l)
    (hc : kid b t n e = some c) :
    Spells b cap t labels (walks ++ [(l ++ [e], i)]) ends ∧ labels[c]? = some (l ++ [e]) := by
  obtain ⟨l', hl', hlc⟩ := (h.kids n e c).mp hc
  obtain rfl : l = l' := Option.some.inj (hn.symm.trans hl')
  have hmem : l ++ [e] ∈ labels := mem_of_getElem? hlc
  have hwalk : ∃ j, (l ++ [e], j) ∈ walks := ((h.walked _).mp hmem).resolve_left (by simp)
  refine ⟨{ h with walked := ?_, name := ?_, size := ?_ }, hlc⟩
  · intro l₁
    rw [h.walked l₁]
    constructor
    · rintro (hnil | ⟨j, hj⟩)
      · exact .inl hnil
      · exact .inr ⟨j, mem_append_left _ hj⟩
    rintro (hnil | ⟨j, hj⟩)
    · exact .inl hnil
    rcases mem_append.mp hj with hj | hj
    · exact .inr ⟨j, hj⟩
    · cases mem_singleton.mp hj
      exact .inr hwalk
  · intro n₁ l₁ hn₁
    obtain ⟨j, hj⟩ := ((h.walked _).mp (mem_of_getElem? hn₁)).resolve_left (by simp)
    rw [lookup_append_of_mem hj]
    exact h.name n₁ l₁ hn₁
  · rw [length_append]
    have := h.size
    omega

structure Grows (b : Bolt D T) (t t' : Trie T) (n : Nat) (e : Edge) (i : Nat) : Prop where
  len : t'.nodePool.length = t.nodePool.length + 1
  kid : ∀ n' e', kid b t' n' e' =
    if n' = n ∧ e' = e then some t.nodePool.length else kid b t n' e'
  old : ∀ n', n' < t.nodePool.length → (nodeAt t' n').routeId = (nodeAt t n').routeId ∧
    (nodeAt t' n').paramNameIdx = (nodeAt t n').paramNameIdx
  new_route : (nodeAt t' t.nodePool.length).routeId = none
  new_name : e = .param → (nodeAt t' t.nodePool.length).paramNameIdx = i
  room : b.table.room t.childTbl ≤ b.table.room t'.childTbl + 1

theorem Spells.grow (h : Spells b cap t labels walks ends) (hn : labels[n]? = some l)
    (hnew : kid b t n e = none) (hg : Grows b t t' n e i) :
    Spells b cap t' (labels ++ [l ++ [e]]) (walks ++ [(l ++ [e], i)]) ends := by
  have hfresh : l ++ [e] ∉ labels := by
    intro hmem
    obtain ⟨c, hc⟩ := mem_iff_getElem?.mp hmem
    rw [(h.kids n e c).mpr ⟨l, hn, hc⟩] at hnew
    cases hnew
  have hwalk : ∀ j, (l ++ [e], j) ∉ walks := fun j hj => hfresh ((h.walked _).mpr (.inr ⟨j, hj⟩))
  have hlt : ∀ {k : Nat} {l₁ : Label}, labels[k]? = some l₁ → k < labels.length :=
    fun hk => (List.getElem?_eq_some_iff.mp hk).1
  have hold : ∀ {k : Nat} {l₁ : Label}, labels[k]? = some l₁ →
      (labels ++ [l ++ [e]])[k]? = some l₁ := fun hk => by
    rw [List.getElem?_append_left (hlt hk)]
    exact hk
  have hat : (labels ++ [l ++ [e]])[labels.length]? = some (l ++ [e]) := by simp
  -- a label of the new trie is an old one or the new one
  have hsplit : ∀ {k : Nat} {l₁ : Label}, (labels ++ [l ++ [e]])[k]? = some l₁ →
      labels[k]? = some l₁ ∨ k = labels.length ∧ l₁ = l ++ [e] := by
    intro k l₁ hk
    rw [List.getElem?_append] at hk
    split at hk
    case isTrue => exact .inl hk
    case isFalse hge =>
      have hk0 : k - labels.length = 0 := by
        simpa using (List.getElem?_eq_some_iff.mp hk).1
      rw [hk0] at hk
      cases hk
      exact .inr ⟨by omega, rfl⟩
  constructor
  case len => rw [hg.len, h.len, length_append]; rfl
  case root => exact hold h.root
  case nodup =>
    refine nodup_append.mpr ⟨h.nodup, nodup_singleton _, ?_⟩
    rintro l₁ hl₁ l₂ hl₂ rfl
    rw [mem_singleton.mp hl₂] at hl₁
    exact hfresh hl₁
  case closed =>
    intro l₁ e₁ hmem
    rcases mem_append.mp hmem with hmem | hmem
    · exact mem_append_left _ (h.closed l₁ e₁ hmem)
    · obtain ⟨rfl, -⟩ := append_inj' (mem_singleton.mp hmem) rfl
      exact mem_append_left _ (mem_of_getElem? hn)
  case kids =>
    intro n₁ e₁ c₁
    rw [hg.kid, h.len]
    split
    case isTrue hne =>
      obtain ⟨rfl, rfl⟩ := hne
      constructor
      · intro hc
        cases hc
        exact ⟨l, hold hn, hat⟩
      rintro ⟨l₁, hl₁, hc₁⟩
      obtain rfl : l₁ = l := Option.some.inj (hl₁.symm.trans (hold hn))
      rcases hsplit hc₁ with hc₁ | ⟨rfl, -⟩
      · exact absurd (mem_of_getElem? hc₁) hfresh
      · rfl
    case isFalse hne =>
      rw [h.kids]
      constructor
      · rintro ⟨l₁, hl₁, hc₁⟩
        exact ⟨l₁, hold hl₁, hold hc₁⟩
      rintro ⟨l₁, hl₁, hc₁⟩
      rcases hsplit hl₁ with hn₁ | ⟨rfl, rfl⟩
      · rcases hsplit hc₁ with hc₁ | ⟨rfl, heq⟩
        · exact ⟨l₁, hn₁, hc₁⟩
        · obtain ⟨rfl, he⟩ := append_inj' heq rfl
          cases he
          exact absurd ⟨getElem?_inj h.nodup hn₁ hn, rfl⟩ hne
      -- nothing lies below the new node
      rcases hsplit hc₁ with hc₁ | ⟨-, heq⟩
      · exact absurd (h.closed _ _ (mem_of_getElem? hc₁)) hfresh
      · exact absurd (congrArg List.length heq) (by simp)
  case walked =>
    intro l₁
    rw [mem_append, mem_singleton, h.walked]
    constructor
    · rintro ((hnil | ⟨j, hj⟩) | rfl)
      · exact .inl hnil
      · exact .inr ⟨j, mem_append_left _ hj⟩
      · exact .inr ⟨i, by simp⟩
    rintro (hnil | ⟨j, hj⟩)
    · exact .inl (.inl hnil)
    rcases mem_append.mp hj with hj | hj
    · exact .inl (.inr ⟨j, hj⟩)
    · cases mem_singleton.mp hj
      exact .inr rfl
  case ended => exact fun l₁ r hr => mem_append_left _ (h.ended l₁ r hr)
  case name =>
    intro n₁ l₁ hn₁
    rcases hsplit hn₁ with hn₁ | ⟨rfl, heq⟩
    · have hne : l₁ ++ [.param] ≠ l ++ [e] := fun heq => hfresh (heq ▸ mem_of_getElem? hn₁)
      rw [lookup_append_ne hne, (hg.old n₁ (h.len ▸ hlt hn₁)).2]
      exact h.name n₁ l₁ hn₁
    · obtain ⟨rfl, he⟩ := append_inj' heq rfl
      cases he
      rw [lookup_append_new hwalk, ← h.len, hg.new_name rfl]
  case route =>
    intro n₁ l₁ hn₁
    rcases hsplit hn₁ with hn₁ | ⟨rfl, rfl⟩
    · rw [(hg.old n₁ (h.len ▸ hlt hn₁)).1]
      exact h.route n₁ l₁ hn₁
    · rw [← h.len, hg.new_route]
      refine (lookup_eq_none_iff.mpr fun p hp => bne_iff_ne.mpr fun hl => hfresh ?_).symm
      exact hl ▸ h.ended p.1 p.2 hp
  case room =>
    have := h.room
    have := hg.room
    rw [hg.len]
    omega
  case size =>
    have := h.size
    rw [hg.len, length_append]
    simp only [length_singleton]
    omega

end Step

/-! ## One step of a walk -/

theorem getD_push {α} (xs : List α) (x d : α) (k : Nat) :
    (xs ++ [x]).getD k d = if k = xs.length then x else xs.getD k d := by
  simp only [getD_eq_getElem?_getD, List.getElem?_append]
  rcases Nat.lt_trichotomy k xs.length with h | h | h
  · rw [if_pos h, if_neg (Nat.ne_of_lt h)]
  · simp [h]
  · rw [if_neg (by omega), if_neg (by omega), List.getElem?_eq_none (Nat.le_of_lt h),
      List.getElem?_eq_none (by simp; omega)]

theorem getD_modify {α : Type} {xs : List α} {n : Nat} (hn : n < xs.length) (f : α → α) (d : α)
    (k : Nat) : (xs.modify n f).getD k d = if k = n then f (xs.getD k d) else xs.getD k d := by
  simp only [getD_eq_getElem?_getD, List.getElem?_modify]
  by_cases hk : k = n
  · subst hk
    simp [hn]
  · simp [hk, Ne.symm hk]

section Walk

variable {b : Bolt D T} {cap : Nat} {t : Trie T} {labels : List Label}
  {walks ends : List (Label × Nat)} {n : Nat} {l : Label}

def Stepped (b : Bolt D T) (cap : Nat) (walks ends : List (Label × Nat)) (l : Label)
    (r : Trie T × Option Nat) : Prop :=
  ∃ t labels c, r = (t, some c) ∧ Spells b cap t labels walks ends ∧ labels[c]? = some l

theorem Spells.step (h : Spells b cap t labels walks ends) (hn : labels[n]? = some l) {e i t'}
    (hnew : kid b t n e = none) (hg : Grows b t t' n e i) :
    Stepped b cap (walks ++ [(l ++ [e], i)]) ends (l ++ [e]) (t', some t.nodePool.length) :=
  ⟨t', labels ++ [l ++ [e]], t.nodePool.length, rfl, h.grow hn hnew hg, by simp [h.len]⟩

theorem literalChild_old {code c} (hhit : b.table.find t.childTbl (edgeKey n code) = some c) :
    literalChild b t n code = (t, some c) := by
  simp [literalChild, hhit]

theorem literalChild_new {code} (hmiss : b.table.find t.childTbl (edgeKey n code) = none)
    (hok : (b.table.insert t.childTbl (edgeKey n code) t.nodePool.length).2) :
    literalChild b t n code =
      (⟨(b.table.insert t.childTbl (edgeKey n code) t.nodePool.length).1,
        t.nodePool ++ [freshNode]⟩, some t.nodePool.length) := by
  simp [literalChild, hmiss, allocNode, hok]

theorem literalChild_spells (hb : b.table.Exact) (h : Spells b cap t labels walks ends)
    (hn : labels[n]? = some l) (hw : walks.length < cap) (code : UInt32) (i : Nat) :
    Stepped b cap (walks ++ [(l ++ [.lit code], i)]) ends (l ++ [.lit code])
      (literalChild b t n code) := by
  cases hhit : b.table.find t.childTbl (edgeKey n code) with
  | some c =>
    rw [literalChild_old hhit]
    obtain ⟨hs, hc⟩ := h.again (e := .lit code) (i := i) hn hhit
    exact ⟨t, labels, c, rfl, hs, hc⟩
  | none =>
    have hroom : 0 < b.table.room t.childTbl := by
      have := h.room
      have := h.size
      omega
    rw [literalChild_new hhit (hb.insert_room _ _ hroom)]
    refine h.step (e := .lit code) hn hhit ⟨by simp, ?_, ?_, ?_, by simp, hb.room_insert _ _ _⟩
    · intro n' e'
      cases e' with
      | lit code' =>
        simp only [kid, Edge.lit.injEq]
        split
        case isTrue heq =>
          obtain ⟨rfl, rfl⟩ := heq
          exact hb.find_new hhit (hb.insert_room _ _ hroom)
        case isFalse hne => exact hb.find_other _ _ fun hk => hne (edgeKey_inj hk)
      | _ =>
        simp only [kid, nodeAt, getD_push]
        split <;> simp_all [freshNode, getD_eq_getElem?_getD]
    · intro n' hn'
      simp only [nodeAt, getD_push, if_neg (Nat.ne_of_lt hn'), and_self]
    · simp [nodeAt, freshNode]

theorem grows_modify {e : Edge} {i : Nat} {f : TrieNode → TrieNode} {new : TrieNode}
    (hlt : n < t.nodePool.length) (hlit : ∀ code, e ≠ .lit code)
    (hparam : ∀ nd, (f nd).paramKid = if e = .param then some t.nodePool.length else nd.paramKid)
    (hwild : ∀ nd, (f nd).wildKid = if e = .wild then some t.nodePool.length else nd.wildKid)
    (hf : ∀ nd, (f nd).routeId = nd.routeId ∧ (f nd).paramNameIdx = nd.paramNameIdx)
    (hnew : new.paramKid = none ∧ new.wildKid = none ∧ new.routeId = none)
    (hname : e = .param → new.paramNameIdx = i) :
    Grows b t { t with nodePool := t.nodePool.modify n f ++ [new] } n e i := by
  have hat : ∀ k, nodeAt { t with nodePool := t.nodePool.modify n f ++ [new] } k =
      if k = t.nodePool.length then new
      else if k = n then f (nodeAt t k) else nodeAt t k := by
    intro k
    simp only [nodeAt, getD_push, length_modify, getD_modify hlt]
  have hend : nodeAt t t.nodePool.length = freshNode := by
    simp [nodeAt, getD_eq_getElem?_getD]
  refine ⟨by simp, ?_, ?_, ?_, ?_, Nat.le_succ _⟩
  · intro n' e'
    cases e' with
    | lit code => rw [if_neg fun h => hlit code h.2.symm]; rfl
    | param =>
      simp only [kid, hat]
      by_cases hk : n' = t.nodePool.length
      · subst hk
        rw [if_pos rfl, hnew.1, if_neg fun h => Nat.ne_of_gt hlt h.1, hend]
        rfl
      rw [if_neg hk]
      by_cases hkn : n' = n
      · simp [hkn, hparam, eq_comm]
      · simp [hkn]
    | wild =>
      simp only [kid, hat]
      by_cases hk : n' = t.nodePool.length
      · subst hk
        rw [if_pos rfl, hnew.2.1, if_neg fun h => Nat.ne_of_gt hlt h.1, hend]
        rfl
      rw [if_neg hk]
      by_cases hkn : n' = n
      · simp [hkn, hwild, eq_comm]
      · simp [hkn]
  · intro n' hn'
    rw [hat, if_neg (Nat.ne_of_lt hn')]
    split
    · exact hf _
    · exact ⟨rfl, rfl⟩
  · rw [hat, if_pos rfl]
    exact hnew.2.2
  · rw [hat, if_pos rfl]
    exact hname

/-- **One segment of a walk**, whatever its kind. -/
theorem insertSegment_spells (hb : b.table.Exact) (h : Spells b cap t labels walks ends)
    (hn : labels[n]? = some l) (hw : walks.length < cap) (idx : Nat) (sg : Segment) :
    Stepped b cap (walks ++ [(l ++ [segEdge sg], idx)]) ends (l ++ [segEdge sg])
      (insertSegment b t n idx sg) := by
  have hlt : n < t.nodePool.length := by
    rw [h.len]
    exact (List.getElem?_eq_some_iff.mp hn).1
  cases hkind : sg.kind with
  | literal =>
    simp only [insertSegment, segEdge, hkind]
    exact literalChild_spells hb h hn hw sg.litId idx
  | param =>
    simp only [insertSegment, segEdge, hkind]
    cases hk : (nodeAt t n).paramKid with
    | some c =>
      obtain ⟨hs, hc⟩ := h.again (e := .param) (i := idx) hn hk
      exact ⟨t, labels, c, rfl, hs, hc⟩
    | none =>
      refine h.step (e := .param) hn hk (grows_modify hlt ?_ ?_ ?_ ?_ ?_ ?_)
      all_goals simp [freshNode]
  | wildcard =>
    simp only [insertSegment, segEdge, hkind]
    cases hk : (nodeAt t n).wildKid with
    | some c =>
      obtain ⟨hs, hc⟩ := h.again (e := .wild) (i := idx) hn hk
      exact ⟨t, labels, c, rfl, hs, hc⟩
    | none =>
      refine h.step (e := .wild) hn hk (grows_modify hlt ?_ ?_ ?_ ?_ ?_ ?_)
      all_goals simp [freshNode]

/-- The labels a walk from `l` passes, with the indices of its segments. -/
def walkOf : Label → Nat → List Segment → List (Label × Nat)
  | _, _, [] => []
  | l, idx, sg :: sgs => (l ++ [segEdge sg], idx) :: walkOf (l ++ [segEdge sg]) (idx + 1) sgs

theorem walkOf_length (l : Label) (idx : Nat) (sgs : List Segment) :
    (walkOf l idx sgs).length = sgs.length := by
  induction sgs generalizing l idx with
  | nil => rfl
  | cons sg sgs ih => rw [walkOf, length_cons, ih, length_cons]

theorem insertSegments_spells (hb : b.table.Exact) (sgs : List Segment) :
    ∀ {t : Trie T} {labels : List Label} {walks : List (Label × Nat)} {n : Nat} {l : Label}
      (idx : Nat), Spells b cap t labels walks ends → labels[n]? = some l →
      walks.length + sgs.length ≤ cap →
      Stepped b cap (walks ++ walkOf l idx sgs) ends (l ++ sgs.map segEdge)
        (insertSegments b t n idx sgs) := by
  induction sgs with
  | nil =>
    intro t labels walks n l idx h hn _
    exact ⟨t, labels, n, rfl, by simpa [walkOf] using h, by simpa using hn⟩
  | cons sg sgs ih =>
    intro t labels walks n l idx h hn hw
    rw [length_cons] at hw
    obtain ⟨t', labels', c, hc, hs, hl⟩ := insertSegment_spells hb h hn (by omega) idx sg
    have hlen : (walks ++ [(l ++ [segEdge sg], idx)]).length + sgs.length ≤ cap := by
      rw [length_append, length_singleton]
      omega
    simpa [walkOf, insertSegments, hc] using ih (idx + 1) hs hl hlen

theorem endRoute_spells (h : Spells b cap t labels walks ends) (hn : labels[n]? = some l)
    (r : Nat) : Spells b cap (endRoute t n r) labels walks (ends ++ [(l, r)]) := by
  have hlt : n < t.nodePool.length := by
    rw [h.len]
    exact (List.getElem?_eq_some_iff.mp hn).1
  have hat : ∀ k, nodeAt (endRoute t n r) k =
      if k = n then
        if (nodeAt t k).routeId = none then { nodeAt t k with routeId := some r } else nodeAt t k
      else nodeAt t k := fun k => getD_modify hlt _ _ k
  have hkid : ∀ k e, kid b (endRoute t n r) k e = kid b t k e := by
    intro k e
    cases e with
    | lit code => rfl
    | _ => simp only [kid, hat]; split <;> [split <;> rfl; rfl]
  refine { h with len := ?_, kids := ?_, ended := ?_, name := ?_, route := ?_, room := ?_, size := ?_ }
  · simpa [endRoute] using h.len
  · intro k e c
    rw [hkid]
    exact h.kids k e c
  · intro l' r' hmem
    rcases mem_append.mp hmem with hmem | hmem
    · exact h.ended l' r' hmem
    · cases mem_singleton.mp hmem
      exact mem_of_getElem? hn
  · intro k l' hk
    rw [h.name k l' hk, hat]
    split <;> [split <;> rfl; rfl]
  · intro k l' hk
    rw [hat]
    by_cases hkn : k = n
    · subst hkn
      obtain rfl : l' = l := Option.some.inj (hk.symm.trans hn)
      rw [if_pos rfl, lookup_append, ← h.route k l' hk]
      cases hr : (nodeAt t k).routeId with
      | none => simp
      | some r' => simp [hr]
    have hne : l' ≠ l := by
      rintro rfl
      exact hkn (getElem?_inj h.nodup hk hn)
    rw [if_neg hkn, lookup_append_ne hne]
    exact h.route k l' hk
  · simpa [endRoute] using h.room
  · simpa [endRoute] using h.size

end Walk

/-! ## All routes -/

def routeLabel (segs : List Segment) (rt : Route) : Label :=
  .lit (methodTag rt.method) :: (rt.segments segs).map segEdge

def routeWalk (segs : List Segment) (rt : Route) : List (Label × Nat) :=
  ([.lit (methodTag rt.method)], 0) ::
    walkOf [.lit (methodTag rt.method)] rt.firstSeg (rt.segments segs)

def walksOf (segs : List Segment) : List Route → List (Label × Nat)
  | [] => []
  | rt :: rts => (if rt.isStatic then [] else routeWalk segs rt) ++ walksOf segs rts

def endsOf (segs : List Segment) : Nat → List Route → List (Label × Nat)
  | _, [] => []
  | r, rt :: rts =>
    (if rt.isStatic then [] else [(routeLabel segs rt, r)]) ++ endsOf segs (r + 1) rts

section Build

variable {b : Bolt D T} {cap : Nat} {t : Trie T} {labels : List Label}
  {walks ends : List (Label × Nat)} {segs : List Segment}

theorem insertRoute_spells (hb : b.table.Exact) (h : Spells b cap t labels walks ends) {rt : Route}
    (hrt : rt.isStatic = false) (hsegs : (rt.segments segs).length ≤ kMaxSegments)
    (hw : walks.length + (kMaxSegments + 1) ≤ cap) (r : Nat) :
    ∃ labels', Spells b cap (insertRoute b segs t rt r) labels' (walks ++ routeWalk segs rt)
      (ends ++ [(routeLabel segs rt, r)]) := by
  obtain ⟨t₁, labels₁, c, hc, hs, hl⟩ :=
    literalChild_spells hb h h.root (by omega) (methodTag rt.method) 0
  have hlen : (walks ++ [([Edge.lit (methodTag rt.method)], 0)]).length +
      (rt.segments segs).length ≤ cap := by
    rw [length_append, length_singleton]
    omega
  obtain ⟨t₂, labels₂, n, hn, hs₂, hl₂⟩ :=
    insertSegments_spells hb (rt.segments segs) rt.firstSeg hs hl hlen
  have heq : insertRoute b segs t rt r = endRoute t₂ n r := by
    simp only [insertRoute, hrt, Bool.false_eq_true, if_false, hc, hn]
  rw [heq]
  exact ⟨labels₂, by simpa [routeWalk, routeLabel] using endRoute_spells hs₂ hl₂ r⟩

theorem insertRoutes_spells (hb : b.table.Exact) (rts : List Route) :
    ∀ {t : Trie T} {labels : List Label} {walks ends : List (Label × Nat)} {r : Nat},
      Spells b cap t labels walks ends → (∀ rt ∈ rts, (rt.segments segs).length ≤ kMaxSegments) →
      walks.length + rts.length * (kMaxSegments + 1) ≤ cap →
      ∃ labels', Spells b cap (insertRoutes b segs t r rts) labels' (walks ++ walksOf segs rts)
        (ends ++ endsOf segs r rts) := by
  induction rts with
  | nil =>
    intro t labels walks ends r h _ _
    exact ⟨labels, by simpa [walksOf, endsOf, insertRoutes] using h⟩
  | cons rt rts ih =>
    intro t labels walks ends r h hsegs hw
    rw [length_cons, Nat.succ_mul] at hw
    have hsegs' : ∀ rt' ∈ rts, (rt'.segments segs).length ≤ kMaxSegments :=
      fun rt' hmem => hsegs rt' (mem_cons_of_mem _ hmem)
    rw [insertRoutes]
    cases hrt : rt.isStatic with
    | true =>
      have hskip : insertRoute b segs t rt r = t := by simp [insertRoute, hrt]
      rw [hskip]
      simpa [walksOf, endsOf, hrt] using ih h hsegs' (by omega)
    | false =>
      obtain ⟨labels₁, hs⟩ :=
        insertRoute_spells hb h hrt (hsegs rt (mem_cons_self ..)) (by omega) r
      have hlen : (walks ++ routeWalk segs rt).length + rts.length * (kMaxSegments + 1) ≤ cap := by
        have := hsegs rt (mem_cons_self ..)
        rw [length_append, routeWalk, length_cons, walkOf_length]
        omega
      simpa [walksOf, endsOf, hrt, append_assoc] using ih (r := r + 1) hs hsegs' hlen

theorem spells_root (hb : b.table.Exact) (cap : Nat) :
    Spells b cap ⟨b.table.create cap, [freshNode]⟩ [[]] [] [] := by
  have hnode : ∀ n, nodeAt (⟨b.table.create cap, [freshNode]⟩ : Trie T) n = freshNode := by
    intro n
    cases n <;> rfl
  have hlab : ∀ {c : Nat} {l : Label} {e : Edge}, ([[]] : List Label)[c]? ≠ some (l ++ [e]) := by
    intro c l e hc
    have := mem_singleton.mp (mem_of_getElem? hc)
    simp at this
  constructor
  case len => rfl
  case root => rfl
  case nodup => exact nodup_singleton _
  case closed => exact fun l e hmem => by simp at hmem
  case kids =>
    intro n e c
    constructor
    · intro hk
      cases e with
      | lit code => simp [kid, hb.find_create] at hk
      | _ => rw [kid, hnode] at hk; cases hk
    · rintro ⟨l, -, hc⟩
      exact absurd hc hlab
  case walked => simp
  case ended => simp
  case name => exact fun n l hn => absurd hn hlab
  case route =>
    intro n l _
    rw [hnode]
    rfl
  case room =>
    have := hb.room_create cap
    simp only [length_singleton]
    omega
  case size => simp

/-- **The trie that `build` returns** spells the parametric routes: no insertion
into the edge table fails. -/
theorem build_spells (hb : b.table.Exact) {s : RouterImpl D T} (hsegs : ∀ rt ∈ s.routes, rt.segCount ≤ kMaxSegments) :
    ∃ labels, Spells b (1 + s.routes.length * (kMaxSegments + 1)) (build b s).trie labels
      (walksOf s.segs s.routes) (endsOf s.segs 0 s.routes) := by
  have hsegs' : ∀ rt ∈ s.routes, (rt.segments s.segs).length ≤ kMaxSegments := by
    intro rt hmem
    rw [Route.segments, length_take]
    exact Nat.le_trans (Nat.min_le_left _ _) (hsegs rt hmem)
  have hroot := spells_root hb (1 + s.routes.length * (kMaxSegments + 1))
  obtain ⟨labels, h⟩ := insertRoutes_spells hb s.routes (r := 0) hroot hsegs' (by simp)
  exact ⟨labels, h⟩

end Build

end BoltApi.Router.Trie
