import BoltApi.Router.Model
import Mathlib.Data.List.TakeWhile

/-! # What the router reads of a path

Registration, the static hash and the search each split a path in a loop of
their own. All three see the same thing, the non-empty segments between
slashes, and the search also sees the path from each segment on. -/
namespace BoltApi.Router.Paths
open Octets Model List

def pathSegments (path : Bytes) : List Bytes := (path.splitOn SLASH).filter (· ≠ [])

def restOfPath : Nat → Bytes → Bytes
  | 0, p => p.dropWhile (· == SLASH)
  | k + 1, p => restOfPath k ((p.dropWhile (· == SLASH)).dropWhile (· != SLASH))

def segmentsHash (segs : List Bytes) : UInt64 :=
  if segs = [] then fnvByte fnvOffset SLASH else segs.foldl fnvSegment fnvOffset

def viewsLoop : Nat → Bytes → List SegView
  | 0, _ => []
  | fuel + 1, p =>
    if p = [] then []
    else
      let seg := p.takeWhile (· != SLASH)
      let rest := viewsLoop fuel (p.drop (seg.length + 1))
      if 0 < seg.length then ⟨seg, p⟩ :: rest else rest

def pathViews (path : Bytes) : List SegView := viewsLoop path.length (skipSlash path)

/-! ## The byte search -/

theorem takeWhile_findIdx (p : Bytes) {i} (h : p.findIdx? (· == SLASH) = some i) :
    (p.takeWhile (· != SLASH)).length = i := by
  induction p generalizing i with
  | nil => cases h
  | cons c p ih =>
    rw [List.findIdx?_cons] at h
    by_cases hc : c = SLASH
    · subst hc
      cases h
      rfl
    · rw [if_neg (by simpa using hc), Option.map_eq_some_iff] at h
      obtain ⟨j, hj, rfl⟩ := h
      rw [takeWhile_cons_of_pos (by simpa using hc), length_cons, ih hj]

section

variable {find : Bytes → Option Nat}
  (hfind : ∀ w, w.length = 8 → find w = w.findIdx? (· == SLASH))

include hfind

theorem swarSkip_le (fuel : Nat) (p : Bytes) :
    ∃ q r, p = q ++ r ∧ q.length = swarSkip find fuel p ∧ ∀ c ∈ q, c ≠ SLASH := by
  induction fuel generalizing p with
  | zero => exact ⟨[], p, rfl, rfl, by simp⟩
  | succ fuel ih =>
    rw [swarSkip]
    split
    case isTrue => exact ⟨[], p, rfl, rfl, by simp⟩
    case isFalse hlen =>
      have h8 : (p.take 8).length = 8 := by rw [length_take]; omega
      rw [hfind _ h8]
      cases hi : (p.take 8).findIdx? (· == SLASH) with
      | some lane =>
        refine ⟨(p.take 8).takeWhile (· != SLASH), p.drop lane, ?_, takeWhile_findIdx _ hi, ?_⟩
        · have hlt : lane ≤ 8 := by
            have hle := (List.takeWhile_prefix (· != SLASH) (l := p.take 8)).length_le
            rwa [takeWhile_findIdx _ hi, h8] at hle
          have htw : (p.take 8).takeWhile (· != SLASH) = p.take lane := by
            rw [prefix_iff_eq_take.mp (List.takeWhile_prefix _), takeWhile_findIdx _ hi,
              take_take, Nat.min_eq_left hlt]
          rw [htw, take_append_drop]
        · intro c hc
          simpa using mem_takeWhile_imp hc
      | none =>
        obtain ⟨q, r, hp, hq, hns⟩ := ih (p.drop 8)
        refine ⟨p.take 8 ++ q, r, ?_, ?_, ?_⟩
        · rw [append_assoc, ← hp, take_append_drop]
        · rw [length_append, h8, hq]
        intro c hc
        rcases mem_append.mp hc with hc | hc
        · simpa using List.findIdx?_eq_none_iff.mp hi c hc
        · exact hns c hc

theorem segEnd_eq (p : Bytes) : segEnd find p = (p.takeWhile (· != SLASH)).length := by
  obtain ⟨q, r, hp, hq, hns⟩ := swarSkip_le hfind p.length p
  have htw : p.takeWhile (· != SLASH) = q ++ r.takeWhile (· != SLASH) := by
    conv_lhs => rw [hp]
    exact takeWhile_append_of_pos fun c hc => by simpa using hns c hc
  have hdrop : p.drop q.length = r := by
    conv_lhs => rw [hp]
    exact drop_left
  rw [segEnd, ← hq, htw, length_append, hdrop]

theorem splitLoop_eq (fuel room : Nat) (p : Bytes) :
    splitLoop find fuel room p =
      if (viewsLoop fuel p).length ≤ room then some (viewsLoop fuel p) else none := by
  induction fuel generalizing room p with
  | zero => simp [splitLoop, viewsLoop]
  | succ fuel ih =>
    simp only [splitLoop, viewsLoop, segEnd_eq hfind]
    have htake : p.take (p.takeWhile (· != SLASH)).length = p.takeWhile (· != SLASH) :=
      (prefix_iff_eq_take.mp (List.takeWhile_prefix _)).symm
    by_cases hp : p = []
    · simp [hp]
    rw [if_neg hp, if_neg hp]
    split
    case isFalse => rw [ih]
    case isTrue =>
      cases room with
      | zero => simp
      | succ room =>
        simp only [ih, htake, length_cons, Nat.add_le_add_iff_right]
        split <;> rfl

theorem splitPath_eq (path : Bytes) (n : Nat) :
    splitPath find path n = if (pathViews path).length ≤ n then some (pathViews path) else none :=
  splitLoop_eq hfind _ _ _

end

/-! ## The loops and the segments -/

theorem slash_cases (p : Bytes) :
    (SLASH ∉ p ∧ p.takeWhile (· != SLASH) = p) ∨
      ∃ q r, p = q ++ SLASH :: r ∧ SLASH ∉ q ∧ p.takeWhile (· != SLASH) = q ∧
        p.drop (q.length + 1) = r := by
  induction p with
  | nil => exact .inl ⟨by simp, rfl⟩
  | cons c p ih =>
    by_cases hc : c = SLASH
    · subst hc
      exact .inr ⟨[], p, rfl, by simp, rfl, rfl⟩
    rw [takeWhile_cons_of_pos (by simpa using hc)]
    rcases ih with ⟨hns, htw⟩ | ⟨q, r, rfl, hns, htw, hdrop⟩
    · exact .inl ⟨by simp [hns, Ne.symm hc], by rw [htw]⟩
    · exact .inr ⟨c :: q, r, rfl, by simp [hns, Ne.symm hc], by rw [htw], hdrop⟩

theorem pathSegments_last {q} (hns : SLASH ∉ q) (hq : q ≠ []) : pathSegments q = [q] := by
  simp [pathSegments, splitOn_eq_singleton hns, hq]

theorem pathSegments_cons {q r} (hns : SLASH ∉ q) (hq : q ≠ []) :
    pathSegments (q ++ SLASH :: r) = q :: pathSegments r := by
  simp [pathSegments, splitOn_append_cons_self_of_not_mem hns, hq]

@[simp] theorem pathSegments_nil : pathSegments [] = [] := by
  simp [pathSegments]

@[simp] theorem pathSegments_slash (r : Bytes) : pathSegments (SLASH :: r) = pathSegments r := by
  have h := splitOn_append_cons_self_of_not_mem (not_mem_nil (a := SLASH)) r
  rw [nil_append] at h
  simp [pathSegments, h]

theorem pathSegments_skipSlash (p : Bytes) : pathSegments (skipSlash p) = pathSegments p := by
  cases p with
  | nil => rfl
  | cons c p =>
    rw [skipSlash]
    split
    case isTrue h => rw [h, pathSegments_slash]
    case isFalse => rfl

variable (path : Bytes)

theorem skipSlash_length : (skipSlash path).length ≤ path.length := by
  cases path with
  | nil => simp [skipSlash]
  | cons c p => rw [skipSlash]; split <;> simp

@[simp] theorem restOfPath_slash (k : Nat) (r : Bytes) :
    restOfPath k (SLASH :: r) = restOfPath k r := by
  cases k <;> simp [restOfPath]

theorem restOfPath_zero {c p} (hc : c ≠ SLASH) : restOfPath 0 (c :: p) = c :: p := by
  simp [restOfPath, hc]

theorem restOfPath_succ {q r} (hns : SLASH ∉ q) (hq : q ≠ []) (k : Nat) :
    restOfPath (k + 1) (q ++ SLASH :: r) = restOfPath k r := by
  obtain ⟨c, q, rfl⟩ := exists_cons_of_ne_nil hq
  have hc : c ≠ SLASH := fun h => hns (by simp [h])
  have hne : ∀ x ∈ c :: q, (x != SLASH) := by
    intro x hx
    exact bne_iff_ne.mpr fun h : x = SLASH => hns (h ▸ hx)
  have hdrop : (c :: q ++ SLASH :: r).dropWhile (· != SLASH) = SLASH :: r := by
    rw [dropWhile_append_of_pos hne]
    simp
  rw [restOfPath, cons_append, dropWhile_cons_of_neg (by simpa using hc)]
  rw [cons_append] at hdrop
  rw [hdrop, restOfPath_slash]

theorem restOfPath_skipSlash (k : Nat) (p : Bytes) :
    restOfPath k (skipSlash p) = restOfPath k p := by
  cases p with
  | nil => rfl
  | cons c p =>
    rw [skipSlash]
    split
    case isTrue h => rw [h, restOfPath_slash]
    case isFalse => rfl

theorem viewsLoop_seg {p : Bytes} {fuel q r} (hp : p = q ++ SLASH :: r) (hq : q ≠ [])
    (htw : p.takeWhile (· != SLASH) = q) (hdrop : p.drop (q.length + 1) = r) :
    viewsLoop (fuel + 1) p = ⟨q, p⟩ :: viewsLoop fuel r := by
  have hne : p ≠ [] := by simp [hp]
  rw [viewsLoop, if_neg hne]
  simp only [htw, hdrop]
  rw [if_pos (length_pos_of_ne_nil hq)]

theorem viewsLoop_last {fuel p} (hp : p ≠ []) (htw : p.takeWhile (· != SLASH) = p) :
    viewsLoop (fuel + 1) p = [⟨p, p⟩] := by
  have hdrop : p.drop (p.length + 1) = [] := by simp
  rw [viewsLoop, if_neg hp]
  simp only [htw, hdrop]
  rw [if_pos (length_pos_of_ne_nil hp)]
  cases fuel <;> simp [viewsLoop]

theorem viewsLoop_slash (fuel : Nat) (r : Bytes) :
    viewsLoop (fuel + 1) (SLASH :: r) = viewsLoop fuel r := by
  simp [viewsLoop]

theorem viewsLoop_spec (fuel : Nat) (p : Bytes) (hf : p.length ≤ fuel) :
    (viewsLoop fuel p).map SegView.text = pathSegments p ∧
      ∀ (k : Nat) (v : SegView), (viewsLoop fuel p)[k]? = some v → v.tail = restOfPath k p := by
  induction fuel generalizing p with
  | zero =>
    have hp : p = [] := eq_nil_of_length_eq_zero (Nat.le_zero.mp hf)
    subst hp
    exact ⟨by simp [viewsLoop], by simp [viewsLoop]⟩
  | succ fuel ih =>
    by_cases hp : p = []
    · subst hp
      exact ⟨by simp [viewsLoop], by simp [viewsLoop]⟩
    rcases slash_cases p with ⟨hns, htw⟩ | ⟨q, r, hqr, hns, htw, hdrop⟩
    · rw [viewsLoop_last hp htw, pathSegments_last hns hp]
      refine ⟨rfl, ?_⟩
      intro k v hv
      obtain ⟨c, p, rfl⟩ := exists_cons_of_ne_nil hp
      cases k with
      | zero =>
        cases hv
        exact (restOfPath_zero fun h => hns (by simp [h])).symm
      | succ k => simp at hv
    have hr : r.length ≤ fuel := by rw [hqr] at hf; simp at hf; omega
    obtain ⟨ihText, ihTail⟩ := ih r hr
    by_cases hq : q = []
    · subst hq
      rw [hqr, nil_append, viewsLoop_slash, pathSegments_slash]
      exact ⟨ihText, fun k v hv => by rw [restOfPath_slash]; exact ihTail k v hv⟩
    rw [viewsLoop_seg hqr hq htw hdrop]
    refine ⟨by rw [map_cons, ihText, hqr, pathSegments_cons hns hq], ?_⟩
    intro k v hv
    cases k with
    | zero =>
      cases hv
      obtain ⟨c, q, rfl⟩ := exists_cons_of_ne_nil hq
      rw [hqr]
      exact (restOfPath_zero fun h => hns (by simp [h])).symm
    | succ k =>
      rw [hqr, restOfPath_succ hns hq]
      exact ihTail k v hv

/-- **The views of a path** show its non-empty segments, each with the path from
there on. -/
theorem pathViews_text : (pathViews path).map SegView.text = pathSegments path := by
  rw [pathViews, (viewsLoop_spec _ _ (skipSlash_length path)).1, pathSegments_skipSlash]

theorem pathViews_tail {path k v} (h : (pathViews path)[k]? = some v) :
    v.tail = restOfPath k path := by
  rw [(viewsLoop_spec _ _ (skipSlash_length path)).2 k v h, restOfPath_skipSlash]

theorem pathViews_length : (pathViews path).length = (pathSegments path).length := by
  rw [← pathViews_text, length_map]

/-! ## The static hash -/

theorem requestHashLoop_eq (fuel : Nat) (p : Bytes) (ph : UInt64) (any : Bool)
    (hf : p.length ≤ fuel) :
    requestHashLoop fuel p ph any =
      ((pathSegments p).foldl fnvSegment ph, any || !(pathSegments p).isEmpty) := by
  induction fuel generalizing p ph any with
  | zero =>
    have hp : p = [] := eq_nil_of_length_eq_zero (Nat.le_zero.mp hf)
    simp [hp, requestHashLoop]
  | succ fuel ih =>
    rw [requestHashLoop]
    by_cases hp : p = []
    · simp [hp]
    rw [if_neg hp]
    rcases slash_cases p with ⟨hns, htw⟩ | ⟨q, r, hqr, hns, htw, hdrop⟩
    · have hdrop : p.drop (p.length + 1) = [] := drop_eq_nil_of_le (Nat.le_succ _)
      simp only [htw, hdrop, length_pos_of_ne_nil hp, if_true]
      rw [ih _ _ _ (Nat.zero_le _), pathSegments_last hns hp]
      simp
    have hr : r.length ≤ fuel := by rw [hqr] at hf; simp at hf; omega
    simp only [htw, hdrop, ih _ _ _ hr]
    by_cases hq : q = []
    · simp [hqr, hq]
    · rw [if_pos (length_pos_of_ne_nil hq), hqr, pathSegments_cons hns hq]
      simp

theorem requestStaticHash_eq : requestStaticHash path = segmentsHash (pathSegments path) := by
  rw [requestStaticHash, requestHashLoop_eq _ _ _ _ (skipSlash_length path),
    pathSegments_skipSlash, segmentsHash]
  cases pathSegments path <;> simp

end BoltApi.Router.Paths
