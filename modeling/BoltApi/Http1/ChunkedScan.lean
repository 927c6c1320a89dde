import BoltApi.Http1.Chunked

/-! # The chunk scanner's answers are final

The scanner restarts on a longer buffer with larger loop bounds. Every chunk
and every trailer line costs bytes, so the bounds are never what ends a loop
(`scanChunks_guard`, `scanTrailers_guard`), and the answer on a prefix of the
body is the answer on all of it (`stable_scanChunked`). -/
namespace BoltApi.Http1.ChunkedScan
open Octets Lib.Scanning Chunked List

/-! ## The chunk-size line -/

theorem hexDigits_append (x : Bytes) : ∀ (n v : Nat) (p : Bytes),
    ((hexDigits n v p).2.2 ≠ [] ∨ (hexDigits n v p).2.1 = n) →
      hexDigits n v (p ++ x) =
        ((hexDigits n v p).1, (hexDigits n v p).2.1, (hexDigits n v p).2.2 ++ x)
  | 0, v, p, _ => by simp [hexDigits]
  | n + 1, v, [], h => by simp [hexDigits] at h
  | n + 1, v, c :: p, h => by
    simp only [hexDigits, cons_append] at h ⊢
    cases hc : hexVal c with
    | none => simp
    | some d =>
      simp only [hc, Nat.add_right_cancel_iff] at h ⊢
      rw [hexDigits_append x n _ p h]

theorem hexDigits_spec : ∀ (n v : Nat) (p : Bytes),
    ∃ ds, p = ds ++ (hexDigits n v p).2.2 ∧ ds.length = (hexDigits n v p).2.1 ∧
      ds.length ≤ n ∧ (∀ c ∈ ds, (hexVal c).isSome) ∧
      (ds.length < n → ∀ c ∈ (hexDigits n v p).2.2.head?, hexVal c = none) ∧
      (hexDigits n v p).1 =
        ds.foldl (fun a c => (a * 16 + (hexVal c).getD 0) % 2 ^ 64) v
  | 0, v, p => ⟨[], by simp [hexDigits]⟩
  | n + 1, v, [] => ⟨[], by simp [hexDigits]⟩
  | n + 1, v, c :: p => by
    cases hc : hexVal c with
    | none => exact ⟨[], by simp [hexDigits, hc]⟩
    | some d =>
      obtain ⟨ds, hp, hl, hn, hall, hstop, hv⟩ := hexDigits_spec n ((v * 16 + d) % 2 ^ 64) p
      refine ⟨c :: ds, ?_, ?_, ?_, ?_, ?_, ?_⟩
      · simp only [hexDigits, hc, cons_append]
        rw [← hp]
      · simp [hexDigits, hc, hl]
      · simp only [length_cons]; omega
      · intro b hb
        rcases mem_cons.mp hb with rfl | hb
        · simp [hc]
        · exact hall b hb
      · intro hlt
        simp only [hexDigits, hc]
        exact hstop (by simpa using hlt)
      · simp only [hexDigits, hc, foldl_cons, Option.getD_some]
        exact hv

theorem extLine_append (x : Bytes) : ∀ (i : Nat) (p : Bytes), extLine i p ≠ .more →
    extLine i (p ++ x) = (extLine i p).push x
  | i, [], h => by simp [extLine] at h
  | i, c :: p, h => by
    have ih := extLine_append x (i + 1) p
    rw [cons_append]
    unfold extLine at h ⊢
    by_cases hi : kMaxLine ≤ i
    · simp [hi, Scan.push]
    by_cases hlf : c = LF
    · simp [hi, hlf, Scan.push]
    simp only [hi, hlf, if_false] at h ⊢
    by_cases hcr : c = CR
    · simp only [hcr, if_true] at h ⊢
      cases p with
      | nil => simp at h
      | cons d q => by_cases hd : d = LF <;> simp [hd, Scan.push]
    · simp only [hcr, if_false] at h ⊢
      exact ih h

theorem stable_extLine (i : Nat) : Stable (extLine i) :=
  Stable.of_push fun p x => extLine_append x i p

theorem extLine_ok_iff {r} : ∀ {i : Nat} {p : Bytes},
    extLine i p = .ok () r ↔
      ∃ t, p = t ++ CR :: LF :: r ∧ (∀ c ∈ t, c ≠ CR ∧ c ≠ LF) ∧ i + t.length < kMaxLine
  | i, [] => by simp [extLine]
  | i, c :: p => by
    have ih := extLine_ok_iff (r := r) (i := i + 1) (p := p)
    constructor
    · intro h
      unfold extLine at h
      split at h
      · cases h
      rename_i hi
      split at h
      · cases h
      rename_i hlf
      split at h
      · rename_i hcr
        cases p with
        | nil => cases h
        | cons d q =>
          simp only at h
          split at h
          · rename_i hd
            cases h
            exact ⟨[], by simp [hcr, hd], by simp, by simpa using hi⟩
          · cases h
      rename_i hcr
      obtain ⟨t, rfl, ht, hlen⟩ := ih.mp h
      refine ⟨c :: t, by simp, ?_, by simp only [length_cons]; omega⟩
      intro b hb
      rcases mem_cons.mp hb with rfl | hb
      · exact ⟨hcr, hlf⟩
      · exact ht b hb
    rintro ⟨t, hp, ht, hlen⟩
    unfold extLine
    cases t with
    | nil =>
      obtain ⟨rfl, rfl⟩ := List.cons.inj hp
      have hi : ¬ kMaxLine ≤ i := by simpa using hlen
      simp [hi, CR, LF]
    | cons b t =>
      obtain ⟨rfl, rfl⟩ := List.cons.inj hp
      obtain ⟨hcr, hlf⟩ := ht c (by simp)
      simp only [length_cons] at hlen
      have hi : ¬ kMaxLine ≤ i := by omega
      rw [if_neg hi, if_neg hlf, if_neg hcr]
      exact ih.mpr ⟨t, rfl, fun b hb => ht b (by simp [hb]), by omega⟩

theorem stable_chunkSizeLine : Stable chunkSizeLine := by
  refine Stable.of_push fun p x hne => ?_
  obtain ⟨ds, -, hl, hn, -⟩ := hexDigits_spec 17 0 p
  -- the digit loop ended on its bound or in front of another byte
  have hstop : (hexDigits 17 0 p).2.2 ≠ [] ∨ (hexDigits 17 0 p).2.1 = 17 := by
    by_cases hr : (hexDigits 17 0 p).2.2 = []
    · refine Or.inr ?_
      by_contra hlt
      have h16 : ¬ 16 < (hexDigits 17 0 p).2.1 := by omega
      exact hne (by simp only [chunkSizeLine, h16, hr, if_false, if_true])
    · exact Or.inl hr
  unfold chunkSizeLine at hne ⊢
  rw [hexDigits_append x 17 0 p hstop]
  by_cases h16 : 16 < (hexDigits 17 0 p).2.1
  · simp only [h16, if_true, Scan.push]
  have hr : (hexDigits 17 0 p).2.2 ≠ [] := hstop.resolve_right (by omega)
  by_cases h0 : (hexDigits 17 0 p).2.1 = 0
  · simp [hr, h0, Scan.push]
  · simp only [h16, hr, h0, if_false, append_eq_nil_iff, false_and] at hne ⊢
    exact ((stable_extLine _).andThen fun _ => stable_accept _).push hne x

def hexValue (ds : Bytes) : Nat := ds.foldl (fun a c => a * 16 + (hexVal c).getD 0) 0

theorem hexVal_lt {c} : (hexVal c).getD 0 < 16 := by
  unfold hexVal
  split_ifs with h h h
  all_goals
    try have := UInt8.le_iff_toNat_le.mp h.2
    simp at *
    try omega

theorem hexFold_lt (ds : Bytes) (a : Nat) :
    ds.foldl (fun a c => a * 16 + (hexVal c).getD 0) a < (a + 1) * 16 ^ ds.length := by
  induction ds generalizing a with
  | nil => simp
  | cons c ds ih =>
    have hc := hexVal_lt (c := c)
    rw [foldl_cons]
    refine Nat.lt_of_lt_of_le (ih _) ?_
    rw [length_cons, Nat.pow_succ, Nat.mul_comm (16 ^ ds.length), ← Nat.mul_assoc]
    exact Nat.mul_le_mul_right _ (by omega)

theorem hexValue_lt (ds : Bytes) : hexValue ds < 16 ^ ds.length := by
  have h := hexFold_lt ds 0
  rwa [Nat.zero_add, Nat.one_mul] at h

theorem hexFold_mod (ds : Bytes) (a k : Nat) (ha : a < 16 ^ k) (hk : k + ds.length ≤ 16) :
    ds.foldl (fun a c => (a * 16 + (hexVal c).getD 0) % 2 ^ 64) a =
      ds.foldl (fun a c => a * 16 + (hexVal c).getD 0) a := by
  induction ds generalizing a k with
  | nil => rfl
  | cons c ds ih =>
    have hc := hexVal_lt (c := c)
    simp only [length_cons] at hk
    have hlt : a * 16 + (hexVal c).getD 0 < 16 ^ (k + 1) := by rw [Nat.pow_succ]; omega
    have h64 : (16 : Nat) ^ (k + 1) ≤ 2 ^ 64 := by
      have : (2 : Nat) ^ 64 = 16 ^ 16 := by decide
      rw [this]
      exact Nat.pow_le_pow_right (by omega) (by omega)
    rw [foldl_cons, foldl_cons, Nat.mod_eq_of_lt (Nat.lt_of_lt_of_le hlt h64)]
    exact ih _ (k + 1) hlt (by omega)

/-- A chunk-size line without its CRLF: the digits, and whatever stands between
them and the CRLF. -/
@[ext]
structure SizeLine where
  digits : Bytes
  tail : Bytes
  deriving DecidableEq

def SizeLine.encode (l : SizeLine) : Bytes := l.digits ++ l.tail ++ CRLF

/-- The line can be cut into its parts in one way only, and announces `size`. -/
structure SizeLine.Framed (l : SizeLine) (size : Nat) : Prop where
  hex : ∀ c ∈ l.digits, (hexVal c).isSome
  pos : l.digits ≠ []
  head : ∀ c ∈ l.tail.head?, hexVal c = none
  line : ∀ c ∈ l.tail, c ≠ CR ∧ c ≠ LF
  value : hexValue l.digits = size

/-- The scanner's limits on a line: sixteen digits and `kMaxLine`. -/
def SizeLine.Short (l : SizeLine) : Prop := l.digits.length ≤ 16

def SizeLine.Fits (l : SizeLine) : Prop := l.digits.length + l.tail.length < kMaxLine

theorem hexDigits_run {ds : Bytes} {rest} (hds : ∀ c ∈ ds, (hexVal c).isSome)
    (hrest : ∀ c ∈ rest.head?, hexVal c = none) : ∀ (n v : Nat), ds.length ≤ n →
      hexDigits n v (ds ++ rest) =
        (ds.foldl (fun a c => (a * 16 + (hexVal c).getD 0) % 2 ^ 64) v, ds.length, rest) := by
  induction ds with
  | nil =>
    intro n v _
    cases n with
    | zero => simp [hexDigits]
    | succ n =>
      cases rest with
      | nil => simp [hexDigits]
      | cons c rest => simp [hexDigits, hrest c (by simp)]
  | cons c ds ih =>
    intro n v hn
    simp only [length_cons] at hn
    obtain ⟨n, rfl⟩ : ∃ m, n = m + 1 := ⟨n - 1, by omega⟩
    obtain ⟨d, hd⟩ := Option.isSome_iff_exists.mp (hds c (by simp))
    have hrun := ih (fun b hb => hds b (by simp [hb])) n ((v * 16 + d) % 2 ^ 64) (by omega)
    rw [cons_append, hexDigits, hd]
    simp only [hrun, foldl_cons, hd, Option.getD_some, length_cons]

/-- **What a chunk-size line is to the scanner.** -/
theorem chunkSizeLine_ok_iff {p r size} : chunkSizeLine p = .ok size r ↔
      ∃ l : SizeLine, p = l.encode ++ r ∧ l.Framed size ∧ l.Short ∧ l.Fits := by
  constructor
  · intro h
    obtain ⟨ds, hp, hl, hn, hall, hstop, hv⟩ := hexDigits_spec 17 0 p
    unfold chunkSizeLine at h
    generalize hexDigits 17 0 p = run at *
    obtain ⟨v, i, rest⟩ := run
    simp only at h hp hl hstop hv
    split at h
    · cases h
    split at h
    · cases h
    split at h
    · cases h
    rename_i h16 _ h0
    cases he : extLine i rest with
    | ok u q =>
      rw [he] at h
      simp only [Scan.andThen, Scan.ok.injEq] at h
      obtain ⟨rfl, rfl⟩ := h
      obtain ⟨t, rfl, ht, hlen⟩ := extLine_ok_iff.mp he
      have hshort : ds.length ≤ 16 := by omega
      refine ⟨⟨ds, t⟩, ?_, ⟨hall, ?_, ?_, ht, ?_⟩, hshort, ?_⟩
      · simp [SizeLine.encode, CRLF, hp]
      · intro (hnil : ds = [])
        simp only [hnil, length_nil] at hl
        omega
      · intro c hc
        refine hstop (by omega) c ?_
        cases t with
        | nil => simp at hc
        | cons b t => simpa using hc
      · rw [hv]
        exact (hexFold_mod ds 0 0 (by simp) (by omega)).symm
      · rw [SizeLine.Fits, hl]
        exact hlen
    | _ => rw [he] at h; cases h
  rintro ⟨⟨ds, tail⟩, rfl, hf, hshort, hfits⟩
  obtain ⟨hhex, hpos, hhead, hline, rfl⟩ := hf
  simp only [SizeLine.Short, SizeLine.Fits] at *
  have hrest : ∀ c ∈ (tail ++ CR :: LF :: r).head?, hexVal c = none := by
    intro c hc
    cases tail with
    | nil =>
      simp only [nil_append, List.head?_cons, Option.mem_some_iff] at hc
      subst hc
      decide
    | cons b tail => exact hhead c (by simpa using hc)
  have hrun := hexDigits_run hhex hrest 17 0 (by omega)
  have hne : ds.length ≠ 0 := by simpa using hpos
  have hext : extLine ds.length (tail ++ CR :: LF :: r) = .ok () r :=
    extLine_ok_iff.mpr ⟨tail, rfl, hline, hfits⟩
  have hp : SizeLine.encode ⟨ds, tail⟩ ++ r = ds ++ (tail ++ CR :: LF :: r) := by
    simp [SizeLine.encode, CRLF]
  unfold chunkSizeLine
  rw [hp, hrun]
  simp only
  rw [if_neg (by omega), if_neg (by simp), if_neg hne, hext,
    hexFold_mod ds 0 0 (by simp) (by omega)]
  rfl

theorem SizeLine.Framed.encode_length {l : SizeLine} {size : Nat} (h : l.Framed size) :
    3 ≤ l.encode.length := by
  have := length_pos_iff.mpr h.pos
  simp only [SizeLine.encode, CRLF, length_append, length_cons, length_nil]
  omega

theorem chunkSizeLine_length {p r : Bytes} {a : Nat} (h : chunkSizeLine p = .ok a r) :
    r.length + 3 ≤ p.length := by
  obtain ⟨l, rfl, hf, -, -⟩ := chunkSizeLine_ok_iff.mp h
  have := hf.encode_length
  simp only [length_append]
  omega

/-! ## The chunk loop -/

theorem scanChunks_succ (guard : Nat) (p : Bytes) :
    scanChunks (guard + 1) p = (chunkSizeLine p).andThen fun size rest =>
      if size = 0 then .ok () rest
      else if rest.length < size + 2 then .more
      else if (rest.drop size).take 2 = CRLF then scanChunks guard (rest.drop (size + 2))
      else .bad := by
  rw [scanChunks]
  cases chunkSizeLine p with
  | ok size rest =>
    simp only [Scan.andThen]
    by_cases h0 : size = 0
    · simp [h0]
    by_cases hlen : rest.length < size + 2
    · rw [if_neg h0, if_neg h0, if_pos hlen]
      by_cases hsz : rest.length < size
      · rw [if_pos hsz]
      · rw [if_neg hsz, if_pos (by omega)]
    rw [if_neg h0, if_neg h0, if_neg hlen, if_neg (by omega), if_neg (by omega)]
    have hd : (rest.drop size).length = rest.length - size := length_drop ..
    rcases hq : rest.drop size with _ | ⟨c, _ | ⟨d, q⟩⟩
    · rw [hq, length_nil] at hd; omega
    · rw [hq, length_singleton] at hd; omega
    have hdrop : rest.drop (size + 2) = q := by
      rw [← drop_drop, hq]; rfl
    simp [CRLF, hdrop]
  | _ => rfl

theorem scanChunks_guard : ∀ (g g' : Nat) (p : Bytes), p.length < g → p.length < g' →
    scanChunks g p = scanChunks g' p
  | 0, _, _, h, _ => by omega
  | _, 0, _, _, h => by omega
  | g + 1, g' + 1, p, h, h' => by
    rw [scanChunks_succ, scanChunks_succ]
    cases hl : chunkSizeLine p with
    | ok size rest =>
      have := chunkSizeLine_length hl
      simp only [Scan.andThen]
      rw [scanChunks_guard g g' (rest.drop (size + 2)) (by simp; omega) (by simp; omega)]
    | _ => rfl

theorem scanChunks_length : ∀ (g : Nat) (p : Bytes) {u : Unit} {r : Bytes},
    scanChunks g p = .ok u r → r.length ≤ p.length
  | 0, p, u, r, h => by cases h; exact Nat.le_refl _
  | g + 1, p, u, r, h => by
    rw [scanChunks_succ] at h
    cases hl : chunkSizeLine p with
    | ok size rest =>
      have hlen := chunkSizeLine_length hl
      rw [hl] at h
      simp only [Scan.andThen] at h
      split at h
      · cases h; omega
      split at h
      · cases h
      split at h
      · have := scanChunks_length g _ h
        simp only [length_drop] at this
        omega
      · cases h
    | _ => rw [hl] at h; cases h

theorem stable_chunkData {f} (hf : Stable f) (size : Nat) : Stable fun rest : Bytes =>
      if size = 0 then .ok () rest
      else if rest.length < size + 2 then .more
      else if (rest.drop size).take 2 = CRLF then f (rest.drop (size + 2))
      else .bad := by
  have htake : ∀ (i x : Bytes), ¬ i.length < size + 2 →
      ((i ++ x).drop size).take 2 = (i.drop size).take 2 := by
    intro i x hi
    rw [drop_append_of_le_length (by omega), take_append_of_le_length]
    simp only [length_drop]; omega
  have hdrop : ∀ (i x : Bytes), ¬ i.length < size + 2 →
      (i ++ x).drop (size + 2) = i.drop (size + 2) ++ x := by
    intro i x hi
    exact drop_append_of_le_length (by omega)
  refine Stable.of_push fun i x h => ?_
  by_cases h0 : size = 0
  · simp [h0, Scan.push]
  by_cases hlen : i.length < size + 2
  · simp [h0, hlen] at h
  have hlen' : ¬ (i ++ x).length < size + 2 := by simp only [length_append]; omega
  simp only [h0, hlen, hlen', if_false, htake i x hlen, hdrop i x hlen] at h ⊢
  by_cases hc : (i.drop size).take 2 = CRLF
  · simp only [hc, if_true] at h ⊢
    exact hf.push h x
  · simp [hc, Scan.push]

theorem stable_scanChunks : ∀ guard, Stable (scanChunks guard)
  | 0 => stable_accept ()
  | guard + 1 => by
    have h := stable_chunkSizeLine.andThen fun size =>
      stable_chunkData (stable_scanChunks guard) size
    have he : scanChunks (guard + 1) = fun p => (chunkSizeLine p).andThen fun size rest =>
        if size = 0 then .ok () rest
        else if rest.length < size + 2 then .more
        else if (rest.drop size).take 2 = CRLF then scanChunks guard (rest.drop (size + 2))
        else .bad := funext (scanChunks_succ guard)
    rw [he]
    exact h

/-! ## The trailer loop -/

theorem scanTrailers_succ (guard : Nat) (p : Bytes) :
    scanTrailers (guard + 1) p = (trailerLine p).andThen fun line rest =>
      if line.getLast? ≠ some CR then .bad
      else if line.length = 1 then .ok () rest
      else scanTrailers guard rest := by
  rw [scanTrailers]
  cases trailerLine p <;> rfl

theorem scanTrailers_guard : ∀ (g g' : Nat) (p : Bytes), p.length < g → p.length < g' →
    scanTrailers g p = scanTrailers g' p
  | 0, _, _, h, _ => by omega
  | _, 0, _, _, h => by omega
  | g + 1, g' + 1, p, h, h' => by
    rw [scanTrailers_succ, scanTrailers_succ]
    cases hl : trailerLine p with
    | ok line rest =>
      obtain ⟨hp, -⟩ := spanUntil_ok hl
      have hlen := congrArg List.length hp
      simp only [length_append, length_cons] at hlen
      simp only [Scan.andThen]
      rw [scanTrailers_guard g g' rest (by omega) (by omega)]
    | _ => rfl

theorem stable_scanTrailers : ∀ guard, Stable (scanTrailers guard)
  | 0 => Stable.of_push fun _ _ _ => rfl
  | guard + 1 => by
    have he : scanTrailers (guard + 1) = fun p => (trailerLine p).andThen fun line rest =>
        if line.getLast? ≠ some CR then .bad
        else if line.length = 1 then .ok () rest
        else scanTrailers guard rest := funext (scanTrailers_succ guard)
    rw [he]
    refine (stable_spanUntil _ _).andThen fun line => ?_
    have ih := stable_scanTrailers guard
    by_cases hcr : line.getLast? = some CR
    · by_cases h1 : line.length = 1
      · simp only [hcr, ne_eq, not_true_eq_false, if_false, h1, if_true]
        exact stable_accept ()
      · simp only [hcr, ne_eq, not_true_eq_false, if_false, h1]
        exact ih
    · simp only [hcr, ne_eq, not_false_eq_true, if_true]
      exact Stable.of_push fun _ _ _ => rfl

/-! ## The scanner -/

theorem scanChunked_guard {g p} (h : p.length < g) :
    scanChunked p = (scanChunks g p).andThen fun _ rest => scanTrailers g rest := by
  unfold scanChunked
  rw [scanChunks_guard (p.length + 1) g p (by omega) h]
  cases hs : scanChunks g p with
  | ok u rest =>
    have hr := scanChunks_length g p hs
    simp only [Scan.andThen]
    exact scanTrailers_guard _ _ rest (by omega) (by omega)
  | _ => rfl

/-- **The scanner's verdict on a prefix of the stream is its verdict on the
stream.** -/
theorem stable_scanChunked : Stable scanChunked := by
  have h : ∀ g, Stable fun p => (scanChunks g p).andThen fun _ rest => scanTrailers g rest :=
    fun g => (stable_scanChunks g).andThen fun _ => stable_scanTrailers g
  refine Stable.of_push fun i x hi => ?_
  have hg : (i ++ x).length < i.length + x.length + 1 := by simp
  rw [scanChunked_guard (show i.length < i.length + x.length + 1 by omega)] at hi ⊢
  rw [scanChunked_guard hg]
  exact (h _).push hi x

end BoltApi.Http1.ChunkedScan
