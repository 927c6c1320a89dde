import BoltApi.Http1.ChunkedScan

/-! # The shape of a chunked body

A chunked body as a syntax tree with its encoding. The scanner accepts the
encodings of the trees that respect its limits (`scanChunked_ok_iff`), and a
text has at most one tree, with or without the limits (`encode_unique`). -/
namespace BoltApi.Http1.ChunkedGrammar
open Octets Lib.Scanning Chunked ChunkedScan List

@[ext]
structure Chunk where
  line : SizeLine
  data : Bytes
  deriving DecidableEq

/-- A chunked body: the chunks, the last chunk's size line and the lines of the
trailer section. -/
@[ext]
structure ChunkedBody where
  chunks : List Chunk
  last : SizeLine
  trailers : List Bytes

def Chunk.encode (c : Chunk) : Bytes := c.line.encode ++ c.data ++ CRLF

def encodeChunks (cs : List Chunk) : Bytes := cs.flatMap Chunk.encode

def encodeTrailers (ls : List Bytes) : Bytes := ls.flatMap (· ++ CRLF) ++ CRLF

namespace ChunkedBody

def encode (t : ChunkedBody) : Bytes :=
  encodeChunks t.chunks ++ (t.last.encode ++ encodeTrailers t.trailers)

def payload (t : ChunkedBody) : Bytes := t.chunks.flatMap Chunk.data

def sizeLines (t : ChunkedBody) : List SizeLine := t.chunks.map Chunk.line ++ [t.last]

end ChunkedBody

/-- A chunk that is not the last one. -/
structure Chunk.Framed (c : Chunk) : Prop where
  line : c.line.Framed c.data.length
  data : c.data ≠ []

/-- The tree can be read back from its encoding. -/
structure ChunkedBody.Framed (t : ChunkedBody) : Prop where
  chunks : ∀ c ∈ t.chunks, c.Framed
  last : t.last.Framed 0
  trailers : ∀ l ∈ t.trailers, l ≠ [] ∧ LF ∉ l

structure ChunkedBody.Scannable (t : ChunkedBody) : Prop where
  framed : t.Framed
  short : ∀ l ∈ t.sizeLines, l.Short
  fits : ∀ l ∈ t.sizeLines, l.Fits

/-! ## Acceptance -/

theorem encodeTrailers_cons (l : Bytes) (ls : List Bytes) (r : Bytes) :
    encodeTrailers (l :: ls) ++ r = (l ++ [CR]) ++ LF :: (encodeTrailers ls ++ r) := by
  simp [encodeTrailers, CRLF]

theorem scanTrailers_ok_iff {r} : ∀ {g : Nat} {p : Bytes}, p.length < g →
    (scanTrailers g p = .ok () r ↔
      ∃ ls : List Bytes, p = encodeTrailers ls ++ r ∧ ∀ l ∈ ls, l ≠ [] ∧ LF ∉ l)
  | 0, p, hg => by omega
  | g + 1, p, hg => by
    rw [scanTrailers_succ]
    constructor
    · intro h
      cases hl : trailerLine p with
      | ok line rest =>
        rw [hl] at h
        simp only [Scan.andThen] at h
        obtain ⟨rfl, hline⟩ := spanUntil_ok hl
        by_cases hcr : line.getLast? = some CR
        · obtain ⟨l, rfl⟩ := List.getLast?_eq_some_iff.mp hcr
          rw [if_neg (by simp [hcr])] at h
          by_cases h1 : (l ++ [CR]).length = 1
          · rw [if_pos h1] at h
            cases h
            have hnil : l = [] := by simpa using h1
            exact ⟨[], by simp [encodeTrailers, CRLF, hnil], by simp⟩
          rw [if_neg h1] at h
          have hlen : rest.length < g := by simp at hg; omega
          obtain ⟨ls, rfl, hls⟩ := (scanTrailers_ok_iff hlen).mp h
          refine ⟨l :: ls, (encodeTrailers_cons l ls r).symm, ?_⟩
          intro b hb
          rcases mem_cons.mp hb with rfl | hb
          · refine ⟨by simpa using h1, fun hlf => (hline LF (by simp [hlf])).1 rfl⟩
          · exact hls b hb
        · rw [if_pos hcr] at h
          cases h
      | _ => rw [hl] at h; cases h
    rintro ⟨ls, rfl, hls⟩
    cases ls with
    | nil =>
      have hline : trailerLine (encodeTrailers [] ++ r) = .ok [CR] r :=
        spanUntil_append (v := [CR]) (fun b hb => by rw [mem_singleton.mp hb]; decide) r
      rw [hline]
      rfl
    | cons l ls =>
      obtain ⟨hne, hlf⟩ := hls l (by simp)
      have hline : trailerLine (encodeTrailers (l :: ls) ++ r) =
          .ok (l ++ [CR]) (encodeTrailers ls ++ r) := by
        rw [encodeTrailers_cons]
        refine spanUntil_append (fun b hb => ?_) _
        rcases mem_append.mp hb with hb | hb
        · exact ⟨fun he => hlf (he ▸ hb), rfl⟩
        · rw [mem_singleton.mp hb]
          decide
      have hlen : (encodeTrailers ls ++ r).length < g := by
        rw [encodeTrailers_cons] at hg
        simp only [length_append, length_cons, length_nil] at hg ⊢
        omega
      rw [hline]
      simp only [Scan.andThen]
      rw [if_neg (by simp), if_neg (by simpa using hne)]
      exact (scanTrailers_ok_iff hlen).mpr ⟨ls, rfl, fun b hb => hls b (by simp [hb])⟩

theorem encodeChunks_cons (c : Chunk) (cs : List Chunk) (r : Bytes) :
    encodeChunks (c :: cs) ++ r = c.line.encode ++ (c.data ++ (CRLF ++ (encodeChunks cs ++ r))) := by
  simp [encodeChunks, Chunk.encode]

def Readable (l : SizeLine) : Prop := l.Short ∧ l.Fits

theorem scanChunks_ok_iff {r} : ∀ {g : Nat} {p : Bytes}, p.length < g →
    (scanChunks g p = .ok () r ↔
      ∃ (cs : List Chunk) (last : SizeLine), p = encodeChunks cs ++ (last.encode ++ r) ∧
        (∀ c ∈ cs, c.Framed ∧ Readable c.line) ∧ last.Framed 0 ∧ Readable last)
  | 0, p, hg => by omega
  | g + 1, p, hg => by
    rw [scanChunks_succ]
    constructor
    · intro h
      cases hl : chunkSizeLine p with
      | ok size rest =>
        have hlen := chunkSizeLine_length hl
        obtain ⟨l, rfl, hl', hread⟩ := chunkSizeLine_ok_iff.mp hl
        rw [hl] at h
        simp only [Scan.andThen] at h
        by_cases h0 : size = 0
        · rw [if_pos h0] at h
          cases h
          subst h0
          exact ⟨[], l, rfl, by simp, hl', hread⟩
        rw [if_neg h0] at h
        by_cases hmore : rest.length < size + 2
        · rw [if_pos hmore] at h
          cases h
        rw [if_neg hmore] at h
        by_cases hcrlf : (rest.drop size).take 2 = CRLF
        · rw [if_pos hcrlf] at h
          have hdrop : (rest.drop (size + 2)).length < g := by
            rw [length_drop]; omega
          obtain ⟨cs, last, hrest, hcs, hlast⟩ := (scanChunks_ok_iff hdrop).mp h
          have hsize : (rest.take size).length = size := by
            rw [length_take]; omega
          refine ⟨⟨l, rest.take size⟩ :: cs, last, ?_, ?_, hlast⟩
          · rw [encodeChunks_cons, ← hrest, ← hcrlf, ← drop_drop,
              take_append_drop, take_append_drop]
          intro c hc
          rcases mem_cons.mp hc with rfl | hc
          · refine ⟨⟨?_, ?_⟩, hread⟩
            · rw [hsize]
              exact hl'
            · intro (hnil : rest.take size = [])
              rw [hnil] at hsize
              exact h0 hsize.symm
          · exact hcs c hc
        · rw [if_neg hcrlf] at h
          cases h
      | _ => rw [hl] at h; cases h
    rintro ⟨cs, last, rfl, hcs, hlast, hread⟩
    cases cs with
    | nil =>
      have hline : chunkSizeLine (encodeChunks [] ++ (last.encode ++ r)) = .ok 0 r :=
        chunkSizeLine_ok_iff.mpr ⟨last, rfl, hlast, hread⟩
      rw [hline]
      rfl
    | cons c cs =>
      obtain ⟨hc, hcread⟩ := hcs c (by simp)
      rw [encodeChunks_cons] at hg ⊢
      have hline : chunkSizeLine (c.line.encode ++
          (c.data ++ (CRLF ++ (encodeChunks cs ++ (last.encode ++ r))))) = _ :=
        chunkSizeLine_ok_iff.mpr ⟨c.line, rfl, hc.line, hcread⟩
      have hlen := chunkSizeLine_length hline
      rw [hline]
      simp only [Scan.andThen]
      have hne : c.data.length ≠ 0 := by simpa using hc.data
      have hcrlf : CRLF.length = 2 := rfl
      rw [if_neg hne, if_neg (by simp only [length_append]; omega),
        drop_left, take_left' hcrlf, if_pos rfl,
        ← drop_drop, drop_left, drop_left' hcrlf]
      refine (scanChunks_ok_iff ?_).mpr
        ⟨cs, last, rfl, fun d hd => hcs d (by simp [hd]), hlast, hread⟩
      simp only [length_append] at hg ⊢
      omega

/-- **What the scanner accepts**: the encoding of a tree within its limits, and
it stops right behind it. -/
theorem scanChunked_ok_iff {p r} :
    scanChunked p = .ok () r ↔ ∃ t : ChunkedBody, t.Scannable ∧ p = t.encode ++ r := by
  have hguard := scanChunked_guard (g := p.length + 1) (p := p) (by omega)
  constructor
  · intro h
    rw [hguard] at h
    cases hs : scanChunks (p.length + 1) p with
    | ok u rest =>
      rw [hs] at h
      have hlen := scanChunks_length _ _ hs
      obtain ⟨cs, last, hp, hcs, hlast, hread⟩ := (scanChunks_ok_iff (by omega)).mp hs
      obtain ⟨ls, rfl, hls⟩ := (scanTrailers_ok_iff (by omega)).mp h
      have hlines : ∀ l ∈ (ChunkedBody.mk cs last ls).sizeLines, Readable l := by
        intro l hl
        rcases mem_append.mp hl with hl | hl
        · obtain ⟨c, hc, rfl⟩ := mem_map.mp hl
          exact (hcs c hc).2
        · rw [mem_singleton.mp hl]
          exact hread
      refine ⟨⟨cs, last, ls⟩, ⟨⟨fun c hc => (hcs c hc).1, hlast, hls⟩,
        fun l hl => (hlines l hl).1, fun l hl => (hlines l hl).2⟩, ?_⟩
      simp only [hp, ChunkedBody.encode, append_assoc]
    | _ => rw [hs] at h; cases h
  rintro ⟨t, ht, hp⟩
  have hread : ∀ l ∈ t.sizeLines, Readable l := fun l hl => ⟨ht.short l hl, ht.fits l hl⟩
  have hs : scanChunks (p.length + 1) p = .ok () (encodeTrailers t.trailers ++ r) := by
    refine (scanChunks_ok_iff (by omega)).mpr ⟨t.chunks, t.last, ?_, ?_, ht.framed.last, ?_⟩
    · simp only [hp, ChunkedBody.encode, append_assoc]
    · exact fun c hc => ⟨ht.framed.chunks c hc, hread _ (by
        simp only [ChunkedBody.sizeLines, mem_append, mem_map]
        exact Or.inl ⟨c, hc, rfl⟩)⟩
    · exact hread _ (by simp [ChunkedBody.sizeLines])
  have hlen := scanChunks_length _ _ hs
  rw [hguard, hs]
  exact (scanTrailers_ok_iff (by omega)).mpr ⟨t.trailers, rfl, ht.framed.trailers⟩

/-! ## A text has one tree -/

theorem SizeLine.encode_inj {l l' : SizeLine} {n n' : Nat} {x y : Bytes} (hl : l.Framed n)
    (hl' : l'.Framed n') (h : l.encode ++ x = l'.encode ++ y) : l = l' ∧ x = y := by
  have hhead : ∀ {l : SizeLine} {n : Nat}, l.Framed n → ∀ x : Bytes,
      ∀ c ∈ (l.tail ++ (CRLF ++ x)).head?, ¬ (hexVal c).isSome := by
    intro l n hl x c hc
    cases hext : l.tail with
    | nil =>
      simp only [hext, CRLF, nil_append, cons_append, List.head?_cons, Option.mem_some_iff] at hc
      subst hc
      decide
    | cons b ext =>
      have := hl.head c (by simpa [hext] using hc)
      simp [this]
  have hcr : ∀ x : Bytes, ∀ c ∈ (CRLF ++ x).head?, ¬ c ≠ CR := by
    intro x c hc
    simpa [CRLF, eq_comm] using hc
  simp only [SizeLine.encode, append_assoc] at h
  obtain ⟨hdigits, h⟩ := append_span_inj hl.hex hl'.hex (hhead hl x) (hhead hl' y) h
  obtain ⟨hext, h⟩ := append_span_inj (fun c hc => (hl.line c hc).1)
    (fun c hc => (hl'.line c hc).1) (hcr x) (hcr y) h
  exact ⟨SizeLine.ext hdigits hext, append_cancel_left h⟩

theorem trailer_inj {l l' x y} (hl : LF ∉ l) (hl' : LF ∉ l')
    (h : (l ++ [CR]) ++ LF :: x = (l' ++ [CR]) ++ LF :: y) : l = l' ∧ x = y := by
  have hgood : ∀ {l : Bytes}, LF ∉ l → ∀ c ∈ l ++ [CR], c ≠ LF := by
    intro l hl c hc
    rcases mem_append.mp hc with hc | hc
    · exact fun he => hl (he ▸ hc)
    · rw [mem_singleton.mp hc]
      decide
  have hstop : ∀ x : Bytes, ∀ c ∈ (LF :: x).head?, ¬ c ≠ LF := by
    intro x c hc
    simpa [eq_comm] using hc
  obtain ⟨hline, hrest⟩ := append_span_inj (hgood hl) (hgood hl') (hstop x) (hstop y) h
  exact ⟨append_cancel_right hline, (List.cons.inj hrest).2⟩

theorem encodeTrailers_nil (x : Bytes) : encodeTrailers [] ++ x = ([] ++ [CR]) ++ LF :: x := rfl

theorem encodeTrailers_inj {x y} : ∀ {ls ls' : List Bytes},
    (∀ l ∈ ls, l ≠ [] ∧ LF ∉ l) → (∀ l ∈ ls', l ≠ [] ∧ LF ∉ l) →
      encodeTrailers ls ++ x = encodeTrailers ls' ++ y → ls = ls' ∧ x = y
  | [], [], _, _, h => by
    rw [encodeTrailers_nil, encodeTrailers_nil] at h
    exact ⟨rfl, (trailer_inj (by simp) (by simp) h).2⟩
  | [], l' :: ls', _, h', h => by
    obtain ⟨hne, hlf⟩ := h' l' (by simp)
    rw [encodeTrailers_nil, encodeTrailers_cons] at h
    exact absurd (trailer_inj (by simp) hlf h).1.symm hne
  | l :: ls, [], hl, _, h => by
    obtain ⟨hne, hlf⟩ := hl l (by simp)
    rw [encodeTrailers_nil, encodeTrailers_cons] at h
    exact absurd (trailer_inj hlf (by simp) h).1 hne
  | l :: ls, l' :: ls', hl, h', h => by
    rw [encodeTrailers_cons, encodeTrailers_cons] at h
    obtain ⟨rfl, hrest⟩ := trailer_inj (hl l (by simp)).2 (h' l' (by simp)).2 h
    obtain ⟨rfl, hx⟩ := encodeTrailers_inj (fun b hb => hl b (by simp [hb]))
      (fun b hb => h' b (by simp [hb])) hrest
    exact ⟨rfl, hx⟩

theorem encodeChunks_inj {last last' : SizeLine} {x y : Bytes} (hlast : last.Framed 0)
    (hlast' : last'.Framed 0) : ∀ {cs cs' : List Chunk}, (∀ c ∈ cs, c.Framed) →
      (∀ c ∈ cs', c.Framed) →
        encodeChunks cs ++ (last.encode ++ x) = encodeChunks cs' ++ (last'.encode ++ y) →
          cs = cs' ∧ last = last' ∧ x = y
  | [], [], _, _, h => by
    obtain ⟨rfl, rfl⟩ := SizeLine.encode_inj hlast hlast' h
    exact ⟨rfl, rfl, rfl⟩
  | [], c' :: cs', _, h', h => by
    have hc := h' c' (by simp)
    rw [encodeChunks_cons] at h
    obtain ⟨rfl, -⟩ := SizeLine.encode_inj hlast hc.line h
    -- the same digits would announce both no data and some
    have hlen := hc.line.value.symm.trans hlast.value
    exact absurd (length_eq_zero_iff.mp hlen) hc.data
  | c :: cs, [], hcs, _, h => by
    have hc := hcs c (by simp)
    rw [encodeChunks_cons] at h
    obtain ⟨rfl, -⟩ := SizeLine.encode_inj hc.line hlast' h
    have hlen := hc.line.value.symm.trans hlast'.value
    exact absurd (length_eq_zero_iff.mp hlen) hc.data
  | c :: cs, c' :: cs', hcs, h', h => by
    have hc := hcs c (by simp)
    have hc' := h' c' (by simp)
    rw [encodeChunks_cons, encodeChunks_cons] at h
    obtain ⟨hline, hrest⟩ := SizeLine.encode_inj hc.line hc'.line h
    have hlen : c.data.length = c'.data.length := by
      rw [← hc.line.value, ← hc'.line.value, hline]
    obtain ⟨hdata, hrest⟩ := append_inj hrest hlen
    obtain ⟨rfl, hx⟩ := encodeChunks_inj hlast hlast' (fun d hd => hcs d (by simp [hd]))
      (fun d hd => h' d (by simp [hd])) (append_cancel_left hrest)
    exact ⟨by rw [Chunk.ext hline hdata], hx⟩

/-- **A text is the beginning of at most one chunked body.** -/
theorem encode_unique {t t' : ChunkedBody} (ht : t.Framed) (ht' : t'.Framed) {B : Bytes}
    (h : t.encode <+: B) (h' : t'.encode <+: B) : t = t' := by
  obtain ⟨x, rfl⟩ := h
  obtain ⟨y, hy⟩ := h'
  simp only [ChunkedBody.encode, append_assoc] at hy
  obtain ⟨hcs, hlast, hrest⟩ :=
    encodeChunks_inj ht'.last ht.last ht'.chunks ht.chunks hy
  obtain ⟨hls, -⟩ := encodeTrailers_inj ht'.trailers ht.trailers hrest
  exact ChunkedBody.ext hcs.symm hlast.symm hls.symm

end BoltApi.Http1.ChunkedGrammar
