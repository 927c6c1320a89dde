import BoltApi.Http1.ChunkedGrammar

/-! # The chunked coding of RFC 9112

The grammar of section 7.1 over the same syntax trees, compared with what the
scanner accepts. They differ in three places: the scanner skips whatever stands
behind the digits of a size line, it does not look at the lines of the trailer
section, and it refuses a size of more than sixteen digits also when its value
is small. `scanChunked_conforms_iff` says that these are all. -/
namespace BoltApi.Http1.ChunkedRfc
open Octets Lib.Scanning Chunked ChunkedScan List
open ChunkedGrammar

/-! ## The grammar -/

def isFieldOctet (c : UInt8) : Bool := c = HTAB ∨ (0x20 ≤ c ∧ c ≠ 0x7F)

def isQdtext (c : UInt8) : Bool := isFieldOctet c ∧ c ≠ 0x22 ∧ c ≠ 0x5C

def Bws (w : Bytes) : Prop := ∀ c ∈ w, c = SP ∨ c = HTAB

def Token (w : Bytes) : Prop := w ≠ [] ∧ ∀ c ∈ w, isTokenChar c

inductive QuotedText : Bytes → Prop
  | nil : QuotedText []
  | text {c : UInt8} {w : Bytes} : isQdtext c → QuotedText w → QuotedText (c :: w)
  | pair {c : UInt8} {w : Bytes} :
    isFieldOctet c → QuotedText w → QuotedText (0x5C :: c :: w)

inductive ExtVal : Bytes → Prop
  | token {w : Bytes} : Token w → ExtVal w
  | quoted {w : Bytes} : QuotedText w → ExtVal (0x22 :: (w ++ [0x22]))

inductive ChunkExt : Bytes → Prop
  | bws {b : Bytes} : Bws b → ChunkExt b
  | name {b b' n w : Bytes} :
    Bws b → Bws b' → Token n → ChunkExt w → ChunkExt (b ++ 0x3B :: (b' ++ (n ++ w)))
  | value {b b' n b₁ b₂ v w : Bytes} :
    Bws b → Bws b' → Token n → Bws b₁ → Bws b₂ → ExtVal v → ChunkExt w →
      ChunkExt (b ++ 0x3B :: (b' ++ (n ++ (b₁ ++ 0x3D :: (b₂ ++ (v ++ w))))))

def FieldLine (l : Bytes) : Prop :=
  ∃ n v, l = n ++ COLON :: v ∧ Token n ∧ ∀ c ∈ v, isFieldOctet c

structure RfcLine (l : SizeLine) (size : Nat) : Prop where
  hex : ∀ c ∈ l.digits, (hexVal c).isSome
  pos : l.digits ≠ []
  value : hexValue l.digits = size
  fits64 : size < 2 ^ 64
  ext : ChunkExt l.tail

/-- chunked-body, within the line limit. -/
structure RfcBody (t : ChunkedBody) : Prop where
  chunks : ∀ c ∈ t.chunks, RfcLine c.line c.data.length ∧ c.data ≠ []
  last : RfcLine t.last 0
  trailers : ∀ l ∈ t.trailers, FieldLine l
  fits : ∀ l ∈ t.sizeLines, l.Fits

/-! ## Its lines can be cut -/

def Unbroken (w : Bytes) : Prop := ∀ c ∈ w, c ≠ CR ∧ c ≠ LF

variable {w : Bytes}

theorem Unbroken.append {v} (hv : Unbroken v) (hw : Unbroken w) :
    Unbroken (v ++ w) := fun c hc => (mem_append.mp hc).elim (hv c) (hw c)

variable {c : UInt8}

theorem Unbroken.cons (hc : c ≠ CR ∧ c ≠ LF) (hw : Unbroken w) : Unbroken (c :: w) := by
  intro d hd
  rcases mem_cons.mp hd with rfl | hd
  · exact hc
  · exact hw d hd

theorem unbroken_of_class {good : UInt8 → Bool} (hcr : good CR = false) (hlf : good LF = false)
    (hc : good c) : c ≠ CR ∧ c ≠ LF := by
  refine ⟨?_, ?_⟩
  · rintro rfl
    rw [hcr] at hc
    cases hc
  · rintro rfl
    rw [hlf] at hc
    cases hc

theorem Bws.unbroken (h : Bws w) : Unbroken w := by
  intro c hc
  rcases h c hc with rfl | rfl <;> decide

theorem Token.unbroken (h : Token w) : Unbroken w :=
  fun c hc => unbroken_of_class (by decide) (by decide) (h.2 c hc)

theorem fieldOctet_unbroken (h : isFieldOctet c) : c ≠ CR ∧ c ≠ LF :=
  unbroken_of_class (by decide) (by decide) h

theorem QuotedText.unbroken (h : QuotedText w) : Unbroken w := by
  induction h with
  | nil => exact fun c hc => absurd hc (by simp)
  | text hc _ ih => exact ih.cons (unbroken_of_class (by decide) (by decide) hc)
  | pair hc _ ih => exact Unbroken.cons (by decide) (ih.cons (fieldOctet_unbroken hc))

theorem ExtVal.unbroken (h : ExtVal w) : Unbroken w := by
  cases h with
  | token ht => exact ht.unbroken
  | quoted hq =>
    refine Unbroken.cons (by decide) (hq.unbroken.append ?_)
    exact Unbroken.cons (by decide) fun c hc => absurd hc (by simp)

theorem ChunkExt.unbroken (h : ChunkExt w) : Unbroken w := by
  induction h with
  | bws hb => exact hb.unbroken
  | name hb hb' hn _ ih =>
    exact hb.unbroken.append (.cons (by decide) (hb'.unbroken.append (hn.unbroken.append ih)))
  | value hb hb' hn h₁ h₂ hv _ ih =>
    have heq : (0x3D : UInt8) ≠ CR ∧ (0x3D : UInt8) ≠ LF := by decide
    have htail := h₁.unbroken.append (.cons heq (h₂.unbroken.append (hv.unbroken.append ih)))
    exact hb.unbroken.append (.cons (by decide) (hb'.unbroken.append (hn.unbroken.append htail)))

theorem ChunkExt.head (h : ChunkExt w) : ∀ c ∈ w.head?, c = SP ∨ c = HTAB ∨ c = 0x3B := by
  have hbws : ∀ {b x : Bytes}, Bws b → ∀ c ∈ (b ++ 0x3B :: x).head?,
      c = SP ∨ c = HTAB ∨ c = 0x3B := by
    intro b x hb c hc
    cases b with
    | nil => exact Or.inr (Or.inr (by simpa [eq_comm] using hc))
    | cons d b =>
      have hd : d = c := by simpa using hc
      subst hd
      rcases hb d (by simp) with h | h
      · exact Or.inl h
      · exact Or.inr (Or.inl h)
  cases h with
  | bws hb =>
    intro c hc
    rcases hb c (mem_of_mem_head? hc) with h | h
    · exact Or.inl h
    · exact Or.inr (Or.inl h)
  | name hb => exact hbws hb
  | value hb => exact hbws hb

theorem RfcLine.framed {l size} (h : RfcLine l size) : l.Framed size := by
  refine ⟨h.hex, h.pos, ?_, h.ext.unbroken, h.value⟩
  intro c hc
  rcases h.ext.head c hc with rfl | rfl | rfl <;> decide

theorem FieldLine.framed {l} (h : FieldLine l) : l ≠ [] ∧ LF ∉ l := by
  obtain ⟨n, v, rfl, hn, hv⟩ := h
  have hun : Unbroken (n ++ COLON :: v) :=
    hn.unbroken.append (.cons (by decide) fun c hc => fieldOctet_unbroken (hv c hc))
  exact ⟨by simp, fun hlf => (hun LF hlf).2 rfl⟩

variable {t : ChunkedBody}

theorem RfcBody.framed (h : RfcBody t) : t.Framed :=
  ⟨fun c hc => ⟨(h.chunks c hc).1.framed, (h.chunks c hc).2⟩, h.last.framed,
    fun l hl => (h.trailers l hl).framed⟩

/-! ## The scanner against the grammar -/

theorem Short.fits64 {l : SizeLine} {size : Nat} (h : l.Framed size) (hs : l.Short) :
    size < 2 ^ 64 := by
  have hlt := hexValue_lt l.digits
  have hpow : (16 : Nat) ^ l.digits.length ≤ 16 ^ 16 := Nat.pow_le_pow_right (by omega) hs
  have h64 : (16 : Nat) ^ 16 = 2 ^ 64 := by decide
  rw [h.value] at hlt
  omega

/-- The lines of `t` are as the grammar has them, the number of digits apart. -/
structure WellFormedLines (t : ChunkedBody) : Prop where
  exts : ∀ l ∈ t.sizeLines, ChunkExt l.tail
  trailers : ∀ l ∈ t.trailers, FieldLine l

theorem rfcBody_of_scannable (h : t.Scannable) (hw : WellFormedLines t) : RfcBody t := by
  have hline : ∀ {l : SizeLine} {size : Nat}, l ∈ t.sizeLines → l.Framed size → RfcLine l size :=
    fun hl hf => ⟨hf.hex, hf.pos, hf.value, Short.fits64 hf (h.short _ hl), hw.exts _ hl⟩
  refine ⟨fun c hc => ⟨hline ?_ (h.framed.chunks c hc).line, (h.framed.chunks c hc).data⟩,
    hline ?_ h.framed.last, hw.trailers, h.fits⟩
  · exact mem_append_left _ (mem_map_of_mem hc)
  · exact mem_append_right _ (mem_singleton_self _)

theorem RfcBody.wellFormedLines (h : RfcBody t) : WellFormedLines t := by
  refine ⟨fun l hl => ?_, h.trailers⟩
  rcases mem_append.mp hl with hl | hl
  · obtain ⟨c, hc, rfl⟩ := mem_map.mp hl
    exact (h.chunks c hc).1.ext
  · rw [mem_singleton.mp hl]
    exact h.last.ext

/-- The inputs on which the scanner and the grammar agree: where the body at
the front of `B` has sizes of at most sixteen digits, all its lines are well
formed; and where it is a body of the grammar, its sizes have at most sixteen
digits. -/
structure Regular (B : Bytes) : Prop where
  lines : ∀ t : ChunkedBody, t.Scannable → t.encode <+: B → WellFormedLines t
  sizes : ∀ t : ChunkedBody, RfcBody t → t.encode <+: B → ∀ l ∈ t.sizeLines, l.Short

/-- **The scanner accepts exactly the chunked bodies of the grammar, on the
regular inputs and on no others.** -/
theorem scanChunked_conforms_iff (B : Bytes) :
    ((∃ rest, scanChunked B = .ok () rest) ↔ ∃ t : ChunkedBody, RfcBody t ∧ t.encode <+: B) ↔
      Regular B := by
  have hscan : (∃ rest, scanChunked B = .ok () rest) ↔
      ∃ t : ChunkedBody, t.Scannable ∧ t.encode <+: B := by
    refine ⟨?_, ?_⟩
    · rintro ⟨rest, h⟩
      obtain ⟨t, ht, rfl⟩ := scanChunked_ok_iff.mp h
      exact ⟨t, ht, rest, rfl⟩
    · rintro ⟨t, ht, rest, rfl⟩
      exact ⟨rest, scanChunked_ok_iff.mpr ⟨t, ht, rfl⟩⟩
  rw [hscan]
  refine ⟨fun hiff => ⟨fun t ht hB => ?_, fun t ht hB => ?_⟩, fun hreg => ⟨?_, ?_⟩⟩
  · -- the grammar's tree is the scanner's, for a text has only one
    obtain ⟨t', ht', hB'⟩ := hiff.mp ⟨t, ht, hB⟩
    rw [encode_unique ht.framed ht'.framed hB hB']
    exact ht'.wellFormedLines
  · obtain ⟨t', ht', hB'⟩ := hiff.mpr ⟨t, ht, hB⟩
    rw [encode_unique ht.framed ht'.framed hB hB']
    exact ht'.short
  · rintro ⟨t, ht, hB⟩
    exact ⟨t, rfcBody_of_scannable ht (hreg.lines t ht hB), hB⟩
  · rintro ⟨t, ht, hB⟩
    exact ⟨t, ⟨ht.framed, hreg.sizes t ht hB, ht.fits⟩, hB⟩

/-- `5xyz` passes for a chunk size: the scanner reads on to the CRLF, where the
grammar has no body at all. -/
theorem scanChunked_accepts_junk :
    scanChunked (ascii "5xyz\r\nhello\r\n0\r\n\r\n") = .ok () [] ∧
      ¬ ∃ t : ChunkedBody, RfcBody t ∧ t.encode <+: ascii "5xyz\r\nhello\r\n0\r\n\r\n" := by
  have hscan : scanChunked (ascii "5xyz\r\nhello\r\n0\r\n\r\n") = .ok () [] := by decide
  refine ⟨hscan, ?_⟩
  rintro ⟨t, ht, hB⟩
  have hjunk : ChunkedBody.Framed
      ⟨[⟨⟨ascii "5", ascii "xyz"⟩, ascii "hello"⟩], ⟨ascii "0", []⟩, []⟩ := by
    refine ⟨?_, ⟨by decide +kernel, by decide, by decide +kernel, by decide +kernel, by decide⟩,
      by decide⟩
    intro c hc
    rw [mem_singleton.mp hc]
    exact ⟨⟨by decide +kernel, by decide, by decide +kernel, by decide +kernel, by decide⟩,
      by decide⟩
  have heq := encode_unique ht.framed hjunk hB (by decide)
  have hext := ht.wellFormedLines.exts ⟨ascii "5", ascii "xyz"⟩ (by rw [heq]; decide)
  exact absurd (hext.head 0x78 (by decide)) (by decide)

end BoltApi.Http1.ChunkedRfc
