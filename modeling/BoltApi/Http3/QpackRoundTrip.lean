import BoltApi.Hpack.RoundTrip
import BoltApi.Http3.Qpack

/-! # The QPACK decoder reads back what the encoder writes

Integers, strings, lines, and then whole field sections; and the room an
encoded section needs. -/
namespace BoltApi.Http3.QpackRoundTrip
open Octets Hpack Hpack.Codec Hpack.RoundTrip List
  Hpack.HuffmanRoundTrip QpackHuffman Qpack

/-! ## Integers -/

variable {v : Nat}

theorem decodeIntegerLoop_le {n shift acc input rest}
    (h : decodeIntegerLoop n shift acc input = some (v, rest)) : acc ≤ v := by
  induction n generalizing shift acc input with
  | zero => cases h
  | succ n ih =>
    cases input with
    | nil => cases h
    | cons b input =>
      simp only [decodeIntegerLoop] at h
      split at h
      · cases h
        exact Nat.le_add_right _ _
      · exact Nat.le_trans (Nat.le_add_right _ _) (ih h)

theorem qpackDecodeIntLoop_of_hpack {n guard shift acc input rest}
    (h : decodeIntegerLoop n shift acc input = some (v, rest)) (hguard : n ≤ guard)
    (hs : shift + 7 * n ≤ 63) (hv : v ≤ kQpackMaxIntValue) :
    qpackDecodeIntLoop guard shift acc input = some (v, rest) := by
  induction n generalizing guard shift acc input with
  | zero => cases h
  | succ n ih =>
    obtain ⟨guard, rfl⟩ : ∃ g, guard = g + 1 := ⟨guard - 1, by omega⟩
    cases input with
    | nil => cases h
    | cons b input =>
      simp only [decodeIntegerLoop] at h
      have hle : acc + (b &&& 0x7F).toNat * 2 ^ shift ≤ v := by
        split at h
        · cases h
          exact Nat.le_refl _
        · exact decodeIntegerLoop_le h
      have hlt : (b &&& 0x7F).toNat * 2 ^ shift < 2 ^ 64 := by
        simp only [kQpackMaxIntValue] at hv
        omega
      simp only [qpackDecodeIntLoop]
      rw [if_neg (by omega), Nat.mod_eq_of_lt hlt,
        if_neg (not_not.mpr (Nat.mul_div_cancel _ (Nat.two_pow_pos shift))), if_neg (by omega)]
      split at h
      · next hlast => rw [if_pos hlast, h]
      · next hmore => rw [if_neg hmore, ih h (by omega) (by omega)]

variable {cap p k : Nat} {out : Bytes}

theorem qpackDecodeInt_encode {pattern} (h : qpackEncodeInt v p pattern cap = some out)
    (hf : pattern.toNat = 2 ^ p * k) (hp : p ≤ 8) (hp1 : 1 ≤ p) (hv : v < 128 ^ 5) :
    ∃ b tail, out = b :: tail ∧ b.toNat / 2 ^ p = k ∧
      ∀ rest, qpackDecodeInt (b :: (tail ++ rest)) p = some (v, rest) := by
  obtain ⟨b, tail, rfl, hb, hread⟩ := decodeInteger_encode h hf hp hp1 hv
  refine ⟨b, tail, rfl, hb, fun rest => ?_⟩
  have hread := hread rest
  simp only [decodeInteger] at hread
  simp only [qpackDecodeInt]
  split at hread
  · next hlt => rw [if_pos hlt, hread]
  next hge =>
  rw [if_neg hge]
  exact qpackDecodeIntLoop_of_hpack hread (by decide) (by decide)
    (by simp only [kQpackMaxIntValue]; omega)

/-! ## Strings -/

theorem testBit_flag {b} (h : b / 2 ^ p = k) : b.testBit p = decide (k % 2 = 1) := by
  rw [Nat.testBit_eq_decide_div_mod_eq, h]

variable {useHuffman : Bool} {str : Bytes}

theorem decodeString_encode {pattern huffmanBit : UInt8} (h : encodeStringImpl useHuffman str pattern p huffmanBit cap = some out)
    (hf : pattern.toNat = 2 ^ p * (2 * k)) (hh : (pattern ||| huffmanBit).toNat = 2 ^ p * (2 * k + 1))
    (hp : p ≤ 7) (hp1 : 1 ≤ p) (hlen : str.length ≤ kQpackMaxStringLen) :
    ∃ b tail, out = b :: tail ∧ b.toNat / 2 ^ (p + 1) = k ∧
      ∀ rest, QpackDecoder.decodeString (b :: (tail ++ rest)) p = some (str, rest) := by
  have hsmall : kQpackMaxStringLen < 128 ^ 5 := by decide
  have htop : ∀ {b j : Nat}, b / 2 ^ p = 2 * k + j → j < 2 → b / 2 ^ (p + 1) = k := by
    intro b j hb hj
    rw [Nat.pow_succ, ← Nat.div_div_eq_div_mul, hb]
    omega
  unfold encodeStringImpl at h
  split at h
  · next hhuff =>
    split at h
    · cases h
    next len hint =>
    obtain ⟨coded, hcoded, rfl⟩ := Option.map_eq_some_iff.mp h
    obtain ⟨hsize, hdec⟩ := qpackHuffmanDecode_encode hcoded hlen
    obtain ⟨b, tail, rfl, hb, hread⟩ := qpackDecodeInt_encode hint hh (by omega) hp1 (by omega)
    refine ⟨b, tail ++ coded, rfl, htop hb (by omega), fun rest => ?_⟩
    have hroom : ¬ (kQpackMaxStringLen < qpackHuffmanEncodedSize str ∨
        (coded ++ rest).length < qpackHuffmanEncodedSize str) := by
      rw [length_append, hsize]
      omega
    have hflag : b.toNat.testBit p := by
      rw [testBit_flag hb]
      exact decide_eq_true (by omega)
    simp only [QpackDecoder.decodeString, append_assoc, hread]
    rw [if_neg hroom, if_pos hflag, ← hsize, take_left, drop_left]
    have hscratch : qpackHuffmanDecode coded kQpackHuffmanScratch = some str := hdec
    rw [hscratch, Option.map_some]
  split at h
  · cases h
  next len hint =>
  split at h
  · cases h
  obtain rfl := Option.some.inj h
  obtain ⟨b, tail, rfl, hb, hread⟩ := qpackDecodeInt_encode hint hf (by omega) hp1 (by omega)
  refine ⟨b, tail ++ str, rfl, htop (j := 0) hb (by omega), fun rest => ?_⟩
  have hroom : ¬ (kQpackMaxStringLen < str.length ∨ (str ++ rest).length < str.length) := by
    rw [length_append]
    omega
  have hflag : ¬ b.toNat.testBit p := by
    rw [testBit_flag hb, decide_eq_true_eq]
    omega
  simp only [QpackDecoder.decodeString, append_assoc, hread]
  rw [if_neg hroom, if_neg hflag, take_left, drop_left]

theorem decodeValue_encode
    (h : encodeString useHuffman str cap = some out) (hlen : str.length ≤ kQpackMaxStringLen)
    (rest : Bytes) : QpackDecoder.decodeString (out ++ rest) 7 = some (str, rest) := by
  obtain ⟨b, tail, rfl, -, hread⟩ := decodeString_encode (k := 0) h rfl rfl (by decide) (by decide) hlen
  exact hread rest

/-! ## Lines -/

/-- A header within the limits of the codec. -/
structure Within (h : QpackHeader) : Prop where
  name : h.name.length ≤ kQpackMaxStringLen
  value : h.value.length ≤ kQpackMaxStringLen

theorem staticTable_length : staticTable.length = 99 := by decide +kernel

variable {i : Nat}

theorem findIdx_get {q} (h : staticTable.findIdx? q = some i) :
    i < 99 ∧ ∃ e, staticTable[i]? = some e ∧ q e := by
  obtain ⟨hlt, hq, -⟩ := List.findIdx?_eq_some_iff_getElem.mp h
  exact ⟨staticTable_length ▸ hlt, _, List.getElem?_eq_getElem hlt, hq⟩

theorem line_masks (b : UInt8) : (b &&& 0x80 ≠ 0 ↔ 128 ≤ b.toNat) ∧
    (b &&& 0x40 ≠ 0 ↔ 64 ≤ b.toNat % 128) ∧ (b &&& 0x20 ≠ 0 ↔ 32 ≤ b.toNat % 64) ∧
    (b &&& 0x10 ≠ 0 ↔ 16 ≤ b.toNat % 32) := by
  have hall : ∀ n < 256, (n &&& 0x80 ≠ 0 ↔ 128 ≤ n) ∧ (n &&& 0x40 ≠ 0 ↔ 64 ≤ n % 128) ∧
      (n &&& 0x20 ≠ 0 ↔ 32 ≤ n % 64) ∧ (n &&& 0x10 ≠ 0 ↔ 16 ≤ n % 32) := by decide +kernel
  obtain ⟨h80, h40, h20, h10⟩ := hall b.toNat b.toNat_lt
  simp only [ne_eq, ← UInt8.toNat_inj, UInt8.toNat_and]
  exact ⟨h80, h40, h20, h10⟩

/-- The decoder takes what the encoder wrote for a header. -/
def Reads (h : QpackHeader) (out : Bytes) : Prop :=
  ∃ b tail, out = b :: tail ∧ ∀ (d : QpackDecoder) (rest : Bytes),
    d.decodeOneLine b (b :: (tail ++ rest)) = some (h, rest)

variable {h : QpackHeader}

theorem indexed_reads
    (hfind : staticFind h.name h.value = some i) (henc : qpackEncodeInt i 6 0xC0 cap = some out) :
    Reads h out := by
  obtain ⟨hlt, e, hget, heq⟩ := findIdx_get hfind
  simp only [Bool.and_eq_true, beq_iff_eq] at heq
  obtain ⟨b, tail, rfl, hb, hread⟩ := qpackDecodeInt_encode (k := 3) henc rfl (by decide) (by decide)
    (by omega)
  refine ⟨b, tail, rfl, fun d rest => ?_⟩
  obtain ⟨h80, h40, -⟩ := line_masks b
  have hstatic : decide (b &&& 0x40 ≠ 0) := decide_eq_true (h40.mpr (by omega))
  have he : e = h := by
    cases e
    cases h
    simp_all
  rw [QpackDecoder.decodeOneLine, if_pos (h80.mpr (by omega)), QpackDecoder.decodeIndexedLine, hread]
  simp only [hstatic, QpackDecoder.resolve, if_true, hget, he, Option.map_some]

theorem nameRef_reads {room name value} (hw : Within h) (hfind : staticFindName h.name = some i)
    (henc : qpackEncodeInt i 4 0x50 cap = some name)
    (hvalue : encodeString useHuffman h.value room = some value) : Reads h (name ++ value) := by
  obtain ⟨hlt, e, hget, heq⟩ := findIdx_get hfind
  obtain ⟨b, tail, rfl, hb, hread⟩ := qpackDecodeInt_encode (k := 5) henc rfl (by decide) (by decide)
    (by omega)
  refine ⟨b, tail ++ value, rfl, fun d rest => ?_⟩
  obtain ⟨h80, h40, -, h10⟩ := line_masks b
  have hstatic : decide (b &&& 0x10 ≠ 0) := decide_eq_true (h10.mpr (by omega))
  rw [QpackDecoder.decodeOneLine, if_neg (fun hc => absurd (h80.mp hc) (by omega)),
    if_pos (h40.mpr (by omega)), QpackDecoder.decodeNameRefLine, append_assoc, hread]
  simp only [hstatic, QpackDecoder.resolve, if_true, hget, decodeValue_encode hvalue hw.value,
    Option.map_some, beq_iff_eq.mp heq]

theorem literal_reads (hw : Within h)
    (henc : encodeLiteralNameLine useHuffman h cap = some out) : Reads h out := by
  unfold encodeLiteralNameLine at henc
  split at henc
  · cases henc
  next name hname =>
  obtain ⟨value, hvalue, rfl⟩ := Option.map_eq_some_iff.mp henc
  obtain ⟨b, tail, rfl, hb, hread⟩ := decodeString_encode (k := 2) hname rfl rfl (by decide)
    (by decide) hw.name
  refine ⟨b, tail ++ value, rfl, fun d rest => ?_⟩
  obtain ⟨h80, h40, h20, -⟩ := line_masks b
  rw [QpackDecoder.decodeOneLine, if_neg (fun hc => absurd (h80.mp hc) (by omega)),
    if_neg (fun hc => absurd (h40.mp hc) (by omega)), if_pos (h20.mpr (by omega)),
    QpackDecoder.decodeLiteralNameLine, append_assoc, hread]
  simp only [decodeValue_encode hvalue hw.value, Option.map_some]

theorem encodeOneLine_reads
    (hw : Within h) (henc : encodeOneLine useHuffman h cap = some out) : Reads h out := by
  unfold encodeOneLine at henc
  split at henc
  · next i hfind => exact indexed_reads hfind henc
  split at henc
  · next i hfind =>
    split at henc
    · cases henc
    · next name hname =>
      obtain ⟨value, hvalue, rfl⟩ := Option.map_eq_some_iff.mp henc
      exact nameRef_reads hw hfind hname hvalue
  · exact literal_reads hw henc

/-! ## Field sections -/

theorem decodeLines_encode (d : QpackDecoder) (headers : List QpackHeader) :
    ∀ {cap left : Nat} {out : Bytes}, (∀ h ∈ headers, Within h) → headers.length ≤ left →
      encodeLines useHuffman headers cap = some out → d.decodeLines left out = some headers := by
  induction headers with
  | nil =>
    intro cap left out _ _ henc
    cases henc
    cases left <;> rfl
  | cons h headers ih =>
    intro cap left out hw hleft henc
    rw [length_cons] at hleft
    obtain ⟨left, rfl⟩ : ∃ l, left = l + 1 := ⟨left - 1, by omega⟩
    simp only [encodeLines] at henc
    split at henc
    · cases henc
    next line hline =>
    obtain ⟨lines, hlines, rfl⟩ := Option.map_eq_some_iff.mp henc
    obtain ⟨b, tail, rfl, hread⟩ := encodeOneLine_reads (hw h mem_cons_self) hline
    rw [cons_append, QpackDecoder.decodeLines, hread]
    simp only [ih (fun g hg => hw g (mem_cons_of_mem _ hg)) (Nat.le_of_succ_le_succ hleft) hlines,
      Option.map_some]

theorem encodeFieldSection_eq (useHuffman : Bool) (headers : List QpackHeader) (hcap : 2 ≤ cap) :
    encodeFieldSection useHuffman headers cap =
      (encodeLines useHuffman headers (cap - 2)).map ([0, 0] ++ ·) := by
  have hcount : qpackEncodeInt 0 8 0x00 cap = some [0] :=
    if_neg (by rw [show (integerOctets 0 0 8).length = 1 from rfl]; omega)
  have hbase : qpackEncodeInt 0 7 0x00 (cap - 1) = some [0] :=
    if_neg (by rw [show (integerOctets 0 0 7).length = 1 from rfl]; omega)
  simp only [encodeFieldSection, hcount, length_singleton, hbase, Nat.sub_sub, cons_append,
    nil_append]

theorem encodeFieldSection_small {headers} (hcap : cap < 2) :
    encodeFieldSection useHuffman headers cap = none := by
  obtain rfl | rfl : cap = 0 ∨ cap = 1 := by omega
  · rfl
  · rfl

/-! ## The room a section needs -/

theorem encodeIntegerLoop_length (left v : Nat) : (encodeIntegerLoop left v).length ≤ left + 1 := by
  induction left generalizing v with
  | zero => exact Nat.le_refl 1
  | succ left ih =>
    simp only [encodeIntegerLoop]
    split
    · exact Nat.le_add_left 1 (left + 1)
    · exact Nat.succ_le_succ (ih _)

theorem qpackEncodeInt_fits (pattern : UInt8) (h : 11 ≤ cap) :
    ∃ out, qpackEncodeInt v p pattern cap = some out ∧ out.length ≤ 11 := by
  have hlen : (integerOctets pattern v p).length ≤ 11 := by
    simp only [integerOctets]
    split
    · exact Nat.le_add_left 1 10
    · exact Nat.succ_le_succ (encodeIntegerLoop_length 9 _)
  exact ⟨_, if_neg (by omega), hlen⟩

theorem encodeStringImpl_fits (useHuffman : Bool) (pattern huffmanBit : UInt8)
    (h : 11 + str.length ≤ cap) :
    ∃ out, encodeStringImpl useHuffman str pattern p huffmanBit cap = some out ∧
      out.length ≤ 11 + str.length := by
  unfold encodeStringImpl
  split
  · next hhuff =>
    obtain ⟨len, hint, hlen⟩ := qpackEncodeInt_fits (v := qpackHuffmanEncodedSize str) (p := p)
      (pattern ||| huffmanBit) (show 11 ≤ cap by omega)
    have hcoded : qpackHuffmanEncode str (cap - len.length) =
        some (str.foldl Huffman.BitBuffer.push {}).finish := if_neg (by omega)
    have hsize : (str.foldl Huffman.BitBuffer.push {}).finish.length = qpackHuffmanEncodedSize str :=
      finish_length str
    rw [hint]
    refine ⟨_, congrArg (Option.map _) hcoded, ?_⟩
    rw [length_append, hsize]
    omega
  obtain ⟨len, hint, hlen⟩ := qpackEncodeInt_fits (v := str.length) (p := p) pattern
    (show 11 ≤ cap by omega)
  rw [hint]
  refine ⟨_, if_neg (by omega), ?_⟩
  rw [length_append]
  omega

def lineRoom (h : QpackHeader) : Nat := 22 + h.name.length + h.value.length

theorem encodeOneLine_fits (hcap : lineRoom h ≤ cap) :
    ∃ out, encodeOneLine useHuffman h cap = some out ∧ out.length ≤ lineRoom h := by
  unfold lineRoom at hcap
  unfold encodeOneLine lineRoom
  split
  · next i _ =>
    obtain ⟨out, hout, hlen⟩ := qpackEncodeInt_fits (v := i) (p := 6) 0xC0 (show 11 ≤ cap by omega)
    exact ⟨out, hout, by omega⟩
  split
  · next i _ =>
    obtain ⟨name, hname, hlen⟩ := qpackEncodeInt_fits (v := i) (p := 4) 0x50 (show 11 ≤ cap by omega)
    obtain ⟨value, hvalue, hvlen⟩ := encodeStringImpl_fits (p := 7) useHuffman 0x00 0x80
      (show 11 + h.value.length ≤ cap - name.length by omega)
    rw [hname]
    refine ⟨_, congrArg (Option.map _) hvalue, ?_⟩
    rw [length_append]
    omega
  obtain ⟨name, hname, hlen⟩ := encodeStringImpl_fits (p := 3) useHuffman 0x20 0x08
    (show 11 + h.name.length ≤ cap by omega)
  obtain ⟨value, hvalue, hvlen⟩ := encodeStringImpl_fits (p := 7) useHuffman 0x00 0x80
    (show 11 + h.value.length ≤ cap - name.length by omega)
  rw [encodeLiteralNameLine, hname]
  refine ⟨_, congrArg (Option.map _) hvalue, ?_⟩
  rw [length_append]
  omega

theorem encodeLines_fits (headers : List QpackHeader) :
    ∀ {cap : Nat}, (headers.map lineRoom).sum ≤ cap →
      ∃ out, encodeLines useHuffman headers cap = some out := by
  induction headers with
  | nil => exact fun _ => ⟨[], rfl⟩
  | cons h headers ih =>
    intro cap hcap
    rw [map_cons, sum_cons] at hcap
    obtain ⟨line, hline, hlen⟩ := encodeOneLine_fits (h := h) (show _ ≤ cap by omega)
    obtain ⟨lines, hlines⟩ := @ih (cap - line.length) (by omega)
    exact ⟨line ++ lines, by rw [encodeLines, hline]; exact congrArg (Option.map _) hlines⟩

/-- **Field sections.** For every list of at most 256 headers within the string
limit and for both Huffman settings: what the encoder writes, into a buffer of
whatever size, the decoder reads back, and a buffer with the room of the lines
is large enough. -/
theorem decodeFieldSection_encode (useHuffman : Bool) (d : QpackDecoder) (headers : List QpackHeader)
    (hcount : headers.length ≤ kQpackMaxHeaders)
    (hw : ∀ h ∈ headers, h.name.length ≤ kQpackMaxStringLen ∧ h.value.length ≤ kQpackMaxStringLen) :
    (∀ cap out, encodeFieldSection useHuffman headers cap = some out →
      d.decodeFieldSection out = some headers) ∧
    ∀ cap, 2 + (headers.map lineRoom).sum ≤ cap →
      ∃ out, encodeFieldSection useHuffman headers cap = some out := by
  constructor
  · intro cap out henc
    rcases Nat.lt_or_ge cap 2 with hsmall | hcap
    · rw [encodeFieldSection_small hsmall] at henc
      cases henc
    · rw [encodeFieldSection_eq useHuffman headers hcap] at henc
      obtain ⟨lines, hlines, rfl⟩ := Option.map_eq_some_iff.mp henc
      exact decodeLines_encode d headers (fun h hh => ⟨(hw h hh).1, (hw h hh).2⟩) hcount hlines
  · intro cap hcap
    obtain ⟨lines, hlines⟩ := @encodeLines_fits useHuffman headers (cap - 2) (by omega)
    exact ⟨[0, 0] ++ lines, by rw [encodeFieldSection_eq useHuffman headers (by omega), hlines]; rfl⟩

/-- An indexed line, a name reference and a literal name. -/
def someRequest : List QpackHeader :=
  [⟨ascii ":method", ascii "GET"⟩, ⟨ascii ":path", ascii "/index.html"⟩, ⟨ascii "x-token", ascii "a"⟩]

theorem decodeFieldSection_encode_request :
    ∃ out, encodeFieldSection true someRequest 4096 = some out ∧
      QpackDecoder.decodeFieldSection {} out = some someRequest := by
  have h := decodeFieldSection_encode true {} someRequest (by decide) (by decide +kernel)
  obtain ⟨out, hout⟩ := h.2 4096 (by decide +kernel)
  exact ⟨out, hout, h.1 4096 out hout⟩

end BoltApi.Http3.QpackRoundTrip
