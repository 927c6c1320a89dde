import BoltApi.Hpack.Codec
import BoltApi.Hpack.HuffmanRoundTrip

/-! # The HPACK decoder reads back what the encoder writes

Integers, strings, fields and size updates one by one, then whole blocks, then
sessions: any sequence of size changes and header lists through one encoder and
one decoder. -/
namespace BoltApi.Hpack.RoundTrip
open Octets Tables Codec HuffmanRoundTrip List

/-! ## Octets -/

theorem mask_cases : ∀ n < 256, (n &&& 0x7F = n % 128) ∧ (n &&& 0x80 = 0 ↔ n < 0x80) ∧
    (n &&& 0xC0 = 0x40 ↔ 0x40 ≤ n ∧ n < 0x80) ∧ (n &&& 0xE0 = 0x20 ↔ 0x20 ≤ n ∧ n < 0x40) ∧
    (n &&& 0x10 = 0 ↔ n % 32 < 16) := by
  decide +kernel

theorem octet_masks (b : UInt8) : (b &&& 0x7F).toNat = b.toNat % 128 ∧
    (b &&& 0x80 = 0 ↔ b.toNat < 0x80) ∧ (b &&& 0xC0 = 0x40 ↔ 0x40 ≤ b.toNat ∧ b.toNat < 0x80) ∧
    (b &&& 0xE0 = 0x20 ↔ 0x20 ≤ b.toNat ∧ b.toNat < 0x40) ∧
    (b &&& 0x10 = 0 ↔ b.toNat % 32 < 16) := by
  obtain ⟨h7F, h80, hC0, hE0, h10⟩ := mask_cases b.toNat b.toNat_lt
  simp only [← UInt8.toNat_inj, UInt8.toNat_and]
  exact ⟨h7F, h80, hC0, hE0, h10⟩

theorem toNat_flags_or {flags p k v} (hf : flags.toNat = 2 ^ p * k) (hv : v < 2 ^ p) (hp : p ≤ 8) :
    (flags ||| UInt8.ofNat v).toNat = 2 ^ p * k + v := by
  have h256 : v < 256 := Nat.lt_of_lt_of_le hv (Nat.pow_le_pow_right (by decide) hp)
  rw [UInt8.toNat_or, UInt8.toNat_ofNat_of_lt' h256, hf, Nat.two_pow_add_eq_or_of_lt hv]

/-! ## Integers -/

theorem decodeIntegerLoop_encode (n : Nat) :
    ∀ {guard shift acc v : Nat} (rest : Bytes), n ≤ guard → v < 128 ^ (n + 1) →
      decodeIntegerLoop (n + 1) shift acc (encodeIntegerLoop guard v ++ rest) =
        some (acc + v * 2 ^ shift, rest) := by
  -- the last octet
  have hlast : ∀ {m shift acc v : Nat} (rest : Bytes), v < 128 →
      decodeIntegerLoop (m + 1) shift acc (UInt8.ofNat v :: rest) =
        some (acc + v * 2 ^ shift, rest) := by
    intro m shift acc v rest hv
    have hto : (UInt8.ofNat v).toNat = v := UInt8.toNat_ofNat_of_lt' (Nat.lt_trans hv (by decide))
    obtain ⟨h7F, h80, _⟩ := octet_masks (UInt8.ofNat v)
    rw [hto] at h7F h80
    simp only [decodeIntegerLoop]
    rw [if_pos (h80.mpr hv), h7F, Nat.mod_eq_of_lt hv]
  induction n with
  | zero =>
    intro guard shift acc v rest _ hv
    have hv : v < 128 := hv
    have henc : encodeIntegerLoop guard v = [UInt8.ofNat v] := by
      cases guard <;> simp [encodeIntegerLoop, hv]
    rw [henc]
    exact hlast rest hv
  | succ n ih =>
    intro guard shift acc v rest hguard hv
    obtain ⟨guard, rfl⟩ : ∃ g, guard = g + 1 := ⟨guard - 1, by omega⟩
    simp only [encodeIntegerLoop]
    split
    · rename_i hlt
      exact hlast rest hlt
    have hmod := Nat.mod_lt v (show 0 < 128 by decide)
    have hto : (UInt8.ofNat (v % 128) ||| 0x80).toNat = 128 + v % 128 := by
      rw [UInt8.or_comm]
      exact toNat_flags_or (p := 7) (k := 1) rfl hmod (by decide)
    obtain ⟨h7F, h80, _⟩ := octet_masks (UInt8.ofNat (v % 128) ||| 0x80)
    rw [hto] at h7F h80
    have hnot : ¬ (UInt8.ofNat (v % 128) ||| 0x80) &&& 0x80 = 0 :=
      fun h => absurd (h80.mp h) (by omega)
    have hdiv : v / 128 < 128 ^ (n + 1) := Nat.div_lt_of_lt_mul (by rwa [← Nat.pow_succ'])
    rw [cons_append]
    simp only [decodeIntegerLoop]
    rw [if_neg hnot, h7F, Nat.add_mod_left, Nat.mod_mod]
    refine (ih rest (Nat.le_of_succ_le_succ hguard) hdiv).trans ?_
    have hpow : (2 : Nat) ^ (shift + 7) = 2 ^ shift * 128 := Nat.pow_add 2 shift 7
    have hsplit := Nat.div_add_mod v 128
    have hsum : v % 128 * 2 ^ shift + v / 128 * (2 ^ shift * 128) = v * 2 ^ shift := by
      calc v % 128 * 2 ^ shift + v / 128 * (2 ^ shift * 128)
          = (128 * (v / 128) + v % 128) * 2 ^ shift := by
            rw [Nat.add_mul, Nat.add_comm]
            congr 1
            rw [Nat.mul_comm (2 ^ shift) 128, ← Nat.mul_assoc, Nat.mul_comm (v / 128) 128]
        _ = v * 2 ^ shift := by rw [hsplit]
    rw [hpow, Nat.add_assoc, hsum]

variable {capacity : Nat} {out : Bytes}

theorem decodeInteger_encode {flags p k v} (h : encodeInteger flags v p capacity = some out)
    (hf : flags.toNat = 2 ^ p * k) (hp : p ≤ 8) (hp1 : 1 ≤ p) (hv : v < 128 ^ 5) :
    ∃ b tail, out = b :: tail ∧ b.toNat / 2 ^ p = k ∧
      ∀ rest, decodeInteger (b :: (tail ++ rest)) p = some (v, rest) := by
  have hpow : 2 ≤ 2 ^ p := Nat.pow_le_pow_right (show 0 < 2 by decide) hp1
  have hdiv : ∀ x < 2 ^ p, (2 ^ p * k + x) / 2 ^ p = k ∧ (2 ^ p * k + x) % 2 ^ p = x := by
    intro x hx
    rw [Nat.mul_add_div (Nat.two_pow_pos p), Nat.div_eq_of_lt hx, Nat.mul_add_mod,
      Nat.mod_eq_of_lt hx]
    exact ⟨Nat.add_zero k, rfl⟩
  simp only [encodeInteger] at h
  split at h
  · cases h
  obtain rfl := Option.some.inj h
  simp only [integerOctets]
  split
  · rename_i hlt
    have hx : v < 2 ^ p := by omega
    have hto := toNat_flags_or hf hx hp
    refine ⟨_, [], rfl, by rw [hto]; exact (hdiv v hx).1, fun rest => ?_⟩
    simp only [decodeInteger, hto, (hdiv v hx).2, hlt, if_true, nil_append]
  rename_i hge
  have hx : 2 ^ p - 1 < 2 ^ p := by omega
  have hto := toNat_flags_or hf hx hp
  refine ⟨_, encodeIntegerLoop 9 (v - (2 ^ p - 1)), rfl, by rw [hto]; exact (hdiv _ hx).1,
    fun rest => ?_⟩
  simp only [decodeInteger, hto, (hdiv _ hx).2, Nat.lt_irrefl, if_false]
  refine (decodeIntegerLoop_encode 4 rest (by decide)
    (Nat.lt_of_le_of_lt (Nat.sub_le v (2 ^ p - 1)) hv)).trans ?_
  rw [Nat.pow_zero, Nat.mul_one, Nat.add_sub_cancel' (Nat.not_lt.mp hge)]

/-! ## Strings -/

theorem decodeString_encode {str} (h : encodeString str capacity = some out)
    (hlen : str.length ≤ kMaxStringLen) (rest : Bytes) :
    decodeString (out ++ rest) = some (str, rest) := by
  have hbound : kMaxStringLen < 128 ^ 5 := by decide
  simp only [encodeString] at h
  split at h
  · cases h
  rename_i len hint
  cases hhuff : sendsHuffman str with
  | true =>
    simp only [hhuff, if_true] at hint h
    split at h
    · cases h
    simp only [sendsHuffman, Bool.and_eq_true, Bool.not_eq_true', isEmpty_eq_false_iff,
      decide_eq_true_eq] at hhuff
    obtain ⟨hne, hlt⟩ := hhuff
    obtain ⟨coded, henc, hsize, hdec⟩ := decode_encode hne (Nat.le_refl _)
      (Nat.le_succ_of_le (length_le_encodedSize str))
    rw [henc, Option.map_some, Option.some.injEq] at h
    subst h
    obtain ⟨b, tail, rfl, hb, hread⟩ := decodeInteger_encode (p := 7) (k := 1) hint rfl
      (by decide) (by decide) (by omega)
    have hflag : ¬ b &&& 0x80 = 0 := by
      rw [(octet_masks b).2.1]
      omega
    have hpos : Huffman.encodedSize str ≠ 0 := by
      have := length_le_encodedSize str
      have := length_pos_iff.mpr hne
      omega
    have hroom : ¬ (kMaxStringLen < Huffman.encodedSize str ∨
        (coded ++ rest).length < Huffman.encodedSize str) := by
      rw [length_append, hsize]
      omega
    simp only [cons_append, append_assoc, decodeString, hread]
    rw [if_neg hroom, if_neg hflag, if_neg hpos, ← hsize, take_left, drop_left, hsize, hdec]
  | false =>
    simp only [hhuff, Bool.false_eq_true, if_false] at hint h
    split at h
    · cases h
    obtain rfl := Option.some.inj h
    obtain ⟨b, tail, rfl, hb, hread⟩ := decodeInteger_encode (p := 7) (k := 0) hint rfl
      (by decide) (by decide) (by omega)
    have hflag : b &&& 0x80 = 0 := by
      rw [(octet_masks b).2.1]
      have := b.toNat_lt
      omega
    have hroom : ¬ (kMaxStringLen < str.length ∨ (str ++ rest).length < str.length) := by
      rw [length_append]
      omega
    simp only [cons_append, append_assoc, decodeString, hread]
    rw [if_neg hroom, if_pos hflag, take_left, drop_left]

/-! ## The static table -/

theorem staticTable_length : staticTable.length = STATIC_TABLE_SIZE := by decide

theorem findIdx_spec {q i}
    (h : (match staticTable.findIdx? q with | some i => i + 1 | none => 0) = i) (hi : i ≠ 0) :
    i ≤ STATIC_TABLE_SIZE ∧ ∃ e, staticGet i = some { name := e.1, value := e.2 } ∧ q e := by
  split at h
  · rename_i j hj
    obtain ⟨hlt, hq, _⟩ := List.findIdx?_eq_some_iff_getElem.mp hj
    subst h
    refine ⟨staticTable_length ▸ hlt, staticTable[j], ?_, hq⟩
    rw [staticGet, if_neg hi, Nat.add_sub_cancel, List.getElem?_eq_getElem hlt]
    rfl
  · exact absurd h.symm hi

variable {name : Bytes}

theorem staticFind_get {value} (h : staticFind name value ≠ 0) :
    staticFind name value ≤ STATIC_TABLE_SIZE ∧
      staticGet (staticFind name value) = some { name := name, value := value } := by
  obtain ⟨hle, ⟨n, v⟩, hget, heq⟩ := findIdx_spec rfl h
  simp only [Bool.and_eq_true, beq_iff_eq] at heq
  obtain ⟨rfl, rfl⟩ := heq
  exact ⟨hle, hget⟩

theorem staticFindName_get (h : staticFindName name ≠ 0) :
    staticFindName name ≤ STATIC_TABLE_SIZE ∧
      ∃ value, staticGet (staticFindName name) = some { name := name, value := value } := by
  obtain ⟨hle, ⟨n, v⟩, hget, heq⟩ := findIdx_spec rfl h
  obtain rfl := beq_iff_eq.mp heq
  exact ⟨hle, v, hget⟩

theorem staticFindName_le (name : Bytes) : staticFindName name ≤ STATIC_TABLE_SIZE := by
  by_cases h : staticFindName name = 0
  · rw [h]
    exact Nat.zero_le _
  · exact (staticFindName_get h).1

/-! ## Fields -/

/-- A field within the decoder's string limits. -/
structure Within (h : HPACKHeader) : Prop where
  name : h.name.length ≤ kMaxStringLen
  value : h.value.length ≤ kMaxStringLen

variable {h : HPACKHeader}

theorem decodeLiteral_encode (d : HPACKDecoder) {b value tail rest room} (hw : Within h)
    (hread : ∀ rest, decodeInteger (b :: (tail ++ rest)) 4 = some (staticFindName h.name, rest))
    (hname : (if staticFindName h.name = 0 then encodeString h.name capacity else some []) = some name)
    (hvalue : encodeString h.value room = some value) :
    d.decodeLiteral (b :: (tail ++ (name ++ (value ++ rest)))) 4 = some (h.name, h.value, rest) := by
  rw [HPACKDecoder.decodeLiteral, hread]
  by_cases h0 : staticFindName h.name = 0
  · simp only [h0, if_true] at hname ⊢
    simp only [decodeString_encode hname hw.name, decodeString_encode hvalue hw.value]
  rw [if_neg h0] at hname
  obtain rfl := Option.some.inj hname
  obtain ⟨hle, v, hget⟩ := staticFindName_get h0
  simp only [h0, if_false, HPACKDecoder.lookup, hle, if_true, hget, Option.map_some,
    nil_append, decodeString_encode hvalue hw.value]

/-- How the decoder takes what the encoder wrote for a field: the field is the
next one, the table stays. -/
def Reads (h : HPACKHeader) (out : Bytes) : Prop :=
  ∃ b tail, out = b :: tail ∧ ∀ (d : HPACKDecoder) (p : HPACKDecoder.Progress) (n : Nat)
    (rest : Bytes), d.decodeField p n b (b :: (tail ++ rest)) = some (d, p.push n h, rest)

theorem encodeIndexed_reads (hfull : HPACKEncoder.fullIndex h ≠ 0)
    (henc : encodeInteger 0x80 (HPACKEncoder.fullIndex h) 7 capacity = some out) : Reads h out := by
  have hsmall : STATIC_TABLE_SIZE < 128 ^ 5 := by decide
  have hsens : h.sensitive = false := by
    by_contra hs
    simp [HPACKEncoder.fullIndex, hs] at hfull
  simp only [HPACKEncoder.fullIndex, hsens, Bool.false_eq_true, if_false] at hfull henc
  obtain ⟨hle, hget⟩ := staticFind_get hfull
  obtain ⟨b, tail, rfl, hb, hread⟩ := decodeInteger_encode (p := 7) (k := 1) henc rfl
    (by decide) (by decide) (by omega)
  refine ⟨b, tail, rfl, fun d p n rest => ?_⟩
  have hflag : b &&& 0x80 ≠ 0 := by
    rw [ne_eq, (octet_masks b).2.1]
    omega
  have hlook : d.lookup (staticFind h.name h.value) = some h := by
    rw [HPACKDecoder.lookup, if_neg hfull, if_pos hle, hget, ← hsens]
  rw [HPACKDecoder.decodeField, if_pos hflag, hread]
  simp only [hlook]

theorem encodeLiteral_reads (hw : Within h)
    (henc : HPACKEncoder.encodeLiteral h capacity = some out) : Reads h out := by
  have hsmall : STATIC_TABLE_SIZE < 128 ^ 5 := by decide
  simp only [HPACKEncoder.encodeLiteral] at henc
  split at henc
  · cases henc
  rename_i index hindex
  split at henc
  · cases henc
  rename_i name hname
  obtain ⟨value, hvalue, rfl⟩ := Option.map_eq_some_iff.mp henc
  have hflags : (if h.sensitive then (0x10 : UInt8) else 0).toNat =
      2 ^ 4 * (if h.sensitive then 1 else 0) := by
    split <;> rfl
  obtain ⟨b, tail, rfl, hb, hread⟩ := decodeInteger_encode hindex hflags
    (by decide) (by decide) (Nat.lt_of_le_of_lt (staticFindName_le _) hsmall)
  refine ⟨b, tail ++ name ++ value, rfl, fun d p n rest => ?_⟩
  obtain ⟨_, h80, hC0, hE0, h10⟩ := octet_masks b
  have hlt : b.toNat < 32 := by
    split at hb <;> omega
  have hlit : d.decodeLiteral (b :: (tail ++ name ++ value ++ rest)) 4 =
      some (h.name, h.value, rest) := by
    rw [append_assoc, append_assoc]
    exact decodeLiteral_encode d hw hread hname hvalue
  have hsens : decide (b &&& 0x10 ≠ 0) = h.sensitive := by
    cases hs : h.sensitive <;> simp only [hs, Bool.false_eq_true, if_false, if_true] at hb
    · rw [decide_eq_false_iff_not, not_not, h10]
      omega
    · rw [decide_eq_true_iff, ne_eq, h10]
      omega
  rw [HPACKDecoder.decodeField, if_neg (not_not.mpr (h80.mpr (by omega))),
    if_neg (fun hc => absurd (hC0.mp hc) (by omega)),
    if_neg (fun hc => absurd (hE0.mp hc) (by omega)), hlit]
  simp only [hsens]

theorem encodeField_reads (hw : Within h)
    (henc : HPACKEncoder.encodeField h capacity = some out) : Reads h out := by
  rw [HPACKEncoder.encodeField] at henc
  split at henc
  · rename_i hfull
    exact encodeIndexed_reads hfull henc
  · exact encodeLiteral_reads hw henc

theorem decodeField_update {size} (hsize : size < 128 ^ 5)
    (henc : encodeInteger 0x20 size 5 capacity = some out) :
    ∃ b tail, out = b :: tail ∧ ∀ (d : HPACKDecoder) (p : HPACKDecoder.Progress) (n : Nat)
      (rest : Bytes), p.fieldSeen = false → size ≤ d.limit →
      d.decodeField p n b (b :: (tail ++ rest)) =
        some ({ d with table := d.table.setMaxSize size }, p, rest) := by
  obtain ⟨b, tail, rfl, hb, hread⟩ := decodeInteger_encode (p := 5) (k := 1) henc rfl
    (by decide) (by decide) hsize
  refine ⟨b, tail, rfl, fun d p n rest hseen hle => ?_⟩
  obtain ⟨_, h80, hC0, hE0, _⟩ := octet_masks b
  simp only [HPACKDecoder.decodeField]
  rw [if_neg (not_not.mpr (h80.mpr (by omega))), if_neg (fun hc => absurd (hC0.mp hc) (by omega)),
    if_pos (hE0.mpr (by omega)), hseen, hread]
  simp [Nat.not_lt.mpr hle]

/-! ## Blocks -/

theorem decodeLoop_fields (n : Nat) (hs : List HPACKHeader) :
    ∀ {capacity guard : Nat} {out : Bytes} (d : HPACKDecoder) (p : HPACKDecoder.Progress),
      (∀ h ∈ hs, Within h) → HPACKEncoder.encodeAll HPACKEncoder.encodeField hs capacity = some out →
      out.length ≤ guard → p.tooMany = false → p.output.length + hs.length ≤ n →
      HPACKDecoder.decodeLoop n guard d p out = (.ok, p.output ++ hs, d) := by
  induction hs with
  | nil =>
    intro capacity guard out d p _ henc _ hmany _
    obtain rfl := Option.some.inj henc
    cases guard <;> simp [HPACKDecoder.decodeLoop, hmany]
  | cons h hs ih =>
    intro capacity guard out d p hw henc hguard hmany hroom
    simp only [HPACKEncoder.encodeAll] at henc
    split at henc
    · cases henc
    split at henc
    · cases henc
    rename_i piece hpiece
    obtain ⟨tail, htail, rfl⟩ := Option.map_eq_some_iff.mp henc
    obtain ⟨b, bs, rfl, hread⟩ := encodeField_reads (hw h mem_cons_self) hpiece
    simp only [cons_append, length_cons, length_append] at hguard hroom
    obtain ⟨guard, rfl⟩ : ∃ g, guard = g + 1 := ⟨guard - 1, by omega⟩
    have hpush : p.push n h = { p with output := p.output ++ [h], fieldSeen := true } :=
      if_pos (by omega)
    simp only [cons_append, HPACKDecoder.decodeLoop, hread, hpush]
    have hrest : tail.length ≤ guard := by omega
    refine (ih d { p with output := p.output ++ [h], fieldSeen := true }
      (fun g hg => hw g (mem_cons_of_mem h hg)) htail hrest hmany ?_).trans ?_
    · simp only [length_append, length_singleton]
      omega
    · simp

theorem decodeLoop_updates (n : Nat) (sizes : List Nat) :
    ∀ {capacity guard : Nat} {out rest : Bytes} (d : HPACKDecoder) (p : HPACKDecoder.Progress),
      HPACKEncoder.encodeAll (fun size => encodeInteger 0x20 size 5) sizes capacity = some out →
      (∀ size ∈ sizes, size ≤ d.limit) → d.limit < 128 ^ 5 → p.fieldSeen = false →
      (out ++ rest).length ≤ guard →
      ∃ guard', rest.length ≤ guard' ∧
        HPACKDecoder.decodeLoop n guard d p (out ++ rest) =
          HPACKDecoder.decodeLoop n guard'
            { d with table := sizes.foldl HPACKDynamicTable.setMaxSize d.table } p rest := by
  induction sizes with
  | nil =>
    intro capacity guard out rest d p henc _ _ _ hguard
    obtain rfl := Option.some.inj henc
    exact ⟨guard, hguard, rfl⟩
  | cons size sizes ih =>
    intro capacity guard out rest d p henc hle hlimit hseen hguard
    simp only [HPACKEncoder.encodeAll] at henc
    split at henc
    · cases henc
    split at henc
    · cases henc
    rename_i piece hpiece
    obtain ⟨tail, htail, rfl⟩ := Option.map_eq_some_iff.mp henc
    have hsize := hle size mem_cons_self
    obtain ⟨b, bs, rfl, hread⟩ := decodeField_update (Nat.lt_of_le_of_lt hsize hlimit) hpiece
    simp only [cons_append, append_assoc, length_cons, length_append] at hguard
    obtain ⟨guard, rfl⟩ : ∃ g, guard = g + 1 := ⟨guard - 1, by omega⟩
    simp only [cons_append, append_assoc, HPACKDecoder.decodeLoop,
      hread _ _ _ _ hseen hsize, foldl_cons]
    exact ih { d with table := d.table.setMaxSize size } p htail
      (fun t ht => hle t (mem_cons_of_mem size ht)) hlimit hseen
      (by rw [length_append]; omega)

theorem encodeAll_update {size}
    (h : HPACKEncoder.encodeAll (fun size => encodeInteger 0x20 size 5) [size] capacity = some out) :
    out = integerOctets 0x20 size 5 := by
  simp only [HPACKEncoder.encodeAll] at h
  split at h
  · cases h
  split at h
  · cases h
  rename_i piece hpiece
  simp only [encodeInteger] at hpiece
  split at hpiece
  · cases hpiece
  · obtain rfl := Option.some.inj hpiece
    simpa using h.symm

theorem encode_cases (e : HPACKEncoder) (hs : List HPACKHeader) (capacity : Nat) :
    e.encode hs capacity = (none, e) ∨
      ∃ block, e.encode hs capacity = (some block, { e with pendingUpdate := false }) := by
  simp only [HPACKEncoder.encode]
  split
  · exact .inl rfl
  · split
    · exact .inl rfl
    · exact .inr ⟨_, rfl⟩

variable {n : Nat}

/-- **A block comes back**, behind the size updates it starts with. -/
theorem decode_encode_block {e e' : HPACKEncoder} {d : HPACKDecoder} {hs : List HPACKHeader}
    {block : Bytes} (henc : e.encode hs capacity = (some block, e'))
    (hw : ∀ h ∈ hs, Within h) (hcount : hs.length ≤ n) (hsizes : ∀ size ∈ e.updates, size ≤ d.limit)
    (hlimit : d.limit < 128 ^ 5) :
    (∃ start fields room,
        HPACKEncoder.encodeAll (fun size => encodeInteger 0x20 size 5) e.updates capacity =
          some start ∧
        HPACKEncoder.encodeAll HPACKEncoder.encodeField hs room = some fields ∧
        block = start ++ fields) ∧
      e' = { e with pendingUpdate := false } ∧
      d.decode block n =
        (.ok, hs, { d with table := e.updates.foldl HPACKDynamicTable.setMaxSize d.table }) := by
  simp only [HPACKEncoder.encode] at henc
  split at henc
  · cases henc
  rename_i start hstart
  split at henc
  · cases henc
  rename_i fields hfields
  obtain ⟨hblock, rfl⟩ := Prod.mk.inj henc
  obtain rfl := Option.some.inj hblock
  refine ⟨⟨start, fields, _, hstart, hfields, rfl⟩, rfl, ?_⟩
  obtain ⟨guard, hguard, hloop⟩ := decodeLoop_updates n e.updates d {} hstart hsizes hlimit rfl
    (Nat.le_refl (start ++ fields).length)
  rw [HPACKDecoder.decode, hloop]
  exact decodeLoop_fields n hs _ {} hw hfields hguard rfl (by simpa using hcount)

/-! ## Sessions -/

/-- What is done with an encoder whose blocks one decoder reads. -/
inductive SessionOp
  | setMaxTableSize (size : Nat)
  | encode (headers : List HPACKHeader) (capacity : Nat)

def SessionOp.Within (maxHeaders limit : Nat) : SessionOp → Prop
  | .setMaxTableSize size => size ≤ limit
  | .encode headers _ => headers.length ≤ maxHeaders ∧ ∀ h ∈ headers, RoundTrip.Within h

/-- An encoder and a decoder, the size at the encoder's last block, the lists
whose encoding succeeded and what the decoder made of their blocks. -/
structure Session where
  encoder : HPACKEncoder
  decoder : HPACKDecoder
  announced : Nat
  sent : List (List HPACKHeader) := []
  received : List (DecodeStatus × List HPACKHeader) := []

namespace Session

def create (encoderSize decoderSize : Nat) : Session where
  encoder := .create encoderSize
  decoder := .create decoderSize
  announced := (HPACKEncoder.create encoderSize).tableSize

def step (maxHeaders : Nat) (s : Session) : SessionOp → Session
  | .setMaxTableSize size => { s with encoder := s.encoder.setMaxTableSize size }
  | .encode headers capacity =>
    match s.encoder.encode headers capacity with
    | (none, e) => { s with encoder := e }
    | (some block, e) =>
      match s.decoder.decode block maxHeaders with
      | (status, fields, d) =>
        { encoder := e, decoder := d, announced := e.tableSize
          sent := s.sent ++ [headers], received := s.received ++ [(status, fields)] }

def run (encoderSize decoderSize maxHeaders : Nat) (ops : List SessionOp) : Session :=
  ops.foldl (step maxHeaders) (create encoderSize decoderSize)

end Session

/-- The least of the encoder's first size and the sizes that were set. -/
def sizeInForce (first : Nat) (ops : List SessionOp) : Nat :=
  ops.foldl (fun size op => match op with | .setMaxTableSize n => min size n | _ => size) first

structure InSync (limit : Nat) (s : Session) : Prop where
  pending : s.encoder.pendingUpdate ↔ s.encoder.tableSize ≠ s.announced
  least : s.encoder.pendingUpdate → s.encoder.pendingMin = s.encoder.tableSize
  le_announced : s.encoder.tableSize ≤ s.announced
  le_limit : s.encoder.pendingUpdate → s.encoder.tableSize ≤ limit
  limit_eq : s.decoder.limit = limit
  received : s.received = s.sent.map fun hs => (.ok, hs)

variable {limit : Nat} {s : Session}

theorem InSync.updates (h : InSync limit s) : s.encoder.updates =
    if s.encoder.tableSize = s.announced then [] else [s.encoder.tableSize] := by
  rw [HPACKEncoder.updates]
  by_cases hp : s.encoder.pendingUpdate = true
  · rw [if_pos hp, if_pos (h.least hp).symm, if_neg (h.pending.mp hp), h.least hp]
  · rw [if_neg hp, if_pos (not_not.mp (mt h.pending.mpr hp))]

theorem InSync.updates_le (h : InSync limit s) :
    ∀ size ∈ s.encoder.updates, size ≤ s.decoder.limit := by
  intro size hsize
  rw [h.updates] at hsize
  split at hsize
  · cases hsize
  · rename_i hne
    rw [mem_singleton.mp hsize, h.limit_eq]
    exact h.le_limit (h.pending.mpr hne)

theorem InSync.step (h : InSync limit s) (hlimit : limit < 128 ^ 5)
    {op : SessionOp} (hop : op.Within n limit) : InSync limit (s.step n op) := by
  cases op with
  | setMaxTableSize size =>
    have hsize : size ≤ limit := hop
    simp only [Session.step, HPACKEncoder.setMaxTableSize]
    split
    · exact h
    rename_i hlt
    have := h.le_announced
    refine ⟨⟨fun _ => by simp only; omega, fun _ => rfl⟩, fun _ => ?_, by simp only; omega,
      fun _ => hsize, h.limit_eq, h.received⟩
    simp only
    split
    · rename_i hp
      have := h.least hp
      omega
    · rfl
  | encode headers capacity =>
    simp only [Session.step]
    rcases encode_cases s.encoder headers capacity with henc | ⟨block, henc⟩
    · rw [henc]
      exact h
    obtain ⟨_, _, hdec⟩ := decode_encode_block henc hop.2 hop.1 h.updates_le
      (h.limit_eq ▸ hlimit)
    rw [henc]
    simp only [hdec]
    refine ⟨⟨nofun, fun hc => absurd rfl hc⟩, nofun, Nat.le_refl _, nofun, h.limit_eq, ?_⟩
    simp [h.received]

theorem InSync.run (encoderSize decoderSize : Nat) (ops : List SessionOp)
    (hops : ∀ op ∈ ops, op.Within n (min decoderSize kStorageBytes)) :
    InSync (min decoderSize kStorageBytes) (Session.run encoderSize decoderSize n ops) := by
  have hlimit : min decoderSize kStorageBytes < 128 ^ 5 :=
    Nat.lt_of_le_of_lt (Nat.min_le_right _ _) (by decide)
  have hstart : InSync (min decoderSize kStorageBytes) (.create encoderSize decoderSize) :=
    ⟨⟨nofun, fun hc => absurd rfl hc⟩, nofun, Nat.le_refl _, nofun, rfl, rfl⟩
  unfold Session.run
  generalize Session.create encoderSize decoderSize = s at hstart
  induction ops generalizing s with
  | nil => exact hstart
  | cons op ops ih =>
    exact ih (fun o ho => hops o (mem_cons_of_mem op ho)) _
      (hstart.step hlimit (hops op mem_cons_self))

theorem run_tableSize (encoderSize decoderSize n : Nat) (ops : List SessionOp) :
    (Session.run encoderSize decoderSize n ops).encoder.tableSize =
      sizeInForce (min encoderSize kStorageBytes) ops := by
  have hstep : ∀ (s : Session) (op : SessionOp), (s.step n op).encoder.tableSize =
      match op with
      | .setMaxTableSize size => min s.encoder.tableSize size
      | .encode _ _ => s.encoder.tableSize := by
    intro s op
    cases op with
    | setMaxTableSize size =>
      simp only [Session.step, HPACKEncoder.setMaxTableSize]
      split
      · rename_i hle
        exact (Nat.min_eq_left hle).symm
      · rename_i hlt
        exact (Nat.min_eq_right (Nat.le_of_not_le hlt)).symm
    | encode headers capacity =>
      simp only [Session.step]
      rcases encode_cases s.encoder headers capacity with henc | ⟨block, henc⟩ <;> rw [henc]
  unfold Session.run sizeInForce
  rw [show min encoderSize kStorageBytes = (Session.create encoderSize decoderSize).encoder.tableSize
    from rfl]
  generalize Session.create encoderSize decoderSize = s
  induction ops generalizing s with
  | nil => rfl
  | cons op ops ih =>
    rw [foldl_cons, foldl_cons, ih, hstep]
    cases op <;> rfl

/-- **A session round trip.** The lists come back in order. After any session, a
block that does not fit leaves the encoder as it is; one that fits starts with the
size in force if that has shrunk since the last block, behind which nothing but
the fields follows, and the decoder returns the list and holds a table of that
size. -/
theorem session_round_trip (encoderSize decoderSize maxHeaders : Nat) (ops : List SessionOp)
    (hops : ∀ op ∈ ops, op.Within maxHeaders (min decoderSize kStorageBytes)) :
    let s := Session.run encoderSize decoderSize maxHeaders ops
    let size := sizeInForce (min encoderSize kStorageBytes) ops
    s.received = s.sent.map (fun hs => (.ok, hs)) ∧
      ∀ (hs : List HPACKHeader) (capacity : Nat), hs.length ≤ maxHeaders → (∀ h ∈ hs, Within h) →
        s.encoder.encode hs capacity = (none, s.encoder) ∨
        ∃ fields room e d, HPACKEncoder.encodeAll HPACKEncoder.encodeField hs room = some fields ∧
          s.encoder.encode hs capacity =
            (some ((if size < s.announced then integerOctets 0x20 size 5 else []) ++ fields), e) ∧
          s.decoder.decode
              ((if size < s.announced then integerOctets 0x20 size 5 else []) ++ fields) maxHeaders =
            (.ok, hs, d) ∧
          (size < s.announced → d.table.maxSize = size) := by
  intro s size
  have hsync := InSync.run encoderSize decoderSize ops hops
  have hsize : s.encoder.tableSize = size := run_tableSize encoderSize decoderSize maxHeaders ops
  refine ⟨hsync.received, fun hs capacity hcount hw => ?_⟩
  rcases encode_cases s.encoder hs capacity with henc | ⟨block, henc⟩
  · exact .inl henc
  right
  have hlimit : s.decoder.limit < 128 ^ 5 := by
    rw [hsync.limit_eq]
    exact Nat.lt_of_le_of_lt (Nat.min_le_right _ _) (by decide)
  obtain ⟨⟨start, fields, room, hstart, hfields, rfl⟩, _, hdec⟩ :=
    decode_encode_block henc hw hcount hsync.updates_le hlimit
  have hannounced : s.encoder.tableSize ≤ s.announced := hsync.le_announced
  have hupdates : s.encoder.updates = if size < s.announced then [size] else [] := by
    have hup : s.encoder.updates =
        if s.encoder.tableSize = s.announced then [] else [s.encoder.tableSize] := hsync.updates
    rw [hsize] at hup hannounced
    by_cases hlt : size < s.announced
    · rw [hup, if_pos hlt, if_neg (Nat.ne_of_lt hlt)]
    · rw [hup, if_neg hlt, if_pos (Nat.le_antisymm hannounced (Nat.not_lt.mp hlt))]
  have hstart' : start = if size < s.announced then integerOctets 0x20 size 5 else [] := by
    rw [hupdates] at hstart
    split at hstart
    · rename_i hlt
      rw [if_pos hlt]
      exact encodeAll_update hstart
    · rename_i hlt
      rw [if_neg hlt]
      exact (Option.some.inj hstart).symm
  rw [hstart'] at henc hdec
  refine ⟨fields, room, _, _, hfields, henc, hdec, fun hlt => ?_⟩
  have hle := hsync.updates_le size (by rw [hupdates, if_pos hlt]; exact mem_singleton_self _)
  rw [hupdates, if_pos hlt]
  show min size kStorageBytes = size
  rw [hsync.limit_eq] at hle
  exact Nat.min_eq_left (Nat.le_trans hle (Nat.min_le_right _ _))

/-- A session that shrinks the table twice, sends a list, fails for lack of room
and sends another one. -/
theorem session_round_trip_shrink :
    (Session.run 4096 4096 100
      [.setMaxTableSize 300, .setMaxTableSize 200,
        .encode [{ name := ascii ":method", value := ascii "GET" }] 1,
        .encode [{ name := ascii ":method", value := ascii "GET" }] 64,
        .encode [{ name := ascii "x-key", value := ascii "abc", sensitive := true }] 64]).received =
      [(.ok, [{ name := ascii ":method", value := ascii "GET" }]),
        (.ok, [{ name := ascii "x-key", value := ascii "abc", sensitive := true }])] := by
  refine (session_round_trip 4096 4096 100 _ ?_).1.trans (by decide +kernel)
  simp only [forall_mem_cons, SessionOp.Within]
  refine ⟨by decide, by decide, ⟨by decide, ?_⟩, ⟨by decide, ?_⟩, ⟨by decide, ?_⟩, by simp⟩
  all_goals exact ⟨⟨by decide, by decide⟩, by simp⟩

def lastSize (first : Nat) (ops : List SessionOp) : Nat :=
  ops.foldl (fun size op => match op with | .setMaxTableSize n => n | _ => size) first

/-- A larger table is not announced. -/
theorem larger_size_not_announced :
    ¬ ∀ (ops : List SessionOp) (size : Nat) (hs : List HPACKHeader) (capacity : Nat)
      (block : Bytes) (e : HPACKEncoder), (∀ op ∈ ops, op.Within 100 4096) → size ≤ 4096 →
      size ≠ lastSize 4096 ops →
      ((Session.run 4096 4096 100 ops).encoder.setMaxTableSize size).encode hs capacity =
        (some block, e) → integerOctets 0x20 size 5 <+: block := by
  intro h
  have hops : ∀ op ∈ [SessionOp.setMaxTableSize 100, .encode [] 16], op.Within 100 4096 := by
    simp only [forall_mem_cons, SessionOp.Within]
    exact ⟨by decide, ⟨by decide, by simp⟩, by simp⟩
  have hblock := h [.setMaxTableSize 100, .encode [] 16] 200 [] 16 [] _ hops (by decide) (by decide)
    rfl
  exact absurd hblock (by decide)

end BoltApi.Hpack.RoundTrip
