import BoltApi.Hpack.HuffmanRoundTrip

/-! # Huffman coding of QPACK

`http3/qpack_huffman.h` has its own copy of the code table, entry by entry the
one of HPACK, and the same encoder. Its decoder keeps no automaton: it sorts the
symbols by length and value of their codes once and then compares the next bits
with the codes of each length. -/
namespace BoltApi.Http3.QpackHuffman
open Octets Lib.PrefixCode Hpack.Huffman Hpack.HuffmanCode List
  Hpack.HuffmanRoundTrip

/-! ## The encoder -/

def qpackHuffmanEncodedSize (input : Bytes) : Nat := encodedSize input

/-- Unlike the one of HPACK it takes an empty input. -/
def qpackHuffmanEncode (input : Bytes) (capacity : Nat) : Option Bytes :=
  if capacity < qpackHuffmanEncodedSize input then none
  else some (input.foldl BitBuffer.push {}).finish

/-! ## The decoder -/

/-- Whether the code of `s` is longer than that of `key`, or as long and larger. -/
def comesAfter (s key : Nat) : Bool :=
  match huffmanCode s, huffmanCode key with
  | (code, len), (keyCode, keyLen) =>
    Nat.blt keyLen len || Nat.beq len keyLen && Nat.blt keyCode code

/-- `qpack_build_decode_index` moves a symbol down the sorted ones, the last of them first. -/
def insertSymbol (key : Nat) : List Nat → List Nat
  | [] => [key]
  | s :: rest => if comesAfter s key then s :: insertSymbol key rest else key :: s :: rest

@[irreducible] def symbolOrder : List Nat :=
  ((List.range 256).foldl (fun order key => insertSymbol key order) []).reverse

variable (order : List Nat)

/-- The symbols whose codes have a length. -/
def bucket (len : Nat) : List Nat := order.filter fun s => (huffmanCode s).2 == len

def firstCode (len : Nat) : Nat :=
  match bucket order len with
  | [] => 0
  | s :: _ => (huffmanCode s).1

def firstSymbol (len : Nat) : Nat :=
  order.findIdx fun s => (huffmanCode s).2 == len

def lookup (len cand : Nat) : Option Nat :=
  if firstCode order len ≤ cand ∧ cand < firstCode order len + (bucket order len).length then
    some (order.getD (firstSymbol order len + (cand - firstCode order len)) 0)
  else none

/-- The loop over the lengths, for the `n` low bits of the accumulator. -/
def matchFrom (order : List Nat) (acc n : Nat) : Nat → Nat → Option (Nat × Nat)
  | 0, _ => none
  | more + 1, len =>
    if n < len then none
    else
      match lookup order len (acc / 2 ^ (n - len) % 2 ^ len) with
      | some s => some (s, len)
      | none => matchFrom order acc n more (len + 1)

def kMinBits : Nat := 5

def kMaxBits : Nat := 30

def refill : Nat → Nat → Bytes → Nat × Nat × Bytes
  | acc, n, [] => (acc, n, [])
  | acc, n, b :: rest =>
    if n ≤ 56 then refill (acc * 2 ^ 8 % 2 ^ 64 ||| b.toNat) (n + 8) rest else (acc, n, b :: rest)

def checkPadding (acc n : Nat) (out : Bytes) : Option Bytes :=
  if 7 < n then none
  else if 0 < n ∧ acc % 2 ^ n ≠ 2 ^ n - 1 then none
  else some out

def decodeLoop (capacity : Nat) : Nat → Nat → Nat → Bytes → Bytes → Option Bytes
  | 0, _, _, _, _ => none
  | guard + 1, acc, n, input, out =>
    let (acc, n, input) := refill acc n input
    if n < kMinBits then checkPadding acc n out
    else
      match matchFrom symbolOrder acc n (kMaxBits + 1 - kMinBits) kMinBits with
      | none => checkPadding acc n out
      | some (s, len) =>
        if capacity ≤ out.length then none
        else decodeLoop capacity guard acc (n - len) input (out ++ [UInt8.ofNat s])

/-- Every round takes bits of the input, so the guard is never reached. -/
def qpackHuffmanDecode (input : Bytes) (capacity : Nat) : Option Bytes :=
  decodeLoop capacity (8 * input.length + 1) 0 0 input []

/-! ## The index -/

def sortedSymbols : List Nat := canonicalOrder.take 256

theorem symbolOrder_eq : symbolOrder = sortedSymbols := by decide +kernel

theorem bucket_fits : ∀ len < 31, (bucket sortedSymbols len).map huffmanCode =
      (List.range (bucket sortedSymbols len).length).map (fun j => (firstCode sortedSymbols len + j, len)) ∧
    (sortedSymbols.drop (firstSymbol sortedSymbols len)).take (bucket sortedSymbols len).length =
      bucket sortedSymbols len := by
  decide +kernel

theorem mem_sortedSymbols {s} (hs : s < 256) : s ∈ sortedSymbols := by
  have hsplit : canonicalOrder = sortedSymbols ++ [256] := by decide +kernel
  rcases mem_append.mp (hsplit ▸ mem_canonicalOrder (Nat.lt_succ_of_lt hs)) with h | h
  · exact h
  · rw [mem_singleton.mp h] at hs
    exact absurd hs (by decide)

theorem lt_of_mem_sortedSymbols {s} (hs : s ∈ sortedSymbols) : s < 256 := by
  have hall : ∀ s ∈ sortedSymbols, s < 256 := by decide +kernel
  exact hall s hs

theorem bucket_get {len j} (hlen : len < 31) (hj : j < (bucket sortedSymbols len).length) :
    ∃ s < 256, sortedSymbols.getD (firstSymbol sortedSymbols len + j) 0 = s ∧
      huffmanCode s = (firstCode sortedSymbols len + j, len) := by
  have hslice := congrArg (·[j]?) (bucket_fits len hlen).2
  simp only [List.getElem?_take_of_lt hj, List.getElem?_drop, List.getElem?_eq_getElem hj] at hslice
  have hcode := congrArg (·[j]?) (bucket_fits len hlen).1
  simp only [List.getElem?_map, List.getElem?_eq_getElem hj, List.getElem?_range hj, Option.map_some,
    Option.some.injEq] at hcode
  refine ⟨(bucket sortedSymbols len)[j], ?_, ?_, hcode⟩
  · exact lt_of_mem_sortedSymbols (mem_of_getElem? hslice)
  · rw [getD_eq_getElem?_getD, hslice, Option.getD_some]

/-- **The decoder's comparison finds the symbol of a code.** -/
theorem lookup_iff {len cand s} (hlen : len < 31) :
    lookup symbolOrder len cand = some s ↔ s < 256 ∧ huffmanCode s = (cand, len) := by
  rw [symbolOrder_eq, lookup]
  constructor
  · intro h
    split at h
    · next hin =>
      obtain ⟨t, ht, hget, hcode⟩ :=
        bucket_get (j := cand - firstCode sortedSymbols len) hlen (by omega)
      rw [hget] at h
      cases h
      exact ⟨ht, by rw [hcode, Nat.add_sub_cancel' hin.1]⟩
    · cases h
  rintro ⟨hs, hcode⟩
  have hmem : s ∈ bucket sortedSymbols len :=
    mem_filter.mpr ⟨mem_sortedSymbols hs, by rw [hcode]; exact beq_self_eq_true len⟩
  obtain ⟨j, hj, hget⟩ := mem_iff_getElem.mp hmem
  have hc := congrArg (·[j]?) (bucket_fits len hlen).1
  simp only [List.getElem?_map, List.getElem?_eq_getElem hj, List.getElem?_range hj, Option.map_some,
    Option.some.injEq, hget, hcode, Prod.mk.injEq, and_true] at hc
  have hslice := congrArg (·[j]?) (bucket_fits len hlen).2
  simp only [List.getElem?_take_of_lt hj, List.getElem?_drop, List.getElem?_eq_getElem hj, hget] at hslice
  rw [if_pos (by omega), hc, Nat.add_sub_cancel_left, getD_eq_getElem?_getD, hslice,
    Option.getD_some]

/-! ## Matching the next bits -/

variable {acc n : Nat} {input : Bytes}

theorem bits_cand (acc : Nat) {len} (h : len ≤ n) :
    bits len (acc / 2 ^ (n - len) % 2 ^ len) ++ bits (n - len) acc = bits n acc := by
  rw [bits_mod (Nat.le_refl len), ← bits_add, Nat.add_sub_cancel' h]

theorem codeWord_of_lookup {len s} (hlen : len < 31) (hn : len ≤ n)
    (h : lookup symbolOrder len (acc / 2 ^ (n - len) % 2 ^ len) = some s) :
    s < 256 ∧ codeWord (some (UInt8.ofNat s)) <+: bits n acc ∧ (huffmanCode s).2 = len := by
  obtain ⟨hs, hcode⟩ := (lookup_iff hlen).mp h
  refine ⟨hs, ⟨bits (n - len) acc, ?_⟩, by rw [hcode]⟩
  rw [codeWord_some, UInt8.toNat_ofNat_of_lt' hs, hcode, wordBits, bits_cand acc hn]

theorem lookup_of_matchFrom {order more s len k} (h : matchFrom order acc n more k = some (s, len)) :
    k ≤ len ∧ len < k + more ∧ len ≤ n ∧ lookup order len (acc / 2 ^ (n - len) % 2 ^ len) = some s := by
  induction more generalizing k with
  | zero => cases h
  | succ more ih =>
    simp only [matchFrom] at h
    split at h
    · cases h
    next hn =>
    split at h
    · next hhit =>
      cases h
      exact ⟨Nat.le_refl _, by omega, by omega, hhit⟩
    · obtain ⟨hle, hlt, hhit⟩ := ih h
      exact ⟨by omega, by omega, hhit⟩

theorem matchFrom_some {order len s} (hn : len ≤ n) (hlt : len < 31)
    (hhit : lookup order len (acc / 2 ^ (n - len) % 2 ^ len) = some s)
    (hmiss : ∀ k < len, lookup order k (acc / 2 ^ (n - k) % 2 ^ k) = none) (more : Nat) :
    ∀ k ≤ len, len < k + more → matchFrom order acc n more k = some (s, len) := by
  induction more with
  | zero => exact fun k hk h => absurd h (by omega)
  | succ more ih =>
    intro k hk h
    simp only [matchFrom]
    rw [if_neg (by omega)]
    rcases Nat.lt_or_eq_of_le hk with hlt' | rfl
    · simp only [hmiss k hlt', ih (k + 1) hlt' (by omega)]
    · simp only [hhit]

theorem matchFrom_codeWord {b : UInt8} {x} (h : bits n acc = codeWord (some b) ++ x) :
    matchFrom symbolOrder acc n (kMaxBits + 1 - kMinBits) kMinBits = some (b.toNat, (huffmanCode b.toNat).2) := by
  obtain ⟨hcode, hmin, hmax⟩ := huffmanCode_range b
  have hlen : (codeWord (some b)).length = (huffmanCode b.toNat).2 := by
    rw [codeWord_some, wordBits, length_bits]
  have hn : (huffmanCode b.toNat).2 ≤ n := by
    have := congrArg List.length h
    rw [length_bits, length_append, hlen] at this
    omega
  have hpre : codeWord (some b) <+: bits n acc := h ▸ prefix_append _ _
  refine matchFrom_some hn (by omega) ?_ (fun k hk => ?_) _ _ hmin (by simp only [kMaxBits, kMinBits]; omega)
  · refine (lookup_iff (by omega)).mpr ⟨b.toNat_lt, ?_⟩
    have hbits : bits (huffmanCode b.toNat).2
        (acc / 2 ^ (n - (huffmanCode b.toNat).2) % 2 ^ (huffmanCode b.toNat).2) =
        bits (huffmanCode b.toNat).2 (huffmanCode b.toNat).1 := by
      have hsplit := bits_cand acc hn
      rw [h, codeWord_some, wordBits] at hsplit
      exact (append_inj hsplit (by rw [length_bits, length_bits])).1
    rw [bits_inj (Nat.mod_lt _ (Nat.two_pow_pos _)) hcode hbits]
  -- a shorter match would be another code word the bits begin with
  rw [Option.eq_none_iff_forall_ne_some]
  intro s hs
  obtain ⟨hs256, hspre, hslen⟩ := codeWord_of_lookup (by omega) (by omega) hs
  have heq : (some (UInt8.ofNat s) : Option UInt8) = some b := by
    rcases prefix_or_prefix_of_prefix hspre hpre with hp | hp
    · exact codeWord_prefixFree _ _ hp
    · exact (codeWord_prefixFree _ _ hp).symm
  rw [← Option.some.inj heq, UInt8.toNat_ofNat_of_lt' hs256] at hk
  omega

/-! ## Round trip -/

theorem refill_spec (hn : n ≤ 64) :
    bits (refill acc n input).2.1 (refill acc n input).1 ++ byteBits (refill acc n input).2.2 =
        bits n acc ++ byteBits input ∧ (refill acc n input).2.1 ≤ 64 ∧
      ((refill acc n input).2.2 = [] ∨ 56 < (refill acc n input).2.1) := by
  induction input generalizing acc n with
  | nil => exact ⟨rfl, hn, .inl rfl⟩
  | cons b rest ih =>
    simp only [refill]
    split
    · next hroom =>
      obtain ⟨hbits, hrest⟩ := @ih (acc * 2 ^ 8 % 2 ^ 64 ||| b.toNat) (n + 8) (by omega)
      refine ⟨hbits.trans ?_, hrest⟩
      rw [bits_shift_or b.toNat_lt (by omega), append_assoc]
      rfl
    · next hfull => exact ⟨rfl, hn, .inr (Nat.not_le.mp hfull)⟩

theorem checkPadding_iff {out r} :
    checkPadding acc n out = some r ↔ r = out ∧ n < 8 ∧ bits n acc = List.replicate n true := by
  have hpos := Nat.two_pow_pos n
  rw [← bits_mod (Nat.le_refl n), bits_eq_ones (Nat.mod_lt _ hpos), checkPadding]
  split
  · exact iff_of_false nofun fun h => by omega
  split
  · exact iff_of_false nofun fun h => by omega
  next hok =>
  refine ⟨fun h => ⟨(Option.some.inj h).symm, by omega, rfl, ?_⟩, fun h => congrArg some h.1.symm⟩
  rcases Nat.eq_zero_or_pos n with rfl | hn
  · rw [Nat.pow_zero, Nat.mod_one]
  · omega

def Decodes (capacity : Nat) (bs : List Bool) (out r : Bytes) : Prop :=
  ∃ xs, ∃ k < 8, r = out ++ xs ∧ bs = spell codeWord (xs.map some) ++ List.replicate k true ∧
    (xs = [] ∨ r.length ≤ capacity)

theorem decodeLoop_iff {capacity r} (guard : Nat) :
    ∀ {acc n : Nat} {input out : Bytes}, n ≤ 64 → n + 8 * input.length < guard →
      (decodeLoop capacity guard acc n input out = some r ↔
        Decodes capacity (bits n acc ++ byteBits input) out r) := by
  induction guard with
  | zero => exact fun _ h => absurd h (Nat.not_lt_zero _)
  | succ guard ih =>
    intro acc n input out hn hguard
    obtain ⟨hbits, hle, hfull⟩ := @refill_spec acc n input hn
    have hlen := congrArg List.length hbits
    rw [← hbits]
    simp only [length_append, length_bits, length_byteBits] at hlen
    simp only [decodeLoop]
    generalize refill acc n input = q at hle hfull hlen ⊢
    obtain ⟨acc, n, input⟩ := q
    simp only at hle hfull hlen ⊢
    have hlength : ∀ b, (codeWord (some b)).length = (huffmanCode b.toNat).2 := fun b => by
      rw [codeWord_some, wordBits, length_bits]
    -- without a code word in front the rest is a padding
    have hpadding : (∀ b, ¬ codeWord (some b) <+: bits n acc) →
        (checkPadding acc n out = some r ↔ Decodes capacity (bits n acc ++ byteBits input) out r) := by
      intro hnone
      rw [checkPadding_iff]
      constructor
      · rintro ⟨rfl, hlt, hones⟩
        obtain rfl : input = [] := hfull.resolve_right (by omega)
        exact ⟨[], n, hlt, (append_nil _).symm, (append_nil _).trans hones, .inl rfl⟩
      rintro ⟨xs, k, hk, rfl, h, -⟩
      have hlen := congrArg List.length h
      simp only [length_append, length_bits, length_byteBits, length_replicate] at hlen
      cases xs with
      | nil =>
        simp only [map_nil, spell_nil, length_nil] at hlen
        obtain rfl : input = [] := hfull.resolve_right (by omega)
        obtain rfl : n = k := by simpa using hlen
        exact ⟨append_nil _, hk, (append_nil _).symm.trans h⟩
      | cons b xs =>
        obtain ⟨-, -, hmax⟩ := huffmanCode_range b
        rw [map_cons, spell_cons, append_assoc] at h
        refine absurd (prefix_of_prefix_length_le ⟨_, h.symm⟩ (prefix_append _ _) ?_) (hnone b)
        rw [map_cons, spell_cons, length_append, hlength] at hlen
        rw [hlength, length_bits]
        rcases hfull with rfl | hfull
        · rw [length_nil] at hlen
          omega
        · omega
    split
    · next hmin =>
      refine hpadding fun b hp => ?_
      have hle := hp.length_le
      rw [hlength, length_bits] at hle
      have := (huffmanCode_range b).2.1
      simp only [kMinBits] at hmin
      omega
    split
    · next hnone =>
      refine hpadding fun b hp => ?_
      obtain ⟨x, hx⟩ := hp
      rw [matchFrom_codeWord hx.symm] at hnone
      cases hnone
    next s len hsome =>
    obtain ⟨hmin, hmax, hln, hhit⟩ := lookup_of_matchFrom hsome
    simp only [kMinBits, kMaxBits] at hmin hmax
    obtain ⟨hs, hcode⟩ := (lookup_iff (by omega)).mp hhit
    have hword : bits n acc = codeWord (some (UInt8.ofNat s)) ++ bits (n - len) acc := by
      rw [codeWord_some, UInt8.toNat_ofNat_of_lt' hs, hcode, wordBits, bits_cand acc hln]
    have hfirst : ∀ {xs : Bytes} {k}, k < 8 →
        bits n acc ++ byteBits input = spell codeWord (xs.map some) ++ List.replicate k true →
        ∃ ys, xs = UInt8.ofNat s :: ys ∧
          bits (n - len) acc ++ byteBits input = spell codeWord (ys.map some) ++ List.replicate k true := by
      intro xs k hk h
      rw [hword, append_assoc] at h
      obtain ⟨ys, hxs, hrest⟩ := codeWord_prefixFree.first (padding_short hk) h
      obtain ⟨x, xs, rfl, hx, rfl⟩ := map_eq_cons_iff.mp hxs
      exact ⟨xs, by rw [Option.some.inj hx], hrest⟩
    split
    · next hout =>
      refine iff_of_false (Option.some_ne_none _ ·.symm) ?_
      rintro ⟨xs, k, hk, rfl, h, hroom⟩
      obtain ⟨ys, rfl, -⟩ := hfirst hk h
      have := hroom.resolve_left (cons_ne_nil _ _)
      rw [length_append, length_cons] at this
      omega
    next hout =>
    refine (ih (by omega) (by omega)).trans ⟨?_, ?_⟩
    · rintro ⟨ys, k, hk, rfl, h, hroom⟩
      refine ⟨UInt8.ofNat s :: ys, k, hk, append_assoc _ _ _, ?_, .inr ?_⟩
      · rw [hword, append_assoc, h, map_cons, spell_cons, append_assoc]
      rcases hroom with rfl | hroom
      · simp only [append_nil, length_append, length_singleton]
        omega
      · exact hroom
    · rintro ⟨xs, k, hk, rfl, h, hroom⟩
      obtain ⟨ys, rfl, hrest⟩ := hfirst hk h
      exact ⟨ys, k, hk, (append_assoc out [_] ys).symm, hrest, .inr (hroom.resolve_left (cons_ne_nil _ _))⟩

/-- **The decoder accepts what is encoded, and nothing else.** -/
theorem qpackHuffmanDecode_iff {e out room} :
    qpackHuffmanDecode e room = some out ↔ Encodes out e ∧ out.length ≤ room := by
  refine (decodeLoop_iff _ (by decide) (by omega)).trans ⟨?_, ?_⟩
  · rintro ⟨xs, k, hk, rfl, h, hroom⟩
    refine ⟨⟨k, hk, h⟩, ?_⟩
    rcases hroom with rfl | hroom
    · exact Nat.zero_le _
    · exact hroom
  · rintro ⟨⟨k, hk, h⟩, hroom⟩
    exact ⟨out, k, hk, (nil_append out).symm, h, .inr hroom⟩

/-- **The decoder reads back what the encoder wrote.** -/
theorem qpackHuffmanDecode_encode {input out capacity room}
    (h : qpackHuffmanEncode input capacity = some out) (hroom : input.length ≤ room) :
    out.length = qpackHuffmanEncodedSize input ∧ qpackHuffmanDecode out room = some input := by
  unfold qpackHuffmanEncode at h
  split at h
  · cases h
  cases h
  exact ⟨finish_length input, qpackHuffmanDecode_iff.mpr ⟨finish_spec input, hroom⟩⟩

/-- Both coders read back what they write, and both decoders accept exactly code words followed
by a padding; the one of HPACK takes no empty string. -/
theorem huffman_coders_agree :
    (∀ s capacity room, s ≠ [] → encodedSize s ≤ capacity → s.length ≤ room →
      ∃ e, encode s capacity = some e ∧ e.length = encodedSize s ∧ decode e room = some s) ∧
    (∀ s capacity room, qpackHuffmanEncodedSize s ≤ capacity → s.length ≤ room →
      ∃ e, qpackHuffmanEncode s capacity = some e ∧ e.length = qpackHuffmanEncodedSize s ∧
        qpackHuffmanDecode e room = some s) ∧
    (∀ e out room, e ≠ [] → (decode e room = some out ↔ Encodes out e ∧ out.length ≤ room)) ∧
    ∀ e out room, qpackHuffmanDecode e room = some out ↔ Encodes out e ∧ out.length ≤ room := by
  refine ⟨fun s capacity room => decode_encode, fun s capacity room hcap hroom => ?_,
    fun e out room => decode_iff, fun e out room => qpackHuffmanDecode_iff⟩
  have henc : qpackHuffmanEncode s capacity = some (s.foldl BitBuffer.push {}).finish :=
    if_neg (Nat.not_lt.mpr hcap)
  exact ⟨_, henc, qpackHuffmanDecode_encode henc hroom⟩

/-- `f` and `:` are written and read back, and the octets read as nothing else. -/
theorem huffman_coders_agree_two :
    (∃ e, encode [102, 58] 8 = some e ∧ e.length = encodedSize [102, 58] ∧ decode e 2 = some [102, 58]) ∧
      (∃ e, qpackHuffmanEncode [102, 58] 8 = some e ∧ e.length = qpackHuffmanEncodedSize [102, 58] ∧
        qpackHuffmanDecode e 2 = some [102, 58]) ∧
      (∀ out, decode [0x95, 0xC7] 2 = some out ↔ Encodes out [0x95, 0xC7] ∧ out.length ≤ 2) :=
  ⟨huffman_coders_agree.1 _ 8 2 (by decide) (by decide +kernel) (by decide),
    huffman_coders_agree.2.1 _ 8 2 (by decide +kernel) (by decide),
    fun out => huffman_coders_agree.2.2.1 _ out 2 (by decide)⟩

/-- The empty string codes itself, and the functions of HPACK refuse it. -/
theorem hpack_refuses_empty : encode [] 16 = none ∧ decode [] 16 = none ∧ Encodes [] [] :=
  ⟨rfl, rfl, 0, by decide, rfl⟩

/-! ## Canonical encodings -/

theorem byteBits_inj {a b : Bytes} (h : byteBits a = byteBits b) : a = b := by
  have hlen := congrArg List.length h
  rw [length_byteBits, length_byteBits] at hlen
  induction a generalizing b with
  | nil => exact (length_eq_zero_iff.mp (by rw [length_nil] at hlen; omega)).symm
  | cons x a ih =>
    obtain ⟨y, b, rfl⟩ := exists_cons_of_length_pos (l := b) (by rw [length_cons] at hlen; omega)
    have h : bits 8 x.toNat ++ byteBits a = bits 8 y.toNat ++ byteBits b := h
    obtain ⟨hx, ha⟩ := append_inj h (by simp)
    rw [UInt8.toNat_inj.mp (bits_inj x.toNat_lt y.toNat_lt hx),
      ih ha (by simp only [length_cons] at hlen; omega)]

theorem encodes_iff {out e} : Encodes out e ↔ e = (out.foldl BitBuffer.push {}).finish := by
  constructor
  · rintro ⟨k, hk, h⟩
    obtain ⟨k', hk', h'⟩ := finish_spec out
    have hlen := congrArg List.length h
    have hlen' := congrArg List.length h'
    simp only [length_byteBits, length_append, length_replicate] at hlen hlen'
    obtain rfl : k = k' := by omega
    exact byteBits_inj (h.trans h'.symm)
  · rintro rfl
    exact finish_spec out

theorem qpackHuffmanEncode_iff {out e} :
    qpackHuffmanEncode out e.length = some e ↔ Encodes out e := by
  rw [encodes_iff, qpackHuffmanEncode]
  constructor
  · intro h
    exact (Option.some.inj (Option.ite_none_left_eq_some.mp h).2).symm
  · rintro rfl
    exact if_neg (Nat.not_lt.mpr (Nat.le_of_eq (finish_length out).symm))

/-- **One code, one encoding.** A decoder accepts the octets its encoder writes for the result and no
others, and but for the empty string both decoders are the same function. -/
theorem huffman_canonical (e out : Bytes) (room : Nat) :
    (qpackHuffmanDecode e room = some out ↔
      qpackHuffmanEncode out e.length = some e ∧ out.length ≤ room) ∧
    (e = [] ∨ decode e room = qpackHuffmanDecode e room) := by
  rw [qpackHuffmanDecode_iff, qpackHuffmanEncode_iff]
  refine ⟨Iff.rfl, or_iff_not_imp_left.mpr fun hne => Option.ext fun x => ?_⟩
  exact (decode_iff hne).trans qpackHuffmanDecode_iff.symm

end BoltApi.Http3.QpackHuffman
