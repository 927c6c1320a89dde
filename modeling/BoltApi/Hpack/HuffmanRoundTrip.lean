import BoltApi.Hpack.HuffmanCode

/-! # The Huffman coder reads back what it writes

The decoder respects the labels of its states, so it decodes by the general rule
for such decoders; the encoder writes the code words of its input and a padding
of ones. -/
namespace BoltApi.Hpack.HuffmanRoundTrip
open Octets Huffman HuffmanCode Lib.PrefixCode List

/-! ## The decoder -/

theorem label_symbol {q} (hq : q < 256) : ∃ a, (labelOf q).2 < (symbolCode (symbolIndex a)).2 ∧
      (labelOf q).1 = (symbolCode (symbolIndex a)).1 /
        2 ^ ((symbolCode (symbolIndex a)).2 - (labelOf q).2) := by
  obtain ⟨hx, hlt⟩ := labelSymbol_fits q hq
  have hval : (labelOf q).1 = (symbolCode (labelSymbol q)).1 /
      2 ^ ((symbolCode (labelSymbol q)).2 - (labelOf q).2) := rfl
  generalize labelSymbol q = x at hx hlt hval
  by_cases hx' : x = 256
  · subst hx'
    exact ⟨none, hlt, hval⟩
  · have hidx : symbolIndex (some (UInt8.ofNat x)) = x :=
      UInt8.toNat_ofNat_of_lt' (by simp only [UInt8.size]; omega)
    exact ⟨some (UInt8.ofNat x), by rw [hidx]; exact ⟨hlt, hval⟩⟩

theorem labelOf_lt {q} (hq : q < 256) : (labelOf q).1 < 2 ^ (labelOf q).2 := by
  obtain ⟨a, hlt, hval⟩ := label_symbol hq
  rw [hval, Nat.div_lt_iff_lt_mul (Nat.two_pow_pos _), ← Nat.pow_add,
    Nat.add_sub_cancel' (Nat.le_of_lt hlt)]
  exact (symbolCode_range _ (symbolIndex_lt a)).1

theorem label_short {q} (hq : q < 256) : Short codeWord (wordBits (labelOf q)) := by
  obtain ⟨a, hlt, hval⟩ := label_symbol hq
  have hpre : wordBits (labelOf q) <+: codeWord a := by
    have hsplit := bits_add (labelOf q).2 ((symbolCode (symbolIndex a)).2 - (labelOf q).2)
      (symbolCode (symbolIndex a)).1
    rw [Nat.add_sub_cancel' (Nat.le_of_lt hlt)] at hsplit
    rw [codeWord, wordBits, wordBits, hval, hsplit]
    exact prefix_append _ _
  refine codeWord_prefixFree.short hpre fun heq => ?_
  have := congrArg List.length heq
  simp only [codeWord, wordBits, length_bits] at this
  omega

section Entry
variable {a b e : Nat × Nat} {nibble : Nat}

theorem entryFits_failure (h : entryFits a nibble e b) (hfail : e.1 % 2 ^ 9 = 256) :
    codeWord none <+: bits (a.2 + 4) (2 ^ 4 * a.1 + nibble) := by
  rw [entryFits, hfail] at h
  simp only [Nat.beq_refl, if_true, Bool.and_eq_true, Nat.ble_eq, Nat.beq_eq] at h
  obtain ⟨hle, hval⟩ := h
  have hsplit := bits_add 30 (a.2 + 4 - 30) (2 ^ 4 * a.1 + nibble)
  rw [Nat.add_sub_cancel' hle, hval] at hsplit
  rw [hsplit]
  exact prefix_append _ _

theorem entryFits_next (h : entryFits a nibble e b) (hfail : e.1 % 2 ^ 9 ≠ 256) :
    e.1 % 2 ^ 9 < 256 ∧ (e.1.testBit 14 ↔ b.1 + 1 = 2 ^ b.2 ∧ b.2 < 8) ∧
      (b.1 < 2 ^ b.2 → bits (a.2 + 4) (2 ^ 4 * a.1 + nibble) =
        (if e.1.testBit 15 then codeWord (some (UInt8.ofNat e.2)) else []) ++ wordBits b) := by
  have hbeq : Nat.beq (e.1 % 2 ^ 9) 256 = false :=
    Bool.eq_false_iff.mpr fun hc => hfail (Nat.eq_of_beq_eq_true hc)
  simp only [entryFits, hbeq, Bool.false_eq_true, if_false, Bool.and_eq_true, Nat.blt_eq] at h
  obtain ⟨⟨hlt, hacc⟩, hbits⟩ := h
  refine ⟨hlt, ?_, ?_⟩
  · rw [eq_of_beq hacc, Bool.and_eq_true, Nat.beq_eq, Nat.blt_eq]
  intro hb
  split at hbits
  · rename_i hsym
    simp only [Bool.and_eq_true, Nat.blt_eq, Nat.beq_eq] at hbits
    obtain ⟨⟨hs, hlen⟩, hval⟩ := hbits
    have hof : (UInt8.ofNat e.2).toNat = e.2 := UInt8.toNat_ofNat_of_lt' hs
    rw [if_pos hsym, hlen, hval, bits_append _ _ hb, codeWord_some, hof]
    rfl
  rename_i hsym
  simp only [Bool.and_eq_true, Nat.beq_eq] at hbits
  rw [if_neg hsym, hbits.1, hbits.2]
  rfl

end Entry

def tableStep (state nibble : Nat) : Option (Option (Option UInt8) × Nat) :=
  let e := decodeEntry state nibble
  if e.isFailure then none
  else
    some (if e.emitsSymbol then some (some (UInt8.ofNat e.symbol)) else none, e.stateAndFlags)

/-- A state of the table, accepted when its label is a padding. -/
def Valid (state : Nat) : Prop :=
  state % 2 ^ 9 < 256 ∧ (state.testBit 14 ↔ ∃ k < 8, labelBits state = List.replicate k true)

theorem read_bits (state : Nat) {nibble} (hn : nibble < 16) : labelBits state ++ bits 4 nibble =
      bits ((labelOf (state % 2 ^ 9)).2 + 4) (2 ^ 4 * (labelOf (state % 2 ^ 9)).1 + nibble) :=
  (bits_append _ _ hn).symm

theorem tableStep_dead {state nibble} (hs : state % 2 ^ 9 < 256) (hn : nibble < 16)
    (hstep : tableStep state nibble = none) :
    codeWord none <+: labelBits state ++ bits 4 nibble := by
  have hfail : (decodeEntry state nibble).isFailure := by
    by_contra hfail
    simp [tableStep, hfail] at hstep
  rw [read_bits state hn]
  exact entryFits_failure (decodeEntry_fits hs hn) (of_decide_eq_true hfail)

theorem tableStep_next {state state' nibble out} (hs : state % 2 ^ 9 < 256) (hn : nibble < 16)
    (hstep : tableStep state nibble = some (out, state')) : Valid state' ∧
      labelBits state ++ bits 4 nibble = spell codeWord out.toList ++ labelBits state' := by
  have hfail : ¬ (decodeEntry state nibble).isFailure := by
    intro hfail
    simp [tableStep, hfail] at hstep
  simp only [tableStep, hfail, Bool.false_eq_true, if_false, Option.some.injEq, Prod.mk.injEq]
    at hstep
  obtain ⟨rfl, rfl⟩ := hstep
  have hne : (decodeEntry state nibble).stateAndFlags % 2 ^ 9 ≠ 256 :=
    fun h => hfail (decide_eq_true h)
  obtain ⟨hlt, hacc, hbits⟩ := entryFits_next (decodeEntry_fits hs hn) hne
  have hbound := labelOf_lt hlt
  refine ⟨⟨hlt, ?_⟩, ?_⟩
  · simp only [labelBits, wordBits, bits_eq_ones hbound, hacc, DecodeEntry.state]
    exact ⟨fun h => ⟨_, h.2, rfl, h.1⟩, fun ⟨_, hk, heq, h⟩ => ⟨h, heq ▸ hk⟩⟩
  rw [read_bits state hn]
  refine (hbits hbound).trans ?_
  unfold DecodeEntry.emitsSymbol
  split <;> simp [spell, labelBits, DecodeEntry.state]

theorem follows_table :
    Follows codeWord none Valid (· < 16) labelBits (bits 4) tableStep where
  short hq := label_short hq.1
  dead hq hi hstep := tableStep_dead hq.1 hi hstep
  move hq hi hstep := by
    obtain ⟨hv, hl⟩ := tableStep_next hq.1 hi hstep
    exact ⟨hv, hl⟩
  emit hq hi hstep := by
    obtain ⟨hv, hl⟩ := tableStep_next hq.1 hi hstep
    refine ⟨hv, ?_⟩
    simpa using hl

theorem foldlM_decodeNibble (capacity : Nat) (is : List Nat) :
    ∀ {state state' : Nat} {out r : Bytes},
      is.foldlM (decodeNibble capacity) (state, out) = some (state', r) ↔
        ∃ xs, r = out ++ xs ∧ decodeRun tableStep state is = some (xs.map some, state') ∧
          (xs = [] ∨ r.length ≤ capacity) := by
  induction is with
  | nil =>
    intro state state' out r
    constructor
    · intro h
      cases h
      exact ⟨[], (append_nil _).symm, rfl, .inl rfl⟩
    rintro ⟨xs, rfl, hrun, -⟩
    obtain ⟨hxs, rfl⟩ := Prod.mk.inj (Option.some.inj hrun)
    rw [map_eq_nil_iff.mp hxs.symm, append_nil]
    rfl
  | cons i is ih =>
    intro state state' out r
    simp only [foldlM_cons, decodeNibble, decodeRun, tableStep]
    by_cases hfail : (decodeEntry state i).isFailure = true
    · simp [hfail]
    by_cases hsym : (decodeEntry state i).emitsSymbol = true
    · simp only [hfail, hsym, Bool.false_eq_true, if_false, if_true, Option.map_eq_some_iff,
        Prod.mk.injEq, Option.toList_some, singleton_append]
      by_cases hfull : capacity ≤ out.length
      · rw [if_pos hfull]
        refine iff_of_false (Option.some_ne_none _ ·.symm) ?_
        rintro ⟨xs, rfl, ⟨_, -, hxs, -⟩, rfl | hroom⟩
        · cases hxs
        cases xs with
        | nil => cases hxs
        | cons x xs =>
          rw [length_append, length_cons] at hroom
          omega
      rw [if_neg hfull]
      refine ih.trans ⟨?_, ?_⟩
      · rintro ⟨ys, rfl, hrun, hroom⟩
        refine ⟨_ :: ys, append_assoc _ _ _, ⟨_, hrun, rfl, rfl⟩, .inr ?_⟩
        rcases hroom with rfl | hroom
        · simp only [append_nil, length_append, length_singleton]
          omega
        · exact hroom
      rintro ⟨xs, rfl, ⟨⟨ys, _⟩, hrun, hxs, rfl⟩, hroom⟩
      cases xs with
      | nil => cases hxs
      | cons x xs =>
        cases hxs
        exact ⟨xs, (append_assoc _ [_] xs).symm, hrun, .inr (hroom.resolve_left (cons_ne_nil _ _))⟩
    · simp only [hfail, hsym, Bool.false_eq_true, if_false, Option.map_eq_some_iff, Prod.mk.injEq,
        Option.toList_none, nil_append, Prod.exists, exists_eq_right_right, exists_eq_right]
      exact ih

/-! ## The encoder -/

def byteBits (bs : Bytes) : List Bool := bs.flatMap fun b => bits 8 b.toNat

theorem byteBits_append (a b : Bytes) : byteBits (a ++ b) = byteBits a ++ byteBits b :=
  flatMap_append

theorem byteBits_singleton (v : Nat) : byteBits [UInt8.ofNat v] = bits 8 v := by
  rw [byteBits, flatMap_singleton, UInt8.toNat_ofNat']
  exact bits_mod (Nat.le_refl 8) v

theorem length_byteBits (bs : Bytes) : (byteBits bs).length = 8 * bs.length := by
  induction bs with
  | nil => rfl
  | cons b bs ih =>
    have : byteBits (b :: bs) = bits 8 b.toNat ++ byteBits bs := rfl
    rw [this, length_append, length_bits, ih, length_cons]
    omega

variable (input : Bytes)

theorem nibbles_bits : (nibbles input).flatMap (bits 4) = byteBits input := by
  induction input with
  | nil => rfl
  | cons b bs ih =>
    have hsplit : bits 8 b.toNat = bits 4 (b.toNat / 16) ++ bits 4 (b.toNat % 16) := by
      rw [show (16 : Nat) = 2 ^ 4 from rfl, bits_mod (Nat.le_refl 4)]
      exact bits_add 4 4 _
    have hcons : byteBits (b :: bs) = bits 8 b.toNat ++ byteBits bs := rfl
    rw [hcons, ← ih, hsplit]
    simp [nibbles]

theorem nibbles_lt {input i} (h : i ∈ nibbles input) : i < 16 := by
  obtain ⟨b, _, hi⟩ := mem_flatMap.mp h
  have hb := b.toNat_lt
  rcases mem_pair.mp hi with rfl | rfl <;> omega

def BufferBits (b : BitBuffer) : List Bool := byteBits b.out ++ bits b.nbits b.bits

theorem flush_spec (guard : Nat) :
    ∀ b : BitBuffer, b.nbits ≤ guard →
      (b.flush guard).nbits < 8 ∧ BufferBits (b.flush guard) = BufferBits b := by
  induction guard with
  | zero =>
    intro b hb
    exact ⟨by simp only [BitBuffer.flush]; omega, rfl⟩
  | succ guard ih =>
    intro b hb
    simp only [BitBuffer.flush]
    split
    · rename_i h8
      obtain ⟨hlt, heq⟩ := ih { b with
        nbits := b.nbits - 8
        out := b.out ++ [UInt8.ofNat (b.bits / 2 ^ (b.nbits - 8))] } (by simp only; omega)
      refine ⟨hlt, heq.trans ?_⟩
      have hsplit := bits_add 8 (b.nbits - 8) b.bits
      rw [Nat.add_sub_cancel' h8] at hsplit
      simp only [BufferBits, byteBits_append, byteBits_singleton, append_assoc, hsplit]
    · rename_i h8
      exact ⟨Nat.not_le.mp h8, rfl⟩

theorem huffmanCode_range (b : UInt8) : (huffmanCode b.toNat).1 < 2 ^ (huffmanCode b.toNat).2 ∧
    5 ≤ (huffmanCode b.toNat).2 ∧ (huffmanCode b.toNat).2 ≤ 30 := by
  have h := symbolCode_range b.toNat (Nat.lt_succ_of_lt b.toNat_lt)
  rwa [symbolCode, if_neg (Nat.ne_of_lt b.toNat_lt)] at h

theorem push_spec {b : BitBuffer} (hb : b.nbits < 8) (x : UInt8) :
    (b.push x).nbits < 8 ∧ BufferBits (b.push x) = BufferBits b ++ codeWord (some x) := by
  obtain ⟨hcode, _, hlen⟩ := huffmanCode_range x
  simp only [BitBuffer.push]
  obtain ⟨hlt, heq⟩ := flush_spec _ { b with
    bits := (b.bits * 2 ^ (huffmanCode x.toNat).2) % 2 ^ 64 ||| (huffmanCode x.toNat).1
    nbits := b.nbits + (huffmanCode x.toNat).2 } (Nat.le_refl _)
  refine ⟨hlt, heq.trans ?_⟩
  simp only [BufferBits]
  rw [bits_shift_or hcode (by omega), codeWord_some, wordBits, append_assoc]

theorem foldl_push :
    ∀ b : BitBuffer, b.nbits < 8 →
      (input.foldl BitBuffer.push b).nbits < 8 ∧
        BufferBits (input.foldl BitBuffer.push b) =
          BufferBits b ++ spell codeWord (input.map some) := by
  induction input with
  | nil => exact fun b hb => ⟨hb, (append_nil _).symm⟩
  | cons x input ih =>
    intro b hb
    obtain ⟨hx, hbits⟩ := push_spec hb x
    obtain ⟨hlt, heq⟩ := ih _ hx
    refine ⟨hlt, ?_⟩
    rw [foldl_cons, heq, hbits, map_cons, spell_cons, append_assoc]

theorem finish_spec : ∃ k < 8,
    byteBits (input.foldl BitBuffer.push {}).finish =
      spell codeWord (input.map some) ++ List.replicate k true := by
  obtain ⟨hlt, heq⟩ := foldl_push input {} (by decide)
  rw [show BufferBits {} = [] from rfl, nil_append] at heq
  rw [← heq, BitBuffer.finish]
  generalize input.foldl BitBuffer.push {} = b at hlt
  split
  · rename_i hpos
    refine ⟨8 - b.nbits, by omega, ?_⟩
    have hpad : 2 ^ (8 - b.nbits) - 1 < 2 ^ (8 - b.nbits) :=
      Nat.sub_lt (Nat.two_pow_pos _) (by decide)
    have hword := bits_shift_or (m := b.nbits) (w := 64) (x := b.bits) hpad (by omega)
    rw [Nat.add_sub_cancel' (Nat.le_of_lt hlt), bits_ones] at hword
    rw [byteBits_append, byteBits_singleton, hword, BufferBits, append_assoc]
  rename_i hpos
  refine ⟨0, by decide, ?_⟩
  have hzero : b.nbits = 0 := by omega
  simp [BufferBits, hzero, bits]

/-! ## Round trip -/

theorem length_spell : (spell codeWord (input.map some)).length =
    (input.map fun b => (huffmanCode b.toNat).2).sum := by
  induction input with
  | nil => rfl
  | cons b input ih =>
    simp only [map_cons, spell_cons, length_append, sum_cons, ih, codeWord_some,
      wordBits, length_bits]

theorem finish_length : (input.foldl BitBuffer.push {}).finish.length = encodedSize input := by
  obtain ⟨k, hk, hbits⟩ := finish_spec input
  have hlen := congrArg List.length hbits
  rw [length_byteBits, length_append, length_spell, length_replicate] at hlen
  rw [encodedSize]
  omega

theorem length_le_encodedSize : input.length ≤ encodedSize input * 8 / 5 := by
  have hsum : 5 * input.length ≤ (input.map fun b => (huffmanCode b.toNat).2).sum := by
    induction input with
    | nil => exact Nat.le_refl 0
    | cons b input ih =>
      have hb := (huffmanCode_range b).2.1
      simp only [map_cons, sum_cons, length_cons]
      omega
  rw [encodedSize]
  omega

theorem padding_short {k} (hk : k < 8) : Short codeWord (List.replicate k true) := by
  -- the padding begins EOS
  refine codeWord_prefixFree.short (a := none) ?_ ?_
  · have heos : codeWord none = List.replicate 30 true := bits_ones 30
    rw [heos, ← Nat.add_sub_cancel' (show k ≤ 30 by omega), replicate_add]
    exact prefix_append _ _
  intro heq
  have := congrArg List.length heq
  rw [length_replicate, codeWord, wordBits, length_bits] at this
  simp only [symbolIndex, symbolCode, if_true] at this
  omega

/-- The octets are code words and a padding of ones. -/
def Encodes (xs e : Bytes) : Prop :=
  ∃ k < 8, byteBits e = spell codeWord (xs.map some) ++ List.replicate k true

theorem valid_start : Valid 0x4000 :=
  ⟨by decide, iff_of_true (by decide) ⟨0, by decide, by decide⟩⟩

/-- **The decoder accepts what is encoded, and nothing else.** -/
theorem decode_iff {e out room} (hne : e ≠ []) :
    decode e room = some out ↔ Encodes out e ∧ out.length ≤ room := by
  have hstart : labelBits 0x4000 = [] := by decide
  rw [decode, if_neg (by simpa using hne)]
  constructor
  · intro h
    split at h
    · cases h
    next state r hloop =>
    obtain ⟨haccept, heq⟩ := Option.ite_none_right_eq_some.mp h
    cases heq
    obtain ⟨xs, rfl, hrun, hroom⟩ := (foldlM_decodeNibble room _).mp hloop
    obtain ⟨hvalid, hread⟩ := follows_table.decodeRun_sound _ valid_start (fun _ => nibbles_lt) hrun
    obtain ⟨k, hk, hlabel⟩ := hvalid.2.mp haccept
    rw [hstart, nil_append, nibbles_bits, hlabel] at hread
    refine ⟨⟨k, hk, hread⟩, ?_⟩
    rcases hroom with rfl | hroom
    · exact Nat.zero_le _
    · exact hroom
  rintro ⟨⟨k, hk, hbits⟩, hroom⟩
  obtain ⟨state, hrun, hvalid, hlabel⟩ :=
    follows_table.decodeRun_spell codeWord_prefixFree (padding_short hk) (nibbles e) 0x4000
      (out.map some) valid_start (fun _ => nibbles_lt) (by simp)
      (by rw [hstart, nil_append, nibbles_bits, hbits])
  rw [(foldlM_decodeNibble room _).mpr ⟨out, (nil_append out).symm, hrun, .inr hroom⟩]
  simp [hvalid.2.mpr ⟨k, hk, hlabel⟩]

/-- **The decoder reads back what the encoder wrote.** -/
theorem decode_encode {input capacity room} (hne : input ≠ [])
    (hcap : encodedSize input ≤ capacity) (hroom : input.length ≤ room) :
    ∃ out, encode input capacity = some out ∧ out.length = encodedSize input ∧
      decode out room = some input := by
  have hlen := finish_length input
  refine ⟨(input.foldl BitBuffer.push {}).finish, ?_, hlen, ?_⟩
  · rw [encode, if_neg (by simpa using hne), if_neg (Nat.not_lt.mpr hcap)]
  refine (decode_iff fun hnil => hne ?_).mpr ⟨finish_spec input, hroom⟩
  have := length_le_encodedSize input
  rw [← hlen, hnil] at this
  exact length_eq_zero_iff.mp (Nat.le_zero.mp this)

end BoltApi.Hpack.HuffmanRoundTrip
