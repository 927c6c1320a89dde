import Mathlib.Data.List.Pairwise
import BoltApi.Hpack.Huffman

/-! # The Huffman code and the decoder's automaton

The code words are prefix-free since in the order of their lengths each is
larger than the one before. The decoder's table is checked entry by entry against
the labels of its states: the bits a state has read and not yet used. -/
namespace BoltApi.Hpack.HuffmanCode
open Octets HuffmanTable Huffman Lib.PrefixCode List

/-! ## The code -/

def symbolCode (s : Nat) : Nat × Nat := if s = 256 then (2 ^ 30 - 1, 30) else huffmanCode s

def canonicalOrder : List Nat :=
  [48, 49, 50, 97, 99, 101, 105, 111, 115, 116, 32, 37, 45, 46, 47, 51, 52, 53, 54, 55, 56, 57,
    61, 65, 95, 98, 100, 102, 103, 104, 108, 109, 110, 112, 114, 117, 58, 66, 67, 68, 69, 70, 71,
    72, 73, 74, 75, 76, 77, 78, 79, 80, 81, 82, 83, 84, 85, 86, 87, 89, 106, 107, 113, 118, 119,
    120, 121, 122, 38, 42, 44, 59, 88, 90, 33, 34, 40, 41, 63, 39, 43, 124, 35, 62, 0, 36, 64, 91,
    93, 126, 94, 125, 60, 96, 123, 92, 195, 208, 128, 130, 131, 162, 184, 194, 224, 226, 153, 161,
    167, 172, 176, 177, 179, 209, 216, 217, 227, 229, 230, 129, 132, 133, 134, 136, 146, 154, 156,
    160, 163, 164, 169, 170, 173, 178, 181, 185, 186, 187, 189, 190, 196, 198, 228, 232, 233, 1,
    135, 137, 138, 139, 140, 141, 143, 147, 149, 150, 151, 152, 155, 157, 158, 165, 166, 168, 174,
    175, 180, 182, 183, 188, 191, 197, 231, 239, 9, 142, 144, 145, 148, 159, 171, 206, 215, 225,
    236, 237, 199, 207, 234, 235, 192, 193, 200, 201, 202, 205, 210, 213, 218, 219, 238, 240, 242,
    243, 255, 203, 204, 211, 212, 214, 221, 222, 223, 241, 244, 245, 246, 247, 248, 250, 251, 252,
    253, 254, 2, 3, 4, 5, 6, 7, 8, 11, 12, 14, 15, 16, 17, 18, 19, 20, 21, 23, 24, 25, 26, 27, 28,
    29, 30, 31, 127, 220, 249, 10, 13, 22, 256]

def Behind (a b : Nat × Nat) : Prop := a.2 ≤ b.2 ∧ (a.1 + 1) * 2 ^ (b.2 - a.2) ≤ b.1

instance (a b : Nat × Nat) : Decidable (Behind a b) := inferInstanceAs (Decidable (_ ∧ _))

theorem Behind.trans {a b c} (hab : Behind a b) (hbc : Behind b c) : Behind a c := by
  refine ⟨Nat.le_trans hab.1 hbc.1, ?_⟩
  have hsplit : c.2 - a.2 = (b.2 - a.2) + (c.2 - b.2) := by
    have := hab.1
    have := hbc.1
    omega
  calc (a.1 + 1) * 2 ^ (c.2 - a.2)
      = (a.1 + 1) * 2 ^ (b.2 - a.2) * 2 ^ (c.2 - b.2) := by rw [hsplit, Nat.pow_add, Nat.mul_assoc]
    _ ≤ b.1 * 2 ^ (c.2 - b.2) := Nat.mul_le_mul_right _ hab.2
    _ ≤ (b.1 + 1) * 2 ^ (c.2 - b.2) := Nat.mul_le_mul_right _ (Nat.le_succ _)
    _ ≤ c.1 := hbc.2

instance : Trans Behind Behind Behind := ⟨Behind.trans⟩

theorem canonicalOrder_chain : (canonicalOrder.map symbolCode).IsChain Behind := by decide +kernel

theorem canonicalOrder_all : ((List.range 257).all fun s => canonicalOrder.any (Nat.beq s)) = true := by
  decide +kernel

theorem symbolCode_range : ∀ s < 257, (symbolCode s).1 < 2 ^ (symbolCode s).2 ∧
    5 ≤ (symbolCode s).2 ∧ (symbolCode s).2 ≤ 30 := by decide +kernel

theorem mem_canonicalOrder {s} (hs : s < 257) : s ∈ canonicalOrder := by
  have hany := all_eq_true.mp canonicalOrder_all s (mem_range.mpr hs)
  obtain ⟨t, ht, hst⟩ := any_eq_true.mp hany
  exact Nat.eq_of_beq_eq_true hst ▸ ht

theorem behind_or {s t} (hs : s < 257) (ht : t < 257) (hne : s ≠ t) :
    Behind (symbolCode s) (symbolCode t) ∨ Behind (symbolCode t) (symbolCode s) := by
  let R s t := Behind (symbolCode s) (symbolCode t) ∨ Behind (symbolCode t) (symbolCode s)
  have hsym : Std.Symm R := ⟨fun _ _ h => h.symm⟩
  have hpair : canonicalOrder.Pairwise R :=
    (pairwise_map.mp (isChain_iff_pairwise.mp canonicalOrder_chain)).imp .inl
  exact hpair.forall (mem_canonicalOrder hs) (mem_canonicalOrder ht) hne

def symbolIndex : Option UInt8 → Nat
  | none => 256
  | some b => b.toNat

theorem symbolIndex_lt (a : Option UInt8) : symbolIndex a < 257 := by
  cases a with
  | none => decide
  | some b => exact Nat.lt_succ_of_lt b.toNat_lt

theorem symbolIndex_inj {a b} (h : symbolIndex a = symbolIndex b) : a = b := by
  cases a with
  | none =>
    cases b with
    | none => rfl
    | some b => exact absurd h.symm (Nat.ne_of_lt b.toNat_lt)
  | some a =>
    cases b with
    | none => exact absurd h (Nat.ne_of_lt a.toNat_lt)
    | some b => exact congrArg some (UInt8.toNat_inj.mp h)

def wordBits (a : Nat × Nat) : List Bool := bits a.2 a.1

def codeWord (a : Option UInt8) : List Bool := wordBits (symbolCode (symbolIndex a))

theorem codeWord_some (b : UInt8) : codeWord (some b) = wordBits (huffmanCode b.toNat) := by
  have hne : b.toNat ≠ 256 := Nat.ne_of_lt b.toNat_lt
  simp [codeWord, symbolIndex, symbolCode, hne]

theorem codeWord_prefixFree : PrefixFree codeWord := by
  intro a b hab
  by_contra hne
  have hra := symbolCode_range _ (symbolIndex_lt a)
  have hrb := symbolCode_range _ (symbolIndex_lt b)
  obtain ⟨hle, hdiv⟩ := of_bits_prefix hra.1 hrb.1 hab
  rcases behind_or (symbolIndex_lt a) (symbolIndex_lt b) (fun h => hne (symbolIndex_inj h)) with h | h
  · have hlt := (Nat.le_div_iff_mul_le (Nat.two_pow_pos _)).mpr h.2
    omega
  have heq := Nat.le_antisymm hle h.1
  have hlt := h.2
  rw [heq, Nat.sub_self] at hdiv hlt
  omega

/-! ## The automaton -/

/-- For each state of `decode_table_` a symbol whose code the bits that the state has read
and not used begin, three hexadecimal digits each, the first of sixteen states last. -/
def labelSymbols : List Nat :=
  [0x03902e02502e07402e03906f06506f06103106106f039100,
    0x044068066068062041062068044100039037039035033035,
    0x04a04c04804604804c05410004404204407504407006d070,
    0x07606b07605905605907610005405205405004e05005404c,
    0x02b10002902202910005a10003b02a03b10007a07807a100,
    0x10010006010007d10007e10005b02405b10003e03e10002b,
    0x0ad1000ac0a10ac0e20ac0c20a20c20ac0820820c30820ac,
    0x0a30ad0920860920840840920ad0e50d90e50d10b10d10e5,
    0x0e908f0c40bd0c40ba0b50ba0c408f1000ad0a90ad0a309c,
    0x09e09709509709e0b710008f08c08f08a08708a08f0e90e4,
    0x08e09f0e70bf0e709f1000b70b40b70ae0a60ae0b709e09b,
    0x0cc1000eb0cf0eb0ed0eb0e10ce0e10eb10009f09109f08e,
    0x1000cc0cc0f30cc0f00db0f00cc0d50cd0d50c90c10c90d5,
    0x1000fd0fb0fd0f80f60f80fd0f40df0f40dd0d40dd0f40fd,
    0x01b10001201001200e00b00e012007005007003003007012,
    0x10000d1001000dc10001f01d01f10001b01901b017014017]

def labelLengths : List Nat :=
  [0x03050504040302040403040403020100, 0x03050504050504030201050504050504,
    0x06050606050403020606050504050504, 0x06060506060504030606050606050406,
    0x09080909080707060707060506060504, 0x0f0e0e0d0d0c0c0b0c0c0b0a0b0a090a,
    0x11101414131312131312111312121110, 0x14131515141514131214141314141312,
    0x14131515141515141312111515141515, 0x15161615141312161615161615141515,
    0x16151616151413161615161615141616, 0x16151818171716171716151417171617,
    0x161a1919181919181719191819191817, 0x171a1a191a1a19181a1a191a1a191817,
    0x19181b1b1a1b1b1a191b1b1a1b1a1918, 0x1d1d1c1b1b1a1b1b1a191b1b1a1b1b1a]

def labelSymbol (q : Nat) : Nat := labelSymbols.getD (q / 16) 0 / 2 ^ (12 * (q % 16)) % 2 ^ 12

def labelOf (q : Nat) : Nat × Nat :=
  let n := labelLengths.getD (q / 16) 0 / 2 ^ (8 * (q % 16)) % 2 ^ 8
  ((symbolCode (labelSymbol q)).1 / 2 ^ ((symbolCode (labelSymbol q)).2 - n), n)

def labelBits (state : Nat) : List Bool := wordBits (labelOf (state % 2 ^ 9))

/-- An entry against the labels `a` before and `b` after it: EOS is a failure;
the bits of the label and the nibble are the next label, behind the symbol's code
if there is one; and the labels that are a padding are those accepted. -/
def entryFits (a : Nat × Nat) (nibble : Nat) (e b : Nat × Nat) : Bool :=
  if Nat.beq (e.1 % 2 ^ 9) 256 then
    Nat.ble 30 (a.2 + 4) && Nat.beq ((2 ^ 4 * a.1 + nibble) / 2 ^ (a.2 + 4 - 30)) (2 ^ 30 - 1)
  else
    Nat.blt (e.1 % 2 ^ 9) 256 &&
      (e.1.testBit 14 == (Nat.beq (b.1 + 1) (2 ^ b.2) && Nat.blt b.2 8)) &&
      if e.1.testBit 15 then
        match huffmanCode e.2 with
        | (c, n) =>
          Nat.blt e.2 256 && Nat.beq (a.2 + 4) (n + b.2) &&
            Nat.beq (2 ^ 4 * a.1 + nibble) (2 ^ b.2 * c + b.1)
      else Nat.beq (a.2 + 4) b.2 && Nat.beq (2 ^ 4 * a.1 + nibble) b.1

def rowFits (a : Nat × Nat) : Nat → List (Nat × Nat) → Bool
  | _, [] => true
  | nibble, e :: es => entryFits a nibble e (labelOf (e.1 % 2 ^ 9)) && rowFits a (nibble + 1) es

def tableFits : List (Nat × Nat) → List (List (Nat × Nat)) → Bool
  | a :: as, row :: rows => rowFits a 0 row && tableFits as rows
  | _, _ => true

-- one check, so that the kernel unpacks the table once
theorem decodeTable_fits : tableFits ((List.range 256).map labelOf) decodeTable ∧
    decodeTable.length = 257 ∧ ∀ row ∈ decodeTable, row.length = 16 := by
  decide +kernel

theorem labelSymbol_fits :
    ∀ q < 256, labelSymbol q < 257 ∧ (labelOf q).2 < (symbolCode (labelSymbol q)).2 := by
  decide +kernel

theorem rowFits_get {a e row} : ∀ {k n : Nat}, rowFits a k row → row[n]? = some e →
      entryFits a (k + n) e (labelOf (e.1 % 2 ^ 9)) := by
  induction row with
  | nil => exact fun _ h => by simp at h
  | cons r row ih =>
    intro k n hfit hget
    obtain ⟨hr, hrow⟩ := Bool.and_eq_true_iff.mp hfit
    cases n with
    | zero =>
      obtain rfl : r = e := by simpa using hget
      exact hr
    | succ n =>
      have := ih hrow (by simpa using hget)
      rwa [Nat.succ_add_eq_add_succ] at this

theorem tableFits_get {rows} :
    ∀ {as : List (Nat × Nat)} {q : Nat} {a : Nat × Nat} {row : List (Nat × Nat)},
      tableFits as rows → as[q]? = some a → rows[q]? = some row →
      rowFits a 0 row := by
  induction rows with
  | nil => exact fun _ _ h => by simp at h
  | cons r rows ih =>
    intro as q a row hfit ha hrow
    cases as with
    | nil => simp at ha
    | cons b as =>
      obtain ⟨hr, hrest⟩ := Bool.and_eq_true_iff.mp hfit
      cases q with
      | zero =>
        obtain rfl : b = a := by simpa using ha
        obtain rfl : r = row := by simpa using hrow
        exact hr
      | succ q => exact ih hrest (by simpa using ha) (by simpa using hrow)

theorem tableFits_entry {T : List (List (Nat × Nat))} {q nibble : Nat} (hlen : T.length = 257)
    (hsize : ∀ row ∈ T, row.length = 16) (hfit : tableFits ((List.range 256).map labelOf) T)
    (hq : q < 256) (hn : nibble < 16) : ∃ e, (T.getD q []).getD nibble (0x0100, 0) = e ∧
      entryFits (labelOf q) nibble e (labelOf (e.1 % 2 ^ 9)) := by
  have hrow := List.getElem?_eq_getElem (hlen ▸ Nat.lt_succ_of_lt hq : q < T.length)
  have hentry := List.getElem?_eq_getElem (hsize _ (getElem_mem _) ▸ hn : nibble < T[q].length)
  have hlabel : ((List.range 256).map labelOf)[q]? = some (labelOf q) := by
    rw [List.getElem?_map, List.getElem?_range hq, Option.map_some]
  have hfits := rowFits_get (tableFits_get hfit hlabel hrow) hentry
  rw [Nat.zero_add] at hfits
  exact ⟨_, by simp only [getD_eq_getElem?_getD, hrow, hentry, Option.getD_some], hfits⟩

theorem decodeEntry_fits {state nibble} (hs : state % 2 ^ 9 < 256) (hn : nibble < 16) :
    let e := decodeEntry state nibble
    entryFits (labelOf (state % 2 ^ 9)) nibble (e.stateAndFlags, e.symbol) (labelOf e.state) := by
  obtain ⟨htable, hlen, hsize⟩ := decodeTable_fits
  obtain ⟨e, he, hfit⟩ := tableFits_entry hlen hsize htable hs hn
  have hdecode : decodeEntry state nibble = { stateAndFlags := e.1, symbol := e.2 } := by
    rw [decodeEntry, he]
  rw [hdecode]
  exact hfit

end BoltApi.Hpack.HuffmanCode
