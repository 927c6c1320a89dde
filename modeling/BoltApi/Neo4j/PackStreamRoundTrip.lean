import BoltApi.Neo4j.PackStream

/-! # PackStream round trips

What `put_value` writes, `read` reads back, unless a structure has so many fields
that its count does not fit the octet it is narrowed to. -/
namespace BoltApi.Neo4j.PackStream
open Octets Lib.BigEndian List

variable {α β : Type} {a : α} {b : β} {x : Read α} {f : α → Read β} {p q : Bytes} {m n : Nat}
  {v : PackValue} {w w' : PackWriter} {levels depth : Nat}

/-! ## Reading a prefix -/

/-- The step reads exactly the octets `p` and takes at most `n` of the arena. -/
def Reads (x : Read α) (p : Bytes) (n : Nat) (a : α) : Prop :=
  ∀ rest (arena : PackArena), arena.used ≤ arena.cap → n ≤ arena.cap - arena.used →
    ∃ arena' : PackArena, x ⟨p ++ rest, arena⟩ = .ok (a, ⟨rest, arena'⟩) ∧
      arena'.cap = arena.cap ∧ arena'.used ≤ arena.used + n

theorem Reads.then (hx : Reads x p n a) (hf : Reads (f a) q m b) :
    Reads (x.then f) (p ++ q) (n + m) b := by
  intro rest arena hused hroom
  obtain ⟨arena', hrun, hcap, hle⟩ := hx (q ++ rest) arena hused (by omega)
  obtain ⟨arena'', hrun', hcap', hle'⟩ := hf rest arena' (by omega) (by omega)
  refine ⟨arena'', ?_, hcap'.trans hcap, by omega⟩
  rw [Read.then, append_assoc, hrun]
  exact hrun'

theorem Reads.done (a : α) : Reads (.done a) [] 0 a :=
  fun _ arena _ _ => ⟨arena, rfl, rfl, Nat.le_refl _⟩

theorem Reads.map {g : α → β} (hx : Reads x p n a) :
    Reads (x.then fun a => .done (g a)) p n (g a) := by
  have h := hx.then (f := fun a => .done (g a)) (Reads.done (g a))
  rwa [append_nil] at h

theorem reads_take (p : Bytes) : Reads (take p.length) p 0 p := by
  intro rest arena _ _
  refine ⟨arena, ?_, rfl, Nat.le_refl _⟩
  rw [take, if_neg (by simp), take_left', drop_left'] <;> rfl

/-! ## Numbers -/

theorem reads_takeUint {v : Nat} (h : v < 256 ^ n) : Reads (takeUint n) (storeBe n v) 0 v := by
  have hmap := (reads_take (storeBe n v)).map (g := loadBe)
  rwa [storeBe_length, loadBe_storeBe h] at hmap

theorem signExtend_low {i : BitVec 64} (hn : n = 1 ∨ n = 2 ∨ n = 4 ∨ n = 8) (hlo : -(2 ^ (8 * n - 1)) ≤ i.toInt)
    (hhi : i.toInt < 2 ^ (8 * n - 1)) : (BitVec.ofNat (8 * n) i.toNat).signExtend 64 = i := by
  have hle : 8 * n ≤ 64 := by omega
  have hdvd : 2 ^ (8 * n) ∣ 2 ^ 64 := Nat.pow_dvd_pow 2 hle
  have hself : i.toInt.bmod (2 ^ (8 * n)) = i.toInt := by
    refine Int.bmod_eq_of_le ?_ ?_
    · rcases hn with rfl | rfl | rfl | rfl <;> norm_num at hlo ⊢ <;> omega
    · rcases hn with rfl | rfl | rfl | rfl <;> norm_num at hhi ⊢ <;> omega
  refine BitVec.eq_of_toInt_eq ?_
  rw [BitVec.toInt_signExtend_of_le hle, BitVec.toInt_eq_toNat_bmod, BitVec.toNat_ofNat,
    Int.natCast_emod, Int.emod_bmod, ← Int.bmod_bmod_of_dvd hdvd, ← BitVec.toInt_eq_toNat_bmod,
    hself]

/-! ## Markers -/

theorem readAt_cons (m : UInt8) (h : Reads (readMarked (readAt levels) m) p n v) :
    Reads (readAt (levels + 1)) (m :: p) n v := by
  have hthen := (reads_take [m]).then (f := fun m => readMarked (readAt levels) (m.getD 0 0)) h
  rwa [Nat.zero_add] at hthen

theorem tiny_or (t hi : UInt8) (ht : (t, hi) = (0x80, 0x8F) ∨ (t, hi) = (0x90, 0x9F) ∨
    (t, hi) = (0xA0, 0xAF) ∨ (t, hi) = (0xB0, 0xBF)) (n : Fin 16) :
    ¬(t ||| UInt8.ofNat n ≤ 0x7F ∨ 0xF0 ≤ t ||| UInt8.ofNat n) ∧ (∀ c < t, ¬ t ||| UInt8.ofNat n ≤ c) ∧
      t ||| UInt8.ofNat n ≤ hi ∧ (t ||| UInt8.ofNat n).toNat % 16 = n := by
  have hall : ¬(t ||| UInt8.ofNat n ≤ 0x7F ∨ 0xF0 ≤ t ||| UInt8.ofNat n) ∧ t ≤ t ||| UInt8.ofNat n ∧
      t ||| UInt8.ofNat n ≤ hi ∧ (t ||| UInt8.ofNat n).toNat % 16 = n := by
    revert n
    rcases ht with h | h | h | h <;> cases h <;> decide
  exact ⟨hall.1, fun c hc hle => UInt8.not_le.mpr hc (UInt8.le_trans hall.2.1 hle), hall.2.2⟩

variable {read : Read PackValue} {k : Nat → Read PackValue}

/-- How a family of sized values is read: `k` reads what is behind the size. -/
structure Family (read : Read PackValue) (tiny m8 m16 m32 : UInt8) (k : Nat → Read PackValue) :
    Prop where
  tiny : tiny ≠ 0 → ∀ n : Fin 16, readMarked read (tiny ||| UInt8.ofNat n) = k n
  size8 : readMarked read m8 = (takeUint 1).then k
  size16 : readMarked read m16 = (takeUint 2).then k
  size32 : readMarked read m32 = (takeUint 4).then k

theorem family_string (read : Read PackValue) : Family read 0x80 0xD0 0xD1 0xD2
    fun n => (readStringPayload n).then fun s => .done (.string s) := by
  refine ⟨fun _ n => ?_, rfl, rfl, rfl⟩
  obtain ⟨h0, -, h1, hn⟩ := tiny_or 0x80 0x8F (by decide) n
  rw [readMarked, if_neg h0, if_pos h1, hn]

theorem family_bytes (read : Read PackValue) : Family read 0 0xCC 0xCD 0xCE
    fun n => (readStringPayload n).then fun s => .done (.bytes s) :=
  ⟨fun h => absurd rfl h, rfl, rfl, rfl⟩

theorem family_list (read : Read PackValue) : Family read 0x90 0xD4 0xD5 0xD6
    fun n => (readList read n).then fun l => .done (.list l) := by
  refine ⟨fun _ n => ?_, rfl, rfl, rfl⟩
  obtain ⟨h0, hlo, h1, hn⟩ := tiny_or 0x90 0x9F (by decide) n
  rw [readMarked, if_neg h0, if_neg (hlo 0x8F (by decide)), if_pos h1, hn]

theorem family_dict (read : Read PackValue) : Family read 0xA0 0xD8 0xD9 0xDA
    fun n => (readDict read n).then fun d => .done (.dict d) := by
  refine ⟨fun _ n => ?_, rfl, rfl, rfl⟩
  obtain ⟨h0, hlo, h1, hn⟩ := tiny_or 0xA0 0xAF (by decide) n
  rw [readMarked, if_neg h0, if_neg (hlo 0x8F (by decide)), if_neg (hlo 0x9F (by decide)), if_pos h1,
    hn]

theorem readMarked_struct (read : Read PackValue) (n : Fin 16) :
    readMarked read (0xB0 ||| UInt8.ofNat n) = (take 1).then fun sig =>
      (readList read n).then fun l => .done (.struct (sig.getD 0 0) l) := by
  obtain ⟨h0, hlo, h1, hn⟩ := tiny_or 0xB0 0xBF (by decide) n
  rw [readMarked, if_neg h0, if_neg (hlo 0x8F (by decide)), if_neg (hlo 0x9F (by decide)),
    if_neg (hlo 0xAF (by decide)), if_pos h1, hn]

theorem reads_sized {tiny m8 m16 m32 limit header} (hf : Family (readAt levels) tiny m8 m16 m32 k)
    (hh : putSizedHeader m tiny m8 m16 m32 limit = .ok header) (hlimit : limit < 2 ^ 32)
    (hk : Reads (k m) p n v) : Reads (readAt (levels + 1)) (header ++ p) n v := by
  have hsize : ∀ (marker : UInt8) (width : Nat), m < 256 ^ width →
      readMarked (readAt levels) marker = (takeUint width).then k →
      Reads (readAt (levels + 1)) (marker :: storeBe width m ++ p) n v := by
    intro marker width hm hread
    refine readAt_cons marker ?_
    rw [hread]
    have hthen := (reads_takeUint hm).then hk
    rwa [Nat.zero_add] at hthen
  unfold putSizedHeader at hh
  split at hh
  · cases hh
  rename_i hle
  split at hh
  · rename_i htiny
    cases hh
    refine readAt_cons _ ?_
    have hread := hf.tiny htiny.1 ⟨m, by omega⟩
    simp only at hread
    rw [hread]
    exact hk
  split at hh
  · rename_i h8
    cases hh
    have hone : storeBe 1 m = [UInt8.ofNat m] := by simp [storeBe]
    have hread := hsize m8 1 (by omega) hf.size8
    rwa [hone] at hread
  split at hh
  · cases hh
    exact hsize m16 2 (by omega) hf.size16
  · cases hh
    exact hsize m32 4 (by omega) hf.size32

/-! ## Scalars -/

theorem reads_int (i : BitVec 64) : Reads (readAt (levels + 1)) (intBytes i) 0 (.int i) := by
  have hsize : ∀ (marker : UInt8) (width : Nat) (hw : width = 1 ∨ width = 2 ∨ width = 4 ∨ width = 8),
      -(2 ^ (8 * width - 1)) ≤ i.toInt → i.toInt < 2 ^ (8 * width - 1) →
      readMarked (readAt levels) marker = readInt width →
      Reads (readAt (levels + 1)) (marker :: storeBe width (i.toNat % 2 ^ (8 * width))) 0
        (.int i) := by
    intro marker width hw hlo hhi hread
    refine readAt_cons marker ?_
    have hlt : i.toNat % 2 ^ (8 * width) < 256 ^ width := by
      rw [show 256 = 2 ^ 8 from rfl, ← Nat.pow_mul]
      exact Nat.mod_lt _ (Nat.two_pow_pos _)
    have hmap := (reads_takeUint hlt).map
      (g := fun n => PackValue.int ((BitVec.ofNat (8 * width) n).signExtend 64))
    have hlow : BitVec.ofNat (8 * width) (i.toNat % 2 ^ (8 * width)) =
        BitVec.ofNat (8 * width) i.toNat := by
      apply BitVec.eq_of_toNat_eq
      simp
    simp only [hlow, signExtend_low hw hlo hhi] at hmap
    rw [hread]
    exact hmap
  unfold intBytes
  split
  · -- the octet is its own marker
    rename_i h
    refine readAt_cons _ ?_
    have hnat : (UInt8.ofNat i.toNat).toNat = i.toNat % 256 := UInt8.toNat_ofNat'
    have htoInt : i.toInt = if 2 * i.toNat < 2 ^ 64 then (i.toNat : Int) else i.toNat - 2 ^ 64 :=
      BitVec.toInt_eq_toNat_cond i
    have hmark : UInt8.ofNat i.toNat ≤ 0x7F ∨ 0xF0 ≤ UInt8.ofNat i.toNat := by
      rw [UInt8.le_iff_toNat_le, UInt8.le_iff_toNat_le, hnat]
      have h7 : (0x7F : UInt8).toNat = 127 := rfl
      have hF : (0xF0 : UInt8).toNat = 240 := rfl
      split at htoInt <;> omega
    have hval : (BitVec.ofNat 8 (UInt8.ofNat i.toNat).toNat).signExtend 64 = i := by
      have hlow : BitVec.ofNat 8 (i.toNat % 256) = BitVec.ofNat (8 * 1) i.toNat := by
        apply BitVec.eq_of_toNat_eq
        simp
      rw [hnat, hlow]
      exact signExtend_low (by simp) (by norm_num; omega) (by norm_num; omega)
    rw [readMarked, if_pos hmark, hval]
    exact Reads.done _
  split
  · rename_i h
    have hread := hsize 0xC8 1 (by simp) (by norm_num; omega) (by norm_num; omega) rfl
    have hone : storeBe 1 (i.toNat % 2 ^ (8 * 1)) = [UInt8.ofNat i.toNat] := by
      have hmod : UInt8.ofNat (i.toNat % 2 ^ (8 * 1)) = UInt8.ofNat i.toNat :=
        UInt8.toNat.inj (by rw [UInt8.toNat_ofNat', UInt8.toNat_ofNat']; omega)
      simp only [storeBe, Nat.pow_zero, Nat.div_one, hmod]
    rwa [hone] at hread
  split
  · rename_i h
    exact hsize 0xC9 2 (by simp) (by norm_num; omega) (by norm_num; omega) rfl
  split
  · rename_i h
    exact hsize 0xCA 4 (by simp) (by norm_num; omega) (by norm_num; omega) rfl
  have hfull : i.toNat % 2 ^ (8 * 8) = i.toNat := Nat.mod_eq_of_lt i.isLt
  have hread := hsize 0xCB 8 (by simp) (by norm_num; have := BitVec.le_toInt i; omega)
    (by norm_num; have := BitVec.toInt_lt (x := i); omega) rfl
  rwa [hfull] at hread

theorem reads_float (bits : BitVec 64) :
    Reads (readAt (levels + 1)) (0xC1 :: storeBe 8 bits.toNat) 0 (.float bits) := by
  refine readAt_cons _ ?_
  have hmap := (reads_takeUint (n := 8) (v := bits.toNat) bits.isLt).map
    (g := fun n => PackValue.float (BitVec.ofNat 64 n))
  rwa [BitVec.ofNat_toNat, BitVec.setWidth_eq] at hmap

/-! ## The arena -/

theorem alloc_fits {a : PackArena} {size align : Nat} (halign : 0 < align) (hused : a.used ≤ a.cap)
    (hroom : size + (align - 1) ≤ a.cap - a.used) :
    ∃ a', a.alloc size align = some a' ∧ a'.cap = a.cap ∧ a'.used ≤ a.used + (size + (align - 1)) := by
  have hpad : (align - a.used % align) % align ≤ align - 1 := by
    have := Nat.mod_lt (align - a.used % align) halign
    omega
  refine ⟨{ a with used := a.used + (align - a.used % align) % align + size }, ?_, rfl, ?_⟩
  · rw [PackArena.alloc]
    exact if_neg (by omega)
  · simp only
    omega

theorem reads_allocate {alloc size}
    (h : ∀ a : PackArena, a.used ≤ a.cap → size ≤ a.cap - a.used →
      ∃ a', alloc a = some a' ∧ a'.cap = a.cap ∧ a'.used ≤ a.used + size) :
    Reads (allocate alloc n) [] size () := by
  intro rest arena hused hroom
  unfold allocate
  split
  · exact ⟨arena, rfl, rfl, by omega⟩
  · obtain ⟨a', ha, hcap, hle⟩ := h arena hused hroom
    rw [ha]
    exact ⟨a', rfl, hcap, hle⟩

theorem reads_allocN {size count : Nat} (hsize : size ≤ 2 ^ 20) (hcount : count ≤ kMaxElements) :
    Reads (allocate (fun a => a.allocN size count) n) [] (size * count + 7) () := by
  refine reads_allocate fun a hused hroom => ?_
  have hbound : ¬(count ≠ 0 ∧ 2 ^ 40 / count < size) := by
    rintro ⟨hne, hlt⟩
    have hle : 2 ^ 40 / kMaxElements ≤ 2 ^ 40 / count :=
      Nat.div_le_div_left hcount (Nat.pos_of_ne_zero hne)
    have hk : 2 ^ 40 / kMaxElements = 2 ^ 20 := by decide
    omega
  rw [PackArena.allocN, if_neg hbound]
  exact alloc_fits (by decide) hused hroom

theorem reads_stringPayload {s : Bytes} (h : s.length ≤ kMaxStringBytes) :
    Reads (readStringPayload s.length) s s.length s := by
  rw [readStringPayload, if_neg (by omega)]
  have halloc : Reads (allocate (fun a => a.alloc s.length 1) s.length) [] s.length () :=
    reads_allocate fun a hused hroom => alloc_fits (by decide) hused hroom
  have hthen := (reads_take s).then
    (f := fun s' => (allocate (fun a => a.alloc s.length 1) s.length).then fun _ => Read.done s')
    (halloc.map (g := fun _ => s))
  rwa [append_nil, Nat.zero_add] at hthen

/-! ## Containers -/

variable {items : List PackValue} {pairs : List (Bytes × PackValue)} {key pk : Bytes} {nk : Nat}

theorem reads_items_cons (hv : Reads read p n v)
    (hitems : Reads (readItems read items.length) q m items) :
    Reads (readItems read (v :: items).length) (p ++ q) (n + m) (v :: items) := by
  have hthen := hv.then (f := fun v => (readItems read items.length).then fun items =>
    Read.done (v :: items)) (hitems.map (g := (v :: ·)))
  exact hthen

theorem reads_pairs_cons (hkey : Reads read pk nk (.string key)) (hv : Reads read p n v)
    (hpairs : Reads (readPairs read pairs.length) q m pairs) :
    Reads (readPairs read ((key, v) :: pairs).length) (pk ++ (p ++ q))
      (nk + (kPackValueSize * 1 + 7 + (n + m))) ((key, v) :: pairs) := by
  have hrest := hv.then (f := fun v => (readPairs read pairs.length).then fun pairs =>
    Read.done ((key, v) :: pairs)) (hpairs.map (g := ((key, v) :: ·)))
  have hslot : Reads (allocate (fun a => a.allocN kPackValueSize 1) 1) []
      (kPackValueSize * 1 + 7) () := reads_allocN (by decide) (by decide)
  intro rest arena hused hroom
  exact hkey.then (hslot.then hrest) rest arena hused hroom

theorem reads_list (hitems : Reads (readItems read items.length) p n items)
    (hlen : items.length ≤ kMaxElements) :
    Reads (readList read items.length) p (kPackValueSize * items.length + 7 + n) items := by
  rw [readList, if_neg (by omega)]
  exact (reads_allocN (by decide) hlen).then hitems

theorem reads_dict (hpairs : Reads (readPairs read pairs.length) p n pairs)
    (hlen : pairs.length ≤ kMaxElements) :
    Reads (readDict read pairs.length) p (kPackPairSize * pairs.length + 7 + n) pairs := by
  rw [readDict, if_neg (by omega)]
  exact (reads_allocN (by decide) hlen).then hpairs

variable (signature : UInt8)

theorem reads_struct
    (hitems : Reads (readItems (readAt levels) items.length) p n items) (hlen : items.length ≤ 15) :
    Reads (readAt (levels + 1)) ((0xB0 ||| UInt8.ofNat items.length) :: signature :: p)
      (kPackValueSize * items.length + 7 + n) (.struct signature items) := by
  have hlen' : items.length ≤ kMaxElements := hlen.trans (by decide)
  refine readAt_cons _ ?_
  have hread := readMarked_struct (readAt levels) ⟨items.length, by omega⟩
  simp only at hread
  rw [hread]
  have hthen := (reads_take [signature]).then (f := fun sig =>
    (readList (readAt levels) items.length).then fun l => Read.done (PackValue.struct (sig.getD 0 0) l))
    ((reads_list hitems hlen').map (g := PackValue.struct signature))
  rwa [Nat.zero_add] at hthen

/-! ## What is written is read back -/

theorem bind_eq_ok {ε : Type} {x : Except ε α} {f : α → Except ε β} :
    x.bind f = .ok b ↔ ∃ a, x = .ok a ∧ f a = .ok b := by
  cases x with
  | error e => simp [Except.bind]
  | ok a => simp [Except.bind]

theorem raw_eq_ok : raw w p = .ok w' ↔
    p.length ≤ w.cap - w.buf.length ∧ w' = { w with buf := w.buf ++ p } := by
  unfold raw
  split
  · simp; omega
  · simp [eq_comm]; omega

theorem raw_append (w : PackWriter) (p q : Bytes) :
    ((raw w p).bind fun w => raw w q) = raw w (p ++ q) := by
  unfold raw
  simp only [length_append]
  split
  · rw [if_pos (by omega)]
    rfl
  simp only [Except.bind, length_append, append_assoc]
  split
  · rw [if_pos (by omega)]
  · rw [if_neg (by omega)]

theorem putSizedHeader_le {tiny m8 m16 m32 limit header}
    (h : putSizedHeader n tiny m8 m16 m32 limit = .ok header) : n ≤ limit := by
  unfold putSizedHeader at h
  split at h
  · cases h
  · omega

/-! ### Conditions on every value of a tree -/

mutual

/-- The value at this depth, and every value inside it at its depth, is `ok`. -/
def Every (ok : Nat → PackValue → Prop) (depth : Nat) (v : PackValue) : Prop :=
  ok depth v ∧
    match v with
    | .list items => EveryItem ok (depth + 1) items
    | .struct _ items => EveryItem ok (depth + 1) items
    | .dict pairs => EveryPair ok (depth + 1) pairs
    | _ => True

def EveryItem (ok : Nat → PackValue → Prop) (depth : Nat) : List PackValue → Prop
  | [] => True
  | v :: items => Every ok depth v ∧ EveryItem ok depth items

def EveryPair (ok : Nat → PackValue → Prop) (depth : Nat) : List (Bytes × PackValue) → Prop
  | [] => True
  | (_, v) :: pairs => Every ok depth v ∧ EveryPair ok depth pairs

end

def fieldsFit (_ : Nat) : PackValue → Prop
  | .struct _ items => items.length ≤ 15
  | _ => True

/-- Every structure of the tree has at most 15 fields. -/
def SmallStructs (v : PackValue) : Prop := Every fieldsFit 0 v

def withinLimits (depth : Nat) (v : PackValue) : Prop :=
  depth < kMaxDepth ∧
    match v with
    | .string s => s.length ≤ kMaxStringBytes
    | .bytes s => s.length ≤ kMaxStringBytes
    | .list items => items.length ≤ kMaxElements
    | .dict pairs => pairs.length ≤ kMaxElements ∧ ∀ kv ∈ pairs, kv.1.length ≤ kMaxStringBytes
    | .struct _ items => items.length ≤ 15
    | _ => True

/-- The tree is within the depth, element, string and structure limits. -/
def WithinLimits (v : PackValue) : Prop := Every withinLimits 0 v

theorem putSized_eq_ok {header : Except PackError Bytes} {s : Bytes} :
    putSized w header s = .ok w' ↔ ∃ h, header = .ok h ∧ raw w (h ++ s) = .ok w' := by
  simp only [putSized, bind_eq_ok, ← raw_append]

theorem putSized_reads {s : Bytes} {tiny m8 m16 m32} {g : Bytes → PackValue}
    (hf : ∀ levels, Family (readAt levels) tiny m8 m16 m32
      fun n => (readStringPayload n).then fun s => .done (g s))
    (h : putSized w (putSizedHeader s.length tiny m8 m16 m32 kMaxStringBytes) s = .ok w') :
    ∃ p, w' = { w with buf := w.buf ++ p } ∧ ∀ levels, ∃ n, Reads (readAt (levels + 1)) p n (g s) := by
  obtain ⟨header, hheader, hraw⟩ := putSized_eq_ok.mp h
  refine ⟨header ++ s, (raw_eq_ok.mp hraw).2, fun levels => ⟨s.length, ?_⟩⟩
  exact reads_sized (hf levels) hheader (by decide)
    ((reads_stringPayload (putSizedHeader_le hheader)).map (g := g))

theorem putString_reads {s : Bytes} (h : putString w s = .ok w') : ∃ p,
    w' = { w with buf := w.buf ++ p } ∧ ∀ levels, ∃ n, Reads (readAt (levels + 1)) p n (.string s) := by
  unfold putString at h
  split at h
  · cases h
  · exact putSized_reads (fun _ => family_string _) h

theorem putBytes_reads {s : Bytes} (h : putBytes w s = .ok w') : ∃ p,
    w' = { w with buf := w.buf ++ p } ∧ ∀ levels, ∃ n, Reads (readAt (levels + 1)) p n (.bytes s) := by
  unfold putBytes at h
  split at h
  · cases h
  · exact putSized_reads (fun _ => family_bytes _) h

mutual

theorem putValueAt_reads (depth : Nat) (w : PackWriter) (v : PackValue) (w' : PackWriter)
    (h : putValueAt depth w v = .ok w') :
    depth < kMaxDepth ∧ ∃ p, w' = { w with buf := w.buf ++ p } ∧
      (Every fieldsFit depth v → ∃ n, Reads (readAt (kMaxDepth - depth)) p n v) := by
  rw [putValueAt.eq_def] at h
  split at h
  · cases h
  rename_i hdepth
  refine ⟨by omega, ?_⟩
  have hlevels : kMaxDepth - depth = kMaxDepth - (depth + 1) + 1 := by omega
  rw [hlevels]
  cases v with
  | null => exact ⟨_, (raw_eq_ok.mp h).2, fun _ => ⟨0, readAt_cons _ (Reads.done _)⟩⟩
  | bool b =>
    refine ⟨_, (raw_eq_ok.mp h).2, fun _ => ⟨0, readAt_cons _ ?_⟩⟩
    cases b <;> exact Reads.done _
  | int i => exact ⟨_, (raw_eq_ok.mp h).2, fun _ => ⟨0, reads_int i⟩⟩
  | float bits => exact ⟨_, (raw_eq_ok.mp h).2, fun _ => ⟨0, reads_float bits⟩⟩
  | string s =>
    obtain ⟨p, hw, hp⟩ := putString_reads h
    exact ⟨p, hw, fun _ => hp _⟩
  | bytes s =>
    obtain ⟨p, hw, hp⟩ := putBytes_reads h
    exact ⟨p, hw, fun _ => hp _⟩
  | list items =>
    obtain ⟨w₁, h₁, h₂⟩ := bind_eq_ok.mp h
    obtain ⟨header, hheader, hraw⟩ := bind_eq_ok.mp h₁
    obtain ⟨-, rfl⟩ := raw_eq_ok.mp hraw
    obtain ⟨p, rfl, hp⟩ := putItems_reads (depth + 1) _ items w' h₂
    refine ⟨header ++ p, by simp, fun hsmall => ?_⟩
    obtain ⟨n, hn⟩ := hp hsmall.2
    exact ⟨_, reads_sized (family_list _) hheader (by decide)
      ((reads_list hn (putSizedHeader_le hheader)).map (g := PackValue.list))⟩
  | dict pairs =>
    obtain ⟨w₁, h₁, h₂⟩ := bind_eq_ok.mp h
    obtain ⟨header, hheader, hraw⟩ := bind_eq_ok.mp h₁
    obtain ⟨-, rfl⟩ := raw_eq_ok.mp hraw
    obtain ⟨p, rfl, hp⟩ := putPairs_reads (depth + 1) _ pairs w' h₂
    refine ⟨header ++ p, by simp, fun hsmall => ?_⟩
    obtain ⟨n, hn⟩ := hp hsmall.2
    exact ⟨_, reads_sized (family_dict _) hheader (by decide)
      ((reads_dict hn (putSizedHeader_le hheader)).map (g := PackValue.dict))⟩
  | struct signature items =>
    obtain ⟨w₁, h₁, h₂⟩ := bind_eq_ok.mp h
    rw [beginStruct] at h₁
    split at h₁
    · cases h₁
    obtain ⟨-, rfl⟩ := raw_eq_ok.mp h₁
    obtain ⟨p, rfl, hp⟩ := putItems_reads (depth + 1) _ items w' h₂
    refine ⟨(0xB0 ||| UInt8.ofNat items.length) :: signature :: p, by simp, fun hsmall => ?_⟩
    obtain ⟨n, hn⟩ := hp hsmall.2
    exact ⟨_, reads_struct signature hn hsmall.1⟩

theorem putItems_reads (depth : Nat) (w : PackWriter) (items : List PackValue) (w' : PackWriter)
    (h : putItems depth w items = .ok w') :
    ∃ p, w' = { w with buf := w.buf ++ p } ∧ (EveryItem fieldsFit depth items →
      ∃ n, Reads (readItems (readAt (kMaxDepth - depth)) items.length) p n items) := by
  cases items with
  | nil =>
    cases h
    exact ⟨[], by simp, fun _ => ⟨0, Reads.done []⟩⟩
  | cons v items =>
    rw [putItems] at h
    obtain ⟨w₁, h₁, h₂⟩ := bind_eq_ok.mp h
    obtain ⟨-, p, rfl, hp⟩ := putValueAt_reads depth w v w₁ h₁
    obtain ⟨q, rfl, hq⟩ := putItems_reads depth _ items w' h₂
    refine ⟨p ++ q, by simp, fun hsmall => ?_⟩
    obtain ⟨n, hn⟩ := hp hsmall.1
    obtain ⟨m, hm⟩ := hq hsmall.2
    exact ⟨n + m, reads_items_cons hn hm⟩

theorem putPairs_reads (depth : Nat) (w : PackWriter) (pairs : List (Bytes × PackValue))
    (w' : PackWriter) (h : putPairs depth w pairs = .ok w') :
    ∃ p, w' = { w with buf := w.buf ++ p } ∧ (EveryPair fieldsFit depth pairs →
      ∃ n, Reads (readPairs (readAt (kMaxDepth - depth)) pairs.length) p n pairs) := by
  cases pairs with
  | nil =>
    cases h
    exact ⟨[], by simp, fun _ => ⟨0, Reads.done []⟩⟩
  | cons pair pairs =>
    obtain ⟨key, v⟩ := pair
    rw [putPairs] at h
    obtain ⟨w₁, h₁, h₂⟩ := bind_eq_ok.mp h
    obtain ⟨w₂, h₂, h₃⟩ := bind_eq_ok.mp h₂
    obtain ⟨pk, rfl, hk⟩ := putString_reads h₁
    obtain ⟨hdepth, p, rfl, hp⟩ := putValueAt_reads depth _ v w₂ h₂
    obtain ⟨q, rfl, hq⟩ := putPairs_reads depth _ pairs w' h₃
    refine ⟨pk ++ (p ++ q), by simp, fun hsmall => ?_⟩
    obtain ⟨levels, hlevels⟩ : ∃ levels, kMaxDepth - depth = levels + 1 :=
      ⟨kMaxDepth - depth - 1, by omega⟩
    rw [hlevels] at hp hq ⊢
    obtain ⟨nk, hnk⟩ := hk levels
    obtain ⟨n, hn⟩ := hp hsmall.1
    obtain ⟨m, hm⟩ := hq hsmall.2
    exact ⟨_, reads_pairs_cons hnk hn hm⟩

end

/-! ## Within the limits everything is written -/

def Writes (x : PackWriter → Except PackError PackWriter) (p : Bytes) : Prop :=
  ∀ w, x w = raw w p

theorem Writes.bind {x y} (hx : Writes x p) (hy : Writes y q) :
    Writes (fun w => (x w).bind y) (p ++ q) := by
  intro w
  beta_reduce
  rw [hx w, ← raw_append, funext hy]

theorem putSizedHeader_writes (tiny m8 m16 m32 : UInt8) {limit} (h : n ≤ limit) :
    ∃ header, Writes (fun w => (putSizedHeader n tiny m8 m16 m32 limit).bind (raw w)) header := by
  rw [putSizedHeader, if_neg (by omega)]
  split
  · exact ⟨_, fun w => rfl⟩
  split
  · exact ⟨_, fun w => rfl⟩
  split
  · exact ⟨_, fun w => rfl⟩
  · exact ⟨_, fun w => rfl⟩

theorem putSized_writes (tiny m8 m16 m32 : UInt8) {s} (h : s.length ≤ kMaxStringBytes) :
    ∃ p, Writes (fun w => if kMaxStringBytes < s.length then .error .tooLarge
      else putSized w (putSizedHeader s.length tiny m8 m16 m32 kMaxStringBytes) s) p := by
  obtain ⟨header, hheader⟩ := putSizedHeader_writes tiny m8 m16 m32 h
  refine ⟨header ++ s, fun w => ?_⟩
  beta_reduce
  rw [if_neg (by omega), ← raw_append, ← hheader w]
  cases putSizedHeader s.length tiny m8 m16 m32 kMaxStringBytes <;> rfl

theorem putString_writes {s} (h : s.length ≤ kMaxStringBytes) :
    ∃ p, Writes (fun w => putString w s) p :=
  putSized_writes 0x80 0xD0 0xD1 0xD2 h

theorem putBytes_writes {s} (h : s.length ≤ kMaxStringBytes) :
    ∃ p, Writes (fun w => putBytes w s) p :=
  putSized_writes 0 0xCC 0xCD 0xCE h

theorem beginList_writes (h : n ≤ kMaxElements) : ∃ p, Writes (fun w => beginList w n) p :=
  putSizedHeader_writes 0x90 0xD4 0xD5 0xD6 h

theorem beginDict_writes (h : n ≤ kMaxElements) : ∃ p, Writes (fun w => beginDict w n) p :=
  putSizedHeader_writes 0xA0 0xD8 0xD9 0xDA h

theorem beginStruct_writes (h : n ≤ 15) :
    ∃ p, Writes (fun w => beginStruct w signature (UInt8.ofNat n)) p := by
  have hnot : ¬15 < UInt8.ofNat n := by
    rw [UInt8.lt_iff_toNat_lt, UInt8.toNat_ofNat', show (15 : UInt8).toNat = 15 from rfl]
    omega
  exact ⟨[0xB0 ||| UInt8.ofNat n, signature], fun w => if_neg hnot⟩

mutual

theorem putValueAt_writes (depth : Nat) (v : PackValue) (h : Every withinLimits depth v) :
    ∃ p, Writes (fun w => putValueAt depth w v) p := by
  rw [Every.eq_def] at h
  obtain ⟨⟨hdepth, hself⟩, hinside⟩ := h
  simp only [putValueAt.eq_def, if_neg (Nat.not_le_of_lt hdepth)]
  cases v with
  | string s => exact putString_writes hself
  | bytes s => exact putBytes_writes hself
  | list items =>
    obtain ⟨p, hp⟩ := beginList_writes hself
    obtain ⟨q, hq⟩ := putItems_writes (depth + 1) items hinside
    exact ⟨p ++ q, hp.bind hq⟩
  | dict pairs =>
    obtain ⟨p, hp⟩ := beginDict_writes hself.1
    obtain ⟨q, hq⟩ := putPairs_writes (depth + 1) pairs hself.2 hinside
    exact ⟨p ++ q, hp.bind hq⟩
  | struct signature items =>
    obtain ⟨p, hp⟩ := beginStruct_writes signature hself
    obtain ⟨q, hq⟩ := putItems_writes (depth + 1) items hinside
    exact ⟨p ++ q, hp.bind hq⟩
  | _ => exact ⟨_, fun w => rfl⟩

theorem putItems_writes (depth : Nat) (items : List PackValue)
    (h : EveryItem withinLimits depth items) : ∃ p, Writes (fun w => putItems depth w items) p := by
  cases items with
  | nil => exact ⟨[], fun w => by simp [putItems, raw]⟩
  | cons v items =>
    obtain ⟨p, hp⟩ := putValueAt_writes depth v h.1
    obtain ⟨q, hq⟩ := putItems_writes depth items h.2
    exact ⟨p ++ q, fun w => by beta_reduce; rw [putItems]; exact hp.bind hq w⟩

theorem putPairs_writes (depth : Nat) (pairs : List (Bytes × PackValue))
    (hkeys : ∀ kv ∈ pairs, kv.1.length ≤ kMaxStringBytes)
    (h : EveryPair withinLimits depth pairs) : ∃ p, Writes (fun w => putPairs depth w pairs) p := by
  cases pairs with
  | nil => exact ⟨[], fun w => by simp [putPairs, raw]⟩
  | cons pair pairs =>
    obtain ⟨key, v⟩ := pair
    rw [forall_mem_cons] at hkeys
    obtain ⟨pk, hk⟩ := putString_writes hkeys.1
    obtain ⟨p, hp⟩ := putValueAt_writes depth v h.1
    obtain ⟨q, hq⟩ := putPairs_writes depth pairs hkeys.2 h.2
    exact ⟨pk ++ (p ++ q), fun w => by beta_reduce; rw [putPairs]; exact hk.bind (hp.bind hq) w⟩

end

/-! ## What is read has small structures -/

def Gives (x : Read α) (P : α → Prop) : Prop := ∀ r a r', x r = .ok (a, r') → P a

variable {P : α → Prop} {Q : β → Prop}

theorem Gives.then (hx : Gives x P) (hf : ∀ a, P a → Gives (f a) Q) : Gives (x.then f) Q := by
  intro r b r' h
  obtain ⟨⟨a, r₁⟩, h₁, h₂⟩ := bind_eq_ok.mp h
  exact hf a (hx r a r₁ h₁) r₁ b r' h₂

theorem Gives.done (h : P a) : Gives (.done a) P := by
  intro r b r' hr
  cases hr
  exact h

theorem Gives.fail (e : PackError) : Gives (.fail e) P := nofun

theorem Gives.ite {c} [Decidable c] {y} (hx : Gives x P) (hy : Gives y P) :
    Gives (if c then x else y) P := by
  split
  · exact hx
  · exact hy

theorem Gives.behind (h : ∀ a, Gives (f a) Q) : Gives (x.then f) Q :=
  Gives.then (P := fun _ => True) (fun _ _ _ _ => trivial) fun a _ => h a

theorem Gives.map {g : α → β} (h : ∀ a, Q (g a)) : Gives (x.then fun a => .done (g a)) Q :=
  .behind fun a => .done (h a)

section
variable (h : Gives read (Every fieldsFit depth))
include h

theorem gives_readItems (n : Nat) :
    Gives (readItems read n) fun items => items.length = n ∧ EveryItem fieldsFit depth items := by
  induction n with
  | zero => exact Gives.done ⟨rfl, trivial⟩
  | succ n ih =>
    exact h.then fun v hv => ih.then fun items hitems =>
      Gives.done ⟨congrArg (· + 1) hitems.1, hv, hitems.2⟩

theorem gives_readPairs (n : Nat) :
    Gives (readPairs read n) (EveryPair fieldsFit depth) := by
  induction n with
  | zero => exact Gives.done trivial
  | succ n ih =>
    refine h.then fun key _ => ?_
    split
    · exact .behind fun _ => h.then fun v hv => ih.then fun pairs hpairs => Gives.done ⟨hv, hpairs⟩
    · exact Gives.fail _

theorem gives_readList (n : Nat) :
    Gives (readList read n) fun items => items.length = n ∧ EveryItem fieldsFit depth items := by
  unfold readList
  split
  · exact Gives.fail _
  · exact .behind fun _ => gives_readItems h n

theorem gives_readDict (n : Nat) :
    Gives (readDict read n) (EveryPair fieldsFit depth) := by
  unfold readDict
  split
  · exact Gives.fail _
  · exact .behind fun _ => gives_readPairs h n

end

theorem gives_readMarked (h : Gives read (Every fieldsFit (depth + 1))) (marker : UInt8) :
    Gives (readMarked read marker) (Every fieldsFit depth) := by
  have hstring : ∀ n, Gives ((readStringPayload n).then fun s => .done (PackValue.string s))
      (Every fieldsFit depth) := fun n => Gives.map fun s => ⟨trivial, trivial⟩
  have hbytes : ∀ n, Gives ((readStringPayload n).then fun s => .done (PackValue.bytes s))
      (Every fieldsFit depth) := fun n => Gives.map fun s => ⟨trivial, trivial⟩
  have hlist : ∀ n, Gives ((readList read n).then fun l => .done (PackValue.list l))
      (Every fieldsFit depth) := fun n =>
    (gives_readList h n).then fun items hitems => Gives.done ⟨trivial, hitems.2⟩
  have hdict : ∀ n, Gives ((readDict read n).then fun d => .done (PackValue.dict d))
      (Every fieldsFit depth) := fun n =>
    (gives_readDict h n).then fun pairs hpairs => Gives.done ⟨trivial, hpairs⟩
  have hint : ∀ width, Gives (readInt width) (Every fieldsFit depth) := fun width =>
    Gives.map fun n => ⟨trivial, trivial⟩
  unfold readMarked
  refine Gives.ite (Gives.done ⟨trivial, trivial⟩) ?_
  refine Gives.ite (hstring _) ?_
  refine Gives.ite (hlist _) ?_
  refine Gives.ite (hdict _) ?_
  refine Gives.ite ?_ ?_
  · -- the low half of the marker counts the fields
    refine .behind fun sig => ?_
    refine (gives_readList h _).then fun items hitems => Gives.done ⟨?_, hitems.2⟩
    change items.length ≤ 15
    omega
  refine Gives.ite (Gives.done ⟨trivial, trivial⟩) ?_
  refine Gives.ite (Gives.map fun n => ⟨trivial, trivial⟩) ?_
  refine Gives.ite (Gives.done ⟨trivial, trivial⟩) ?_
  refine Gives.ite (Gives.done ⟨trivial, trivial⟩) ?_
  refine Gives.ite (hint 1) (Gives.ite (hint 2) (Gives.ite (hint 4) (Gives.ite (hint 8) ?_)))
  refine Gives.ite (.behind hbytes) ?_
  refine Gives.ite (.behind hstring) ?_
  refine Gives.ite (.behind hlist) ?_
  refine Gives.ite (.behind hdict) ?_
  exact Gives.ite (Gives.fail _) (Gives.fail _)

theorem gives_readAt (levels depth : Nat) : Gives (readAt levels) (Every fieldsFit depth) := by
  induction levels generalizing depth with
  | zero => exact Gives.fail _
  | succ levels ih =>
    exact .behind fun m => gives_readMarked (ih (depth + 1)) _

/-! ## The round trip -/

/-- A tree that is written is read back from exactly the octets written, with enough
of the arena, precisely if every structure in it has at most 15 fields; and a tree
within the limits is written if there is room. -/
theorem putValue_read (v : PackValue) :
    (∀ w w', putValue w v = .ok w' → ∃ p, w' = { w with buf := w.buf ++ p } ∧
      ((∃ n, Reads PackStream.read p n v) ↔ SmallStructs v)) ∧
    (WithinLimits v → ∃ n, ∀ w : PackWriter, n ≤ w.cap - w.buf.length →
      ∃ w', putValue w v = .ok w') := by
  refine ⟨fun w w' h => ?_, fun h => ?_⟩
  · obtain ⟨-, p, hw, hp⟩ := putValueAt_reads 0 w v w' h
    refine ⟨p, hw, fun ⟨n, hn⟩ => ?_, hp⟩
    obtain ⟨arena, hrun, -⟩ := hn [] ⟨n, 0⟩ (Nat.zero_le n) (Nat.le_refl n)
    exact gives_readAt kMaxDepth 0 _ v _ hrun
  · obtain ⟨p, hp⟩ := putValueAt_writes 0 v h
    exact ⟨p.length, fun w hroom => ⟨_, (hp w).trans (raw_eq_ok.mpr ⟨hroom, rfl⟩)⟩⟩

theorem putValue_read_nested :
    putValue ⟨[], 64⟩ (.list [.int 300, .struct 0x4E [.string [0x61]]]) =
        .ok ⟨[0x92, 0xC9, 0x01, 0x2C, 0xB1, 0x4E, 0x81, 0x61], 64⟩ ∧
      ∃ n, Reads PackStream.read [0x92, 0xC9, 0x01, 0x2C, 0xB1, 0x4E, 0x81, 0x61] n
        (.list [.int 300, .struct 0x4E [.string [0x61]]]) := by
  have hput : putValue ⟨[], 64⟩ (.list [.int 300, .struct 0x4E [.string [0x61]]]) =
      .ok ⟨[0x92, 0xC9, 0x01, 0x2C, 0xB1, 0x4E, 0x81, 0x61], 64⟩ := rfl
  obtain ⟨p, hp, hiff⟩ := (putValue_read _).1 _ _ hput
  obtain rfl : [0x92, 0xC9, 0x01, 0x2C, 0xB1, 0x4E, 0x81, 0x61] = p := (PackWriter.mk.inj hp).1
  exact ⟨hput, hiff.mpr ⟨trivial, ⟨trivial, trivial⟩,
    ⟨(by decide : 1 ≤ 15), ⟨trivial, trivial⟩, trivial⟩, trivial⟩⟩

theorem putItems_null (n : Nat) :
    Writes (fun w => putItems 1 w (List.replicate n .null)) (List.replicate n 0xC0) := by
  induction n with
  | zero => exact fun w => by simp [putItems, raw]
  | succ n ih =>
    have hnull : Writes (fun w => putValueAt 1 w .null) [0xC0] := fun w => rfl
    exact hnull.bind ih

theorem putValue_struct_null (hn : UInt8.ofNat n = 0) :
    Writes (fun w => putValue w (.struct signature (List.replicate n .null)))
      ([0xB0, signature] ++ List.replicate n 0xC0) := by
  have hbegin : Writes
      (fun w => beginStruct w signature (UInt8.ofNat (List.replicate n PackValue.null).length))
      [0xB0, signature] := by
    rw [length_replicate, hn]
    exact fun w => rfl
  exact hbegin.bind (putItems_null n)

/-- A structure of 256 fields is written with the count 0, and read back without
fields. -/
theorem putValue_struct_count_wraps :
    ∃ p, putValue ⟨[], 1024⟩ (.struct 0x4E (List.replicate 256 .null)) = .ok ⟨p, 1024⟩ ∧
      ∃ arena, PackStream.read ⟨p, ⟨65536, 0⟩⟩ =
        .ok (.struct 0x4E [], ⟨List.replicate 256 0xC0, arena⟩) := by
  refine ⟨[0xB0, 0x4E] ++ List.replicate 256 0xC0, ?_, ?_⟩
  · refine (putValue_struct_null 0x4E (by decide) _).trans (raw_eq_ok.mpr ⟨?_, rfl⟩)
    rw [length_append, length_replicate]
    decide
  have hitems : Reads (readItems (readAt 15) ([] : List PackValue).length) [] 0 [] := Reads.done []
  have hread : Reads PackStream.read [0xB0, 0x4E] 7 (.struct 0x4E []) :=
    reads_struct 0x4E hitems (by decide)
  obtain ⟨arena, hrun, -⟩ := hread (List.replicate 256 0xC0) ⟨65536, 0⟩ (by decide) (by decide)
  exact ⟨arena, hrun⟩

end BoltApi.Neo4j.PackStream
