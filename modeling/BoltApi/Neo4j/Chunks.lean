import BoltApi.Octets

/-! # Message framing

`ChunkedIo` of `proto/neo4j_bolt_server.cpp`: a message travels in chunks of two
octets of length and that many octets, ended by `00 00`. The socket is the octets
the peer still sends; where they end, `read_exact` fails. -/
namespace BoltApi.Neo4j
open Octets List

def kMaxChunk : Nat := 0xFFFF
def kMaxChunksPerMessage : Nat := 2 ^ 14

/-- What `read_message` returns: the message and what is left on the socket, or its
codes -1 and -2. -/
inductive ReadResult
  | message (payload rest : Bytes)
  | closed
  | refused

/-- The loop of `read_message`, with the chunks it may still take and the octets it
has put into the buffer. -/
def readChunks (cap : Nat) : Nat → Bytes → Bytes → ReadResult
  | left, acc, hi :: lo :: rest =>
    if hi.toNat * 256 + lo.toNat = 0 then .message acc rest
    else
      match left with
      | 0 => .refused
      | left + 1 =>
        if cap - acc.length < hi.toNat * 256 + lo.toNat then .refused
        else if rest.length < hi.toNat * 256 + lo.toNat then .closed
        else readChunks cap left (acc ++ rest.take (hi.toNat * 256 + lo.toNat))
          (rest.drop (hi.toNat * 256 + lo.toNat))
  | _, _, _ => .closed

def readMessage (cap : Nat) (stream : Bytes) : ReadResult :=
  readChunks cap kMaxChunksPerMessage [] stream

def chunkHeader (len : Nat) : Bytes := [UInt8.ofNat (len / 256), UInt8.ofNat (len % 256)]

/-- The length of the next chunk when `n` octets are left. -/
def chunkLen (n : Nat) : Nat := if kMaxChunk < n then kMaxChunk else n

/-- The loop of `write_message`; `none` where it gives up. -/
def writeChunks : Nat → Bytes → Option Bytes
  | left, payload =>
    if payload.length = 0 then some [0, 0]
    else
      match left with
      | 0 => none
      | left + 1 =>
        (writeChunks left (payload.drop (chunkLen payload.length))).map fun s =>
          chunkHeader (chunkLen payload.length) ++ payload.take (chunkLen payload.length) ++ s

def writeMessage (payload : Bytes) : Option Bytes := writeChunks kMaxChunksPerMessage payload

/-! ## Chunked messages -/

variable {cap left : Nat} {acc rest c : Bytes} {chunks : List Bytes}

def chunk (c : Bytes) : Bytes := chunkHeader c.length ++ c

/-- A message, divided into chunks, on the wire. -/
def frame (chunks : List Bytes) : Bytes := chunks.flatMap chunk ++ [0, 0]

def ChunkOk (c : Bytes) : Prop := 0 < c.length ∧ c.length ≤ kMaxChunk

theorem chunkHeader_eq {len} (h : len ≤ kMaxChunk) :
    ∃ hi lo, chunkHeader len = [hi, lo] ∧ hi.toNat * 256 + lo.toNat = len := by
  refine ⟨_, _, rfl, ?_⟩
  have hk : kMaxChunk = 65535 := rfl
  rw [UInt8.toNat_ofNat', UInt8.toNat_ofNat']
  omega

theorem readChunks_end : readChunks cap left acc (0 :: 0 :: rest) = .message acc rest := by
  cases left <;> simp [readChunks]

theorem readChunks_chunk (hc : ChunkOk c) (hcap : acc.length + c.length ≤ cap) :
    readChunks cap (left + 1) acc (chunk c ++ rest) = readChunks cap left (acc ++ c) rest := by
  obtain ⟨hi, lo, hheader, hlen⟩ := chunkHeader_eq hc.2
  rw [chunk, hheader]
  simp only [cons_append, nil_append]
  rw [readChunks, hlen, if_neg (by have := hc.1; omega)]
  simp only [length_append]
  rw [if_neg (by omega), if_neg (by omega), take_left, drop_left]

theorem readChunks_none_left (hc : ChunkOk c) : readChunks cap 0 acc (chunk c ++ rest) = .refused := by
  obtain ⟨hi, lo, hheader, hlen⟩ := chunkHeader_eq hc.2
  rw [chunk, hheader]
  simp only [cons_append, nil_append]
  rw [readChunks, hlen, if_neg (by have := hc.1; omega)]

theorem readChunks_frame (hok : ∀ c ∈ chunks, ChunkOk c)
    (hcap : acc.length + chunks.flatten.length ≤ cap) :
    readChunks cap left acc (frame chunks ++ rest) =
      if chunks.length ≤ left then .message (acc ++ chunks.flatten) rest else .refused := by
  induction chunks generalizing left acc with
  | nil =>
    simp [frame, readChunks_end]
  | cons c chunks ih =>
    rw [forall_mem_cons] at hok
    rw [flatten_cons, length_append] at hcap
    have hframe : frame (c :: chunks) ++ rest = chunk c ++ (frame chunks ++ rest) := by
      simp [frame]
    rw [hframe]
    cases left with
    | zero => rw [readChunks_none_left hok.1, if_neg (by simp)]
    | succ left =>
      rw [readChunks_chunk hok.1 (by omega), ih hok.2 (by rw [length_append]; omega)]
      simp

theorem readMessage_frame (hok : ∀ c ∈ chunks, ChunkOk c) (hcap : chunks.flatten.length ≤ cap) :
    readMessage cap (frame chunks ++ rest) =
      if chunks.length ≤ kMaxChunksPerMessage then .message chunks.flatten rest else .refused := by
  refine (readChunks_frame hok ?_).trans ?_
  · simpa using hcap
  · rw [nil_append]

theorem readMessage_noop : readMessage cap (0 :: 0 :: rest) = .message [] rest :=
  readChunks_end

theorem readChunks_length {s payload} (h : readChunks cap left acc s = .message payload rest)
    (hacc : acc.length ≤ cap) : payload.length ≤ cap := by
  fun_induction readChunks cap left acc s with
  | case1 left acc hi lo tail hlen =>
    cases h
    exact hacc
  | case2 => cases h
  | case3 => cases h
  | case4 => cases h
  | case5 acc hi lo tail hlen left hcap htail ih =>
    refine ih h ?_
    rw [length_append, length_take]
    omega
  | case6 => cases h

/-! ## What is written is read -/

variable {payload s : Bytes}

theorem chunkLen_le (n : Nat) : chunkLen n ≤ kMaxChunk ∧ chunkLen n ≤ n := by
  unfold chunkLen
  split <;> omega

theorem chunkLen_pos {n} (h : n ≠ 0) : 0 < chunkLen n := by
  unfold chunkLen
  split
  · decide
  · omega

theorem writeChunks_frame (h : writeChunks left payload = some s) :
    ∃ chunks : List Bytes, s = frame chunks ∧ chunks.flatten = payload ∧
      (∀ c ∈ chunks, ChunkOk c) ∧ chunks.length ≤ left := by
  fun_induction writeChunks left payload generalizing s with
  | case1 left payload hlen =>
    cases h
    exact ⟨[], rfl, (length_eq_zero_iff.mp hlen).symm, nofun, Nat.zero_le left⟩
  | case2 => cases h
  | case3 payload hlen left ih =>
    obtain ⟨s', hs', rfl⟩ := Option.map_eq_some_iff.mp h
    obtain ⟨chunks, rfl, hflat, hok, hcount⟩ := ih hs'
    have hle := chunkLen_le payload.length
    have htake : (payload.take (chunkLen payload.length)).length = chunkLen payload.length := by
      rw [length_take]
      omega
    refine ⟨payload.take (chunkLen payload.length) :: chunks, ?_, ?_, ?_, Nat.succ_le_succ hcount⟩
    · simp only [frame, flatMap_cons, chunk, htake, append_assoc]
    · rw [flatten_cons, hflat, take_append_drop]
    · rw [forall_mem_cons, ChunkOk, htake]
      exact ⟨⟨chunkLen_pos hlen, hle.1⟩, hok⟩

theorem writeChunks_isSome :
    (writeChunks left payload).isSome ↔ payload.length ≤ left * kMaxChunk := by
  fun_induction writeChunks left payload with
  | case1 left payload hlen => simp [hlen]
  | case2 payload hlen => simpa using hlen
  | case3 payload hlen left ih =>
    rw [Option.isSome_map, ih, length_drop, Nat.succ_mul]
    unfold chunkLen
    split <;> omega

theorem readMessage_writeMessage (cap : Nat) (payload : Bytes) :
    (∃ s, writeMessage payload = some s ∧
      ∀ rest, readMessage cap (s ++ rest) = .message payload rest) ↔
    payload.length ≤ cap ∧ payload.length ≤ kMaxChunksPerMessage * kMaxChunk := by
  rw [← writeChunks_isSome]
  constructor
  · rintro ⟨s, hwrite, hread⟩
    exact ⟨readChunks_length (hread []) (Nat.zero_le cap), by rw [← writeMessage, hwrite]; rfl⟩
  rintro ⟨hcap, hsome⟩
  obtain ⟨s, hwrite⟩ := Option.isSome_iff_exists.mp hsome
  obtain ⟨chunks, rfl, rfl, hok, hcount⟩ := writeChunks_frame hwrite
  exact ⟨_, hwrite, fun rest => by rw [readMessage_frame hok hcap, if_pos hcount]⟩

end BoltApi.Neo4j
