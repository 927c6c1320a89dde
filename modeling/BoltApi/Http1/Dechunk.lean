import Mathlib.Logic.Relation
import BoltApi.Http1.ChunkedGrammar

/-! # Decoding a chunked body in place

`dechunk_in_place` moves every chunk's data to the front of the buffer whose
framing it is still reading. Both cursors are functions of the chunks done so
far (`Progress`): the write cursor counts their data, the read cursor their
encoding, which is longer, so what is still to be read is as the scanner saw
it. -/
namespace BoltApi.Http1.Dechunk
open Octets Lib.Scanning Chunked ChunkedScan List
open ChunkedGrammar

/-! ## Moving bytes down -/

theorem memmove_take {data : Bytes} {wr rd n} (hwr : wr ≤ rd) (hrd : rd + n ≤ data.length) :
    (memmove data wr rd n).take (wr + n) = data.take wr ++ (data.drop rd).take n := by
  have hlen : (data.take wr ++ (data.drop rd).take n).length = wr + n := by
    rw [length_append, length_take, length_take, length_drop]
    omega
  rw [memmove, take_left' hlen]

theorem memmove_drop {data : Bytes} {wr rd n k} (hwr : wr ≤ rd) (hrd : rd + n ≤ data.length) (hk : wr + n ≤ k) :
    (memmove data wr rd n).drop k = data.drop k := by
  have hlen : (data.take wr ++ (data.drop rd).take n).length = wr + n := by
    rw [length_append, length_take, length_take, length_drop]
    omega
  obtain ⟨m, rfl⟩ := Nat.exists_eq_add_of_le hk
  rw [memmove, ← drop_drop, drop_left' hlen, drop_drop]

/-! ## The loop -/

def chunkData (cs : List Chunk) : Bytes := cs.flatMap Chunk.data

theorem chunkData_length_le : ∀ cs : List Chunk, (chunkData cs).length ≤ (encodeChunks cs).length
  | [] => Nat.le_refl _
  | c :: cs => by
    have ih := chunkData_length_le cs
    simp only [chunkData, encodeChunks, flatMap_cons, Chunk.encode, length_append]
      at ih ⊢
    omega

def pending (t : ChunkedBody) (todo : List Chunk) : Bytes :=
  encodeChunks todo ++ (t.last.encode ++ encodeTrailers t.trailers)

/-- The state of the decoder on `t.encode ++ X` when the chunks `done` have been
moved and `todo` are left. -/
structure Progress (t : ChunkedBody) (X : Bytes) (done todo : List Chunk) (s : DechunkState) :
    Prop where
  chunks : t.chunks = done ++ todo
  rd : s.rd = (encodeChunks done).length
  wr : s.wr = (chunkData done).length
  moved : s.data.take s.wr = chunkData done
  unread : s.data.drop s.rd = pending t todo ++ X

variable {t : ChunkedBody} {X : Bytes} {done todo : List Chunk} {s : DechunkState}

theorem progress_init (t : ChunkedBody) (X : Bytes) :
    Progress t X [] t.chunks ⟨t.encode ++ X, 0, 0⟩ :=
  ⟨rfl, rfl, rfl, rfl, by simp [pending, ChunkedBody.encode]⟩

theorem Progress.rd_add (h : Progress t X done todo s) :
    s.rd + (pending t todo).length = t.encode.length := by
  rw [h.rd, pending, ChunkedBody.encode, h.chunks]
  simp only [encodeChunks, flatMap_append, length_append]
  omega

theorem Progress.wr_le_rd (h : Progress t X done todo s) : s.wr ≤ s.rd := by
  rw [h.wr, h.rd]
  exact chunkData_length_le done

theorem Progress.window (h : Progress t X done todo s) :
    (s.data.take t.encode.length).drop s.rd = pending t todo := by
  rw [drop_take, h.unread, ← h.rd_add, Nat.add_sub_cancel_left]
  exact take_left

section
variable (ht : t.Scannable)
include ht

theorem Scannable.readable {l : SizeLine} (hl : l ∈ t.sizeLines) :
    l.Short ∧ l.Fits := ⟨ht.short l hl, ht.fits l hl⟩

theorem Progress.sizeLine_cons {c : Chunk} (h : Progress t X done (c :: todo) s) :
    chunkSizeLine (pending t (c :: todo)) =
      .ok c.data.length (c.data ++ (CRLF ++ pending t todo)) := by
  have hc : c ∈ t.chunks := by rw [h.chunks]; simp
  refine chunkSizeLine_ok_iff.mpr ⟨c.line, encodeChunks_cons c todo _,
    (ht.framed.chunks c hc).line, Scannable.readable ht ?_⟩
  exact mem_append_left _ (mem_map_of_mem hc)

theorem sizeLine_last :
    chunkSizeLine (pending t []) = .ok 0 (encodeTrailers t.trailers) := by
  refine chunkSizeLine_ok_iff.mpr ⟨t.last, rfl, ht.framed.last, Scannable.readable ht ?_⟩
  exact mem_append_right _ (mem_singleton_self _)

theorem dechunkStep_cons {c} (h : Progress t X done (c :: todo) s) :
    ∃ s', dechunkStep t.encode.length s = some s' ∧ Progress t X (done ++ [c]) todo s' := by
  have hc : c ∈ t.chunks := by rw [h.chunks]; simp
  have hne : c.data.length ≠ 0 := by simpa using (ht.framed.chunks c hc).data
  have hpend : pending t (c :: todo) = c.line.encode ++ (c.data ++ (CRLF ++ pending t todo)) :=
    encodeChunks_cons c todo _
  have hstep : dechunkStep t.encode.length s =
      some { data := memmove s.data s.wr (s.rd + c.line.encode.length) c.data.length
             rd := s.rd + c.line.encode.length + c.data.length + 2
             wr := s.wr + c.data.length } := by
    have hline := h.sizeLine_cons ht
    have hread : (pending t (c :: todo)).length - (c.data ++ (CRLF ++ pending t todo)).length =
        c.line.encode.length := by
      rw [hpend, length_append, Nat.add_sub_cancel]
    unfold dechunkStep
    simp only [h.window, hline, if_neg hne, hread]
  -- the data lies behind its size line, and the write cursor is not behind it
  have hwr := h.wr_le_rd
  have hdrop : s.data.drop (s.rd + c.line.encode.length) =
      c.data ++ (CRLF ++ (pending t todo ++ X)) := by
    rw [← drop_drop, h.unread, hpend, append_assoc, drop_left]
    simp only [append_assoc]
  have hroom : s.rd + c.line.encode.length + c.data.length ≤ s.data.length := by
    have hl := congrArg List.length hdrop
    rw [length_drop, length_append] at hl
    omega
  refine ⟨_, hstep, ⟨?_, ?_, ?_, ?_, ?_⟩⟩
  · rw [h.chunks, append_assoc]
    rfl
  · simp only [h.rd, encodeChunks, flatMap_append, flatMap_cons, flatMap_nil,
      append_nil, Chunk.encode, length_append, CRLF, length_cons, length_nil]
    omega
  · simp only [h.wr, chunkData, flatMap_append, flatMap_cons, flatMap_nil,
      append_nil, length_append]
  · show (memmove _ _ _ _).take _ = _
    rw [memmove_take (by omega) hroom, h.moved, hdrop, take_left]
    simp [chunkData]
  · show (memmove _ _ _ _).drop (s.rd + c.line.encode.length + c.data.length + 2) = _
    rw [memmove_drop (by omega) hroom (by omega), ← drop_drop, ← drop_drop, hdrop, drop_left]
    rfl

theorem dechunkStep_last (h : Progress t X done [] s) :
    dechunkStep t.encode.length s = none := by
  unfold dechunkStep
  simp only [h.window, sizeLine_last ht, if_true]

theorem dechunkLoop_progress : ∀ (guard : Nat) (todo done : List Chunk)
    (s : DechunkState), todo.length < guard → Progress t X done todo s →
      Progress t X t.chunks [] (dechunkLoop t.encode.length guard s)
  | 0, _, _, _, hg, _ => by omega
  | guard + 1, [], done, s, _, h => by
    have hall : t.chunks = done := by rw [h.chunks, append_nil]
    rw [dechunkLoop, dechunkStep_last ht h]
    rwa [← hall] at h
  | guard + 1, c :: todo, done, s, hg, h => by
    obtain ⟨s', hs', h'⟩ := dechunkStep_cons ht h
    rw [dechunkLoop, hs']
    exact dechunkLoop_progress guard todo (done ++ [c]) s' (by simpa using hg) h'

end

def Steps (rawLen : Nat) (s s' : DechunkState) : Prop := dechunkStep rawLen s = some s'

theorem reachable_progress (ht : t.Scannable)
    (h : Relation.ReflTransGen (Steps t.encode.length) ⟨t.encode ++ X, 0, 0⟩ s) :
    ∃ done todo, Progress t X done todo s := by
  induction h with
  | refl => exact ⟨[], t.chunks, progress_init t X⟩
  | tail _ hstep ih =>
    obtain ⟨done, todo, h⟩ := ih
    cases todo with
    | nil =>
      rw [Steps, dechunkStep_last ht h] at hstep
      cases hstep
    | cons c todo =>
      obtain ⟨s', hs', h'⟩ := dechunkStep_cons ht h
      rw [Steps, hs'] at hstep
      cases hstep
      exact ⟨done ++ [c], todo, h'⟩

theorem chunks_length_le (ht : t.Framed) : t.chunks.length ≤ t.encode.length := by
  have h : ∀ cs : List Chunk, (∀ c ∈ cs, c.Framed) → cs.length ≤ (encodeChunks cs).length := by
    intro cs hcs
    induction cs with
    | nil => exact Nat.le_refl _
    | cons c cs ih =>
      have := ih fun d hd => hcs d (by simp [hd])
      have := (hcs c (by simp)).line.encode_length
      simp only [encodeChunks, flatMap_cons, Chunk.encode, length_append, length_cons] at *
      omega
  have := h t.chunks ht.chunks
  simp only [ChunkedBody.encode, length_append]
  omega

theorem dechunkInPlace_spec (ht : t.Scannable) (X : Bytes) :
    (dechunkInPlace (t.encode ++ X) t.encode.length).1.take
        (dechunkInPlace (t.encode ++ X) t.encode.length).2 = t.payload ∧
      (dechunkInPlace (t.encode ++ X) t.encode.length).2 = t.payload.length ∧
      (dechunkInPlace (t.encode ++ X) t.encode.length).1.drop t.encode.length = X := by
  have hlen := chunks_length_le ht.framed
  have h := dechunkLoop_progress ht (t.encode.length + 1) t.chunks [] _ (by omega)
    (progress_init t X)
  have hrest : ∀ s, Progress t X t.chunks [] s → s.data.drop t.encode.length = X := by
    intro s hs
    rw [← hs.rd_add, ← drop_drop, hs.unread, drop_left]
  exact ⟨h.moved, h.wr, hrest _ h⟩

/-- **Scanning and decoding a chunked body gives the concatenation of its
payloads, and the decoder never overtakes itself.** For every body the scanner
accepts, in every iteration the write cursor is at or below the read cursor,
the bytes from the read cursor on are the ones that were received, and the size
line there parses again. -/
theorem dechunk_correct :
    (∀ (t : ChunkedBody) (X : Bytes), t.Scannable →
      scanChunked (t.encode ++ X) = .ok () X ∧
        (dechunkInPlace (t.encode ++ X) (rawLen (t.encode ++ X) X)).1.take
            (dechunkInPlace (t.encode ++ X) (rawLen (t.encode ++ X) X)).2 = t.payload ∧
        (dechunkInPlace (t.encode ++ X) (rawLen (t.encode ++ X) X)).2 = t.payload.length) ∧
    ∀ (data rest : Bytes) (s : DechunkState), scanChunked data = .ok () rest →
      Relation.ReflTransGen (Steps (rawLen data rest)) ⟨data, 0, 0⟩ s →
        s.wr ≤ s.rd ∧ s.rd ≤ rawLen data rest ∧ s.data.drop s.rd = data.drop s.rd ∧
          ∃ size r, chunkSizeLine ((s.data.take (rawLen data rest)).drop s.rd) = .ok size r := by
  have hraw : ∀ (t : ChunkedBody) (X : Bytes), rawLen (t.encode ++ X) X = t.encode.length := by
    intro t X
    rw [rawLen, length_append, Nat.add_sub_cancel]
  refine ⟨fun t X ht => ⟨scanChunked_ok_iff.mpr ⟨t, ht, rfl⟩, ?_⟩, fun data rest s hscan hs => ?_⟩
  · obtain ⟨htake, hwr, _⟩ := dechunkInPlace_spec ht X
    rw [hraw]
    exact ⟨htake, hwr⟩
  obtain ⟨t, ht, rfl⟩ := scanChunked_ok_iff.mp hscan
  rw [hraw] at hs ⊢
  obtain ⟨done, todo, h⟩ := reachable_progress ht hs
  have hrd := h.rd_add
  refine ⟨h.wr_le_rd, by omega, ?_, ?_⟩
  · have horig : (t.encode ++ rest).drop s.rd = pending t todo ++ rest := by
      have henc : t.encode = encodeChunks done ++ pending t todo := by
        simp [ChunkedBody.encode, pending, h.chunks, encodeChunks]
      rw [henc, h.rd, append_assoc, drop_left]
    rw [horig, h.unread]
  rw [h.window]
  cases todo with
  | nil => exact ⟨_, _, sizeLine_last ht⟩
  | cons c todo => exact ⟨_, _, h.sizeLine_cons ht⟩

/-- A body with an extension, a trailer field and a pipelined byte behind it. -/
def helloBody : ChunkedBody :=
  ⟨[⟨⟨ascii "5", ascii ";x=1"⟩, ascii "hello"⟩, ⟨⟨ascii "1", []⟩, ascii "!"⟩], ⟨ascii "0", []⟩,
    [ascii "A: b"]⟩

theorem dechunk_correct_hello :
    scanChunked (helloBody.encode ++ ascii "G") = .ok () (ascii "G") ∧
      (dechunkInPlace (helloBody.encode ++ ascii "G")
        (rawLen (helloBody.encode ++ ascii "G") (ascii "G"))).1.take
          (dechunkInPlace (helloBody.encode ++ ascii "G")
            (rawLen (helloBody.encode ++ ascii "G") (ascii "G"))).2 = ascii "hello!" := by
  have hline : ∀ (l : SizeLine) (n : Nat), l ∈ helloBody.sizeLines → hexValue l.digits = n →
      l.Framed n := by
    intro l n hl hn
    refine ⟨?_, ?_, ?_, ?_, hn⟩ <;> clear hn <;> revert l <;> decide +kernel
  have hscan : helloBody.Scannable := by
    refine ⟨⟨?_, hline _ _ (by decide) (by decide), by decide⟩, ?_, ?_⟩
    · intro c hc
      refine ⟨hline _ _ (mem_append_left _ (mem_map_of_mem hc)) ?_, ?_⟩ <;>
        revert c <;> decide
    · unfold SizeLine.Short; decide
    · unfold SizeLine.Fits; decide
  obtain ⟨hok, htake, _⟩ := dechunk_correct.1 helloBody (ascii "G") hscan
  exact ⟨hok, htake.trans (by decide)⟩

end BoltApi.Http1.Dechunk
