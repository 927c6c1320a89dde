import Mathlib.Data.List.Induction
import BoltApi.Octets
import BoltApi.Lib.Ring
import BoltApi.Quic.Extents

/-! # The receive side of a stream

`Stream::receive`, `store` and the read cursor of `quic/stream.h`. Bytes go into a
ring at their offset; what lies past the contiguous cursor is recorded in the
extent set, and the application reads up to the cursor. -/
namespace BoltApi.Quic
open Octets Lib.Ranges Lib.Ring List

def kVarIntMax : Nat := 2 ^ 62 - 1

inductive RecvState where
  | recv
  | sizeKnown
  | dataRecvd
  | resetRecvd
deriving DecidableEq

/-- The fields of a STREAM frame that reach `Stream::receive`. -/
structure StreamFrame where
  offset : Nat
  data : Bytes
  fin : Bool := false
deriving DecidableEq

namespace StreamFrame

def stop (f : StreamFrame) : Nat := f.offset + f.data.length

def span (f : StreamFrame) : Range := ⟨f.offset, f.stop⟩

end StreamFrame

/-- The receive half of `Stream`. -/
structure RecvStream where
  recvMax : Nat
  recvHigh : Nat := 0
  recvBuf : Nat → UInt8
  recvCursor : Nat := 0
  readCursor : Nat := 0
  finOff : Nat := 0
  haveFin : Bool := false
  recvSt : RecvState := .recv
  recvExt : List Range := []

namespace RecvStream

/-- The cursor and the extents with `[pos, stop)`, before the cursor moves over
what it reaches. -/
def extend (s : RecvStream) (pos stop : Nat) : Option (Nat × List Range) :=
  if pos = s.recvCursor then some (stop, s.recvExt)
  else (ExtentSet.add pos stop s.recvExt).map fun ext => (s.recvCursor, ext)

/-- `store`. The bytes are in the ring before `add` may refuse the extent. -/
def store (s : RecvStream) (offset : Nat) (data : Bytes) : RecvStream × Bool :=
  let skip := s.recvCursor - offset
  if data.length ≤ skip then (s, true)
  else
    let pos := offset + skip
    let fresh := data.drop skip
    let s := { s with recvBuf := ringPut kStreamBufferSize s.recvBuf pos fresh }
    match s.extend pos (pos + fresh.length) with
    | none => (s, false)
    | some (cursor, ext) =>
      let r := ExtentSet.absorb cursor ext
      ({ s with recvCursor := r.1, recvExt := r.2 }, true)

def note (s : RecvStream) (f : StreamFrame) : RecvStream :=
  let s := { s with recvHigh := max f.stop s.recvHigh }
  if f.fin then
    { s with
      finOff := f.stop
      haveFin := true
      recvSt := if s.recvSt = .recv then .sizeKnown else s.recvSt }
  else s

def admits (s : RecvStream) (f : StreamFrame) : Bool :=
  ¬ (kVarIntMax < f.offset ∨ kVarIntMax - f.offset < f.data.length) ∧
  f.stop ≤ s.recvMax ∧
  ¬ (s.haveFin ∧ (s.finOff < f.stop ∨ (f.fin ∧ f.stop ≠ s.finOff))) ∧
  ¬ (f.fin ∧ f.stop < s.recvHigh) ∧
  f.stop ≤ s.readCursor + kStreamBufferSize

def receive (s : RecvStream) (f : StreamFrame) : RecvStream × Bool :=
  if ¬ s.admits f then (s, false)
  else
    let s := s.note f
    let r := if 0 < f.data.length then s.store f.offset f.data else (s, true)
    if ¬ r.2 then (r.1, false)
    else if r.1.haveFin ∧ r.1.finOff ≤ r.1.recvCursor then ({ r.1 with recvSt := .dataRecvd }, true)
    else (r.1, true)

def recvAvailable (s : RecvStream) : Nat := s.recvCursor - s.readCursor

def recvConsume (n : Nat) (s : RecvStream) : RecvStream := { s with readCursor := s.readCursor + n }

def growRecvWindow (add : Nat) (s : RecvStream) : RecvStream :=
  { s with recvMax := max (s.readCursor + min add kStreamBufferSize) s.recvMax }

def readable (s : RecvStream) : Bytes :=
  (List.range s.recvAvailable).map fun i => s.recvBuf ((s.readCursor + i) % kStreamBufferSize)

/-! ## Runs -/

inductive Call where
  | frame (f : StreamFrame)
  | read (n : Nat)
  | grow (add : Nat)
deriving DecidableEq

/-- One call; the accepted frames are kept beside the stream. -/
def step (s : RecvStream × List StreamFrame) : Call → RecvStream × List StreamFrame
  | .frame f => ((s.1.receive f).1, if (s.1.receive f).2 then s.2 ++ [f] else s.2)
  | .read n => (s.1.recvConsume n, s.2)
  | .grow add => (s.1.growRecvWindow add, s.2)

/-- A stream opened with the given window over the ring of a pool slot, which may
hold anything. -/
def opened (window : Nat) (ring : Nat → UInt8) : RecvStream := { recvMax := window, recvBuf := ring }

def run (window : Nat) (ring : Nat → UInt8) (calls : List Call) : RecvStream × List StreamFrame :=
  calls.foldl step (opened window ring, [])

@[simp] theorem run_append (window : Nat) (ring : Nat → UInt8) (calls : List Call) (call : Call) :
    run window ring (calls ++ [call]) = step (run window ring calls) call := by
  simp [run]

/-- The call respects the protocol: a frame carries the string's bytes at its offset,
its FIN is at the string's end and it ends within the advertised window (which is a
varint); the application reads what is there. -/
def Legal (whole : Bytes) (s : RecvStream) : Call → Prop
  | .frame f => f.data <+: whole.drop f.offset ∧ f.stop ≤ whole.length ∧
      (f.fin → f.stop = whole.length) ∧ f.stop ≤ s.recvMax ∧ f.stop ≤ kVarIntMax
  | .read n => n ≤ s.recvAvailable
  | .grow _ => True

instance (whole : Bytes) (s : RecvStream) (call : Call) : Decidable (Legal whole s call) :=
  match call with
  | .frame _ => inferInstanceAs (Decidable (_ ∧ _))
  | .read _ => inferInstanceAs (Decidable (_ ≤ _))
  | .grow _ => inferInstanceAs (Decidable True)

/-- The frame leaves a gap after the cursor, touches no recorded extent and finds
the extent set full. -/
def Crowded (s : RecvStream) (f : StreamFrame) : Prop :=
  f.data ≠ [] ∧ s.recvCursor < f.offset ∧ ExtentSet.kMaxRecvExtents ≤ s.recvExt.length ∧
    ∀ x ∈ s.recvExt, ¬ ExtentSet.Touches f.offset f.stop x

/-! ## What one call keeps -/

/-- The byte at offset `x` has been stored and not dropped. -/
def Known (s : RecvStream) (x : Nat) : Prop := x < s.recvCursor ∨ Covers s.recvExt x

structure Holds (whole : Bytes) (accepted : List StreamFrame) (s : RecvStream) : Prop where
  window : s.recvMax ≤ s.readCursor + kStreamBufferSize
  read : s.readCursor ≤ s.recvCursor
  known : ∀ x, s.Known x ↔ Covers (accepted.map StreamFrame.span) x
  inside : ∀ x, s.Known x → x < s.readCursor + kStreamBufferSize
  bytes : ∀ x, s.readCursor ≤ x → s.Known x →
    whole[x]? = some (s.recvBuf (x % kStreamBufferSize))
  beyond : ∀ r ∈ s.recvExt, s.recvCursor < r.start
  proper : ∀ r ∈ s.recvExt, r.start < r.stop
  few : s.recvExt.length ≤ ExtentSet.kMaxRecvExtents
  high : s.recvHigh ≤ whole.length
  fin : s.haveFin → s.finOff = whole.length

variable {whole : Bytes} {accepted : List StreamFrame} {s : RecvStream} {f : StreamFrame}

theorem Holds.opened {window ring} (h : window ≤ kStreamBufferSize) :
    Holds whole [] (opened window ring) where
  window := by simpa [RecvStream.opened] using h
  read := Nat.le_refl _
  known := by simp [RecvStream.opened, Known]
  inside := by simp [RecvStream.opened, Known]
  bytes := by simp [RecvStream.opened, Known]
  beyond := by simp [RecvStream.opened]
  proper := by simp [RecvStream.opened]
  few := Nat.zero_le _
  high := Nat.zero_le _
  fin := nofun

section
variable (h : Holds whole accepted s)
include h

theorem Holds.recvConsume {n} (hn : n ≤ s.recvAvailable) :
    Holds whole accepted (s.recvConsume n) := by
  have hread : s.readCursor + n ≤ s.recvCursor := by
    have := h.read
    simp only [recvAvailable] at hn
    omega
  refine { h with
    window := ?_, read := hread, inside := fun x hx => ?_, bytes := fun x hx => ?_ }
  · have := h.window
    simp only [RecvStream.recvConsume]
    omega
  · have := h.inside x hx
    simp only [RecvStream.recvConsume]
    omega
  · simp only [RecvStream.recvConsume] at hx ⊢
    exact h.bytes x (by omega)

theorem Holds.growRecvWindow {add} :
    Holds whole accepted (s.growRecvWindow add) := by
  refine { h with window := ?_ }
  have := h.window
  simp only [RecvStream.growRecvWindow]
  omega

theorem Holds.admits (hf : Legal whole s (.frame f)) :
    s.admits f := by
  obtain ⟨-, hend, hfin, hmax, hvar⟩ := hf
  have hwindow := h.window
  have hhigh := h.high
  have hlen : f.stop = f.offset + f.data.length := rfl
  simp only [RecvStream.admits, decide_eq_true_iff]
  refine ⟨by omega, hmax, ?_, fun hlow => ?_, by omega⟩
  · rintro ⟨hhave, hover | ⟨hf, hne⟩⟩
    · rw [h.fin hhave] at hover
      omega
    · exact hne ((hfin hf).trans (h.fin hhave).symm)
  · have := hfin hlow.1
    omega

theorem Holds.note (hf : Legal whole s (.frame f)) :
    Holds whole accepted (s.note f) := by
  obtain ⟨-, hend, hfin, -⟩ := hf
  have hhigh : max f.stop s.recvHigh ≤ whole.length := max_le hend h.high
  simp only [RecvStream.note]
  split
  · rename_i hlast
    exact { h with high := hhigh, fin := fun _ => hfin hlast }
  · exact { h with high := hhigh }

theorem Holds.stored_bytes (hf : Legal whole s (.frame f)) {skip}
    (hskip : skip = s.recvCursor - f.offset) (hlen : skip < f.data.length) {x}
    (hread : s.readCursor ≤ x) (hx : s.Known x ∨ f.offset + skip ≤ x ∧ x < f.stop) :
    whole[x]? = some (ringPut kStreamBufferSize s.recvBuf (f.offset + skip) (f.data.drop skip)
      (x % kStreamBufferSize)) := by
  obtain ⟨htaken, hend, -, hmax, -⟩ := hf
  have hwindow := h.window
  have hle := h.read
  have hdrop : (f.data.drop skip).length = f.data.length - skip := length_drop
  have hstop : f.stop = f.offset + f.data.length := rfl
  by_cases hnew : f.offset + skip ≤ x ∧ x < f.stop
  · have hget : (f.data.drop skip)[x - (f.offset + skip)]? = whole[x]? := by
      rw [List.getElem?_drop, getElem?_of_isPrefix_drop htaken (by omega)]
      congr 1
      omega
    obtain ⟨a, ha⟩ : ∃ a, whole[x]? = some a := ⟨_, List.getElem?_eq_getElem (by omega)⟩
    rw [ha] at hget ⊢
    have hput := @ringPut_inside _ kStreamBufferSize s.recvBuf (f.offset + skip) _ _ _ (by omega) hget
    rw [show f.offset + skip + (x - (f.offset + skip)) = x by omega] at hput
    rw [hput]
  have hknown := hx.resolve_right hnew
  have hin := h.inside x hknown
  have hbase : s.readCursor ≤ f.offset + skip := by omega
  rw [h.bytes x hread hknown, ringPut_outside hbase (by omega) hread hin (by omega)]

end

structure Extended (s : RecvStream) (pos stop : Nat) (r : Nat × List Range) : Prop where
  covers : ∀ x, x < r.1 ∨ Covers r.2 x ↔ s.Known x ∨ pos ≤ x ∧ x < stop
  proper : ∀ x ∈ r.2, x.start < x.stop
  few : r.2.length ≤ ExtentSet.kMaxRecvExtents
  mono : s.recvCursor ≤ r.1

theorem Holds.extend (h : Holds whole accepted s) {pos stop} (hstop : pos < stop)
    (hroom : pos ≠ s.recvCursor → (ExtentSet.add pos stop s.recvExt).isSome) :
    ∃ r, s.extend pos stop = some r ∧ Extended s pos stop r := by
  by_cases hat : pos = s.recvCursor
  · refine ⟨(stop, s.recvExt), if_pos hat, fun x => ?_, h.proper, h.few, by simp only; omega⟩
    simp only [Known]
    constructor
    · rintro (hx | hx)
      · by_cases hlow : x < s.recvCursor
        · exact .inl (.inl hlow)
        · exact .inr ⟨by omega, hx⟩
      · exact .inl (.inr hx)
    rintro ((hx | hx) | hx)
    · exact .inl (by omega)
    · exact .inr hx
    · exact .inl hx.2
  obtain ⟨ext, hext⟩ := Option.isSome_iff_exists.mp (hroom hat)
  obtain ⟨hfew, hproper, hcovers⟩ := ExtentSet.add_spec hext hstop h.proper h.few
  refine ⟨(s.recvCursor, ext), by simp [RecvStream.extend, hat, hext], fun x => ?_, hproper, hfew,
    le_rfl⟩
  simp only [Known, hcovers, Range.Has]
  tauto

theorem Holds.store (h : Holds whole accepted s) (hf : Legal whole s (.frame f))
    (hdata : 0 < f.data.length) (hroom : ¬ Crowded s f) :
    (s.store f.offset f.data).2 ∧
      Holds whole (accepted ++ [f]) (s.store f.offset f.data).1 := by
  have hlegal := hf
  obtain ⟨-, hend, -, hmax, -⟩ := hf
  have hwindow := h.window
  have hread := h.read
  have hstop : f.stop = f.offset + f.data.length := rfl
  simp only [RecvStream.store]
  generalize hskip : s.recvCursor - f.offset = skip
  by_cases hdup : f.data.length ≤ skip
  · -- every byte lies below the cursor
    rw [if_pos hdup]
    refine ⟨rfl, { h with known := fun x => ?_ }⟩
    rw [h.known, map_append, covers_append, map_singleton, covers_cons, ← h.known]
    refine ⟨.inl, fun hx => hx.elim id fun hx => .inl ?_⟩
    simp only [covers_nil, or_false, StreamFrame.span, Range.Has] at hx
    omega
  have hfresh : f.offset + skip + (f.data.drop skip).length = f.stop := by
    rw [length_drop]
    omega
  obtain ⟨r, hr, hcovers, hproper, hfew, hmono⟩ := h.extend
    (by omega : f.offset + skip < f.stop) (by
      intro hne
      by_contra hnone
      obtain ⟨hfull, hapart⟩ := ExtentSet.add_eq_none.mp (Option.not_isSome_iff_eq_none.mp hnone)
      rw [show f.offset + skip = f.offset by omega] at hapart
      exact hroom ⟨ne_nil_of_length_pos hdata, by omega, hfull, hapart⟩)
  have hsame : RecvStream.extend { s with
      recvBuf := ringPut kStreamBufferSize s.recvBuf (f.offset + skip) (f.data.drop skip) }
      (f.offset + skip) f.stop = some r := hr
  simp only [if_neg hdup, hfresh, hsame]
  obtain ⟨hbeyond, hsettled, hsubset, hless, hcursor⟩ := @ExtentSet.absorb_settled _ r.1 hfew
  generalize ExtentSet.absorb r.1 r.2 = t at hbeyond hsettled hsubset hless hcursor ⊢
  have hknown : ∀ x, x < t.1 ∨ Covers t.2 x ↔ s.Known x ∨ f.offset + skip ≤ x ∧ x < f.stop :=
    fun x => (hsettled x).trans (hcovers x)
  refine ⟨trivial, { h with
    read := by simp only; omega
    known := fun x => ?_
    inside := fun x hx => ?_
    bytes := fun x hx hk => h.stored_bytes hlegal hskip.symm (by omega) hx ((hknown x).mp hk)
    beyond := hbeyond
    proper := fun x hx => hproper x (hsubset hx)
    few := hless.trans hfew }⟩
  · rw [map_append, covers_append, map_singleton, covers_cons, ← h.known]
    refine (hknown x).trans ?_
    simp only [covers_nil, or_false, StreamFrame.span, Range.Has]
    constructor
    · rintro (hx | hx)
      · exact .inl hx
      · exact .inr ⟨by omega, hx.2⟩
    rintro (hx | hx)
    · exact .inl hx
    · by_cases hlow : x < f.offset + skip
      · exact .inl (.inl (by omega))
      · exact .inr ⟨by omega, hx.2⟩
  rcases (hknown x).mp hx with hx | hx
  · exact h.inside x hx
  · simp only
    omega

theorem note_unchanged (s : RecvStream) (f : StreamFrame) :
    (s.note f).recvMax = s.recvMax ∧ (s.note f).recvCursor = s.recvCursor ∧
      (s.note f).recvExt = s.recvExt := by
  simp only [RecvStream.note]
  split <;> exact ⟨rfl, rfl, rfl⟩

theorem Holds.receive (h : Holds whole accepted s) (hf : Legal whole s (.frame f))
    (hroom : ¬ Crowded s f) :
    (s.receive f).2 ∧ Holds whole (accepted ++ [f]) (s.receive f).1 := by
  obtain ⟨hmax, hcursor, hext⟩ := note_unchanged s f
  have hnoted := h.note hf
  have hfnoted : Legal whole (s.note f) (.frame f) := by
    simpa only [Legal, hmax] using hf
  -- with or without bytes, the stored stream holds the frame
  obtain ⟨hok, hstored⟩ : (if 0 < f.data.length then (s.note f).store f.offset f.data
        else (s.note f, true)).2 = true ∧ Holds whole (accepted ++ [f])
      (if 0 < f.data.length then (s.note f).store f.offset f.data else (s.note f, true)).1 := by
    split
    · rename_i hdata
      exact hnoted.store hfnoted hdata (by simpa only [Crowded, hcursor, hext] using hroom)
    rename_i hdata
    refine ⟨rfl, { hnoted with known := fun x => ?_ }⟩
    rw [hnoted.known, map_append, covers_append, map_singleton, covers_cons]
    simp only [covers_nil, or_false, StreamFrame.span, StreamFrame.stop, Range.Has]
    exact ⟨.inl, fun hx => hx.elim id fun hx => by omega⟩
  simp only [RecvStream.receive, h.admits hf, not_true_eq_false, if_false]
  generalize (if 0 < f.data.length then (s.note f).store f.offset f.data
    else (s.note f, true)) = r at hok hstored ⊢
  simp only [hok, not_true_eq_false, if_false]
  split
  · exact ⟨rfl, { hstored with }⟩
  · exact ⟨rfl, hstored⟩

theorem receive_crowded (h : Crowded s f) : (s.receive f).2 = false := by
  obtain ⟨hdata, hgap, hfull, hapart⟩ := h
  obtain ⟨-, hcursor, hext⟩ := note_unchanged s f
  have hadd : ExtentSet.add f.offset (f.offset + f.data.length) s.recvExt = none :=
    ExtentSet.add_eq_none.mpr ⟨hfull, hapart⟩
  have hstore : ((s.note f).store f.offset f.data).2 = false := by
    simp only [RecvStream.store, RecvStream.extend, hcursor, hext]
    rw [show s.recvCursor - f.offset = 0 by omega, if_neg (by simp [hdata])]
    simp [hadd, show f.offset ≠ s.recvCursor by omega]
  rw [RecvStream.receive]
  split
  · rfl
  · simp only [if_pos (length_pos_iff.mpr hdata), hstore, Bool.false_eq_true, not_false_eq_true,
      if_true]

/-! ## Every run -/

/-- The stream against the frames it accepted. -/
structure Faithful (whole : Bytes) (accepted : List StreamFrame) (s : RecvStream) : Prop where
  cursor : IsPrefixLength (Covers (accepted.map StreamFrame.span)) s.recvCursor
  readable : s.readable = (whole.take s.recvCursor).drop s.readCursor

theorem Holds.faithful (h : Holds whole accepted s) : Faithful whole accepted s := by
  refine ⟨⟨fun x hx => (h.known x).mp (.inl hx), fun hx => ?_⟩, ext_getElem? fun i => ?_⟩
  · rcases (h.known _).mpr hx with hlt | ⟨r, hr, hhas⟩
    · exact absurd hlt (lt_irrefl _)
    · exact absurd hhas.1 (by have := h.beyond r hr; omega)
  rw [List.getElem?_drop, List.getElem?_take]
  by_cases hi : s.readCursor + i < s.recvCursor
  · rw [if_pos hi, h.bytes _ (by omega) (.inl hi)]
    simp only [RecvStream.readable, List.getElem?_map]
    rw [List.getElem?_range (by simp only [recvAvailable]; omega)]
    rfl
  · rw [if_neg hi, List.getElem?_eq_none (by
      simp only [RecvStream.readable, recvAvailable, length_map, length_range]
      omega)]

/-- The values that a refused frame must leave alone. -/
structure Undisturbed (s s' : RecvStream) : Prop where
  high : s'.recvHigh = s.recvHigh
  fin : s'.haveFin = s.haveFin ∧ s'.finOff = s.finOff
  readable : s'.readable = s.readable

theorem run_holds {window ring} (hwindow : window ≤ kStreamBufferSize) (calls : List Call)
    (hlegal : ∀ before call, before ++ [call] <+: calls → Legal whole (run window ring before).1 call)
    (hroom : ∀ before f, before ++ [.frame f] <+: calls → ¬ Crowded (run window ring before).1 f) :
    Holds whole (run window ring calls).2 (run window ring calls).1 := by
  induction calls using List.reverseRecOn with
  | nil => exact .opened hwindow
  | append_singleton calls call ih =>
    have hbefore := ih (fun before call hc => hlegal before call (hc.trans (prefix_append _ _)))
      fun before f hc => hroom before f (hc.trans (prefix_append _ _))
    have hcall := hlegal calls call prefix_rfl
    rw [run_append]
    cases call with
    | frame f =>
      obtain ⟨hok, hholds⟩ := hbefore.receive hcall (hroom calls f prefix_rfl)
      simpa only [step, hok, if_true] using hholds
    | read n => exact hbefore.recvConsume hcall
    | grow add => exact hbefore.growRecvWindow

/-- Along every run within the protocol: the cursor is the longest covered prefix and
up to it the string is readable, a refused frame disturbs nothing and no frame is
refused, if and only if no frame meets a full extent set that it does not touch. -/
theorem receive_faithful_iff_not_crowded (whole : Bytes) (window : Nat) (ring : Nat → UInt8)
    (hwindow : window ≤ kStreamBufferSize) (calls : List Call)
    (hlegal : ∀ before call, before ++ [call] <+: calls →
      Legal whole (run window ring before).1 call) :
    ((∀ before, before <+: calls →
        Faithful whole (run window ring before).2 (run window ring before).1) ∧
      (∀ before f, before ++ [.frame f] <+: calls →
        ((run window ring before).1.receive f).2 = false →
          Undisturbed (run window ring before).1 ((run window ring before).1.receive f).1) ∧
      ∀ before f, before ++ [.frame f] <+: calls →
        ((run window ring before).1.receive f).2 = true) ↔
    ∀ before f, before ++ [.frame f] <+: calls → ¬ Crowded (run window ring before).1 f := by
  constructor
  · rintro ⟨-, -, haccepted⟩ before f hcall hcrowded
    have hok := haccepted before f hcall
    rw [receive_crowded hcrowded] at hok
    exact absurd hok (by decide)
  intro hroom
  have hholds : ∀ before, before <+: calls →
      Holds whole (run window ring before).2 (run window ring before).1 := fun before hb =>
    run_holds hwindow before (fun b c hc => hlegal b c (hc.trans hb))
      fun b f hc => hroom b f (hc.trans hb)
  have haccepted : ∀ before f, before ++ [.frame f] <+: calls →
      ((run window ring before).1.receive f).2 := fun before f hcall =>
    ((hholds before ((prefix_append _ _).trans hcall)).receive (hlegal before _ hcall)
      (hroom before f hcall)).1
  refine ⟨fun before hb => (hholds before hb).faithful, fun before f hcall hno => ?_, haccepted⟩
  rw [haccepted before f hcall] at hno
  exact absurd hno (by decide)

theorem receive_faithful_iff_not_crowded_reordered :
    (∀ before call, before ++ [call] <+: [.frame ⟨1, [8], true⟩, .frame ⟨0, [7], false⟩] →
      Legal [7, 8] (run kStreamBufferSize (fun _ => 0) before).1 call) ∧
    ∀ before, before <+: [.frame ⟨1, [8], true⟩, .frame ⟨0, [7], false⟩] →
      Faithful [7, 8] (run kStreamBufferSize (fun _ => 0) before).2
        (run kStreamBufferSize (fun _ => 0) before).1 := by
  have hprefixes : ∀ (before : List Call) call,
      before ++ [call] <+: [.frame ⟨1, [8], true⟩, .frame ⟨0, [7], false⟩] →
      before = [] ∧ call = .frame ⟨1, [8], true⟩ ∨
        before = [.frame ⟨1, [8], true⟩] ∧ call = .frame ⟨0, [7], false⟩ := by
    intro before call hcall
    match before, hcall with
    | [], hcall => exact .inl ⟨rfl, by simpa using hcall⟩
    | [_], hcall => exact .inr (by simpa using hcall)
    | _ :: _ :: rest, hcall => exact absurd hcall.length_le (by simp)
  have hlegal : ∀ before call,
      before ++ [call] <+: [.frame ⟨1, [8], true⟩, .frame ⟨0, [7], false⟩] →
      Legal [7, 8] (run kStreamBufferSize (fun _ => 0) before).1 call := by
    intro before call hcall
    obtain ⟨rfl, rfl⟩ | ⟨rfl, rfl⟩ := hprefixes before call hcall
    · decide +kernel
    · decide +kernel
  refine ⟨hlegal, ((receive_faithful_iff_not_crowded [7, 8] kStreamBufferSize (fun _ => 0) le_rfl _
    hlegal).mpr fun before f hcall => ?_).1⟩
  obtain ⟨rfl, hf⟩ | ⟨rfl, hf⟩ := hprefixes before _ hcall
  · exact fun hcrowded => absurd hcrowded.2.2.1 (by decide +kernel)
  · exact fun hcrowded => absurd hcrowded.2.2.1 (by decide +kernel)

/-- Every second byte of a string of 67, one at a time, the last one with the FIN. -/
def alternating : List Call :=
  (List.range 33).map fun i => .frame ⟨2 * i + 2, [0], i = 32⟩

/-- The thirty-third frame lies in the window and is refused, and by then `recv_high`
and the final size have taken its values. -/
theorem alternating_refused :
    (∀ i < 33, Legal (List.replicate 67 0)
      (run kStreamBufferSize (fun _ => 0) (alternating.take i)).1 (alternating.getD i (.read 0))) ∧
    alternating.getD 32 (.read 0) = .frame ⟨66, [0], true⟩ ∧
    ((run kStreamBufferSize (fun _ => 0) (alternating.take 32)).1.receive ⟨66, [0], true⟩).2 = false ∧
    (run kStreamBufferSize (fun _ => 0) (alternating.take 32)).1.recvHigh = 65 ∧
    ((run kStreamBufferSize (fun _ => 0) (alternating.take 32)).1.receive
      ⟨66, [0], true⟩).1.recvHigh = 67 ∧
    (run kStreamBufferSize (fun _ => 0) (alternating.take 32)).1.haveFin = false ∧
    ((run kStreamBufferSize (fun _ => 0) (alternating.take 32)).1.receive
      ⟨66, [0], true⟩).1.haveFin = true := by
  decide +kernel

end RecvStream
end BoltApi.Quic
