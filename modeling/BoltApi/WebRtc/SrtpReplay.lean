import Mathlib.Data.List.Dedup
import Mathlib.Data.List.Perm.Subperm
import BoltApi.WebRtc.SrtpProfiles

/-! # The replay window

What a receiving session remembers of the packets it accepted, against the list
of all of them: the window of an SSRC knows exactly the accepted indices among
the last 128, and the counter it guesses is right for every packet near the
highest one. -/
namespace BoltApi.WebRtc.Srtp
open Octets Wire List

variable {S : Suite} {t t' : Session} {s s' : SsrcState} {ssrc i last n d : Nat} {q : Bytes}
  {v : RtpView} {l : List Nat}

/-! ## The window of an SSRC -/

def seenBit (s : SsrcState) (d : Nat) : Bool :=
  if d < 64 then s.window.getLsbD d else s.windowHi.getLsbD (d - 64)

theorem seenBit_shiftWindow (hn : 0 < n) (hd : d < kReplayWindowBits) :
    seenBit (shiftWindow s n) d = (decide (n ≤ d) && seenBit s (d - n)) := by
  have hk : kReplayWindowBits = 128 := rfl
  rw [hk] at hd
  by_cases hall : kReplayWindowBits ≤ n
  · -- nothing of the window is left
    have hnd : ¬n ≤ d := by omega
    simp [seenBit, shiftWindow, hall, hnd]
  by_cases hlow : 64 ≤ n
  · simp only [seenBit, shiftWindow, hall, hlow, if_true, if_false, BitVec.getLsbD_shiftLeft]
    by_cases hd64 : d < 64
    · have hnd : ¬n ≤ d := by omega
      simp [hd64, hnd]
    rw [if_neg hd64]
    by_cases hnd : n ≤ d
    · rw [if_pos (by omega), show d - 64 - (n - 64) = d - n by omega]
      simp [hnd]
      omega
    · have hlt : d - 64 < n - 64 := by omega
      simp [hnd, hlt]
  simp only [seenBit, shiftWindow, hall, hlow, if_false, if_neg (Nat.ne_of_gt hn),
    BitVec.getLsbD_or, BitVec.getLsbD_shiftLeft, BitVec.getLsbD_ushiftRight]
  by_cases hd64 : d < 64
  · by_cases hnd : n ≤ d
    · rw [if_pos hd64, if_pos (by omega)]
      simp [hnd, hd64]
    · have hlt : d < n := by omega
      simp [hnd, hd64, hlt]
  rw [if_neg hd64]
  by_cases hdn : d - n < 64
  · -- the bit crosses from the low word to the high one
    have hlt : d - 64 < n := by omega
    rw [if_pos hdn, show 64 - n + (d - 64) = d - n by omega]
    simp [hlt]
    omega
  rw [if_neg hdn, show d - 64 - n = d - n - 64 by omega,
    BitVec.getLsbD_of_ge s.window (64 - n + (d - 64)) (by omega)]
  have hlt : ¬d - 64 < n := by omega
  have hin : d - 64 < 64 := by omega
  have hnd : n ≤ d := by omega
  simp [hlt, hin, hnd]

structure Remembers (s : SsrcState) (l : List Nat) (last : Nat) : Prop extends At s last where
  mem : last ∈ l
  max : ∀ i ∈ l, i ≤ last
  lt : last < 2 ^ 48
  bits : ∀ d < kReplayWindowBits, d ≤ last → (seenBit s d ↔ last - d ∈ l)

def Window (s : SsrcState) (l : List Nat) : Prop :=
  (l = [] ∧ s.seen = false ∧ s.roc = 0) ∨ ∃ last, Remembers s l last

theorem replayOk_iff (h : Remembers s l last) :
    replayOk s i ↔ last < i ∨ last < i + kReplayWindowBits ∧ i ∉ l := by
  have hk : kReplayWindowBits = 128 := rfl
  simp only [replayOk, h.seen, h.roc, h.seq, packetIndex_div, Bool.not_true, Bool.false_eq_true,
    if_false]
  split
  · rename_i hlt
    simp [hlt]
  rename_i hle
  have hbit := h.bits (last - i)
  rw [show last - (last - i) = i by omega] at hbit
  split
  · rename_i hold
    constructor
    · intro hfalse
      cases hfalse
    · omega
  rename_i hnew
  have hbit := hbit (by omega) (by omega)
  have hval : (if last - i < 64 then !s.window.getLsbD (last - i)
      else !s.windowHi.getLsbD (last - i - 64)) = !seenBit s (last - i) := by
    unfold seenBit
    split <;> rfl
  rw [hval, Bool.not_eq_true', ← Bool.not_eq_true, hbit]
  constructor
  · exact fun hm => .inr ⟨by omega, hm⟩
  · rintro (h' | h')
    · omega
    · exact h'.2

theorem shiftWindow_seen (s : SsrcState) (n : Nat) : (shiftWindow s n).seen = s.seen := by
  unfold shiftWindow
  split
  · rfl
  · split <;> rfl

theorem seenBit_newer (hn : 0 < n) (hd : d < kReplayWindowBits) (roc seq : Nat) :
    seenBit { shiftWindow s n with
      window := (shiftWindow s n).window ||| 1, roc := roc, sL := seq } d =
      (decide (d = 0) || decide (n ≤ d) && seenBit s (d - n)) := by
  have hshift := seenBit_shiftWindow (s := s) hn hd
  by_cases h0 : d = 0
  · subst h0
    simp [seenBit]
  rw [← hshift]
  unfold seenBit
  split
  · have hone : (1 : BitVec 64).getLsbD d = false := by
      simp [h0]
    simp only [BitVec.getLsbD_or, hone, Bool.or_false, h0, decide_false, Bool.false_or]
  · simp [h0]

theorem seenBit_older (hn : n < kReplayWindowBits) (hd : d < kReplayWindowBits) :
    seenBit (if n < 64 then { s with window := s.window ||| 1#64 <<< n }
      else if n < kReplayWindowBits then { s with windowHi := s.windowHi ||| 1#64 <<< (n - 64) }
      else s) d = (decide (d = n) || seenBit s d) := by
  have hk : kReplayWindowBits = 128 := rfl
  rw [hk] at hn hd
  by_cases hn64 : n < 64
  · rw [if_pos hn64]
    unfold seenBit
    split
    · simp only [BitVec.getLsbD_or, BitVec.getLsbD_shiftLeft, BitVec.getLsbD_one]
      grind
    · have hne : d ≠ n := by omega
      simp [hne]
  rw [if_neg hn64, if_pos (by omega)]
  unfold seenBit
  split
  · have hne : d ≠ n := by omega
    simp [hne]
  · simp only [BitVec.getLsbD_or, BitVec.getLsbD_shiftLeft, BitVec.getLsbD_one]
    grind

theorem guessRoc_near (h : At s last) (hi : i < 2 ^ 48) (hup : i ≤ last + 2 ^ 15)
    (hdown : last < i + 2 ^ 15) (hhalf : i = last + 2 ^ 15 → last % 2 ^ 16 < 2 ^ 15) :
    guessRoc s (i % 2 ^ 16) = i / 2 ^ 16 := by
  simp only [guessRoc, h.seen, h.roc, h.seq, Bool.not_true, Bool.false_eq_true, if_false]
  split
  · split <;> omega
  · split <;> omega

theorem replayCommit_first (hseen : s.seen = false) (hi : i < 2 ^ 48) :
    Remembers (replayCommit s (i / 2 ^ 16) (i % 2 ^ 16) i) [i] i := by
  have hcommit : replayCommit s (i / 2 ^ 16) (i % 2 ^ 16) i =
      { s with roc := i / 2 ^ 16, sL := i % 2 ^ 16, seen := true, window := 1, windowHi := 0 } := by
    simp [replayCommit, hseen]
  rw [hcommit]
  refine ⟨⟨rfl, rfl, rfl⟩, by simp, by simp, hi, fun d hd hle => ?_⟩
  have hbit : ∀ r : SsrcState, r.window = 1 → r.windowHi = 0 → seenBit r d = decide (d = 0) := by
    intro r hw hhi
    unfold seenBit
    split
    · simp [hw]
    · have : d ≠ 0 := by omega
      simp [hhi, this]
  rw [hbit _ rfl rfl, decide_eq_true_eq, mem_singleton]
  omega

theorem replayCommit_remembers (h : Remembers s l last) (hi : i < 2 ^ 48)
    (hok : replayOk s i) : ∃ last', Remembers
      (replayCommit s (i / 2 ^ 16) (i % 2 ^ 16) i) (l ++ [i]) last' := by
  have hk : kReplayWindowBits = 128 := rfl
  by_cases hlt : last < i
  · have hcommit : replayCommit s (i / 2 ^ 16) (i % 2 ^ 16) i =
        { shiftWindow s (i - last) with
          window := (shiftWindow s (i - last)).window ||| 1, roc := i / 2 ^ 16,
          sL := i % 2 ^ 16 } := by
      simp only [replayCommit, h.seen, h.roc, h.seq, packetIndex_div, Bool.not_true,
        Bool.false_eq_true, if_false, hlt, if_true]
    rw [hcommit]
    refine ⟨i, ⟨(shiftWindow_seen s _).trans h.seen, rfl, rfl⟩, by simp, fun x hx => ?_, hi,
      fun d hd hle => ?_⟩
    · rcases mem_append.mp hx with hx | hx
      · exact Nat.le_of_lt (Nat.lt_of_le_of_lt (h.max x hx) hlt)
      · exact Nat.le_of_eq (mem_singleton.mp hx)
    rw [seenBit_newer (by omega) hd, Bool.or_eq_true, Bool.and_eq_true, decide_eq_true_eq,
      decide_eq_true_eq, mem_append, mem_singleton]
    constructor
    · rintro (rfl | ⟨hn, hbit⟩)
      · exact .inr rfl
      · left
        have := (h.bits (d - (i - last)) (by omega) (by omega)).mp hbit
        rwa [show last - (d - (i - last)) = i - d by omega] at this
    rintro (hmem | heq)
    · have hmax := h.max _ hmem
      refine .inr ⟨by omega, (h.bits (d - (i - last)) (by omega) (by omega)).mpr ?_⟩
      rwa [show last - (d - (i - last)) = i - d by omega]
    · exact .inl (by omega)
  obtain hnear : last < i + kReplayWindowBits := by
    rcases (replayOk_iff h).mp hok with hok | hok
    · exact absurd hok hlt
    · exact hok.1
  have hcommit : replayCommit s (i / 2 ^ 16) (i % 2 ^ 16) i =
      if last - i < 64 then { s with window := s.window ||| 1#64 <<< (last - i) }
      else if last - i < kReplayWindowBits then
        { s with windowHi := s.windowHi ||| 1#64 <<< (last - i - 64) }
      else s := by
    simp only [replayCommit, h.seen, h.roc, h.seq, packetIndex_div, Bool.not_true,
      Bool.false_eq_true, if_false, hlt]
  rw [hcommit]
  refine ⟨last, ?_, mem_append_left _ h.mem, fun x hx => ?_, h.lt, fun d hd hle => ?_⟩
  · have hat := h.toAt
    split
    · exact ⟨hat.seen, hat.roc, hat.seq⟩
    · split <;> exact ⟨hat.seen, hat.roc, hat.seq⟩
  · rcases mem_append.mp hx with hx | hx
    · exact h.max x hx
    · rw [mem_singleton.mp hx]
      omega
  rw [seenBit_older (by omega) hd, Bool.or_eq_true, decide_eq_true_eq, mem_append,
    mem_singleton, h.bits d hd hle, or_comm]
  refine or_congr_right ?_
  omega

theorem Window.not_mem (h : Window s l) (hok : replayOk s i) : i ∉ l := by
  rcases h with ⟨rfl, -, -⟩ | ⟨last, h⟩
  · exact not_mem_nil
  intro hmem
  have := h.max i hmem
  rcases (replayOk_iff h).mp hok with hlt | hnew
  · omega
  · exact hnew.2 hmem

theorem Window.commit (h : Window s l) (hi : i < 2 ^ 48) (hok : replayOk s i) :
    Window (replayCommit s (i / 2 ^ 16) (i % 2 ^ 16) i) (l ++ [i]) := by
  rcases h with ⟨rfl, hseen, -⟩ | ⟨last, h⟩
  · exact .inr ⟨i, replayCommit_first hseen hi⟩
  · exact .inr (replayCommit_remembers h hi hok)

theorem Window.guess_lt (h : Window s l) (seq : Nat) : guessRoc s seq < 2 ^ 32 := by
  rcases h with ⟨-, hseen, hroc⟩ | ⟨last, h⟩
  · simp [guessRoc, hseen, hroc]
  have hlt := h.lt
  simp only [guessRoc, h.seen, h.roc, h.seq, Bool.not_true, Bool.false_eq_true, if_false]
  split
  · split <;> omega
  · split <;> omega

/-! ## Sessions that receive -/

/-- A call of `unprotect_rtp`. -/
structure Received where
  packet : Bytes
  outCap : Nat

def headerOf (S : Suite) (q : Bytes) : Option RtpView :=
  if q.length < kRtpHeaderMin + S.tagLen then none
  else parseRtp (q.take (q.length - S.tagLen))

/-- The SSRC and the index `unprotect_rtp` takes a packet for. -/
def indexUsed (S : Suite) (t : Session) (q : Bytes) : Option (Nat × Nat) :=
  (headerOf S q).bind fun v => (t.slotFor v.ssrc).map fun (s, _) =>
    (v.ssrc, packetIndex (guessRoc s v.seq) v.seq)

/-- The SSRC and the index a call accepts. -/
def accepts (S : Suite) (t : Session) (c : Received) : Option (Nat × Nat) :=
  match (unprotectRtp S t c.packet c.outCap).1 with
  | .ok _ => indexUsed S t c.packet
  | .error _ => none

def sessionAfter (S : Suite) (t : Session) (cs : List Received) : Session :=
  cs.foldl (fun t c => (unprotectRtp S t c.packet c.outCap).2) t

def accepted (S : Suite) : Session → List Received → List (Nat × Nat)
  | _, [] => []
  | t, c :: cs =>
    (accepts S t c).toList ++ accepted S (unprotectRtp S t c.packet c.outCap).2 cs

def indicesOf (h : List (Nat × Nat)) (ssrc : Nat) : List Nat :=
  (h.filter (·.1 == ssrc)).map (·.2)

structure Tracks (t : Session) (h : List (Nat × Nat)) : Prop where
  nodup : (t.slots.map (·.ssrc)).Nodup
  known : ∀ s ∈ t.slots, Window s (indicesOf h s.ssrc)
  unknown : ∀ ssrc, ssrc ∉ t.slots.map (·.ssrc) → indicesOf h ssrc = []

variable {h : List (Nat × Nat)} {c : Received}

theorem unprotectRtp_cases (S : Suite) (t : Session) (q : Bytes) (cap : Nat) :
    (∃ e, e ≠ .authFail ∧ unprotectRtp S t q cap = (.error e, t)) ∨
      ∃ v s t', headerOf S q = some v ∧ t.slotFor v.ssrc = some (s, t') ∧
        ((∃ e, unprotectRtp S t q cap = (.error e, t')) ∨
          ∃ p, q.length - S.tagLen ≤ cap ∧
            replayOk s (packetIndex (guessRoc s v.seq) v.seq) ∧
            S.unprotect v (guessRoc s v.seq) q = .ok p ∧
            unprotectRtp S t q cap = (.ok p, t'.put (replayCommit s (guessRoc s v.seq) v.seq
              (packetIndex (guessRoc s v.seq) v.seq)))) := by
  unfold unprotectRtp headerOf
  split
  · exact .inl ⟨.tooShort, nofun, rfl⟩
  rename_i hlen
  cases hv : parseRtp (q.take (q.length - S.tagLen)) with
  | none => exact .inl ⟨.tooShort, nofun, rfl⟩
  | some v =>
    simp only
    split
    · exact .inl ⟨.bufferTooSmall, nofun, rfl⟩
    rename_i hroom
    cases hslot : t.slotFor v.ssrc with
    | none => exact .inl ⟨.noSlot, nofun, rfl⟩
    | some r =>
      obtain ⟨s, t'⟩ := r
      refine .inr ⟨v, s, t', rfl, hslot, ?_⟩
      simp only
      split
      · exact .inl ⟨_, rfl⟩
      rename_i hok
      cases hp : S.unprotect v (guessRoc s v.seq) q with
      | error e => exact .inl ⟨e, rfl⟩
      | ok p => exact .inr ⟨p, Nat.le_of_not_lt hroom, by simpa using hok, rfl, rfl⟩

theorem slotFor_cases (hslot : t.slotFor ssrc = some (s, t')) :
    (t' = t ∧ s ∈ t.slots ∧ s.ssrc = ssrc) ∨
      ssrc ∉ t.slots.map (·.ssrc) ∧ s = { ssrc := ssrc } ∧ t'.slots = t.slots ++ [s] := by
  unfold Session.slotFor at hslot
  split at hslot
  · rename_i r hr
    cases hslot
    exact .inl ⟨rfl, mem_of_find?_eq_some hr, by simpa using List.find?_some hr⟩
  rename_i hnone
  split at hslot
  · cases hslot
    refine .inr ⟨?_, rfl, rfl⟩
    simpa [List.find?_eq_none] using hnone
  · cases hslot

theorem Tracks.slotFor (ht : Tracks t h) (hslot : t.slotFor ssrc = some (s, t')) :
    s.ssrc = ssrc ∧ s ∈ t'.slots ∧ Window s (indicesOf h ssrc) ∧ Tracks t' h := by
  rcases slotFor_cases hslot with ⟨rfl, hmem, rfl⟩ | ⟨hnew, rfl, hslots⟩
  · exact ⟨rfl, hmem, ht.known s hmem, ht⟩
  have hwin : Window { ssrc := ssrc } (indicesOf h ssrc) :=
    .inl ⟨ht.unknown ssrc hnew, rfl, rfl⟩
  refine ⟨rfl, by rw [hslots]; simp, hwin, ?_, ?_, ?_⟩
  · rw [hslots, map_append]
    exact nodup_append.mpr ⟨ht.nodup, by simp, by
      intro x hx y hy
      simp only [map_cons, map_nil, mem_singleton] at hy
      subst hy
      rintro rfl
      exact hnew hx⟩
  · intro r hr
    rw [hslots] at hr
    rcases mem_append.mp hr with hr | hr
    · exact ht.known r hr
    · cases mem_singleton.mp hr
      exact hwin
  intro x hx
  refine ht.unknown x fun hmem => hx ?_
  rw [hslots, map_append]
  exact mem_append_left _ hmem

theorem indicesOf_snoc (h : List (Nat × Nat)) (ssrc x i : Nat) :
    indicesOf (h ++ [(ssrc, i)]) x = indicesOf h x ++ if ssrc = x then [i] else [] := by
  simp only [indicesOf, filter_append, map_append, filter_cons, filter_nil, beq_iff_eq]
  split <;> rfl

theorem put_keys (t : Session) (s : SsrcState) :
    (t.put s).slots.map (·.ssrc) = t.slots.map (·.ssrc) := by
  simp only [Session.put, map_map]
  refine map_congr_left fun r _ => ?_
  simp only [Function.comp_apply]
  split
  · rename_i heq
    exact heq.symm
  · rfl

theorem Tracks.put (ht : Tracks t h) (hs : s'.ssrc = ssrc)
    (hmem : ssrc ∈ t.slots.map (·.ssrc)) (hwin : Window s' (indicesOf h ssrc ++ [i])) :
    Tracks (t.put s') (h ++ [(ssrc, i)]) where
  nodup := by
    rw [put_keys]
    exact ht.nodup
  known r hr := by
    obtain ⟨r', hr', rfl⟩ := mem_map.mp hr
    split
    · rw [hs, indicesOf_snoc, if_pos rfl]
      exact hwin
    · rename_i hne
      rw [indicesOf_snoc, if_neg fun heq => hne (by rw [hs]; exact heq.symm), append_nil]
      exact ht.known r' hr'
  unknown x hx := by
    rw [put_keys] at hx
    rw [indicesOf_snoc, ht.unknown x hx, if_neg]
    · rfl
    · rintro rfl
      exact hx hmem

theorem headerOf_seq (hv : headerOf S q = some v) : v.seq < 2 ^ 16 := by
  unfold headerOf at hv
  split at hv
  · cases hv
  unfold parseRtp at hv
  split at hv
  · cases hv
  · obtain ⟨hl, -, rfl⟩ := Option.map_eq_some_iff.mp hv
    exact rd16_lt _ _

theorem Tracks.step (ht : Tracks t h) (c : Received) :
    Tracks (unprotectRtp S t c.packet c.outCap).2 (h ++ (accepts S t c).toList) ∧
      ∀ x ∈ accepts S t c, x ∉ h := by
  unfold accepts
  rcases unprotectRtp_cases S t c.packet c.outCap with
    ⟨e, -, he⟩ | ⟨v, s, t', hv, hslot, ⟨e, he⟩ | ⟨p, -, hok, -, hput⟩⟩
  · rw [he]
    exact ⟨by simpa using ht, by simp⟩
  · rw [he]
    exact ⟨by simpa using (ht.slotFor hslot).2.2.2, by simp⟩
  obtain ⟨hssrc, hmem, hwin, ht'⟩ := ht.slotFor hslot
  have hindex : indexUsed S t c.packet =
      some (v.ssrc, packetIndex (guessRoc s v.seq) v.seq) := by
    rw [indexUsed, hv, Option.bind_some, hslot]
    rfl
  have hseq := headerOf_seq hv
  have hroc := hwin.guess_lt v.seq
  rw [hput, hindex]
  generalize hidx : packetIndex (guessRoc s v.seq) v.seq = idx at *
  have hdiv : guessRoc s v.seq = idx / 2 ^ 16 ∧ v.seq = idx % 2 ^ 16 := by
    rw [← hidx, packetIndex]
    omega
  have hcommit := hwin.commit (i := idx) (by rw [← hidx, packetIndex]; omega) hok
  rw [← hdiv.1, ← hdiv.2] at hcommit
  refine ⟨ht'.put ((replayCommit_ssrc _ _ _ _).trans hssrc)
    (hssrc ▸ mem_map_of_mem hmem) hcommit, ?_⟩
  intro x hacc hx
  cases (Option.some.inj hacc)
  refine hwin.not_mem hok ?_
  exact mem_map.mpr ⟨_, mem_filter.mpr ⟨hx, by simp⟩, rfl⟩

theorem Tracks.run (ht : Tracks t h) (hn : h.Nodup) (cs : List Received) :
    Tracks (sessionAfter S t cs) (h ++ accepted S t cs) ∧ (h ++ accepted S t cs).Nodup := by
  induction cs generalizing t h with
  | nil => simpa [sessionAfter, accepted] using ⟨ht, hn⟩
  | cons c cs ih =>
    obtain ⟨hstep, hnew⟩ := ht.step (S := S) c
    have hn' : (h ++ (accepts S t c).toList).Nodup := by
      cases hacc : accepts S t c with
      | none => simpa using hn
      | some x =>
        have hx := hnew x (by rw [hacc]; rfl)
        exact (perm_append_singleton x h).nodup_iff.mpr (nodup_cons.mpr ⟨hx, hn⟩)
    rw [accepted, ← append_assoc]
    exact ih hstep hn'

/-! ## Few enough SSRCs -/

def ssrcOf (S : Suite) (c : Received) : Option Nat := (headerOf S c.packet).map (·.ssrc)

theorem slots_subset (cs : List Received) :
    ((sessionAfter S t cs).slots.map (·.ssrc)) ⊆ t.slots.map (·.ssrc) ++ cs.filterMap (ssrcOf S) := by
  induction cs generalizing t with
  | nil => simp [sessionAfter]
  | cons c cs ih =>
    have hstep : (unprotectRtp S t c.packet c.outCap).2.slots.map (·.ssrc) ⊆
        t.slots.map (·.ssrc) ++ (ssrcOf S c).toList := by
      have hslots : ∀ {v s t'}, headerOf S c.packet = some v → t.slotFor v.ssrc = some (s, t') →
          t'.slots.map (·.ssrc) ⊆ t.slots.map (·.ssrc) ++ (ssrcOf S c).toList := by
        intro v s t' hv hslot
        rcases slotFor_cases hslot with ⟨rfl, -, -⟩ | ⟨-, rfl, ht'⟩
        · exact subset_append_left _ _
        · rw [ht', ssrcOf, hv]
          simp
      rcases unprotectRtp_cases S t c.packet c.outCap with
        ⟨e, -, he⟩ | ⟨v, s, t', hv, hslot, ⟨e, he⟩ | ⟨p, -, -, -, hput⟩⟩
      · rw [he]
        exact subset_append_left _ _
      · rw [he]
        exact hslots hv hslot
      · rw [hput, put_keys]
        exact hslots hv hslot
    intro x hx
    rcases mem_append.mp (ih hx) with hx | hx
    · rcases mem_append.mp (hstep hx) with hx | hx
      · exact mem_append_left _ hx
      · refine mem_append_right _ (mem_filterMap.mpr ⟨c, mem_cons_self, ?_⟩)
        simpa using hx
    · obtain ⟨c', hc', hx⟩ := mem_filterMap.mp hx
      exact mem_append_right _ (mem_filterMap.mpr ⟨c', mem_cons_of_mem _ hc', hx⟩)

theorem exists_slot {before after c} (ht : Tracks (sessionAfter S {} before) h)
    (hv : headerOf S c.packet = some v)
    (hfew : ((before ++ c :: after).filterMap (ssrcOf S)).dedup.length ≤ kMaxSsrcSlots) :
    ∃ s t', (sessionAfter S {} before).slotFor v.ssrc = some (s, t') := by
  unfold Session.slotFor
  split
  · exact ⟨_, _, rfl⟩
  rename_i hnone
  rw [if_pos]
  · exact ⟨_, _, rfl⟩
  have hnew : v.ssrc ∉ (sessionAfter S {} before).slots.map (·.ssrc) := by
    simpa [List.find?_eq_none] using hnone
  have hnodup : (v.ssrc :: (sessionAfter S {} before).slots.map (·.ssrc)).Nodup :=
    nodup_cons.mpr ⟨hnew, ht.nodup⟩
  have hsub : (v.ssrc :: (sessionAfter S {} before).slots.map (·.ssrc)) ⊆
      ((before ++ c :: after).filterMap (ssrcOf S)).dedup := by
    intro x hx
    rw [mem_dedup, filterMap_append, mem_append]
    rcases mem_cons.mp hx with rfl | hx
    · exact .inr (mem_filterMap.mpr ⟨c, mem_cons_self, by rw [ssrcOf, hv]; rfl⟩)
    · exact .inl (by simpa using slots_subset before hx)
  have hlen := (subperm_of_subset hnodup hsub).length_le
  simp only [length_cons, length_map] at hlen
  omega

/-! ## Ideal authentication -/

/-- Authentication is ideal for the packets given: under its own header a packet
opens exactly under the counter it was sealed under. -/
def Ideal (S : Suite) (genuine : Bytes → Option Nat) (cs : List Received) : Prop :=
  ∀ c ∈ cs, ∀ v roc, headerOf S c.packet = some v → roc < 2 ^ 32 →
    ((∃ p, S.unprotect v roc c.packet = .ok p) ↔ genuine c.packet = some roc)

/-- A genuine packet with this index, given to `unprotect_rtp` with room for its
plain text. -/
structure Authentic (S : Suite) (genuine : Bytes → Option Nat) (c : Received) (ssrc i : Nat) :
    Prop where
  header : ∃ v, headerOf S c.packet = some v ∧ v.ssrc = ssrc ∧ v.seq = i % 2 ^ 16
  genuine : genuine c.packet = some (i / 2 ^ 16)
  index : i < 2 ^ 48
  room : c.packet.length - S.tagLen ≤ c.outCap

def Highest (l : List Nat) (m : Nat) : Prop := m ∈ l ∧ ∀ x ∈ l, x ≤ m

/-- The index is new, at most `2 ^ 15` above the highest of those accepted and
less than 128 below it. -/
def Acceptable (l : List Nat) (i : Nat) : Prop :=
  i ∉ l ∧ (l = [] ∧ i < 2 ^ 16 ∨
    ∃ m, Highest l m ∧ i ≤ m + 2 ^ 15 ∧ m < i + kReplayWindowBits)

/-- The index is exactly `2 ^ 15` above a highest one with its sequence number in
the upper half. -/
def HalfAbove (l : List Nat) (i : Nat) : Prop :=
  ∃ m, Highest l m ∧ i = m + 2 ^ 15 ∧ 2 ^ 15 ≤ m % 2 ^ 16

theorem Remembers.highest {m} (h : Remembers s l last) (hm : Highest l m) : m = last :=
  Nat.le_antisymm (h.max _ hm.1) (hm.2 _ h.mem)

theorem Window.accepts (h : Window s l) (hi : i < 2 ^ 48) (hacc : Acceptable l i)
    (hhalf : ¬HalfAbove l i) : guessRoc s (i % 2 ^ 16) = i / 2 ^ 16 ∧ replayOk s i := by
  have hk : kReplayWindowBits = 128 := rfl
  obtain ⟨hnew, ⟨rfl, hlt⟩ | ⟨m, hm, hup, hwin⟩⟩ := hacc
  · rcases h with ⟨-, hseen, hroc⟩ | ⟨last, h⟩
    · refine ⟨?_, by simp [replayOk, hseen]⟩
      simp only [guessRoc, hseen, hroc, Bool.not_false, if_true]
      omega
    · exact absurd h.mem not_mem_nil
  rcases h with ⟨rfl, -, -⟩ | ⟨last, h⟩
  · exact absurd hm.1 not_mem_nil
  · cases h.highest hm
    refine ⟨guessRoc_near h.toAt hi hup (by omega) fun heq => Nat.lt_of_not_le fun hle =>
      hhalf ⟨_, hm, heq, hle⟩, (replayOk_iff h).mpr (.inr ⟨hwin, hnew⟩)⟩

theorem Window.refuses (h : Window s l) (hhalf : HalfAbove l i) :
    replayOk s (packetIndex (guessRoc s (i % 2 ^ 16)) (i % 2 ^ 16)) = false := by
  have hk : kReplayWindowBits = 128 := rfl
  obtain ⟨m, hm, rfl, hupper⟩ := hhalf
  rcases h with ⟨rfl, -, -⟩ | ⟨last, h⟩
  · exact absurd hm.1 not_mem_nil
  cases h.highest hm
  have hroc : guessRoc s ((m + 2 ^ 15) % 2 ^ 16) = m / 2 ^ 16 := by
    simp only [guessRoc, h.seen, h.roc, h.seq, Bool.not_true, Bool.false_eq_true, if_false]
    rw [if_neg (by omega), if_neg (by omega)]
  rw [hroc, ← Bool.not_eq_true, replayOk_iff h, packetIndex]
  omega

theorem unprotectRtp_slot {cap} (hv : headerOf S q = some v) (hroom : q.length - S.tagLen ≤ cap)
    (hslot : t.slotFor v.ssrc = some (s, t')) : (unprotectRtp S t q cap).1 =
      if replayOk s (packetIndex (guessRoc s v.seq) v.seq) then S.unprotect v (guessRoc s v.seq) q
      else .error .replay := by
  unfold headerOf at hv
  split at hv
  · cases hv
  rename_i hlen
  rw [unprotectRtp, if_neg hlen]
  simp only [hv, hslot]
  rw [if_neg (Nat.not_lt.mpr hroom)]
  cases replayOk s (packetIndex (guessRoc s v.seq) v.seq) with
  | false => rfl
  | true =>
    cases S.unprotect v (guessRoc s v.seq) q <;> rfl

theorem indexUsed_eq (hv : headerOf S q = some v) (hslot : t.slotFor v.ssrc = some (s, t')) :
    indexUsed S t q = some (v.ssrc, packetIndex (guessRoc s v.seq) v.seq) := by
  rw [indexUsed, hv, Option.bind_some, hslot]
  rfl

theorem accepts_iff {genuine cs} (hS : Ideal S genuine cs) (hc : c ∈ cs)
    (ha : Authentic S genuine c ssrc i) (hslot : t.slotFor ssrc = some (s, t')) (hwin : Window s l)
    (hacc : Acceptable l i) : accepts S t c = some (ssrc, i) ↔ ¬HalfAbove l i := by
  obtain ⟨⟨v, hv, rfl, hseq⟩, hgen, hi, hroom⟩ := ha
  have hres := unprotectRtp_slot hv hroom hslot
  have hindex := indexUsed_eq hv hslot
  rw [hseq] at hres hindex
  by_cases hhalf : HalfAbove l i
  · rw [hwin.refuses hhalf] at hres
    refine iff_of_false (fun h => ?_) (not_not.mpr hhalf)
    rw [accepts, hres] at h
    cases h
  obtain ⟨hroc, hok⟩ := hwin.accepts hi hacc hhalf
  obtain ⟨p, hp⟩ := (hS c hc v _ hv (by omega)).mpr hgen
  rw [hroc, packetIndex_div] at hres hindex
  rw [hok, if_pos rfl, hp] at hres
  rw [accepts, hres, hindex]
  exact iff_of_true rfl hhalf

theorem authentic_of_accepts {genuine cs} (hS : Ideal S genuine cs) (hc : c ∈ cs)
    (ht : Tracks t h) (hacc : accepts S t c = some (ssrc, i)) : Authentic S genuine c ssrc i := by
  unfold accepts at hacc
  rcases unprotectRtp_cases S t c.packet c.outCap with
    ⟨e, -, he⟩ | ⟨v, s, t', hv, hslot, ⟨e, he⟩ | ⟨p, hroom, -, hp, hput⟩⟩
  · rw [he] at hacc
    cases hacc
  · rw [he] at hacc
    cases hacc
  have hseq := headerOf_seq hv
  have hroc := (ht.slotFor hslot).2.2.1.guess_lt v.seq
  have hgen := (hS c hc v _ hv hroc).mp ⟨p, hp⟩
  rw [hput, indexUsed_eq hv hslot] at hacc
  cases hacc
  have hdiv : packetIndex (guessRoc s v.seq) v.seq / 2 ^ 16 = guessRoc s v.seq ∧
      packetIndex (guessRoc s v.seq) v.seq % 2 ^ 16 = v.seq := by
    rw [packetIndex]
    omega
  exact ⟨⟨v, hv, rfl, hdiv.2.symm⟩, by rw [hdiv.1]; exact hgen, by rw [packetIndex]; omega, hroom⟩

/-- For every sequence of calls with packets of at most 64 SSRCs, nothing is
accepted twice, what is accepted is genuine under its index, and a genuine packet
near the highest of its SSRC that was not accepted before is accepted, under its
index, unless it is half the sequence space above one in the upper half. -/
theorem unprotect_exact {genuine : Bytes → Option Nat} (cs : List Received)
    (hS : Ideal S genuine cs) (hfew : (cs.filterMap (ssrcOf S)).dedup.length ≤ kMaxSsrcSlots) :
    (accepted S {} cs).Nodup ∧
      ∀ before c after, cs = before ++ c :: after → ∀ ssrc i,
        (accepts S (sessionAfter S {} before) c = some (ssrc, i) → Authentic S genuine c ssrc i) ∧
          (Authentic S genuine c ssrc i →
            Acceptable (indicesOf (accepted S {} before) ssrc) i →
            (accepts S (sessionAfter S {} before) c = some (ssrc, i) ↔
              ¬HalfAbove (indicesOf (accepted S {} before) ssrc) i)) := by
  have hempty : Tracks {} [] := ⟨by simp, by simp, fun _ _ => rfl⟩
  refine ⟨by simpa using (hempty.run (S := S) nodup_nil cs).2, ?_⟩
  rintro before c after rfl ssrc i
  have hmem : c ∈ before ++ c :: after := mem_append_right _ mem_cons_self
  have ht := (hempty.run (S := S) nodup_nil before).1
  rw [nil_append] at ht
  refine ⟨authentic_of_accepts hS hmem ht, fun ha hacc => ?_⟩
  obtain ⟨v, hv, rfl, -⟩ := ha.header
  obtain ⟨s, t', hslot⟩ := exists_slot ht hv hfew
  exact accepts_iff hS hmem ha hslot (ht.slotFor hslot).2.2.1 hacc

/-! ### A GCM profile with a transparent cipher -/

/-- The text is not encrypted, and the tag is the IV. -/
def ivTag : GcmKeys where
  salt := replicate 12 0
  sealText iv _ buf := some (buf, (iv ++ replicate 16 0).take 16)
  openText iv _ text tag := if tag = (iv ++ replicate 16 0).take 16 then some text else none

def tagFor (ssrc roc seq : Nat) : Bytes :=
  (srtpGcmIv ivTag.salt ssrc roc seq ++ replicate 16 0).take 16

/-- The counter in the tag of a packet, if the rest of the tag is right. -/
def tagRoc (q : Bytes) : Option Nat :=
  (headerOf (.gcm ivTag) q).bind fun v =>
    let tag := q.drop (q.length - kGcmTagLen)
    if tag = tagFor v.ssrc (rd32 tag 6) v.seq then some (rd32 tag 6) else none

theorem rd32_tagFor {roc} (hroc : roc < 2 ^ 32) (ssrc seq : Nat) :
    rd32 (tagFor ssrc roc seq) 6 = roc := by
  have hform : tagFor ssrc roc seq =
      ([0, 0] ++ wr32 ssrc) ++ (wr32 roc ++ (wr16 seq ++ [0, 0, 0, 0])) := by
    simp [tagFor, srtpGcmIv, xorOctets, ivTag, wr32, wr16, replicate]
  rw [hform, rd32_append_right (n := 0) (by simp [wr32, wr16]), rd32_wr32 hroc]

theorem ivTag_ideal (cs : List Received) : Ideal (.gcm ivTag) tagRoc cs := by
  intro c hc v roc hv hroc
  have hopen : (∃ p, (Suite.gcm ivTag).unprotect v roc c.packet = .ok p) ↔
      c.packet.drop (c.packet.length - kGcmTagLen) = tagFor v.ssrc roc v.seq := by
    simp only [Suite.gcm, gcmUnprotectRtp, ivTag, tagFor]
    split <;> simp_all
  rw [hopen, tagRoc, hv, Option.bind_some]
  constructor
  · intro htag
    simp [htag, rd32_tagFor hroc]
  · intro h
    obtain ⟨htag, heq⟩ := Option.ite_none_right_eq_some.mp h
    rwa [Option.some.inj heq] at htag

def stamped (ssrc index : Nat) : Received where
  packet := (bare index).packet.take 8 ++ wr32 ssrc ++ tagFor ssrc (index / 2 ^ 16) (index % 2 ^ 16)
  outCap := 12

/-- Packet 65540 behind packet 65530, across the wrap, and packet 32868 exactly
`2 ^ 15` above packet 100. -/
theorem unprotect_exact_wrap :
    accepts (.gcm ivTag) (sessionAfter (.gcm ivTag) {} [stamped 7 65530]) (stamped 7 65540) =
        some (7, 65540) ∧
      accepts (.gcm ivTag) (sessionAfter (.gcm ivTag) {} [stamped 7 100]) (stamped 7 32868) =
        some (7, 32868) := by
  obtain ⟨hidx, hidx'⟩ : indicesOf (accepted (.gcm ivTag) {} [stamped 7 65530]) 7 = [65530] ∧
      indicesOf (accepted (.gcm ivTag) {} [stamped 7 100]) 7 = [100] := by decide +kernel
  have hhigh : ∀ {m n}, Highest [m] n → n = m := fun h => mem_singleton.mp h.1
  constructor
  · refine (((unprotect_exact [stamped 7 65530, stamped 7 65540] (ivTag_ideal _)
      (by decide +kernel)).2 [stamped 7 65530] (stamped 7 65540) [] rfl 7 65540).2
      ⟨⟨⟨4, 7, 12⟩, by decide +kernel, rfl, rfl⟩, by decide +kernel, by decide, by decide +kernel⟩
      ?_).mpr ?_
    · rw [hidx]
      exact ⟨by decide, .inr ⟨65530, ⟨by decide, by decide⟩, by decide, by decide⟩⟩
    rw [hidx]
    rintro ⟨m, hm, heq, -⟩
    cases hhigh hm
    omega
  refine (((unprotect_exact [stamped 7 100, stamped 7 32868] (ivTag_ideal _)
    (by decide +kernel)).2 [stamped 7 100] (stamped 7 32868) [] rfl 7 32868).2
    ⟨⟨⟨32868, 7, 12⟩, by decide +kernel, rfl, rfl⟩, by decide +kernel, by decide,
      by decide +kernel⟩ ?_).mpr ?_
  · rw [hidx']
    exact ⟨by decide, .inr ⟨100, ⟨by decide, by decide⟩, by decide, by decide⟩⟩
  rw [hidx']
  rintro ⟨m, hm, -, hle⟩
  cases hhigh hm
  omega

/-- Packet 72768 is exactly `2 ^ 15` above packet 40000, and is taken for packet
7232. -/
theorem refused_at_half_window :
    Ideal (.gcm ivTag) tagRoc [stamped 7 40000, stamped 7 72768] ∧
      Authentic (.gcm ivTag) tagRoc (stamped 7 40000) 7 40000 ∧
      Authentic (.gcm ivTag) tagRoc (stamped 7 72768) 7 72768 ∧
      accepted (.gcm ivTag) {} [stamped 7 40000] = [(7, 40000)] ∧ 72768 ≤ 40000 + 2 ^ 15 ∧
      accepts (.gcm ivTag) (sessionAfter (.gcm ivTag) {} [stamped 7 40000]) (stamped 7 72768) =
        none :=
  ⟨ivTag_ideal _, ⟨⟨⟨40000, 7, 12⟩, by decide +kernel, rfl, rfl⟩, by decide +kernel, by decide,
      by decide +kernel⟩,
    ⟨⟨⟨7232, 7, 12⟩, by decide +kernel, rfl, rfl⟩, by decide +kernel, by decide, by decide +kernel⟩,
    by decide +kernel⟩

/-! ## Packets that fail authentication -/

/-- Every packet fails authentication when it arrives. -/
def AllFail (S : Suite) : Session → List Received → Prop
  | _, [] => True
  | t, c :: cs => (unprotectRtp S t c.packet c.outCap).1 = .error .authFail ∧
      AllFail S (unprotectRtp S t c.packet c.outCap).2 cs

def Known (S : Suite) (t : Session) (c : Received) : Prop :=
  ∀ ssrc ∈ ssrcOf S c, ssrc ∈ t.slots.map (·.ssrc)

theorem authFail_session (hf : (unprotectRtp S t c.packet c.outCap).1 = .error .authFail) :
    (unprotectRtp S t c.packet c.outCap).2 = t ∧ Known S t c ∨
      ¬Known S t c ∧ t.slots.length < (unprotectRtp S t c.packet c.outCap).2.slots.length := by
  rcases unprotectRtp_cases S t c.packet c.outCap with
    ⟨e, hne, he⟩ | ⟨v, s, t', hv, hslot, ⟨e, he⟩ | ⟨p, -, -, -, he⟩⟩
  · rw [he] at hf
    exact absurd (Except.error.inj hf) hne
  · have hssrc : ssrcOf S c = some v.ssrc := by
      rw [ssrcOf, hv]
      rfl
    rw [he]
    rcases slotFor_cases hslot with ⟨rfl, hmem, hs⟩ | ⟨hnew, -, hslots⟩
    · refine .inl ⟨rfl, fun x hx => ?_⟩
      rw [hssrc] at hx
      cases hx
      exact hs ▸ mem_map_of_mem hmem
    · refine .inr ⟨fun hknown => hnew (hknown _ hssrc), ?_⟩
      simp [hslots]
  · rw [he] at hf
    cases hf

theorem authFail_session_iff (hf : (unprotectRtp S t c.packet c.outCap).1 = .error .authFail) :
    (unprotectRtp S t c.packet c.outCap).2 = t ↔ Known S t c := by
  rcases authFail_session hf with ⟨hsame, hknown⟩ | ⟨hnew, hlt⟩
  · exact iff_of_true hsame hknown
  · exact iff_of_false (fun hsame => by rw [hsame] at hlt; omega) hnew

theorem AllFail.length_le {cs} (hf : AllFail S t cs) :
    t.slots.length ≤ (sessionAfter S t cs).slots.length := by
  induction cs generalizing t with
  | nil => exact Nat.le_refl _
  | cons c cs ih =>
    refine Nat.le_trans ?_ (ih hf.2)
    rcases authFail_session hf.1 with ⟨hsame, -⟩ | ⟨-, hlt⟩
    · exact Nat.le_of_eq (congrArg (·.slots.length) hsame.symm)
    · exact Nat.le_of_lt hlt

/-- A packet that fails authentication leaves the session alone exactly if its
SSRC has a slot; a sequence of them does exactly if each of their SSRCs has one,
and then every later packet is treated as without them. -/
theorem forged_packets (t : Session) :
    (∀ c : Received, (unprotectRtp S t c.packet c.outCap).1 = .error .authFail →
      ((unprotectRtp S t c.packet c.outCap).2 = t ↔ Known S t c)) ∧
      ∀ cs : List Received, AllFail S t cs →
        (sessionAfter S t cs = t ↔ ∀ c ∈ cs, Known S t c) ∧
          ((∀ c ∈ cs, Known S t c) → ∀ c : Received,
            unprotectRtp S (sessionAfter S t cs) c.packet c.outCap =
              unprotectRtp S t c.packet c.outCap) := by
  refine ⟨fun c => authFail_session_iff, fun cs hcs => ?_⟩
  have hiff : sessionAfter S t cs = t ↔ ∀ c ∈ cs, Known S t c := by
    induction cs with
    | nil => simp [sessionAfter]
    | cons c cs ih =>
      rw [sessionAfter, foldl_cons, forall_mem_cons]
      rcases authFail_session hcs.1 with ⟨hstep, hknown⟩ | ⟨hnew, hlt⟩
      · rw [hstep, and_iff_right hknown]
        exact ih (hstep ▸ hcs.2)
      -- the slots only grow
      refine iff_of_false (fun hsame => ?_) fun h => hnew h.1
      have hle := AllFail.length_le hcs.2
      rw [sessionAfter, hsame] at hle
      omega
  exact ⟨hiff, fun hknown c => by rw [hiff.mpr hknown]⟩

/-- A packet of this SSRC that nobody sealed. -/
def forgery (ssrc : Nat) : Received :=
  { packet := (bare 10).packet.take 8 ++ wr32 ssrc ++ replicate 16 255, outCap := 12 }

/-- Two forged packets of a known SSRC. -/
theorem forged_packets_known :
    sessionAfter (.gcm ivTag) (sessionAfter (.gcm ivTag) {} [stamped 7 9]) [forgery 7, forgery 7] =
      sessionAfter (.gcm ivTag) {} [stamped 7 9] := by
  refine ((forged_packets (sessionAfter (.gcm ivTag) {} [stamped 7 9])).2
    [forgery 7, forgery 7] ?_).1.mpr ?_
  · simp only [AllFail, and_true]
    decide +kernel
  have hssrc : ssrcOf (.gcm ivTag) (forgery 7) = some 7 := by decide +kernel
  have hslots : (sessionAfter (.gcm ivTag) {} [stamped 7 9]).slots.map (·.ssrc) = [7] := by
    decide +kernel
  simp [Known, hssrc, hslots]

def flood : List Received := (List.range 64).map fun n => forgery (1000 + n)

/-- One forged packet takes a slot, and 64 of them take them all: the first
packet of SSRC 7 is then refused, though it is accepted without them. -/
theorem forged_packets_fill_slots :
    (∀ n < 64, (unprotectRtp (.gcm ivTag) (sessionAfter (.gcm ivTag) {} (flood.take n))
        (forgery (1000 + n)).packet 12).1 = .error .authFail) ∧
      (unprotectRtp (.gcm ivTag) {} (forgery 1000).packet 12).2 ≠ {} ∧
      accepts (.gcm ivTag) {} (stamped 7 10) = some (7, 10) ∧
      (unprotectRtp (.gcm ivTag) (sessionAfter (.gcm ivTag) {} flood) (stamped 7 10).packet 12).1 =
        .error .noSlot := by
  decide +kernel

end BoltApi.WebRtc.Srtp
