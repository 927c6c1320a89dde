import Mathlib.Data.List.Forall2
import BoltApi.Hpack.Codec

/-! # The limit on decoded fields

`HPACKDecoder::decode` hands on at most `max_headers` fields of a block but reads
all of it. What it does to its table, and which fields it finds, is the same
under every limit; the limit only cuts the list it hands on. -/
namespace BoltApi.Hpack.Limits
open Octets Tables Codec Codec.HPACKDecoder List

/-- The local variables of `decode` under a limit, when these fields were read. -/
def limited (m : Nat) (fields : List HPACKHeader) (seen : Bool) : Progress :=
  { output := fields.take m, fieldSeen := seen, tooMany := m < fields.length }

theorem push_limited (m : Nat) (fields : List HPACKHeader) (seen : Bool) (h : HPACKHeader) :
    (limited m fields seen).push m h = limited m (fields ++ [h]) true := by
  simp only [limited, Progress.push, length_take, length_append, length_singleton]
  by_cases hroom : fields.length < m
  · rw [if_pos (by omega), take_of_length_le (l := fields) (by omega),
      take_of_length_le (by simp; omega)]
    simp only [Progress.mk.injEq, decide_eq_decide, true_and]
    omega
  · rw [if_neg (by omega), take_append_of_le_length (by omega)]
    simp only [Progress.mk.injEq, true_eq_decide_iff, true_and]
    omega

structure Contents where
  wellFormed : Bool
  fields : List HPACKHeader
  decoder : HPACKDecoder

def Contents.report (o : Contents) (m : Nat) : DecodeStatus × List HPACKHeader × HPACKDecoder :=
  (if o.wellFormed then if m < o.fields.length then .tooManyHeaders else .ok
    else .compressionError, o.fields.take m, o.decoder)

def Uniform (fields : List HPACKHeader)
    (round : Nat → Option (HPACKDecoder × Progress × Bytes)) : Prop :=
  (∀ m, round m = none) ∨ ∃ d fields' seen rest, fields'.length ≤ fields.length + 1 ∧
    ∀ m, round m = some (d, limited m fields' seen, rest)

variable (d : HPACKDecoder)

theorem uniform_push (fields : List HPACKHeader) (seen : Bool) (h : HPACKHeader) (rest : Bytes) :
    Uniform fields fun m => some (d, (limited m fields seen).push m h, rest) :=
  .inr ⟨d, fields ++ [h], true, rest, by simp, fun m => by simp only [push_limited]⟩

theorem decodeField_uniform (fields : List HPACKHeader) (seen : Bool) (b : UInt8) (input : Bytes) :
    Uniform fields fun m => d.decodeField (limited m fields seen) m b input := by
  unfold decodeField
  by_cases hindexed : b &&& 0x80 ≠ 0
  · simp only [if_pos hindexed]
    cases decodeInteger input 7 with
    | none => exact .inl fun _ => rfl
    | some r =>
      simp only
      cases d.lookup r.1 with
      | none => exact .inl fun _ => rfl
      | some h => exact uniform_push d fields seen h r.2
  simp only [if_neg hindexed]
  by_cases hincremental : b &&& 0xC0 = 0x40
  · simp only [if_pos hincremental]
    cases d.decodeLiteral input 6 with
    | none => exact .inl fun _ => rfl
    | some r => exact uniform_push _ fields seen _ r.2.2
  simp only [if_neg hincremental]
  by_cases hupdate : b &&& 0xE0 = 0x20
  · -- a size update depends on whether a field was read, not on what was handed on
    simp only [if_pos hupdate, limited]
    cases seen with
    | true => exact .inl fun _ => rfl
    | false =>
      cases decodeInteger input 5 with
      | none => exact .inl fun _ => rfl
      | some r =>
        by_cases hsize : d.limit < r.1
        · exact .inl fun _ => by simp [hsize]
        · exact .inr ⟨{ d with table := d.table.setMaxSize r.1 }, fields, false, r.2,
            Nat.le_succ _, fun _ => by simp [hsize, limited]⟩
  simp only [if_neg hupdate]
  cases d.decodeLiteral input 4 with
  | none => exact .inl fun _ => rfl
  | some r => exact uniform_push d fields seen _ r.2.2

theorem decodeLoop_limited (guard : Nat) :
    ∀ (d : HPACKDecoder) (fields : List HPACKHeader) (seen : Bool) (input : Bytes), ∃ o : Contents,
      (∀ m, decodeLoop m guard d (limited m fields seen) input = o.report m) ∧
      o.fields.length ≤ fields.length + guard := by
  induction guard with
  | zero =>
    intro d fields seen input
    exact ⟨⟨true, fields, d⟩, fun m => by simp [decodeLoop, limited, Contents.report], le_rfl⟩
  | succ guard ih =>
    intro d fields seen input
    cases input with
    | nil =>
      exact ⟨⟨true, fields, d⟩, fun m => by simp [decodeLoop, limited, Contents.report],
        Nat.le_add_right _ _⟩
    | cons b input =>
      rcases decodeField_uniform d fields seen b (b :: input) with
        hnone | ⟨d', fields', seen', rest, hone, hsome⟩
      · refine ⟨⟨false, fields, d⟩, fun m => ?_, Nat.le_add_right _ _⟩
        simp only [decodeLoop, hnone]
        rfl
      · obtain ⟨o, hloop, hlen⟩ := ih d' fields' seen' rest
        refine ⟨o, fun m => ?_, by omega⟩
        simp only [decodeLoop, hsome, hloop]

theorem decode_limited (block : Bytes) : ∃ o : Contents,
    (∀ m, d.decode block m = o.report m) ∧ o.fields.length ≤ block.length := by
  obtain ⟨o, hloop, hlen⟩ := decodeLoop_limited block.length d [] false block
  refine ⟨o, fun m => ?_, by simpa using hlen⟩
  rw [← hloop m]
  simp [decode, limited]

/-- A decoder and the header blocks of a connection: what it returns for each. -/
def session (limit : Bytes → Nat) (d : HPACKDecoder) :
    List Bytes → List (DecodeStatus × List HPACKHeader × HPACKDecoder)
  | [] => []
  | block :: blocks =>
    d.decode block (limit block) :: session limit (d.decode block (limit block)).2.2 blocks

theorem session_forall₂ {R limit limit'}
    (h : ∀ (o : Contents) (block : Bytes), o.fields.length ≤ block.length → R (o.report (limit block)) (o.report (limit' block)))
    (blocks : List Bytes) : ∀ d, Forall₂ R (session limit d blocks) (session limit' d blocks) := by
  induction blocks with
  | nil => exact fun _ => .nil
  | cons block blocks ih =>
    intro d
    obtain ⟨o, hreport, hlen⟩ := decode_limited d block
    simp only [session, hreport]
    exact .cons (h o block hlen) (ih o.decoder)

/-- **The limit does not reach the table.** Two decoders with different limits have
the same table after every block and hand on lists that agree as far as both
go; and against a decoder that hands on every field, a limited one has the same
table, the first of the fields, and the same result but for too many fields. -/
theorem table_independent_of_limit (d : HPACKDecoder) (blocks : List Bytes) (m n : Nat) :
    Forall₂ (fun r s => r.2.2 = s.2.2 ∧ (r.2.1 <+: s.2.1 ∨ s.2.1 <+: r.2.1))
        (session (fun _ => m) d blocks) (session (fun _ => n) d blocks) ∧
      Forall₂ (fun r full => r.2.2 = full.2.2 ∧ r.2.1 = full.2.1.take m ∧
          full.1 ≠ .tooManyHeaders ∧
          r.1 = if full.1 = .ok ∧ m < full.2.1.length then .tooManyHeaders else full.1)
        (session (fun _ => m) d blocks) (session List.length d blocks) := by
  constructor
  · refine session_forall₂ (fun o block _ => ⟨rfl, ?_⟩) blocks d
    rcases Nat.le_total m n with hle | hle
    · exact .inl (take_prefix_take_left hle)
    · exact .inr (take_prefix_take_left hle)
  refine session_forall₂ (fun o block hlen => ?_) blocks d
  have hall : o.fields.take block.length = o.fields := take_of_length_le hlen
  simp only [Contents.report, hall, Nat.not_lt.mpr hlen, if_false, true_and]
  cases o.wellFormed <;> simp

end BoltApi.Hpack.Limits
