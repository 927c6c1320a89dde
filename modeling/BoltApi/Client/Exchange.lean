import BoltApi.Client.Server
import Mathlib.Data.List.TakeWhile

/-! # One answer and the parser that reads it

The parser is fed the octets of an answer in pieces. `Understood` says which
answers it takes for what they are. -/
namespace BoltApi.Client.Exchange
open Octets CNumbers Lib.Occurrence Lib.Numerals List
open Server

/-! ## The end of a head -/

variable {c : UInt8}

theorem isText_ne_cr (h : isText c) : c ≠ CR := by
  rintro rfl
  exact absurd h (by decide)

theorem isTokenChar_ne_cr (h : isTokenChar c) : c ≠ CR := by
  rintro rfl
  exact absurd h (by decide)

theorem digitOctet_isDigit : ∀ d < 10, isDigit (digitOctet d) := by decide

theorem printed_isDigit {n} (h : c ∈ printed 10 n) : isDigit c := by
  obtain ⟨d, hd, rfl⟩ := mem_printed (by decide) h
  exact digitOctet_isDigit d hd

theorem decimal_printed (n : Nat) : decimal (printed 10 n) = n :=
  @printed_value 10 (by decide) (fun c => c.toNat - 0x30) (by decide) n

theorem cr_notMem_fieldLine (f : FieldLine) : CR ∉ f.text := by
  intro h
  rcases mem_append.mp h with h | h
  · exact isTokenChar_ne_cr (all_eq_true.mp f.name_token CR h) rfl
  · rcases mem_cons.mp h with h | h
    · exact absurd h (by decide)
    · exact isText_ne_cr (all_eq_true.mp f.value_text CR h) rfl

theorem cr_notMem_statusLine (h : ReplyHead) : CR ∉ h.statusLine := by
  intro hc
  rcases mem_append.mp hc with hc | hc
  · exact absurd hc (by decide)
  rcases mem_append.mp hc with hc | hc
  · exact absurd (printed_isDigit hc) (by decide)
  rcases mem_cons.mp hc with hc | hc
  · exact absurd hc (by decide)
  · exact isText_ne_cr (all_eq_true.mp h.reason_text CR hc) rfl

theorem fieldLine_cons (f : FieldLine) : ∃ c t, f.text = c :: t ∧ c ≠ CR := by
  obtain ⟨c, t, hf⟩ := exists_cons_of_ne_nil f.name_ne
  refine ⟨c, t ++ COLON :: f.value, by rw [FieldLine.text, hf]; rfl, fun hc => cr_notMem_fieldLine f ?_⟩
  rw [FieldLine.text, hf, hc]
  exact mem_cons_self

theorem find_fields (fields : List FieldLine) (rest : Bytes) :
    find CRLFCRLF ((fields.flatMap fun f => CRLF ++ f.text) ++ (CRLFCRLF ++ rest)) =
      some (fields.flatMap fun f => CRLF ++ f.text).length := by
  induction fields with
  | nil => exact find_zero (prefix_append _ _)
  | cons f fields ih =>
    obtain ⟨c, t, hf, hc⟩ := fieldLine_cons f
    have hno : CR ∉ LF :: f.text := by
      rw [mem_cons, not_or]
      exact ⟨by decide, cr_notMem_fieldLine f⟩
    have hstart : ((f :: fields).flatMap fun f => CRLF ++ f.text) ++ (CRLFCRLF ++ rest) =
        CR :: ((LF :: f.text) ++ ((fields.flatMap fun f => CRLF ++ f.text) ++ (CRLFCRLF ++ rest))) := by
      simp [CRLF]
    have hfirst : ¬ CRLFCRLF <+:
        CR :: ((LF :: f.text) ++ ((fields.flatMap fun f => CRLF ++ f.text) ++ (CRLFCRLF ++ rest))) := by
      rw [hf]
      intro hp
      simp only [CRLFCRLF, CRLF, cons_append, nil_append, cons_prefix_cons, true_and] at hp
      exact hc hp.1.symm
    rw [hstart, find_cons_of_not hfirst]
    have hskip := @find_skip _ _ (LF :: f.text)
      ((fields.flatMap fun f => CRLF ++ f.text) ++ (CRLFCRLF ++ rest)) CR [LF, CR, LF] hno
    change (find (CR :: [LF, CR, LF]) _).map _ = _
    rw [hskip]
    change ((find CRLFCRLF _).map _).map _ = _
    rw [ih]
    simp [CRLF]
    omega

theorem find_head (h : ReplyHead) (rest : Bytes) : find CRLFCRLF (h.wire ++ rest) = some h.text.length := by
  have hsplit : h.wire ++ rest =
      h.statusLine ++ ((h.fields.flatMap fun f => CRLF ++ f.text) ++ (CRLFCRLF ++ rest)) := by
    simp [ReplyHead.wire, ReplyHead.text, append_assoc]
  have hskip := @find_skip _ _ h.statusLine
    ((h.fields.flatMap fun f => CRLF ++ f.text) ++ (CRLFCRLF ++ rest)) CR [LF, CR, LF] (cr_notMem_statusLine h)
  rw [hsplit]
  change find (CR :: [LF, CR, LF]) _ = _
  rw [hskip]
  change (find CRLFCRLF _).map _ = _
  rw [find_fields, Option.map_some, ReplyHead.text, length_append, Nat.add_comm]

theorem wire_length (h : ReplyHead) : h.wire.length = h.text.length + 4 := by
  rw [ReplyHead.wire, length_append]
  rfl

/-! ## The status -/

theorem atoi_code (h : ReplyHead) (rest : Bytes) : atoi ((h.wire ++ rest).drop 9) = h.code := by
  have hsplit : (h.wire ++ rest).drop 9 = [] ++ (printed 10 h.code ++
      (SP :: (h.reason ++ ((h.fields.flatMap fun f => CRLF ++ f.text) ++ (CRLFCRLF ++ rest))))) := by
    have : h.wire ++ rest = ascii "HTTP/1.1 " ++ (printed 10 h.code ++
        (SP :: (h.reason ++ ((h.fields.flatMap fun f => CRLF ++ f.text) ++ (CRLFCRLF ++ rest))))) := by
      simp [ReplyHead.wire, ReplyHead.text, ReplyHead.statusLine, append_assoc]
    rw [this, drop_left' (by decide), nil_append]
  have hread := @strtoll_digits [] _
    (SP :: (h.reason ++ ((h.fields.flatMap fun f => CRLF ++ f.text) ++ (CRLFCRLF ++ rest)))) nofun
    (printed_ne_nil 10 h.code) (fun c => printed_isDigit) (by rintro c hc; cases hc; decide)
  rw [hsplit, atoi, atoll, hread, decimal_printed]
  have := h.code_hi
  simp only
  omega

variable {h : ReplyHead}

theorem parseHead_status {q e hd} (hp : parseHead (h.wire ++ q) e = some hd) :
    hd.status = h.code := by
  unfold parseHead at hp
  split at hp
  · cases hp
  simp only at hp
  repeat split at hp <;> try cases hp
  exact atoi_code h q

/-! ## Reading an answer in pieces -/

def Seen (R : Reply) (h : Head) : Prop :=
  ∃ q, q <+: R.afterHead ∧ q.length < kClientRecvChunk ∧
    parseHead (R.firstHead.wire ++ q) R.firstHead.text.length = some h

/-- The client understands an answer: its head is refused, or it is the only one
and its length is read as what follows it. An answer that is read as longer than
it is only ends with the connection, and one beyond the limit is given up. -/
def Understood (R : Reply) : Prop :=
  ∀ h, Seen R h →
    (R.interim = [] ∧ h.contentLength = R.afterHead.length) ∨
      (R.afterHead.length < h.contentLength ∧ R.closes) ∨
      kClientMaxRespBytes < R.firstHead.wire.length + min h.contentLength R.afterHead.length

structure Waiting (R : Reply) (p : ResponseParser) : Prop where
  bounded : p.buf.length ≤ kClientMaxRespBytes
  searching : p.head = none → find CRLFCRLF p.buf = none
  short : ∀ e h, p.head = some (e, h) →
    e = R.firstHead.text.length ∧ Seen R h ∧ R.firstHead.wire.length ≤ p.buf.length ∧
      p.buf.length < R.firstHead.wire.length + h.contentLength

theorem waiting_start (R : Reply) : Waiting R {} where
  bounded := Nat.zero_le _
  searching _ := rfl
  short := nofun

variable {R : Reply} {p p' : ResponseParser} {data unread : Bytes}

theorem seen_of_find {pos h} (hnone : find CRLFCRLF p.buf = none) (hwire : p.buf ++ data <+: R.wire)
    (hlen : data.length ≤ kClientRecvChunk) (hfind : find CRLFCRLF (p.buf ++ data) = some pos)
    (hhead : parseHead (p.buf ++ data) pos = some h) :
    pos = R.firstHead.text.length ∧ R.firstHead.wire.length ≤ (p.buf ++ data).length ∧ Seen R h := by
  obtain ⟨rest, hrest⟩ := hwire
  have hpos : pos = R.firstHead.text.length := by
    have := find_append (r := rest) hfind
    rw [hrest, Reply.wire_eq, find_head] at this
    exact (Option.some.inj this).symm
  have hle : R.firstHead.wire.length ≤ (p.buf ++ data).length := by
    rw [wire_length, ← hpos]
    exact find_bound hfind
  refine ⟨hpos, hle, ?_⟩
  have hfront : R.firstHead.wire <+: R.wire := by
    rw [Reply.wire_eq]
    exact prefix_append _ _
  obtain ⟨q, hq⟩ : R.firstHead.wire <+: p.buf ++ data :=
    prefix_of_prefix_length_le hfront ⟨rest, hrest⟩ hle
  refine ⟨q, ?_, ?_, by rw [hq, ← hpos]; exact hhead⟩
  · refine ⟨rest, ?_⟩
    have : R.firstHead.wire ++ (q ++ rest) = R.firstHead.wire ++ R.afterHead := by
      rw [← append_assoc, hq, hrest, Reply.wire_eq]
    exact append_cancel_left this
  -- the empty line was not there before this read
  have hend : p.buf.length < pos + 4 := by
    by_contra hge
    have := find_of_append hfind (by rw [show CRLFCRLF.length = 4 from rfl]; omega)
    rw [hnone] at this
    cases this
  have := congrArg List.length hq
  rw [length_append, length_append, wire_length] at this
  omega

/-- A parser that has the announced octets of an answer. -/
structure Whole (R : Reply) (p : ResponseParser) (h : Head) : Prop where
  bounded : p.buf.length ≤ kClientMaxRespBytes
  head : p.head = some (R.firstHead.text.length, h)
  seen : Seen R h
  long : R.firstHead.wire.length + h.contentLength ≤ p.buf.length

theorem framed_cases {buf : Bytes} {h} (hmax : buf.length ≤ kClientMaxRespBytes) (hseen : Seen R h)
    (hle : R.firstHead.wire.length ≤ buf.length) :
    (ResponseParser.framed buf R.firstHead.text.length h = .needMore ∧
        Waiting R { buf, head := some (R.firstHead.text.length, h) }) ∨
      (ResponseParser.framed buf R.firstHead.text.length h = .complete ∧
        Whole R { buf, head := some (R.firstHead.text.length, h) } h) := by
  have hlen := wire_length R.firstHead
  unfold ResponseParser.framed
  split
  · next hlong => exact .inr ⟨rfl, hmax, rfl, hseen, by show _ ≤ buf.length; omega⟩
  next hshort =>
  refine .inl ⟨rfl, hmax, nofun, ?_⟩
  intro e h' heq
  cases heq
  exact ⟨rfl, hseen, hle, by show buf.length < _; omega⟩

theorem consume_cases (hw : Waiting R p) (hwire : p.buf ++ data <+: R.wire)
    (hlen : data.length ≤ kClientRecvChunk) :
    (∃ p', p.consume data = (p', .needMore) ∧ p'.buf = p.buf ++ data ∧ Waiting R p') ∨
      (∃ p' h, p.consume data = (p', .complete) ∧ p'.buf = p.buf ++ data ∧ Whole R p' h) ∨
      ∃ p', p.consume data = (p', .error) := by
  unfold ResponseParser.consume
  split
  · exact .inr (.inr ⟨_, rfl⟩)
  next hmax =>
  have hmax' : (p.buf ++ data).length ≤ kClientMaxRespBytes := by
    rw [length_append]
    omega
  cases hhead : p.head with
  | some eh =>
    obtain ⟨e, h⟩ := eh
    obtain ⟨rfl, hseen, hle, -⟩ := hw.short e h hhead
    rcases framed_cases hmax' hseen (by rw [length_append]; omega) with ⟨heq, hmore⟩ | ⟨heq, hdone⟩
    · exact .inl ⟨_, by simp only [heq], rfl, hmore⟩
    · exact .inr (.inl ⟨_, h, by simp only [heq], rfl, hdone⟩)
  | none =>
    simp only
    split
    · next hfind => exact .inl ⟨_, rfl, rfl, ⟨hmax', fun _ => hfind, fun _ _ h => by cases h⟩⟩
    next pos hfind =>
    split
    · exact .inr (.inr ⟨_, rfl⟩)
    next h hp =>
    obtain ⟨rfl, hle, hseen⟩ := seen_of_find (hw.searching hhead) hwire hlen hfind hp
    rcases framed_cases hmax' hseen hle with ⟨heq, hmore⟩ | ⟨heq, hdone⟩
    · exact .inl ⟨_, by simp only [heq], rfl, hmore⟩
    · exact .inr (.inl ⟨_, h, by simp only [heq], rfl, hdone⟩)

/-! ## Fields by name -/

variable {f : FieldLine} {lower : String}

theorem findCi_named (hf : f ∈ h.named lower) (q : Bytes) :
    (findCi (h.wire ++ q) 0 h.text.length (ascii lower ++ [COLON])).isSome := by
  obtain ⟨hmem, hname⟩ := mem_filter.mp hf
  obtain ⟨before, behind, hsplit⟩ := append_of_mem hmem
  have htake : (h.wire ++ q).take h.text.length = h.text := by
    rw [ReplyHead.wire, append_assoc, take_left]
  have hlower : f.name.map toLowerAscii = ascii lower := by simpa [FieldLine.isNamed, ieq] using hname
  have htext : h.text.map toLowerAscii =
      (h.statusLine ++ (before.flatMap fun f => CRLF ++ f.text) ++ CRLF).map toLowerAscii ++
        (ascii lower ++ [COLON]) ++ (f.value ++ behind.flatMap fun f => CRLF ++ f.text).map toLowerAscii := by
    rw [ReplyHead.text, hsplit]
    simp only [flatMap_append, flatMap_cons, FieldLine.text, map_append, map_cons, hlower,
      show toLowerAscii COLON = COLON from rfl, append_assoc, cons_append, nil_append]
  rw [findCi, htake, drop_zero, htext, Option.isSome_map]
  exact find_isSome _ _

theorem parseHead_coded (hcoded : h.named "transfer-encoding" ≠ []) (q : Bytes) :
    parseHead (h.wire ++ q) h.text.length = none := by
  obtain ⟨f, t, hf⟩ := exists_cons_of_ne_nil hcoded
  have hfound := findCi_named (hf ▸ mem_cons_self : f ∈ h.named "transfer-encoding") q
  rw [show ascii "transfer-encoding" ++ [COLON] = ascii "transfer-encoding:" by decide] at hfound
  unfold parseHead
  simp only [hfound, if_true]
  split
  · rfl
  · split <;> rfl

/-! ## Answers that are understood -/

theorem whole_right {h} (hU : Understood R) (hwhole : Whole R p h)
    (hwire : p.buf ++ unread = R.wire) :
    h.status = R.final.code ∧ p.body = R.body ∧ unread = [] := by
  have hlen := congrArg List.length hwire
  rw [Reply.wire_eq, length_append, length_append] at hlen
  have hlong := hwhole.long
  have hmax := hwhole.bounded
  rcases hU h hwhole.seen with ⟨hone, hcl⟩ | ⟨hshort, -⟩ | hbig
  · have hnil : unread = [] := length_eq_zero_iff.mp (by omega)
    have hfirst : R.firstHead = R.final := by rw [Reply.firstHead, hone]; rfl
    have hafter : R.afterHead = R.payload := by rw [Reply.afterHead, hone]
    obtain ⟨q, -, -, hparse⟩ := hwhole.seen
    refine ⟨by rw [parseHead_status hparse, hfirst], ?_, hnil⟩
    have hbody : p.body = R.payload := by
      have hbuf : p.buf = R.firstHead.wire ++ R.payload := by
        rw [← hafter, ← Reply.wire_eq, ← hwire, hnil, append_nil]
      rw [ResponseParser.body, hwhole.head]
      simp only [slice]
      rw [hbuf, ← wire_length, drop_left, Nat.add_sub_cancel_left, hcl, hafter, take_length]
    rw [hbody, Reply.payload]
    have hframed := R.framed
    split
    · next coded hcoded =>
      rw [hcoded] at hframed
      rw [hfirst, parseHead_coded hframed.2] at hparse
      cases hparse
    · rfl
  · omega
  · omega

theorem waiting_end (hU : Understood R) (hw : Waiting R p) (hwire : p.buf = R.wire) : R.closes := by
  cases hhead : p.head with
  | none =>
    have := hw.searching hhead
    rw [hwire, Reply.wire_eq, find_head] at this
    cases this
  | some eh =>
    obtain ⟨e, h⟩ := eh
    obtain ⟨-, hseen, -, hshort⟩ := hw.short e h hhead
    have hmax := hw.bounded
    have hlen := congrArg List.length hwire
    rw [Reply.wire_eq, length_append] at hlen
    rcases hU h hseen with ⟨-, hcl⟩ | ⟨-, hcloses⟩ | hbig
    · omega
    · exact hcloses
    · omega

/-! ## Ordinary answers -/

def Apart (h : ReplyHead) (needle : Bytes) : Prop :=
  find needle (h.statusLine.map toLowerAscii) = none ∧
    ∀ f ∈ h.fields, find needle ((f.text.map toLowerAscii).drop 1) = none

theorem lower_token_ne_colon (h : isTokenChar c) : toLowerAscii c ≠ COLON := by
  have hcolon : isTokenChar COLON = false := by decide +kernel
  intro heq
  unfold toLowerAscii at heq
  split at heq
  · -- a letter comes out as a letter
    have hnat := congrArg UInt8.toNat heq
    simp only [UInt8.le_iff_toNat_le, UInt8.toNat_add, COLON, UInt8.reduceToNat] at *
    omega
  · rw [heq, hcolon] at h
    exact Bool.false_ne_true h

theorem named_iff (hlower : COLON ∉ ascii lower) :
    f.isNamed lower ↔ ascii lower ++ [COLON] <+: f.text.map toLowerAscii := by
  have hname : COLON ∉ f.name.map toLowerAscii := by
    intro hmem
    obtain ⟨c, hc, heq⟩ := mem_map.mp hmem
    exact lower_token_ne_colon (all_eq_true.mp f.name_token c hc) heq
  have htext : f.text.map toLowerAscii = f.name.map toLowerAscii ++ COLON :: f.value.map toLowerAscii := by
    rw [FieldLine.text, map_append, map_cons]
    rfl
  rw [FieldLine.isNamed, ieq, beq_iff_eq, htext]
  constructor
  · intro heq
    rw [heq]
    exact ⟨f.value.map toLowerAscii, by simp⟩
  rintro ⟨t, ht⟩
  rw [append_assoc, singleton_append] at ht
  have htake := congrArg (List.takeWhile (· ≠ COLON)) ht
  have hstop : ∀ {l r : Bytes}, COLON ∉ l → (l ++ COLON :: r).takeWhile (· ≠ COLON) = l := by
    intro l r hl
    have hin : ∀ c ∈ l, decide (c ≠ COLON) := fun c hc =>
      decide_eq_true fun he => hl (he ▸ hc)
    rw [takeWhile_append_of_pos hin]
    simp
  rw [hstop hlower, hstop hname] at htake
  exact htake.symm

def lowered (f : FieldLine) : Bytes := CRLF ++ f.text.map toLowerAscii

theorem find_field (hlower : COLON ∉ ascii lower) (hcr : CR ∉ ascii lower) (hlf : LF ∉ ascii lower)
    {before behind} (hf : f.isNamed lower) (hbefore : ∀ g ∈ before, g.isNamed lower = false)
    (hapart : ∀ g ∈ before, find (ascii lower ++ [COLON]) ((g.text.map toLowerAscii).drop 1) = none) :
    ∀ {line : Bytes}, find (ascii lower ++ [COLON]) line = none →
      find (ascii lower ++ [COLON])
          (line ++ (before ++ f :: behind).flatMap lowered) =
        some (line.length + (before.flatMap lowered).length + 2) := by
  have hcr' : CR ∉ ascii lower ++ [COLON] := by
    rw [mem_append, mem_singleton, not_or]
    exact ⟨hcr, by decide⟩
  have hskip : ∀ l : Bytes, ¬ ascii lower ++ [COLON] <+: LF :: l := by
    intro l hp
    have hmem : LF ∈ ascii lower ++ [COLON] := by
      cases hl : ascii lower ++ [COLON] with
      | nil => simp at hl
      | cons c t => rw [hl, cons_prefix_cons] at hp; exact hp.1 ▸ mem_cons_self
    rcases mem_append.mp hmem with h | h
    · exact hlf h
    · exact absurd (mem_singleton.mp h) (by decide)
  induction before with
  | nil =>
    intro line hline
    have hstart : line ++ ([] ++ f :: behind).flatMap lowered =
        line ++ CR :: LF :: (f.text.map toLowerAscii ++
          behind.flatMap lowered) := by
      simp [CRLF, lowered]
    rw [hstart, find_over hcr' hline, find_cons_of_not (hskip _),
      find_zero (((named_iff hlower).mp hf).trans (prefix_append _ _))]
    simp
    omega
  | cons g before ih =>
    intro line hline
    have hg : find (ascii lower ++ [COLON]) (LF :: g.text.map toLowerAscii) = none := by
      rw [find_cons_of_not (hskip _), Option.map_eq_none_iff]
      obtain ⟨c, u, htext, -⟩ := fieldLine_cons g
      have hnot : ¬ ascii lower ++ [COLON] <+: g.text.map toLowerAscii := by
        rw [← named_iff hlower, hbefore g mem_cons_self]
        decide
      have hrest := hapart g mem_cons_self
      rw [htext, map_cons] at hnot hrest ⊢
      rw [find_cons_of_not hnot, Option.map_eq_none_iff]
      exact hrest
    have hstart : line ++ (g :: before ++ f :: behind).flatMap lowered =
        line ++ CR :: ((LF :: g.text.map toLowerAscii) ++
          (before ++ f :: behind).flatMap lowered) := by
      simp [CRLF, lowered]
    rw [hstart, find_over hcr' hline,
      ih (fun k hk => hbefore k (mem_cons_of_mem _ hk)) (fun k hk => hapart k (mem_cons_of_mem _ hk)) hg]
    simp [CRLF, lowered]
    omega

theorem value_content (f : FieldLine) :
    ∃ front back, f.value = front ++ (f.content ++ back) ∧ (∀ c ∈ front, isCSpace c) ∧
      ∀ c ∈ back, c = SP ∨ c = HTAB := by
  have hblank : ∀ {l : Bytes} {c : UInt8}, c ∈ l.takeWhile (fun c => c = SP ∨ c = HTAB) → c = SP ∨ c = HTAB := by
    intro l c hc
    exact of_decide_eq_true (all_eq_true.mp all_takeWhile c hc)
  set inner := f.value.dropWhile fun c => c = SP ∨ c = HTAB with hinner
  refine ⟨f.value.takeWhile fun c => c = SP ∨ c = HTAB,
    (inner.reverse.takeWhile fun c => c = SP ∨ c = HTAB).reverse, ?_, ?_, ?_⟩
  · rw [FieldLine.content, ← hinner, ← reverse_append, takeWhile_append_dropWhile, reverse_reverse,
      hinner, takeWhile_append_dropWhile]
  · intro c hc
    rcases hblank hc with rfl | rfl <;> decide
  · exact fun c hc => hblank (mem_reverse.mp hc)

theorem announcedLength_field (hone : h.named "content-length" = [f])
    (hapart : Apart h (ascii "content-length:")) (hne : f.content ≠ []) (hdigits : f.content.all isDigit)
    (q : Bytes) :
    announcedLength (h.wire ++ q) h.text.length = min (2 ^ 63 - 1) (decimal f.content : Int) := by
  have hneedle : ascii "content-length" ++ [COLON] = ascii "content-length:" := by
    unfold ascii
    repeat rw [String.toList_ofList]
    rfl
  obtain ⟨before, behind, hsplit, hbefore, hf⟩ :
      ∃ before behind, h.fields = before ++ f :: behind ∧ (∀ g ∈ before, g.isNamed "content-length" = false) ∧
        f.isNamed "content-length" := by
    obtain ⟨before, behind, hsplit, hbefore, hf, -⟩ := filter_eq_cons_iff.mp hone
    exact ⟨before, behind, hsplit, fun g hg => by simpa using hbefore g hg, hf⟩
  have htake : (h.wire ++ q).take h.text.length = h.text := by
    rw [ReplyHead.wire, append_assoc, take_left]
  have htext : h.text.map toLowerAscii = h.statusLine.map toLowerAscii ++
      (before ++ f :: behind).flatMap lowered := by
    rw [ReplyHead.text, hsplit, map_append, map_flatMap]
    congr 1
  have hlower : ∀ l : List FieldLine, (l.flatMap lowered).length =
      (l.flatMap fun g => CRLF ++ g.text).length := by
    intro l
    induction l with
    | nil => rfl
    | cons g l ih => simp only [flatMap_cons, length_append, lowered, length_map, ih]
  have hfind : findCi (h.wire ++ q) 0 h.text.length (ascii "content-length:") =
      some (h.statusLine.length + (before.flatMap fun g => CRLF ++ g.text).length + 2) := by
    have hbetween : ∀ g ∈ before, find (ascii "content-length" ++ [COLON])
        ((g.text.map toLowerAscii).drop 1) = none :=
      fun g hg => by rw [hneedle]; exact hapart.2 g (hsplit ▸ mem_append_left _ hg)
    rw [findCi, htake, drop_zero, htext, ← hneedle, find_field (by decide) (by decide) (by decide) hf
      hbefore hbetween (by rw [hneedle]; exact hapart.1), length_map, hlower, Option.map_some, Nat.zero_add]
  obtain ⟨front, back, hvalue, hfront, hback⟩ := value_content f
  have hname : f.name.length = 14 := by
    have := congrArg List.length (beq_iff_eq.mp hf : f.name.map toLowerAscii = ascii "content-length")
    rwa [length_map] at this
  have hdrop : (h.wire ++ q).drop (h.statusLine.length + (before.flatMap fun g => CRLF ++ g.text).length + 2 + 15) =
      front ++ (f.content ++ (back ++ ((behind.flatMap fun g => CRLF ++ g.text) ++ (CRLFCRLF ++ q)))) := by
    have : h.wire ++ q = (h.statusLine ++ (before.flatMap fun g => CRLF ++ g.text) ++ CRLF ++ f.name ++ [COLON]) ++
        (front ++ (f.content ++ (back ++ ((behind.flatMap fun g => CRLF ++ g.text) ++ (CRLFCRLF ++ q))))) := by
      simp only [ReplyHead.wire, ReplyHead.text, hsplit, flatMap_append, flatMap_cons, FieldLine.text, hvalue,
        append_assoc, cons_append, nil_append]
    rw [this, drop_left']
    simp only [length_append, hname, show CRLF.length = 2 from rfl, length_singleton]
  rw [announcedLength, hfind]
  simp only
  rw [hdrop, atoll, strtoll_digits _ hfront hne (all_eq_true.mp hdigits)]
  intro c hc
  -- a blank, or the end of the line
  cases back with
  | cons b back =>
    cases hc
    rcases hback _ mem_cons_self with rfl | rfl <;> decide
  | nil =>
    cases behind with
    | cons g behind => cases hc; decide
    | nil => cases hc; decide

variable {R : Reply}

theorem understood_of_length (hone : R.interim = []) (hlength : R.framing = .length)
    (hapart : Apart R.final (ascii "content-length:")) : Understood R := by
  rintro h ⟨q, -, -, hparse⟩
  have hfirst : R.firstHead = R.final := by rw [Reply.firstHead, hone]; rfl
  have hafter : R.afterHead = R.body := by rw [Reply.afterHead, hone]; simp only [Reply.payload, hlength]
  have hframed := R.framed
  rw [hlength] at hframed
  obtain ⟨-, -, f, hnamed, hne, hdigits, hvalue⟩ := hframed
  rw [hfirst] at hparse
  have hlen : h.contentLength = min (2 ^ 63 - 1) R.body.length := by
    have hread := announcedLength_field hnamed hapart hne hdigits q
    unfold parseHead at hparse
    simp only [hread, hvalue] at hparse
    repeat split at hparse <;> try cases hparse
    simp only
    omega
  rw [hafter, hlen]
  by_cases hbig : R.body.length ≤ 2 ^ 63 - 1
  · exact .inl ⟨hone, by omega⟩
  · refine .inr (.inr ?_)
    have : kClientMaxRespBytes = 2 ^ 20 := rfl
    omega

end BoltApi.Client.Exchange
