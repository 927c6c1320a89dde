import BoltApi.Multipart.Form

/-! # Parsing an encoded form in pieces

Where the parser is in the body is told by its state, what it has reported and
what is left of the body, in the buffer or not yet received. Each round of the
loop moves it on or finds that octets are missing. -/
namespace BoltApi.Multipart
open Octets Lib.Occurrence List

variable {F : Form} {p : Parser} {unread : Bytes} {evs : List Event}

theorem token_ne {c} (h : isTokenChar c) :
    c ≠ CR ∧ c ≠ COLON ∧ c ≠ SEMICOLON ∧ isBlank c = false := by
  have hall : ∀ d ∈ [CR, COLON, SEMICOLON, SP, HTAB], isTokenChar d = false := by decide +kernel
  have hne : ∀ d ∈ [CR, COLON, SEMICOLON, SP, HTAB], c ≠ d := by
    rintro d hd rfl
    exact Bool.false_ne_true ((hall _ hd).symm.trans h)
  simp only [forall_mem_cons] at hne
  obtain ⟨hcr, hcolon, hsemicolon, hsp, htab, -⟩ := hne
  exact ⟨hcr, hcolon, hsemicolon, by simp [isBlank, hsp, htab]⟩

theorem cr_notMem_delimiter (F : Form) : CR ∉ F.delimiter := by
  intro h
  rcases mem_append.mp h with h | h
  · exact absurd h (by decide)
  · exact (token_ne (all_eq_true.mp F.boundary_token CR h)).1 rfl

theorem length_crlf : CRLF.length = 2 := rfl

theorem length_dashes : DASHES.length = 2 := rfl

variable {rest buffer : Bytes}

theorem drop_front {front : Bytes} (h : buffer ++ unread = front ++ rest)
    (hle : front.length ≤ buffer.length) :
    buffer = front ++ buffer.drop front.length ∧ buffer.drop front.length ++ unread = rest := by
  have htake : buffer.take front.length = front := by
    rw [← take_append_of_le_length hle, h, take_left]
  refine ⟨by conv_rhs => rw [← htake, length_take, Nat.min_eq_left hle, take_append_drop], ?_⟩
  rw [← drop_append_of_le_length hle, h, drop_left]

theorem unread_ne_nil (h : buffer ++ unread = rest) (hlt : buffer.length < rest.length) :
    unread ≠ [] := by
  rintro rfl
  rw [append_nil] at h
  rw [h] at hlt
  exact Nat.lt_irrefl _ hlt

theorem find_cases {word front : Bytes} (h : buffer ++ unread = front ++ (word ++ rest))
    (hfind : find word (buffer ++ unread) = some front.length) :
    (find word buffer = none ∧ buffer.length < front.length + word.length ∧ unread ≠ []) ∨
      (find word buffer = some front.length ∧ front.length + word.length ≤ buffer.length ∧
        buffer.take front.length = front ∧ buffer.drop (front.length + word.length) ++ unread = rest) := by
  have hfront := find_front hfind
  rw [← append_assoc] at h
  rw [← length_append] at hfront ⊢
  by_cases hle : (front ++ word).length ≤ buffer.length
  · rw [if_pos hle] at hfront
    obtain ⟨hbuf, hrest⟩ := drop_front h hle
    refine .inr ⟨hfront, hle, ?_, hrest⟩
    rw [hbuf, append_assoc, take_left]
  rw [if_neg hle] at hfront
  refine .inl ⟨hfront, Nat.not_le.mp hle, unread_ne_nil h ?_⟩
  rw [length_append]
  omega

def setLines (h : PartHeaders) (ls : List HeaderLine) : PartHeaders :=
  ls.foldl (fun h l => setHeader h l.name (trim l.value)) h

def Part.parsed (part : Part) : PartHeaders := setLines noHeaders part.lines

def Part.report (part : Part) : PartHeaders × Bytes := (part.parsed, part.data)

def Form.fromData (F : Form) (data : Bytes) (after : List Part) : Bytes :=
  data ++ (CRLF ++ (F.delimiter ++ F.tail after))

inductive Inside (F : Form) (p : Parser) (unread : Bytes) : List Event → Prop
  | header {before after : List Part} {part : Part} {ls : List HeaderLine} {evs : List Event} :
    F.parts = before ++ part :: after → p.state = .headerName → setLines p.headers ls = part.parsed →
    p.buffer ++ unread = ls.flatMap HeaderLine.wire ++ (CRLF ++ F.fromData part.data after) →
    Reports (before.map Part.report) evs → Inside F p unread evs
  | value {before after : List Part} {part : Part} {l : HeaderLine} {ls : List HeaderLine} {evs : List Event} :
    F.parts = before ++ part :: after → p.state = .headerValue → p.headerName = l.name →
    setLines p.headers (l :: ls) = part.parsed →
    p.buffer ++ unread =
      (SP :: l.value) ++ (CRLF ++ (ls.flatMap HeaderLine.wire ++ (CRLF ++ F.fromData part.data after))) →
    Reports (before.map Part.report) evs → Inside F p unread evs
  | data {before after : List Part} {part : Part} {left : Bytes} {pieces : List Bytes} {evs : List Event} :
    F.parts = before ++ part :: after → p.state = .partData → pieces.flatten ++ left = part.data →
    p.buffer ++ unread = F.fromData left after → Reports (before.map Part.report) evs →
    Inside F p unread (evs ++ .partBegin part.parsed :: pieces.map .partData)
  | boundary {before after : List Part} {evs : List Event} :
    F.parts = before ++ after → p.state = .boundary → F.delimiter.length ≤ p.buffer.length →
    p.buffer ++ unread = F.delimiter ++ F.tail after → Reports (before.map Part.report) evs → Inside F p unread evs

inductive Outcome (F : Form) (p : Parser) (unread : Bytes) (evs : List Event) : Parser × List Event → Prop
  | moved {p' : Parser} {es : List Event} : p'.delimiter = F.delimiter → Inside F p' unread (evs ++ es) →
    p'.buffer.length < p.buffer.length → Outcome F p unread evs (p', es)
  | finished {p' : Parser} {es : List Event} : p'.state = .done →
    Reports (F.parts.map Part.report) (evs ++ es) → Outcome F p unread evs (p', es)
  | waits : unread ≠ [] → Outcome F p unread evs (p, [])

/-! ## Headers -/

theorem colon_notMem_name (l : HeaderLine) : COLON ∉ l.name := fun h =>
  (token_ne (all_eq_true.mp l.name_token COLON h)).2.1 rfl

theorem trim_name (l : HeaderLine) : trim l.name = l.name := by
  have hdrop : ∀ s : Bytes, (∀ c ∈ s, isBlank c = false) → s.dropWhile isBlank = s := by
    intro s hs
    cases s with
    | nil => rfl
    | cons c s => rw [dropWhile_cons_of_neg (by rw [hs c mem_cons_self]; decide)]
  have hname : ∀ c ∈ l.name, isBlank c = false := fun c hc =>
    (token_ne (all_eq_true.mp l.name_token c hc)).2.2.2
  rw [trim, hdrop _ hname, hdrop _ fun c hc => hname c (mem_reverse.mp hc), reverse_reverse]

theorem trim_blank_cons (s : Bytes) : trim (SP :: s) = trim s := by
  rw [trim, trim, dropWhile_cons_of_pos (by decide)]

variable {before after : List Part} {part : Part}

theorem processHeaderName_outcome {ls} (hd : p.delimiter = F.delimiter)
    (hparts : F.parts = before ++ part :: after) (hset : setLines p.headers ls = part.parsed)
    (hleft : p.buffer ++ unread = ls.flatMap HeaderLine.wire ++ (CRLF ++ F.fromData part.data after))
    (hrep : Reports (before.map Part.report) evs) : Outcome F p unread evs p.processHeaderName := by
  unfold Parser.processHeaderName
  cases ls with
  | nil =>
    rw [flatMap_nil, nil_append] at hleft
    rcases Nat.lt_or_ge p.buffer.length 2 with hlt | hge
    · -- at most a CR
      have hnot : ¬ CRLF <+: p.buffer := fun hp => absurd hp.length_le (Nat.not_le.mpr hlt)
      have hfront : p.buffer <+: CRLF :=
        prefix_of_prefix_length_le (hleft ▸ prefix_append _ _) (prefix_append _ _) (Nat.le_of_lt hlt)
      have hcolon : find [COLON] p.buffer = none := by
        have := @find_skip _ _ p.buffer [] COLON [] fun hmem => absurd (hfront.subset hmem) (by decide)
        rwa [append_nil] at this
      rw [if_neg hnot, hcolon]
      simp only
      rw [if_neg (by omega)]
      exact .waits (unread_ne_nil hleft (by rw [length_append, length_crlf]; omega))
    obtain ⟨hbuf, hrest⟩ := drop_front hleft hge
    rw [if_pos ⟨_, hbuf.symm⟩]
    refine .moved hd ?_ (by simp only [length_drop]; omega)
    have hparsed : p.headers = part.parsed := hset
    rw [hparsed]
    exact @Inside.data F _ unread before after part part.data [] evs hparts rfl rfl hrest hrep
  | cons l ls =>
    have hshape : p.buffer ++ unread = l.name ++ ([COLON] ++ ((SP :: l.value) ++
        (CRLF ++ (ls.flatMap HeaderLine.wire ++ (CRLF ++ F.fromData part.data after))))) := by
      rw [hleft, flatMap_cons, HeaderLine.wire]
      simp only [append_assoc, cons_append, nil_append]
    obtain ⟨c, t, hname⟩ := exists_cons_of_ne_nil l.name_ne
    have hcr : ¬ CRLF <+: p.buffer := by
      intro hp
      have := hp.trans (prefix_append p.buffer unread)
      rw [hshape, hname] at this
      have hc := (cons_prefix_cons.mp this).1
      exact (token_ne (all_eq_true.mp l.name_token c (hname ▸ mem_cons_self))).1 hc.symm
    rw [if_neg hcr]
    rcases find_cases hshape (hshape ▸ find_symbol (colon_notMem_name l)) with
      ⟨hnone, hshort, hmore⟩ | ⟨hsome, hle, htake, hrest⟩
    · have := l.name_short
      rw [length_singleton] at hshort
      simp only [hnone]
      rw [if_neg (by omega)]
      exact .waits hmore
    rw [length_singleton] at hle hrest
    simp only [hsome, htake, trim_name]
    exact .moved hd (.value hparts rfl rfl hset hrest (by rw [append_nil]; exact hrep))
      (by simp only [length_drop]; omega)

theorem processHeaderValue_outcome {l : HeaderLine} {ls} (hd : p.delimiter = F.delimiter)
    (hparts : F.parts = before ++ part :: after) (hname : p.headerName = l.name)
    (hset : setLines p.headers (l :: ls) = part.parsed)
    (hleft : p.buffer ++ unread = (SP :: l.value) ++ (CRLF ++ (ls.flatMap HeaderLine.wire ++ (CRLF ++ F.fromData part.data after))))
    (hrep : Reports (before.map Part.report) evs) :
    Outcome F p unread evs p.processHeaderValue := by
  unfold Parser.processHeaderValue
  have hcr : CR ∉ SP :: l.value := by
    rw [mem_cons, not_or]
    exact ⟨by decide, fun h => (l.value_line CR h).1 rfl⟩
  have hfind : find CRLF (p.buffer ++ unread) = some (SP :: l.value).length := by
    rw [hleft]
    have hzero : ∀ r, find [CR, LF] (CRLF ++ r) = some 0 := fun r => find_zero (prefix_append CRLF r)
    change find [CR, LF] _ = _
    rw [find_skip hcr, hzero]
    simp
  rcases find_cases hleft hfind with ⟨hnone, hshort, hmore⟩ | ⟨hsome, hle, htake, hrest⟩
  · have := l.value_short
    rw [length_cons, length_crlf] at hshort
    simp only [hnone]
    rw [if_neg (by omega)]
    exact .waits hmore
  rw [length_crlf] at hle hrest
  simp only [hsome, htake, hname, trim_blank_cons]
  exact .moved hd (.header hparts rfl hset hrest (by rw [append_nil]; exact hrep))
    (by simp only [length_drop]; omega)

/-! ## Delimiters -/

variable {b : Bytes}

theorem tail_cases (h : b ++ unread = F.tail after) :
    (∃ rest, b = DASHES ++ rest ∧ after = []) ∨
      (∃ rest part ps, b = CRLF ++ rest ∧ rest.length + 2 = b.length ∧ after = part :: ps ∧
        rest ++ unread = part.lines.flatMap HeaderLine.wire ++ (CRLF ++ F.fromData part.data ps)) ∨
      (b.length < 2 ∧ unread ≠ []) := by
  rcases Nat.lt_or_ge b.length 2 with hlt | hge
  · refine .inr (.inr ⟨hlt, unread_ne_nil h ?_⟩)
    cases after with
    | nil =>
      rw [Form.tail, length_append, length_dashes]
      omega
    | cons part ps =>
      rw [Form.tail, length_append, length_crlf]
      omega
  cases after with
  | nil =>
    obtain ⟨hb, -⟩ := drop_front h hge
    exact .inl ⟨_, hb, rfl⟩
  | cons part ps =>
    obtain ⟨hb, hrest⟩ := drop_front h hge
    exact .inr (.inl ⟨_, part, ps, hb, by rw [length_drop]; exact Nat.sub_add_cancel hge, rfl, hrest⟩)

theorem inside_beginPart {ps} (hparts : F.parts = before ++ part :: ps)
    (hrep : Reports (before.map Part.report) evs)
    (hleft : rest ++ unread = part.lines.flatMap HeaderLine.wire ++ (CRLF ++ F.fromData part.data ps)) :
    Inside F (p.beginPart rest) unread evs :=
  .header hparts rfl rfl hleft hrep

theorem processBoundary_outcome (hd : p.delimiter = F.delimiter)
    (hparts : F.parts = before ++ after) (hlong : F.delimiter.length ≤ p.buffer.length)
    (hleft : p.buffer ++ unread = F.delimiter ++ F.tail after) (hrep : Reports (before.map Part.report) evs) :
    Outcome F p unread evs p.processBoundary := by
  obtain ⟨hbuf, hrest⟩ := drop_front hleft hlong
  have htwo : 2 ≤ F.delimiter.length := by
    rw [Form.delimiter, length_append, length_dashes]
    omega
  unfold Parser.processBoundary
  rw [if_neg (by omega), hd]
  rcases tail_cases hrest with ⟨rest, hdash, rfl⟩ | ⟨rest, part, ps, hcrlf, hless, rfl, hwire⟩ | ⟨hshort, hmore⟩
  · have hend : F.delimiter ++ DASHES <+: p.buffer := by
      rw [hbuf, hdash]
      exact ⟨rest, by rw [append_assoc]⟩
    rw [if_pos hend]
    rw [append_nil] at hparts
    exact .finished rfl (by rw [hparts, append_nil]; exact hrep)
  · have hnot : ¬ F.delimiter ++ DASHES <+: p.buffer := by
      rw [hbuf, hcrlf, prefix_append_right_inj]
      intro hp
      exact absurd (cons_prefix_cons.mp hp).1 (by decide)
    rw [if_neg hnot, if_pos ⟨_, hbuf.symm⟩, hcrlf]
    change Outcome F p unread evs (p.beginPart rest, [])
    refine .moved hd (inside_beginPart hparts (by rw [append_nil]; exact hrep) hwire) ?_
    rw [length_drop] at hless
    show rest.length < p.buffer.length
    omega
  have hnot : ¬ F.delimiter ++ DASHES <+: p.buffer := by
    intro hp
    have := hp.length_le
    rw [length_append, length_dashes] at this
    rw [length_drop] at hshort
    omega
  rw [if_neg hnot, if_pos ⟨_, hbuf.symm⟩]
  match p.buffer.drop F.delimiter.length, hshort with
  | [], _ => exact .waits hmore
  | [_], _ => exact .waits hmore

/-! ## Data -/

variable {pieces : List Bytes}

theorem reports_part {left} (hrep : Reports (before.map Part.report) evs)
    (hdata : pieces.flatten ++ left = part.data) : Reports ((before ++ [part]).map Part.report)
      ((evs ++ .partBegin part.parsed :: pieces.map .partData) ++ (Parser.emitData left ++ [.partEnd])) := by
  have hlast : Reports [part.report]
      (.partBegin part.parsed :: ((pieces ++ if left = [] then [] else [left]).map .partData ++ [.partEnd])) := by
    have hflat : (pieces ++ if left = [] then [] else [left]).flatten = part.data := by
      rw [← hdata, flatten_append]
      split
      · next hnil => rw [hnil]; rfl
      · simp
    have := Reports.part part.parsed (pieces ++ if left = [] then [] else [left]) .nil
    rwa [hflat] at this
  have hall := hrep.append hlast
  rw [map_append]
  refine Eq.subst (motive := Reports _) ?_ hall
  unfold Parser.emitData
  split <;> simp

theorem processPartData_outcome {left} (hd : p.delimiter = F.delimiter)
    (hstate : p.state = .partData) (hparts : F.parts = before ++ part :: after)
    (hdata : pieces.flatten ++ left = part.data)
    (hleft : p.buffer ++ unread = F.fromData left after)
    (hrep : Reports (before.map Part.report) evs) :
    Outcome F p unread (evs ++ .partBegin part.parsed :: pieces.map .partData) p.processPartData := by
  obtain ⟨delimiter, state, headers, headerName, buffer⟩ := p
  simp only at hd hstate hleft
  subst hd hstate
  have hparts' : F.parts = (before ++ [part]) ++ after := by rw [hparts, append_assoc]; rfl
  have hdone := reports_part hrep hdata
  have hclear : find (CRLF ++ F.delimiter) left = none := by
    have hmem : part ∈ F.parts := by rw [hparts]; exact mem_append_right _ mem_cons_self
    have hall := F.data_clear part hmem
    rw [← hdata] at hall
    refine find_eq_none_iff.mpr fun i hi hp => ?_
    refine find_eq_none_iff.mp hall (pieces.flatten.length + i) (by rw [length_append]; omega) ?_
    rwa [← drop_drop, drop_left]
  have hshape : buffer ++ unread = left ++ ((CRLF ++ F.delimiter) ++ F.tail after) := by
    rw [hleft, Form.fromData, append_assoc]
  have hfind : find (CRLF ++ F.delimiter) (buffer ++ unread) = some left.length := by
    have hcr : CR ∉ LF :: F.delimiter := by
      rw [mem_cons, not_or]
      exact ⟨by decide, cr_notMem_delimiter F⟩
    rw [hshape]
    exact find_behind hcr hclear
  have hlen : (CRLF ++ F.delimiter).length = F.delimiter.length + 2 := by
    rw [length_append, length_crlf, Nat.add_comm]
  unfold Parser.processPartData
  simp only
  rcases find_cases hshape hfind with ⟨hnone, hshort, hmore⟩ | ⟨hsome, hle, htake, hrest⟩
  · rw [hnone]
    simp only
    rw [hlen] at hshort ⊢
    rcases Nat.eq_zero_or_pos (buffer.length - (F.delimiter.length + 2)) with hzero | hpos
    · rw [hzero]
      exact .waits hmore
    -- the octets that no delimiter can begin in are data
    set safe := buffer.length - (F.delimiter.length + 2) with hsafe
    have hle : safe ≤ left.length := by omega
    have htake : buffer.take safe = left.take safe := by
      have hfront : (buffer ++ unread).take safe = buffer.take safe :=
        take_append_of_le_length (by omega)
      rw [← hfront, hshape, take_append_of_le_length hle]
    have hdrop : buffer.drop safe ++ unread = F.fromData (left.drop safe) after := by
      rw [← drop_append_of_le_length (by omega), hshape, drop_append_of_le_length hle, Form.fromData,
        append_assoc]
    have hne : left.take safe ≠ [] := by
      intro hnil
      have := congrArg List.length hnil
      rw [length_take, length_nil] at this
      omega
    rw [htake, Parser.emitData, if_neg hne]
    refine .moved rfl ?_ (by simp only [length_drop]; omega)
    have hin := @Inside.data F ⟨F.delimiter, .partData, headers, headerName, buffer.drop safe⟩ unread before after
      part (left.drop safe) (pieces ++ [left.take safe]) evs hparts rfl ?_ hdrop hrep
    · rw [map_append, ← cons_append, ← append_assoc] at hin
      exact hin
    · rw [flatten_append, flatten_singleton, append_assoc, take_append_drop, hdata]
  rw [hsome]
  simp only
  rw [htake]
  rw [hlen] at hle
  rcases tail_cases hrest with ⟨rest, hdash, rfl⟩ | ⟨rest, next, ps, hcrlf, hless, rfl, hwire⟩ | ⟨hshort, hmore⟩
  · rw [hdash]
    rw [append_nil] at hparts'
    exact .finished rfl (by rw [hparts']; exact hdone)
  · rw [hcrlf]
    refine .moved rfl (inside_beginPart hparts' hdone hwire) ?_
    rw [length_drop] at hless
    show List.length rest < List.length buffer
    omega
  -- the octets that tell what follows are missing
  have hcut : buffer ++ unread = (left ++ CRLF) ++ (F.delimiter ++ F.tail after) := by
    rw [hshape]
    simp only [append_assoc]
  have hfront : (left ++ CRLF).length = left.length + 2 := length_append
  obtain ⟨-, hcut⟩ := drop_front hcut (by omega)
  rw [hfront] at hcut
  have hin : Inside F ⟨F.delimiter, .boundary, headers, headerName, buffer.drop (left.length + 2)⟩ unread
      ((evs ++ .partBegin part.parsed :: pieces.map .partData) ++ (Parser.emitData left ++ [.partEnd])) :=
    .boundary hparts' rfl (by simp only [length_drop]; omega) hcut hdone
  have hless : (buffer.drop (left.length + 2)).length < buffer.length := by
    rw [length_drop]
    omega
  generalize buffer.drop (left.length + (CRLF ++ F.delimiter).length) = q at hshort ⊢
  rcases q with _ | ⟨_, _ | _⟩
  · exact .moved rfl hin hless
  · exact .moved rfl hin hless
  · simp only [length_cons] at hshort
    omega

theorem process_outcome (hd : p.delimiter = F.delimiter) (h : Inside F p unread evs) :
    Outcome F p unread evs p.process := by
  unfold Parser.process
  cases h with
  | header hparts hstate hset hleft hrep =>
    rw [hstate]
    exact processHeaderName_outcome hd hparts hset hleft hrep
  | value hparts hstate hname hset hleft hrep =>
    rw [hstate]
    exact processHeaderValue_outcome hd hparts hname hset hleft hrep
  | data hparts hstate hdata hleft hrep =>
    rw [hstate]
    exact processPartData_outcome hd hstate hparts hdata hleft hrep
  | boundary hparts hstate hlong hleft hrep =>
    rw [hstate]
    exact processBoundary_outcome hd hparts hlong hleft hrep

/-! ## The loop -/

theorem Inside.running (h : Inside F p unread evs) : p.state ≠ .done ∧ p.state ≠ .error ∧ p.state ≠ .start := by
  cases h with
  | header _ hstate => rw [hstate]; decide
  | value _ hstate => rw [hstate]; decide
  | data _ hstate => rw [hstate]; decide
  | boundary _ hstate => rw [hstate]; decide

theorem loop_stopped (fuel : Nat) (h : p.state = .done ∨ p.state = .error) : p.loop fuel = (p, []) := by
  cases fuel with
  | zero => rfl
  | succ fuel => rw [Parser.loop, if_pos h]

theorem loop_inside {fuel} (hd : p.delimiter = F.delimiter) (h : Inside F p unread evs)
    (hfuel : p.buffer.length < fuel) :
    ((p.loop fuel).1.state = .done ∧ Reports (F.parts.map Part.report) (evs ++ (p.loop fuel).2)) ∨
      ((p.loop fuel).1.delimiter = F.delimiter ∧ Inside F (p.loop fuel).1 unread (evs ++ (p.loop fuel).2) ∧
        unread ≠ []) := by
  induction fuel generalizing p evs with
  | zero => exact absurd hfuel (Nat.not_lt_zero _)
  | succ fuel ih =>
    obtain ⟨hdone, herror, -⟩ := h.running
    have hout := process_outcome hd h
    rw [Parser.loop, if_neg (not_or.mpr ⟨hdone, herror⟩)]
    generalize p.process = r at hout ⊢
    cases hout with
    | @moved p' es hd' hin hless =>
      simp only
      rw [if_neg fun hsame => Nat.ne_of_lt hless hsame.2]
      have hnext := ih hd' hin (by omega)
      rw [append_assoc] at hnext
      exact hnext
    | @finished p' es hstate hrep =>
      simp only
      have hmoved : ¬ (p'.state = p.state ∧ p'.buffer.length = p.buffer.length) := by
        intro hsame
        exact hdone (hsame.1.symm.trans hstate)
      rw [if_neg hmoved, loop_stopped fuel (.inl hstate)]
      exact .inl ⟨hstate, by rw [append_nil]; exact hrep⟩
    | waits hmore =>
      simp only [and_self, if_true]
      exact .inr ⟨hd, by rw [append_nil]; exact h, hmore⟩

theorem parseAll_stopped (h : p.state = .done ∨ p.state = .error) (pieces : List Bytes) :
    (p.parseAll pieces).1.state = p.state ∧ (p.parseAll pieces).2 = [] := by
  induction pieces generalizing p with
  | nil => exact ⟨rfl, rfl⟩
  | cons piece pieces ih =>
    have hparse : p.parse piece = ({ p with buffer := p.buffer ++ piece }, []) := by
      unfold Parser.parse
      exact loop_stopped _ h
    rw [Parser.parseAll, hparse]
    exact ih (p := { p with buffer := p.buffer ++ piece }) h

theorem Inside.receive {piece} (h : Inside F p (piece ++ unread) evs) :
    Inside F { p with buffer := p.buffer ++ piece } unread evs := by
  cases h with
  | header hparts hstate hset hleft hrep =>
    exact .header hparts hstate hset (by rw [← hleft, append_assoc]) hrep
  | value hparts hstate hname hset hleft hrep =>
    exact .value hparts hstate hname hset (by rw [← hleft, append_assoc]) hrep
  | data hparts hstate hdata hleft hrep =>
    exact .data hparts hstate hdata (by rw [← hleft, append_assoc]) hrep
  | boundary hparts hstate hlong hleft hrep =>
    exact .boundary hparts hstate (by simp only [length_append]; omega) (by rw [← hleft, append_assoc]) hrep

theorem parseAll_inside (hd : p.delimiter = F.delimiter)
    (h : Inside F p pieces.flatten evs) (hmore : pieces.flatten ≠ []) :
    (p.parseAll pieces).1.state = .done ∧ Reports (F.parts.map Part.report) (evs ++ (p.parseAll pieces).2) := by
  induction pieces generalizing p evs with
  | nil => exact absurd rfl hmore
  | cons piece pieces ih =>
    rw [flatten_cons] at h
    rw [Parser.parseAll, Parser.parse]
    have hloop := loop_inside (p := { p with buffer := p.buffer ++ piece }) hd h.receive (Nat.lt_succ_self _)
    simp only
    generalize Parser.loop _ _ = r at hloop ⊢
    rcases hloop with ⟨hdone, hrep⟩ | ⟨hd', hin, hmore'⟩
    · obtain ⟨hstate, hnone⟩ := parseAll_stopped (.inl hdone) pieces
      rw [hstate, hnone]
      exact ⟨hdone, by rw [append_nil]; exact hrep⟩
    · obtain ⟨hstate, hrep⟩ := ih hd' hin hmore'
      exact ⟨hstate, by rw [← append_assoc]; exact hrep⟩

/-! ## The start -/

theorem delimiter_cons (F : Form) : F.delimiter = 0x2D :: (0x2D :: F.boundary) := rfl

theorem find_delimiter {t} (ht : find F.delimiter t = none) :
    find F.delimiter (t ++ (CRLF ++ (F.delimiter ++ rest))) = some (t.length + 2) := by
  have hskip : ¬ F.delimiter <+: LF :: (F.delimiter ++ rest) := by
    rw [delimiter_cons]
    intro hp
    exact absurd (cons_prefix_cons.mp hp).1 (by decide)
  change find F.delimiter (t ++ CR :: (LF :: (F.delimiter ++ rest))) = _
  rw [find_over (cr_notMem_delimiter F) ht, find_cons_of_not hskip, find_zero (prefix_append _ _)]
  simp
  omega

theorem skip_le_two (b : Bytes) : Parser.skip b = 0 ∨ (CRLF <+: b ∧ Parser.skip b = 2) := by
  unfold Parser.skip
  split
  · next h => exact .inr ⟨h, rfl⟩
  · exact .inl rfl

theorem find_first (h : b ++ unread = F.body) :
    Parser.skip b ≤ F.opening.length ∧ Parser.skip b ≤ b.length ∧
      find F.delimiter (F.body.drop (Parser.skip b)) = some (F.opening.length - Parser.skip b) := by
  have hbody : F.body = F.opening ++ (F.delimiter ++ F.tail F.parts) := rfl
  have hplain : find F.delimiter F.body = some F.opening.length := by
    rw [hbody, Form.opening]
    cases hpre : F.preamble with
    | none => exact find_zero (prefix_append _ _)
    | some t =>
      simp only [append_assoc, length_append, length_crlf]
      exact find_delimiter (F.preamble_clear t hpre)
  rcases skip_le_two b with hskip | ⟨hcrlf, hskip⟩
  · rw [hskip]
    exact ⟨Nat.zero_le _, Nat.zero_le _, by rw [drop_zero, Nat.sub_zero]; exact hplain⟩
  rw [hskip]
  have hstart : CRLF <+: F.body := hcrlf.trans (h ▸ prefix_append _ _)
  rw [hbody, Form.opening] at hstart
  obtain ⟨t, hpre⟩ : ∃ t, F.preamble = some t := by
    cases hpre : F.preamble with
    | none =>
      rw [hpre] at hstart
      exact absurd (cons_prefix_cons.mp hstart).1 (by decide)
    | some t => exact ⟨t, rfl⟩
  rw [hpre] at hstart
  have hlen : F.opening.length = t.length + 2 := by
    simp only [Form.opening, hpre, length_append, length_crlf]
  have hdrop : F.body.drop 2 = (t ++ CRLF).drop 2 ++ (F.delimiter ++ F.tail F.parts) := by
    rw [hbody, Form.opening, hpre]
    exact drop_append_of_le_length (by rw [length_append, length_crlf]; omega)
  refine ⟨by omega, hcrlf.length_le, ?_⟩
  rw [hdrop, hlen]
  have hclear := F.preamble_clear t hpre
  rcases t with _ | ⟨a, _ | ⟨c, t'⟩⟩
  · exact find_zero (prefix_append _ _)
  · -- a CR in front of the line end is no line end
    have := cons_prefix_cons.mp (cons_prefix_cons.mp hstart).2
    exact absurd this.1 (by decide)
  have hclear' : find F.delimiter t' = none :=
    find_eq_none_iff.mpr fun i hi => find_eq_none_iff.mp hclear (i + 2) (by simp only [length_cons]; omega)
  change find F.delimiter ((t' ++ CRLF) ++ (F.delimiter ++ F.tail F.parts)) = _
  rw [append_assoc, find_delimiter hclear']
  simp

theorem processStart_cases (hd : p.delimiter = F.delimiter) (hleft : p.buffer ++ unread = F.body) :
    (tooLong F.delimiter p.buffer ∧ p.processStart.1.state = .error) ∨
      (tooLong F.delimiter p.buffer = false ∧ p.processStart = (p, []) ∧ unread ≠ []) ∨
      ∃ rest, p.processStart = (p.beginPart rest, []) ∧ Inside F (p.beginPart rest) unread [] ∧
        rest.length < p.buffer.length ∧ 2 ≤ p.buffer.length ∧
        find F.delimiter (p.buffer.drop (Parser.skip p.buffer)) ≠ none := by
  obtain ⟨hopen, hbuf, hfind⟩ := find_first hleft
  rw [← hleft, drop_append_of_le_length hbuf] at hfind
  have hbody : F.body = (F.opening ++ F.delimiter) ++ F.tail F.parts := (append_assoc _ _ _).symm
  have hfront := find_front hfind
  rw [length_drop] at hfront
  unfold Parser.processStart tooLong
  rw [hd, hfront]
  by_cases hle : F.opening.length + F.delimiter.length ≤ p.buffer.length
  · rw [if_pos (by omega)]
    simp only [reduceCtorEq, false_and, decide_false, Bool.false_eq_true, false_or, true_and]
    obtain ⟨-, hrest⟩ := drop_front (hleft.trans hbody) (by rw [length_append]; exact hle)
    have hpos : Parser.skip p.buffer + (F.opening.length - Parser.skip p.buffer) + F.delimiter.length =
        (F.opening ++ F.delimiter).length := by
      rw [length_append]
      omega
    rw [hpos]
    rcases tail_cases hrest with ⟨rest, -, hnil⟩ | ⟨rest, part, ps, hcrlf, hless, hparts, hwire⟩ | ⟨hshort, hmore⟩
    · exact absurd hnil F.parts_ne
    · refine .inr ⟨rest, by rw [hcrlf]; rfl, inside_beginPart (show _ = [] ++ _ from hparts) .nil hwire, ?_, ?_, nofun⟩
      all_goals
        rw [length_drop] at hless
        omega
    refine .inl ⟨?_, hmore⟩
    match p.buffer.drop (F.opening ++ F.delimiter).length, hshort with
    | [], _ => rfl
    | [_], _ => rfl
  rw [if_neg (by omega)]
  simp only [true_and]
  have hmore : unread ≠ [] := unread_ne_nil (hleft.trans hbody) (by simp only [length_append]; omega)
  by_cases hlong : F.delimiter.length * 2 + Parser.skip p.buffer < p.buffer.length
  · rw [if_pos hlong]
    exact .inl ⟨decide_eq_true hlong, rfl⟩
  · rw [if_neg hlong]
    exact .inr (.inl ⟨decide_eq_false hlong, rfl, hmore⟩)

theorem tooLong_append {d x} (hb : 2 ≤ b.length) (h : find d (b.drop (Parser.skip b)) ≠ none) :
    tooLong d (b ++ x) = false := by
  have hskip : Parser.skip (b ++ x) = Parser.skip b := by
    unfold Parser.skip
    have : CRLF <+: b ++ x ↔ CRLF <+: b := by
      constructor
      · exact fun hp => prefix_of_prefix_length_le hp (prefix_append _ _) hb
      · exact fun hp => hp.trans (prefix_append _ _)
    simp only [this]
  have hle : Parser.skip b ≤ b.length := by
    rcases skip_le_two b with h | ⟨-, h⟩ <;> omega
  obtain ⟨i, hi⟩ := Option.ne_none_iff_exists'.mp h
  unfold tooLong
  rw [hskip, drop_append_of_le_length hle, find_append hi]
  simp

theorem parse_start {piece} (hd : p.delimiter = F.delimiter) (hstate : p.state = .start)
    (hleft : p.buffer ++ piece ++ unread = F.body) :
    (tooLong F.delimiter (p.buffer ++ piece) ∧ (p.parse piece).1.state = .error) ∨
      (tooLong F.delimiter (p.buffer ++ piece) = false ∧
        p.parse piece = ({ p with buffer := p.buffer ++ piece }, []) ∧ unread ≠ []) ∨
      ((∀ x, tooLong F.delimiter (p.buffer ++ piece ++ x) = false) ∧
        (((p.parse piece).1.state = .done ∧ Reports (F.parts.map Part.report) (p.parse piece).2) ∨
          ((p.parse piece).1.delimiter = F.delimiter ∧ Inside F (p.parse piece).1 unread (p.parse piece).2 ∧
            unread ≠ []))) := by
  rw [Parser.parse]
  set q : Parser := { p with buffer := p.buffer ++ piece } with hq
  have hqstate : q.state = .start := hstate
  have hrun : ¬ (q.state = .done ∨ q.state = .error) := by rw [hqstate]; decide
  have hprocess : q.process = q.processStart := by rw [Parser.process, hqstate]
  rcases processStart_cases (p := q) hd hleft with ⟨hlong, herror⟩ | ⟨hshort, hwaits, hmore⟩ |
    ⟨rest, hbegin, hin, hless, htwo, hfound⟩
  · refine .inl ⟨hlong, ?_⟩
    rw [Parser.loop, if_neg hrun, hprocess]
    generalize q.processStart = r at herror ⊢
    simp only
    rw [if_neg (by rw [herror, hqstate]; nofun), loop_stopped _ (.inr herror)]
    exact herror
  · refine .inr (.inl ⟨hshort, ?_, hmore⟩)
    rw [Parser.loop, if_neg hrun, hprocess, hwaits]
    simp
  have hloop : q.loop (q.buffer.length + 1) = (q.beginPart rest).loop q.buffer.length := by
    rw [Parser.loop, if_neg hrun, hprocess, hbegin]
    simp only [nil_append]
    rw [if_neg fun hsame => Nat.ne_of_lt hless hsame.2]
  refine .inr (.inr ⟨fun x => tooLong_append htwo hfound, ?_⟩)
  have hafter := loop_inside (p := q.beginPart rest) hd hin hless
  rw [nil_append] at hafter
  rw [hloop]
  exact hafter

theorem parseAll_start (hd : p.delimiter = F.delimiter) (hstate : p.state = .start)
    (hleft : p.buffer ++ pieces.flatten = F.body) (hroom : tooLong F.delimiter p.buffer = false)
    (hmore : pieces.flatten ≠ []) :
    ((∀ front back, pieces = front ++ back → tooLong F.delimiter (p.buffer ++ front.flatten) = false) ∧
        (p.parseAll pieces).1.state = .done ∧ Reports (F.parts.map Part.report) (p.parseAll pieces).2) ∨
      ((∃ front back, pieces = front ++ back ∧ tooLong F.delimiter (p.buffer ++ front.flatten)) ∧
        (p.parseAll pieces).1.state = .error) := by
  induction pieces generalizing p with
  | nil => exact absurd rfl hmore
  | cons piece pieces ih =>
    rw [flatten_cons, ← append_assoc] at hleft
    rw [Parser.parseAll]
    have hfronts : (∀ front back, pieces = front ++ back →
          tooLong F.delimiter (p.buffer ++ piece ++ front.flatten) = false) →
        ∀ front back, piece :: pieces = front ++ back → tooLong F.delimiter (p.buffer ++ front.flatten) = false := by
      intro hroom' front back hsplit
      cases front with
      | nil => rw [flatten_nil, append_nil]; exact hroom
      | cons x front =>
        obtain ⟨rfl, htail⟩ := List.cons.inj hsplit
        rw [flatten_cons, ← append_assoc]
        exact hroom' front back htail
    rcases parse_start hd hstate hleft with ⟨hlong, herror⟩ | ⟨hshort, hwaits, hmore'⟩ | ⟨hroom', hafter⟩
    · refine .inr ⟨⟨[piece], pieces, rfl, by rw [flatten_singleton]; exact hlong⟩, ?_⟩
      exact (parseAll_stopped (.inr herror) pieces).1.trans herror
    · rw [hwaits]
      rcases ih (p := { p with buffer := p.buffer ++ piece }) hd hstate hleft hshort hmore' with
        ⟨hroom', hdone⟩ | ⟨⟨front, back, hsplit, hlong⟩, herror⟩
      · exact .inl ⟨hfronts hroom', hdone⟩
      · refine .inr ⟨⟨piece :: front, back, by rw [hsplit]; rfl, ?_⟩, herror⟩
        rw [flatten_cons, ← append_assoc]
        exact hlong
    refine .inl ⟨hfronts fun front back _ => hroom' _, ?_⟩
    generalize p.parse piece = r at hafter ⊢
    rcases hafter with ⟨hdone, hrep⟩ | ⟨hd', hin', hmore'⟩
    · obtain ⟨hst, hnone⟩ := parseAll_stopped (.inl hdone) pieces
      simp only [hst, hnone, append_nil]
      exact ⟨hdone, hrep⟩
    · exact parseAll_inside hd' hin' hmore'

end BoltApi.Multipart
