import BoltApi.Multipart.Parsing

/-! # What a form is delivered as

The parser cuts a disposition at every semicolon, also at one inside quotes, and
waits for the first delimiter in a short buffer only. `MultipartFormData` does
not look whether the closing delimiter came. The theorem says for which forms
and which cuts that does no harm. -/
namespace BoltApi.Multipart
open Octets Lib.Occurrence List

variable {F : Form} {h : PartHeaders}

/-! ## Dispositions -/

theorem mem_trim {c s} (hc : c ∈ trim s) : c ∈ s := by
  unfold trim at hc
  exact (dropWhile_sublist _).mem (mem_reverse.mp ((dropWhile_sublist _).mem (mem_reverse.mp hc)))

theorem mem_paramValue {c s} (hc : c ∈ paramValue s) : c ∈ s := by
  unfold paramValue at hc
  split at hc
  · next d r hdrop =>
    have hmem : ∀ x ∈ d :: r, x ∈ s := fun x hx => (dropWhile_sublist _).mem (hdrop ▸ hx)
    split at hc
    · exact hmem c (mem_cons_of_mem _ ((takeWhile_sublist _).mem hc))
    · exact hmem c (mem_trim hc)
  · exact absurd (mem_trim hc) not_mem_nil

def PartHeaders.Plain (h : PartHeaders) : Prop := SEMICOLON ∉ h.name ∧ SEMICOLON ∉ h.filename

theorem setParam_plain {param} (hh : h.Plain) (hparam : SEMICOLON ∉ param) :
    (setParam h param).Plain := by
  unfold setParam
  split
  · exact hh
  next eq _ =>
  have hvalue : SEMICOLON ∉ paramValue (param.drop (eq + 1)) := fun hc =>
    hparam (mem_of_mem_drop (mem_paramValue hc))
  simp only
  split
  · exact ⟨hvalue, hh.2⟩
  · split
    · exact ⟨hh.1, hvalue⟩
    · exact hh

theorem setParams_plain (fuel : Nat) {s} (hh : h.Plain) : (setParams fuel h s).Plain := by
  induction fuel generalizing h s with
  | zero => exact hh
  | succ fuel ih =>
    rw [setParams]
    split
    · exact hh
    · refine ih (setParam_plain hh fun hc => ?_)
      have := all_eq_true.mp all_takeWhile _ hc
      simp at this

theorem parseContentDisposition_plain (value : Bytes) : (parseContentDisposition h value).Plain := by
  unfold parseContentDisposition
  have hnone : ({ h with name := [], filename := [] } : PartHeaders).Plain := ⟨not_mem_nil, not_mem_nil⟩
  simp only
  split
  · exact hnone
  · exact setParams_plain _ hnone

theorem setParams_quoted (fuel : Nat) {key value rest}
    (hkey : ∀ c ∈ key, c ≠ EQUALS ∧ c ≠ SEMICOLON)
    (hblank : ∀ c, key.head? = some c → isBlank c = false) (hne : key ≠ []) (hquote : QUOTE ∉ value)
    (hsemi : SEMICOLON ∉ value) (hrest : rest = [] ∨ ∃ r, rest = SEMICOLON :: r) :
    setParams (fuel + 1) h (SP :: (key ++ EQUALS :: QUOTE :: (value ++ QUOTE :: rest))) =
      setParams fuel
        (if trim key = ascii "name" then { h with name := value }
          else if trim key = ascii "filename" then { h with filename := value } else h) (rest.drop 1) := by
  have hstart : (SP :: (key ++ EQUALS :: QUOTE :: (value ++ QUOTE :: rest))).dropWhile isBlank =
      key ++ EQUALS :: QUOTE :: (value ++ QUOTE :: rest) := by
    rw [dropWhile_cons_of_pos (by decide)]
    obtain ⟨c, t, rfl⟩ := exists_cons_of_ne_nil hne
    rw [cons_append, dropWhile_cons_of_neg (by rw [hblank c rfl]; decide)]
  set param := key ++ EQUALS :: QUOTE :: (value ++ [QUOTE]) with hparam
  have hall : ∀ c ∈ param, decide (c ≠ SEMICOLON) := by
    intro c hc
    refine decide_eq_true ?_
    rcases mem_append.mp hc with hc | hc
    · exact (hkey c hc).2
    rcases mem_cons.mp hc with rfl | hc
    · decide
    rcases mem_cons.mp hc with rfl | hc
    · decide
    rcases mem_append.mp hc with hc | hc
    · exact fun he => hsemi (he ▸ hc)
    · rw [mem_singleton.mp hc]
      decide
  have hsplit : key ++ EQUALS :: QUOTE :: (value ++ QUOTE :: rest) = param ++ rest := by
    simp [hparam]
  have htake : (param ++ rest).takeWhile (fun c => decide (c ≠ SEMICOLON)) = param := by
    rw [takeWhile_append_of_pos hall]
    rcases hrest with rfl | ⟨r, rfl⟩ <;> simp
  have hdrop : (param ++ rest).dropWhile (fun c => decide (c ≠ SEMICOLON)) = rest := by
    rw [dropWhile_append_of_pos hall]
    rcases hrest with rfl | ⟨r, rfl⟩ <;> simp
  have hset : setParam h param = if trim key = ascii "name" then { h with name := value }
      else if trim key = ascii "filename" then { h with filename := value } else h := by
    have hfind : find [EQUALS] param = some key.length := find_symbol fun hc => (hkey EQUALS hc).1 rfl
    have hvalue : paramValue (QUOTE :: (value ++ [QUOTE])) = value := by
      have hin : ∀ c ∈ value, decide (c ≠ QUOTE) := fun c hc => decide_eq_true fun he => hquote (he ▸ hc)
      unfold paramValue
      rw [dropWhile_cons_of_neg (by decide)]
      simp only [if_true]
      rw [takeWhile_append_of_pos hin]
      simp
    unfold setParam
    rw [hfind]
    simp only
    rw [hparam, take_left, ← drop_drop, drop_left, drop_one, tail_cons, hvalue]
  rw [setParams, hstart, if_neg (by simp), hsplit, htake, hdrop, hset]

theorem parseContentDisposition_quoted {name filename} (hname : Quotable name)
    (hfile : Quotable filename) (hn : SEMICOLON ∉ name) (hf : SEMICOLON ∉ filename) :
    parseContentDisposition h (disposition name filename) = { h with name, filename } := by
  have hfind : find [SEMICOLON] (disposition name filename) = some 9 := by
    have : disposition name filename = ascii "form-data" ++ (SEMICOLON :: (SP :: (ascii "name" ++ EQUALS :: QUOTE ::
        (name ++ QUOTE :: (if filename = [] then [] else ascii "; filename=\"" ++ (filename ++ [QUOTE])))))) := by
      rw [disposition]
      rfl
    rw [this, find_symbol (by decide)]
    rfl
  have hdrop : (disposition name filename).drop 10 = SP :: (ascii "name" ++ EQUALS :: QUOTE ::
      (name ++ QUOTE :: (if filename = [] then [] else ascii "; filename=\"" ++ (filename ++ [QUOTE])))) := rfl
  have hlen : ∃ fuel, (disposition name filename).length = fuel + 3 := by
    refine ⟨(disposition name filename).length - 3, ?_⟩
    have : 17 ≤ (disposition name filename).length := by
      rw [disposition, length_append]
      exact Nat.le_add_right _ _
    omega
  obtain ⟨fuel, hfuel⟩ := hlen
  unfold parseContentDisposition
  rw [hfind]
  simp only
  rw [hfuel, hdrop, setParams_quoted (fuel + 2) (by decide +kernel) (by decide +kernel) (by decide) (fun hc => (hname _ hc).1 rfl) hn
    (by split; exact .inl rfl; exact .inr ⟨_, rfl⟩), if_pos (by decide)]
  split
  · next hnil =>
    rw [hnil, drop_nil, setParams]
    rfl
  next hne =>
  have hrest : (ascii "; filename=\"" ++ (filename ++ [QUOTE])).drop 1 =
      SP :: (ascii "filename" ++ EQUALS :: QUOTE :: (filename ++ QUOTE :: [])) := rfl
  rw [hrest, setParams_quoted (fuel + 1) (by decide +kernel) (by decide +kernel) (by decide) (fun hc => (hfile _ hc).1 rfl) hf
    (.inl rfl), if_neg (by decide), if_pos (by decide), drop_nil, setParams]
  rfl

/-! ## Headers of a part -/

theorem trim_value (l : HeaderLine) : trim l.value = l.value := by
  rcases eq_nil_or_concat l.value with h | ⟨t, c, h⟩
  · rw [h]
    rfl
  rw [concat_eq_append] at h
  have hlast := l.value_ends c (.inr (by rw [h, getLast?_concat]))
  have hdrop : l.value.dropWhile isBlank = l.value := by
    cases hv : l.value with
    | nil => rfl
    | cons d r => rw [dropWhile_cons_of_neg (by rw [l.value_ends d (.inl (by rw [hv]; rfl))]; decide)]
  rw [trim, hdrop, h, reverse_append, reverse_singleton, singleton_append,
    dropWhile_cons_of_neg (by rw [hlast]; decide), reverse_cons, reverse_reverse]

theorem setLines_eq {ls} (hls : ∀ l ∈ ls, l.name.map toLowerAscii ≠ ascii "content-disposition")
    (hnames : (h.extra.map Prod.fst ++ (ls.filter (!HeaderLine.isType ·)).map HeaderLine.name).Nodup) :
    setLines h ls = { h with
      contentType := ((ls.filter HeaderLine.isType).map HeaderLine.value).getLastD h.contentType
      extra := h.extra ++ (ls.filter (!HeaderLine.isType ·)).map fun l => (l.name, l.value) } := by
  induction ls generalizing h with
  | nil => simp [setLines]
  | cons l ls ih =>
    have hrest : ∀ k ∈ ls, k.name.map toLowerAscii ≠ ascii "content-disposition" := fun k hk =>
      hls k (mem_cons_of_mem _ hk)
    have hset : setLines h (l :: ls) = setLines (setHeader h l.name l.value) ls := by
      rw [setLines, foldl_cons, trim_value]
      rfl
    rw [hset]
    cases htype : l.isType with
    | true =>
      have hone : setHeader h l.name l.value = { h with contentType := l.value } := by
        rw [setHeader, if_neg (hls l mem_cons_self), if_pos (of_decide_eq_true htype)]
      simp only [filter_cons, htype, Bool.not_true, Bool.false_eq_true, if_true, if_false] at hnames ⊢
      rw [hone, ih (h := { h with contentType := l.value }) hrest hnames, map_cons, getLastD_cons]
    | false =>
      simp only [filter_cons, htype, Bool.not_false, Bool.false_eq_true, if_true, if_false, map_cons] at hnames ⊢
      have hnew : h.extra.any (·.1 = l.name) = false := by
        refine any_eq_false.mpr fun e he heq => ?_
        refine (nodup_append.mp hnames).2.2 e.1 (mem_map_of_mem he) l.name mem_cons_self ?_
        exact of_decide_eq_true heq
      have hone : setHeader h l.name l.value = { h with extra := h.extra ++ [(l.name, l.value)] } := by
        rw [setHeader, if_neg (hls l mem_cons_self), if_neg (of_decide_eq_false htype), setExtra, hnew]
        rfl
      rw [hone, ih hrest (by simpa using hnames), append_assoc]
      rfl

theorem setLines_names {ls} (hls : ∀ l ∈ ls, l.name.map toLowerAscii ≠ ascii "content-disposition") :
    (setLines h ls).name = h.name ∧ (setLines h ls).filename = h.filename := by
  induction ls generalizing h with
  | nil => exact ⟨rfl, rfl⟩
  | cons l ls ih =>
    have hhead : (setHeader h l.name (trim l.value)).name = h.name ∧
        (setHeader h l.name (trim l.value)).filename = h.filename := by
      unfold setHeader
      rw [if_neg (hls l mem_cons_self)]
      split <;> exact ⟨rfl, rfl⟩
    obtain ⟨hn, hf⟩ := ih (h := setHeader h l.name (trim l.value)) fun k hk => hls k (mem_cons_of_mem _ hk)
    exact ⟨hn.trans hhead.1, hf.trans hhead.2⟩

theorem parsed_eq (part : Part) :
    part.parsed = setLines (parseContentDisposition noHeaders (disposition part.name part.filename)) part.others := by
  unfold Part.parsed Part.lines setLines
  rw [foldl_cons]
  congr 1
  unfold setHeader
  rw [if_pos (by rfl)]
  exact congrArg _ (trim_value part.dispositionLine)

theorem parsed_plain (part : Part) : part.parsed.Plain := by
  rw [parsed_eq]
  obtain ⟨hn, hf⟩ := setLines_names part.others_other
    (h := parseContentDisposition noHeaders (disposition part.name part.filename))
  have hplain := parseContentDisposition_plain (h := noHeaders) (disposition part.name part.filename)
  exact ⟨hn ▸ hplain.1, hf ▸ hplain.2⟩

theorem parsed_eq_headers {part : Part} (hn : SEMICOLON ∉ part.name) (hf : SEMICOLON ∉ part.filename) :
    part.parsed = part.headers := by
  rw [parsed_eq, parseContentDisposition_quoted part.name_text part.filename_text hn hf,
    setLines_eq part.others_other, part.others_type, part.others_extra]
  · cases htype : part.contentType <;> simp [Part.headers, htype, noHeaders]
  · have hnames := part.extra_names
    rw [← part.others_extra, map_map] at hnames
    exact hnames

theorem reports_eq_iff :
    F.parts.map Part.report = F.parts.map (fun part => (part.headers, part.data)) ↔ F.Plain := by
  constructor
  · intro heq part hmem
    have hpart : part.parsed = part.headers := congrArg Prod.fst (map_inj_left.mp heq part hmem)
    have hplain := parsed_plain part
    rwa [hpart] at hplain
  · intro hplain
    refine map_inj_left.mpr fun part hmem => ?_
    rw [Part.report, parsed_eq_headers (hplain part hmem).1 (hplain part hmem).2]

/-! ## Fields and files -/

def fieldsOf (xs : List (PartHeaders × Bytes)) : List FormField :=
  (xs.filter (·.1.filename = [])).map fun x => ⟨x.1.name, x.2⟩

def filesOf (xs : List (PartHeaders × Bytes)) : List FileUpload :=
  (xs.filter (·.1.filename ≠ [])).map fun x => ⟨x.1.name, x.1.filename, x.1.contentType, x.2⟩

theorem foldl_pieces (d : FormData) (pieces : List Bytes) :
    (pieces.map Event.partData).foldl FormData.on d = { d with data := d.data ++ pieces.flatten } := by
  induction pieces generalizing d with
  | nil => simp
  | cons piece pieces ih =>
    rw [map_cons, foldl_cons, ih]
    simp [FormData.on]

theorem foldl_reports {evs : List Event} {xs} (hrep : Reports xs evs) (d : FormData) :
    (evs.foldl FormData.on d).fields = d.fields ++ fieldsOf xs ∧
      (evs.foldl FormData.on d).files = d.files ++ filesOf xs := by
  induction hrep generalizing d with
  | nil => simp [fieldsOf, filesOf]
  | part headers pieces _ ih =>
    rw [foldl_cons, foldl_append, foldl_pieces, foldl_cons]
    obtain ⟨hfields, hfiles⟩ := ih (FormData.on
      { FormData.on d (.partBegin headers) with data := (FormData.on d (.partBegin headers)).data ++ pieces.flatten }
      .partEnd)
    rw [hfields, hfiles]
    by_cases hname : headers.filename = []
    · simp [FormData.on, fieldsOf, filesOf, hname]
    · simp [FormData.on, fieldsOf, filesOf, hname]

theorem formData_iff :
    (fieldsOf (F.parts.map Part.report) = F.fields ∧ filesOf (F.parts.map Part.report) = F.files) ↔ F.Plain := by
  constructor
  · rintro ⟨hfields, hfiles⟩ part hmem
    by_cases hfile : part.filename = []
    · have hin : (⟨part.name, part.data⟩ : FormField) ∈ F.fields :=
        mem_map.mpr ⟨part, mem_filter.mpr ⟨hmem, decide_eq_true hfile⟩, rfl⟩
      rw [← hfields] at hin
      obtain ⟨x, hx, heq⟩ := mem_map.mp hin
      obtain ⟨other, -, rfl⟩ := mem_map.mp (mem_filter.mp hx).1
      have hname : other.parsed.name = part.name := congrArg FormField.name heq
      exact ⟨hname ▸ (parsed_plain other).1, by rw [hfile]; exact not_mem_nil⟩
    have hin : (⟨part.name, part.filename, part.headers.contentType, part.data⟩ : FileUpload) ∈ F.files :=
      mem_map.mpr ⟨part, mem_filter.mpr ⟨hmem, decide_eq_true hfile⟩, rfl⟩
    rw [← hfiles] at hin
    obtain ⟨x, hx, heq⟩ := mem_map.mp hin
    obtain ⟨other, -, rfl⟩ := mem_map.mp (mem_filter.mp hx).1
    have hname : other.parsed.name = part.name := congrArg FileUpload.name heq
    have hfilename : other.parsed.filename = part.filename := congrArg FileUpload.filename heq
    exact ⟨hname ▸ (parsed_plain other).1, hfilename ▸ (parsed_plain other).2⟩
  intro hplain
  rw [reports_eq_iff.mpr hplain]
  unfold fieldsOf filesOf Form.fields Form.files
  simp only [filter_map, map_map, Function.comp_def, Part.headers]
  exact ⟨trivial, trivial⟩

theorem extractBoundary_contentType (F : Form) : extractBoundary F.contentType = F.boundary := by
  have hne : ∀ c ∈ F.boundary, c ≠ QUOTE ∧ decide (c ≠ SEMICOLON) ∧ isBlank c = false := by
    have hquote : isTokenChar QUOTE = false := by decide +kernel
    intro c hc
    have htoken := all_eq_true.mp F.boundary_token c hc
    have hne : c ≠ QUOTE := by
      rintro rfl
      exact Bool.false_ne_true (hquote.symm.trans htoken)
    exact ⟨hne, decide_eq_true (token_ne htoken).2.2.1, (token_ne htoken).2.2.2⟩
  have hfind : find (ascii "boundary=") F.contentType = some 21 := by
    have : find (ascii "boundary=") (ascii "multipart/form-data; boundary=") = some 21 := by
      unfold ascii
      repeat rw [String.toList_ofList]
      decide +kernel
    exact find_append this
  have hdrop : F.contentType.drop (21 + 9) = F.boundary := drop_left' rfl
  unfold extractBoundary
  rw [hfind]
  simp only
  rw [hdrop]
  obtain ⟨c, r, hcons⟩ := exists_cons_of_ne_nil F.boundary_ne
  rw [hcons] at hne ⊢
  simp only
  rw [if_neg (hne c mem_cons_self).1]
  have htake : (c :: r).takeWhile (· ≠ SEMICOLON) = c :: r := by
    have hall := @takeWhile_append_of_pos _ (fun x => decide (x ≠ SEMICOLON)) (c :: r) []
      fun x hx => (hne x hx).2.1
    rwa [append_nil, takeWhile_nil, append_nil] at hall
  rw [htake]
  have hlast : (c :: r).reverse.dropWhile isBlank = (c :: r).reverse := by
    cases hrev : (c :: r).reverse with
    | nil => rfl
    | cons x xs =>
      have hx : x ∈ c :: r := mem_reverse.mp (hrev ▸ mem_cons_self)
      rw [dropWhile_cons_of_neg (by rw [(hne x hx).2.2]; decide)]
  rw [hlast, reverse_reverse]

/-! ## The form as a whole -/

theorem not_tooLong_nil (d : Bytes) : tooLong d [] = false := by
  unfold tooLong
  simp [Parser.skip]

theorem body_ne_nil (F : Form) : F.body ≠ [] := by
  intro h
  have := (append_eq_nil_iff.mp (append_eq_nil_iff.mp h).2).1
  cases this

theorem parse_body (F : Form) :
    ((newParser F.boundary).parse F.body).1.state = .done ∧
      Reports (F.parts.map Part.report) ((newParser F.boundary).parse F.body).2 := by
  have hleft : (newParser F.boundary).buffer ++ F.body ++ [] = F.body := append_nil _
  have hfound : tooLong F.delimiter F.body = false := by
    obtain ⟨-, -, hfind⟩ := @find_first F [] F.body (append_nil F.body)
    unfold tooLong
    rw [hfind]
    simp
  rcases parse_start (p := newParser F.boundary) rfl rfl hleft with ⟨hlong, -⟩ | ⟨-, -, hmore⟩ | ⟨-, hdone | ⟨-, -, hmore⟩⟩
  · rw [show (newParser F.boundary).buffer ++ F.body = F.body from rfl, hfound] at hlong
    cases hlong
  · exact absurd rfl hmore
  · exact hdone
  · exact absurd rfl hmore

/-- A body that ends before its closing delimiter does. -/
def Form.Truncated (F : Form) (t : Bytes) : Prop := t <+: F.body ∧ t.length + F.epilogue.length < F.body.length

theorem parse_truncated {t} (ht : t <+: F.body) :
    ((newParser F.boundary).parse t).1.state = .error ↔ tooLong F.delimiter t := by
  obtain ⟨rest, hrest⟩ := ht
  rcases @parse_start F (newParser F.boundary) rest t rfl rfl hrest with
    ⟨hlong, herror⟩ | ⟨hshort, hwaits, -⟩ | ⟨hshort, hafter⟩
  · exact iff_of_true herror hlong
  · refine iff_of_false ?_ fun h => by rw [show t = [] ++ t from rfl] at h; exact absurd (hshort.symm.trans h) nofun
    rw [hwaits]
    nofun
  have hshort' := hshort []
  rw [append_nil] at hshort'
  refine iff_of_false (fun herror => ?_) fun h => absurd (hshort'.symm.trans h) nofun
  rcases hafter with ⟨hdone, -⟩ | ⟨-, hin, -⟩
  · rw [hdone] at herror
    cases herror
  · exact hin.running.2.1 herror

/-- For every form: cut into any pieces, the calls report exactly its parts if
and only if no name holds a semicolon and the buffer is never too long for the
parser before the first delimiter; given as a whole, its fields and files are
right if and only if no name holds a semicolon; and cut off before the end it is
refused only if it is too long without a delimiter. -/
theorem multipart_iff (F : Form) :
    (∀ pieces : List Bytes, pieces.flatten = F.body →
      (((newParser F.boundary).parseAll pieces).1.state = .done ∧
          Reports (F.parts.map fun part => (part.headers, part.data)) ((newParser F.boundary).parseAll pieces).2 ↔
        F.Plain ∧ ∀ front back, pieces = front ++ back → tooLong F.delimiter front.flatten = false)) ∧
      (FormData.parse F.contentType F.body = (true, F.fields, F.files) ↔ F.Plain) ∧
      ∀ t, F.Truncated t → ((FormData.parse F.contentType t).1 = false ↔ tooLong F.delimiter t = true) := by
  refine ⟨fun pieces hpieces => ?_, ?_, fun t ht => ?_⟩
  · have hmore : pieces.flatten ≠ [] := hpieces ▸ body_ne_nil F
    rcases parseAll_start (p := newParser F.boundary) rfl rfl hpieces (not_tooLong_nil _) hmore with
      ⟨hroom, hdone, hrep⟩ | ⟨⟨front, back, hsplit, hlong⟩, herror⟩
    · constructor
      · exact fun hright => ⟨reports_eq_iff.mp (hrep.unique hright.2), hroom⟩
      · exact fun hplain => ⟨hdone, reports_eq_iff.mpr hplain.1 ▸ hrep⟩
    refine iff_of_false (fun hright => ?_) fun hroom => ?_
    · rw [herror] at hright
      cases hright.1
    · exact absurd ((hroom.2 front back hsplit).symm.trans hlong) nofun
  · obtain ⟨hdone, hrep⟩ := parse_body F
    obtain ⟨hfields, hfiles⟩ := foldl_reports hrep {}
    unfold FormData.parse
    rw [extractBoundary_contentType, if_neg F.boundary_ne]
    simp only [hdone, hfields, hfiles, ne_eq, reduceCtorEq, not_false_iff, decide_true, Prod.mk.injEq, true_and,
      nil_append]
    exact formData_iff
  unfold FormData.parse
  rw [extractBoundary_contentType, if_neg F.boundary_ne]
  simp only [decide_eq_false_iff_not, ne_eq, not_not]
  exact parse_truncated ht.1

def simplePart (name filename data : Bytes) (hname : Quotable name) (hfile : Quotable filename)
    (hshort : (disposition name filename).length + 2 ≤ 8192) : Part where
  name
  filename
  contentType := none
  extra := []
  others := []
  data
  name_text := hname
  filename_text := hfile
  short := hshort
  others_other := nofun
  others_type := rfl
  others_extra := rfl
  extra_names := .nil

/-- A field, and a file, behind a preamble. -/
def sampleForm (preamble : Bytes) (hpre : find (ascii "--xyz") preamble = none) (name : Bytes) (hname : Quotable name)
    (hshort : (disposition name []).length + 2 ≤ 8192) : Form where
  boundary := ascii "xyz"
  parts := [simplePart name [] (ascii "one") hname nofun hshort,
    simplePart (ascii "b:c=d") (ascii "f.txt") (ascii "two") (by decide +kernel)
      (by decide +kernel) (by decide +kernel)]
  preamble := some preamble
  epilogue := CRLF
  boundary_ne := by decide
  boundary_token := by decide
  parts_ne := nofun
  preamble_clear := by rintro t ⟨⟩; exact hpre
  data_clear := by
    have hone : find (CRLF ++ (DASHES ++ ascii "xyz")) (ascii "one") = none := by decide
    have htwo : find (CRLF ++ (DASHES ++ ascii "xyz")) (ascii "two") = none := by decide
    intro part hmem
    rcases mem_cons.mp hmem with rfl | hmem
    · exact hone
    · rw [mem_singleton.mp hmem]
      exact htwo

def goodForm : Form :=
  sampleForm (ascii "hi") (by decide) (ascii "a") (by decide +kernel) (by decide +kernel)

def longForm : Form := sampleForm (ascii "This is a preamble") (by decide) (ascii "a")
  (by decide +kernel) (by decide +kernel)

/-- Two pieces, cut in the first delimiter. -/
def goodPieces : List Bytes := [goodForm.body.take 7, goodForm.body.drop 7]

theorem multipart_iff_two :
    ((newParser goodForm.boundary).parseAll goodPieces).1.state = .done ∧
      FormData.parse goodForm.contentType goodForm.body = (true, goodForm.fields, goodForm.files) := by
  have hpieces : goodPieces.flatten = goodForm.body := by simp [goodPieces]
  have hplain : goodForm.Plain := by
    intro part hmem
    rcases mem_cons.mp hmem with rfl | hmem
    · exact ⟨by decide, by decide⟩
    · rw [mem_singleton.mp hmem]
      exact ⟨by decide, by decide⟩
  have hfirst : tooLong goodForm.delimiter (goodForm.body.take 7) = false := by decide +kernel
  have hwhole : tooLong goodForm.delimiter goodForm.body = false := by decide +kernel
  have hroom : ∀ front back, goodPieces = front ++ back → tooLong goodForm.delimiter front.flatten = false := by
    intro front back hsplit
    rcases front with _ | ⟨x, _ | ⟨y, _ | ⟨z, t⟩⟩⟩
    · exact not_tooLong_nil _
    · rw [← (List.cons.inj hsplit).1, flatten_singleton]
      exact hfirst
    · have hback : back = [] := (List.cons.inj (List.cons.inj hsplit).2).2.symm
      rw [hback, append_nil] at hsplit
      rw [← hsplit, hpieces]
      exact hwhole
    · cases (List.cons.inj (List.cons.inj hsplit).2).2
  obtain ⟨hcut, hform, -⟩ := multipart_iff goodForm
  exact ⟨((hcut goodPieces hpieces).mpr ⟨hplain, hroom⟩).1, hform.mpr hplain⟩

/-- A semicolon in a name, a preamble that comes in a piece of its own, and a
body that is cut off behind its first part. -/
theorem semicolon_preamble_truncated :
    ((newParser (ascii "xyz")).parse
        (sampleForm (ascii "hi") (by decide) (ascii "a;b") (by decide +kernel) (by decide +kernel)).body).2.head? =
        some (.partBegin { name := ascii "a", contentType := ascii "text/plain" }) ∧
      ((newParser (ascii "xyz")).parseAll [longForm.body.take 18, longForm.body.drop 18]).1.state = .error ∧
      FormData.parse goodForm.contentType (goodForm.body.take 80) = (true, [⟨ascii "a", ascii "one"⟩], []) := by
  decide +kernel

end BoltApi.Multipart
