import BoltApi.Multipart.Parser

/-! # Forms and their encoding

The bodies of `multipart/form-data`: parts with a disposition, other headers and
data, between delimiters. `Reports` relates the calls of the callbacks to the
parts they stand for. -/
namespace BoltApi.Multipart
open Octets Lib.Occurrence List

/-- A header that the parser has room for, however it is cut: 1024 octets for the
name, 8192 for the value with a blank and a CR. The value has no blank at its
ends. -/
structure HeaderLine where
  name : Bytes
  value : Bytes
  name_ne : name ≠ []
  name_token : name.all isTokenChar = true
  name_short : name.length ≤ 1024
  value_line : ∀ c ∈ value, c ≠ CR ∧ c ≠ LF
  value_ends : ∀ c, value.head? = some c ∨ value.getLast? = some c → isBlank c = false
  value_short : value.length + 2 ≤ 8192

def HeaderLine.wire (l : HeaderLine) : Bytes := l.name ++ COLON :: SP :: (l.value ++ CRLF)

/-- `form-data; name="…"; filename="…"`; an empty filename is left out. -/
def disposition (name filename : Bytes) : Bytes :=
  ascii "form-data; name=\"" ++ (name ++ QUOTE ::
    (if filename = [] then [] else ascii "; filename=\"" ++ (filename ++ [QUOTE])))

def Quotable (s : Bytes) : Prop := ∀ c ∈ s, c ≠ QUOTE ∧ c ≠ CR ∧ c ≠ LF

instance (s : Bytes) : Decidable (Quotable s) := inferInstanceAs (Decidable (∀ c ∈ s, _))

theorem disposition_line {name filename} (hname : Quotable name) (hfile : Quotable filename) :
    ∀ c ∈ disposition name filename, c ≠ CR ∧ c ≠ LF := by
  have hquote : QUOTE ≠ CR ∧ QUOTE ≠ LF := by decide
  intro c hc
  rcases mem_append.mp hc with hc | hc
  · have hall : ∀ c ∈ ascii "form-data; name=\"", c ≠ CR ∧ c ≠ LF := by decide +kernel
    exact hall c hc
  rcases mem_append.mp hc with hc | hc
  · exact (hname c hc).2
  rcases mem_cons.mp hc with rfl | hc
  · exact hquote
  split at hc
  · cases hc
  rcases mem_append.mp hc with hc | hc
  · have hall : ∀ c ∈ ascii "; filename=\"", c ≠ CR ∧ c ≠ LF := by decide +kernel
    exact hall c hc
  rcases mem_append.mp hc with hc | hc
  · exact (hfile c hc).2
  · rw [mem_singleton.mp hc]
    exact hquote

theorem disposition_ends (name filename : Bytes) (c : UInt8)
    (h : (disposition name filename).head? = some c ∨ (disposition name filename).getLast? = some c) :
    isBlank c = false := by
  rcases h with h | h
  · cases h
    decide
  have hlast : ∃ l, disposition name filename = l ++ [QUOTE] := by
    unfold disposition
    split
    · exact ⟨ascii "form-data; name=\"" ++ name, by rw [append_assoc]⟩
    · exact ⟨ascii "form-data; name=\"" ++ (name ++ QUOTE :: (ascii "; filename=\"" ++ filename)), by
        simp only [append_assoc, cons_append]⟩
  obtain ⟨l, hl⟩ := hlast
  rw [hl, getLast?_concat] at h
  cases h
  decide

def HeaderLine.isType (l : HeaderLine) : Bool := l.name.map toLowerAscii = ascii "content-type"

/-- A part: its name and filename, its type if it says one, the fields that are
neither, and its data. The lines of the headers behind the disposition may stand in any
order. -/
structure Part where
  name : Bytes
  filename : Bytes
  contentType : Option Bytes
  extra : List (Bytes × Bytes)
  others : List HeaderLine
  data : Bytes
  name_text : Quotable name
  filename_text : Quotable filename
  short : (disposition name filename).length + 2 ≤ 8192
  others_other : ∀ l ∈ others, l.name.map toLowerAscii ≠ ascii "content-disposition"
  others_type : (others.filter HeaderLine.isType).map HeaderLine.value = contentType.toList
  others_extra : (others.filter (!HeaderLine.isType ·)).map (fun l => (l.name, l.value)) = extra
  extra_names : (extra.map Prod.fst).Nodup

namespace Part

def dispositionLine (p : Part) : HeaderLine where
  name := ascii "Content-Disposition"
  value := disposition p.name p.filename
  name_ne := by decide
  name_token := by decide
  name_short := by decide
  value_line := disposition_line p.name_text p.filename_text
  value_ends := disposition_ends p.name p.filename
  value_short := p.short

def lines (p : Part) : List HeaderLine := p.dispositionLine :: p.others

/-- The headers a reader of the part is to see; text is the default type. -/
def headers (p : Part) : PartHeaders :=
  { name := p.name, filename := p.filename, contentType := p.contentType.getD (ascii "text/plain"),
    extra := p.extra }

end Part

structure Form where
  boundary : Bytes
  parts : List Part
  preamble : Option Bytes
  epilogue : Bytes
  boundary_ne : boundary ≠ []
  boundary_token : boundary.all isTokenChar = true
  parts_ne : parts ≠ []
  preamble_clear : ∀ t ∈ preamble, find (DASHES ++ boundary) t = none
  data_clear : ∀ p ∈ parts, find (CRLF ++ (DASHES ++ boundary)) p.data = none

namespace Form

variable (F : Form)

def delimiter : Bytes := DASHES ++ F.boundary

def opening : Bytes :=
  match F.preamble with
  | none => []
  | some t => t ++ CRLF

def tail : List Part → Bytes
  | [] => DASHES ++ F.epilogue
  | p :: ps => CRLF ++ (p.lines.flatMap HeaderLine.wire ++ (CRLF ++ (p.data ++ (CRLF ++ (F.delimiter ++ tail ps)))))

def body : Bytes := F.opening ++ (F.delimiter ++ F.tail F.parts)

/-- `Content-Type` of the body. -/
def contentType : Bytes := ascii "multipart/form-data; boundary=" ++ F.boundary

def fields : List FormField :=
  (F.parts.filter (·.filename = [])).map fun p => ⟨p.name, p.data⟩

def files : List FileUpload :=
  (F.parts.filter (·.filename ≠ [])).map fun p => ⟨p.name, p.filename, p.headers.contentType, p.data⟩

/-- No semicolon in a name or a filename. -/
def Plain : Prop := ∀ p ∈ F.parts, SEMICOLON ∉ p.name ∧ SEMICOLON ∉ p.filename

end Form

/-- The buffer has no delimiter and is longer than `process_start` waits for. -/
def tooLong (delimiter buffer : Bytes) : Bool :=
  find delimiter (buffer.drop (Parser.skip buffer)) = none ∧
    delimiter.length * 2 + Parser.skip buffer < buffer.length

/-- The calls report the parts in order, the data of each in some pieces. -/
inductive Reports : List (PartHeaders × Bytes) → List Event → Prop
  | nil : Reports [] []
  | part (headers : PartHeaders) (pieces : List Bytes) {parts : List (PartHeaders × Bytes)} {events : List Event} :
    Reports parts events →
      Reports ((headers, pieces.flatten) :: parts)
        (.partBegin headers :: (pieces.map .partData ++ .partEnd :: events))

theorem Reports.append {xs ys es fs} (h : Reports xs es) (h' : Reports ys fs) :
    Reports (xs ++ ys) (es ++ fs) := by
  induction h with
  | nil => exact h'
  | part headers pieces _ ih =>
    rw [cons_append, cons_append, append_assoc, cons_append]
    exact .part headers pieces ih

theorem Reports.unique {xs ys es} (h : Reports xs es) (h' : Reports ys es) : xs = ys := by
  have hcut : ∀ {ps qs : List Bytes} {fs gs : List Event},
      ps.map Event.partData ++ .partEnd :: fs = qs.map Event.partData ++ .partEnd :: gs → ps = qs ∧ fs = gs := by
    intro ps
    induction ps with
    | nil =>
      intro qs fs gs heq
      cases qs with
      | nil => cases heq; exact ⟨rfl, rfl⟩
      | cons q qs => cases heq
    | cons p ps ih =>
      intro qs fs gs heq
      cases qs with
      | nil => cases heq
      | cons q qs =>
        simp only [map_cons, cons_append, List.cons.injEq, Event.partData.injEq] at heq
        obtain ⟨rfl, hrest⟩ := ih heq.2
        exact ⟨by rw [heq.1], hrest⟩
  induction h generalizing ys with
  | nil =>
    cases h'
    rfl
  | part headers pieces hrest ih =>
    generalize hevents : Event.partBegin headers :: (pieces.map .partData ++ .partEnd :: _) = all at h'
    cases h' with
    | nil => cases hevents
    | part headers' pieces' hrest' =>
      simp only [List.cons.injEq, Event.partBegin.injEq] at hevents
      obtain ⟨rfl, heq⟩ := hevents
      obtain ⟨rfl, rfl⟩ := hcut heq
      rw [ih hrest']

end BoltApi.Multipart
