import BoltApi.Client.Response
import BoltApi.Lib.Numerals

/-! # What a server may answer

The responses of HTTP/1.1: any number of interim responses and a final one, with
a body that is delimited in one of the ways of the standard. A value of `Reply`
is a valid answer to a request with the given method. -/
namespace BoltApi.Client.Server
open Octets CNumbers Lib.Numerals

def isText (c : UInt8) : Bool := c = HTAB ∨ (0x20 ≤ c ∧ c ≠ 0x7F)

structure FieldLine where
  name : Bytes
  value : Bytes
  name_ne : name ≠ []
  name_token : name.all isTokenChar = true
  value_text : value.all isText

def FieldLine.text (f : FieldLine) : Bytes := f.name ++ COLON :: f.value

def FieldLine.content (f : FieldLine) : Bytes :=
  ((f.value.dropWhile fun c => c = SP ∨ c = HTAB).reverse.dropWhile fun c => c = SP ∨ c = HTAB).reverse

def FieldLine.isNamed (f : FieldLine) (lower : String) : Bool := ieq f.name (ascii lower)

structure ReplyHead where
  code : Nat
  reason : Bytes
  fields : List FieldLine
  code_lo : 100 ≤ code
  code_hi : code ≤ 599
  reason_text : reason.all isText

namespace ReplyHead

def statusLine (h : ReplyHead) : Bytes := ascii "HTTP/1.1 " ++ (printed 10 h.code ++ SP :: h.reason)

def text (h : ReplyHead) : Bytes := h.statusLine ++ h.fields.flatMap fun f => CRLF ++ f.text

def wire (h : ReplyHead) : Bytes := h.text ++ CRLFCRLF

def named (h : ReplyHead) (lower : String) : List FieldLine := h.fields.filter (·.isNamed lower)

end ReplyHead

inductive Framing where
  | length
  | chunked (coded : Bytes)
  | close
  | noBody

def bodyless (method : Bytes) (code : Nat) : Prop := method = ascii "HEAD" ∨ code = 204 ∨ code = 304

instance (method : Bytes) (code : Nat) : Decidable (bodyless method code) :=
  inferInstanceAs (Decidable (_ ∨ _))

def Framed (method : Bytes) (h : ReplyHead) (framing : Framing) (body : Bytes) (closes : Bool) : Prop :=
  match framing with
  | .length =>
    ¬ bodyless method h.code ∧ h.named "transfer-encoding" = [] ∧
      ∃ f, h.named "content-length" = [f] ∧ f.content ≠ [] ∧ f.content.all isDigit ∧
        decimal f.content = body.length
  | .chunked _ => ¬ bodyless method h.code ∧ h.named "transfer-encoding" ≠ []
  | .close =>
    ¬ bodyless method h.code ∧ h.named "transfer-encoding" = [] ∧ h.named "content-length" = [] ∧ closes = true
  | .noBody => bodyless method h.code ∧ body = []

structure Reply where
  method : Bytes
  interim : List ReplyHead
  final : ReplyHead
  framing : Framing
  body : Bytes
  closes : Bool
  interim_code : ∀ h ∈ interim, h.code < 200
  final_code : 200 ≤ final.code
  framed : Framed method final framing body closes

namespace Reply

def payload (R : Reply) : Bytes :=
  match R.framing with
  | .chunked coded => coded
  | _ => R.body

def firstHead (R : Reply) : ReplyHead := R.interim.head?.getD R.final

def afterHead (R : Reply) : Bytes :=
  match R.interim with
  | [] => R.payload
  | _ :: more => more.flatMap (·.wire) ++ (R.final.wire ++ R.payload)

def wire (R : Reply) : Bytes := R.interim.flatMap (·.wire) ++ (R.final.wire ++ R.payload)

theorem wire_eq (R : Reply) : R.wire = R.firstHead.wire ++ R.afterHead := by
  unfold wire firstHead afterHead
  cases R.interim with
  | nil => rfl
  | cons h more => simp [List.append_assoc]

end Reply

end BoltApi.Client.Server
