import Mathlib.Data.Rat.Defs
import Mathlib.Tactic.FieldSimp
import BoltApi.CNumbers
import BoltApi.Lib.BigEndian
import BoltApi.Lib.Calendar

/-! # Result cells in binary

`text_to_binary_result` of `proto/postgres_wire_codec.cpp`: a cell of a result
that the executor gave as text is sent in the binary format of its type.

What a text and what the octets stand for is said on its own, and the two are
compared: the integers are narrowed without a look at their range, and a date is
computed for any day up to the 31st. -/
namespace BoltApi.PgWire.BinaryResult
open Octets CNumbers Lib.BigEndian Lib.Calendar

namespace Oid

def kUnspecified : Nat := 0
def kBool : Nat := 16
def kBytea : Nat := 17
def kName : Nat := 19
def kInt8 : Nat := 20
def kInt2 : Nat := 21
def kInt4 : Nat := 23
def kText : Nat := 25
def kOid : Nat := 26
def kFloat4 : Nat := 700
def kFloat8 : Nat := 701
def kUnknown : Nat := 705
def kBpchar : Nat := 1042
def kVarchar : Nat := 1043
def kDate : Nat := 1082
def kTimestamp : Nat := 1114
def kNumeric : Nat := 1700

end Oid

def kMaxScalarText : Nat := 128

def kPgEpochDays : Int := 10957

structure CodecError where
  sqlstate : String
  message : String
deriving DecidableEq

def POINT : UInt8 := 0x2E
def ZERO : UInt8 := 0x30

def digit (c : UInt8) : Nat := c.toNat - 0x30

def isTextOid (t : Nat) : Bool :=
  t = Oid.kText ∨ t = Oid.kVarchar ∨ t = Oid.kBpchar ∨ t = Oid.kName ∨ t = Oid.kUnknown ∨
    t = Oid.kUnspecified

/-! ## Booleans -/

variable (s : Bytes)

def parseBoolText : Option Bool :=
  if s = [] ∨ 8 ≤ s.length then none
  else
    let l := s.map toLowerAscii
    if l ∈ [ascii "t", ascii "true", ascii "y", ascii "yes", ascii "on", ascii "1"] then some true
    else if l ∈ [ascii "f", ascii "false", ascii "n", ascii "no", ascii "off", ascii "0"] then some false
    else none

/-! ## Integers -/

def putBe (v : Int) (w : Nat) : Bytes := storeBe w (v % 2 ^ 64).toNat

/-! ## Dates -/

/-- `days_from_civil`, in 64 bits and `unsigned` where the source is. -/
def daysFromCivil (y : Int) (m d : Nat) : Int :=
  let y := y - if m ≤ 2 then 1 else 0
  let era := (if 0 ≤ y then y else y - 399).tdiv 400
  let yoe := (y - era * 400).toNat
  let mp := if 2 < m then m - 3 else m + 9
  let doy := (153 * mp + 2) / 5 + d - 1
  let doe := yoe * 365 + yoe / 4 - yoe / 100 + doy
  era * 146097 + doe - 719468

def dateFields : Option (Nat × Nat × Nat) :=
  match s with
  | [y₁, y₂, y₃, y₄, dash₁, m₁, m₂, dash₂, d₁, d₂] =>
    if dash₁ = MINUS ∧ dash₂ = MINUS ∧ [y₁, y₂, y₃, y₄, m₁, m₂, d₁, d₂].all isDigit then
      some (decimal [y₁, y₂, y₃, y₄], decimal [m₁, m₂], decimal [d₁, d₂])
    else none
  | _ => none

def parseDateText : Option Int :=
  match dateFields s with
  | none => none
  | some (y, m, d) =>
    if m < 1 ∨ 12 < m ∨ d < 1 ∨ 31 < d then none else some (daysFromCivil y m d - kPgEpochDays)

def fraction : Option Nat :=
  match s with
  | [] => some 0
  | c :: ds =>
    if c ≠ POINT ∨ ds = [] ∨ 6 < ds.length ∨ ds.all isDigit = false then none
    else some (decimal ds * 10 ^ (6 - ds.length))

def clockFields : Option (Nat × Nat × Nat × Nat) :=
  match s with
  | sep :: h₁ :: h₂ :: c₁ :: m₁ :: m₂ :: c₂ :: s₁ :: s₂ :: frac =>
    if (sep = SP ∨ sep = 0x54) ∧ c₁ = COLON ∧ c₂ = COLON ∧ [h₁, h₂, m₁, m₂, s₁, s₂].all isDigit ∧
        decimal [h₁, h₂] ≤ 23 ∧ decimal [m₁, m₂] ≤ 59 ∧ decimal [s₁, s₂] ≤ 60 then
      (fraction frac).map fun f => (decimal [h₁, h₂], decimal [m₁, m₂], decimal [s₁, s₂], f)
    else none
  | _ => none

def parseTimestampText : Option Int :=
  match parseDateText (s.take 10) with
  | none => none
  | some days =>
    (clockFields (s.drop 10)).map fun (h, m, sec, frac) =>
      ((days * 24 + h) * 60 + m) * 60 * 1000000 + sec * 1000000 + frac

/-! ## Numerics -/

def quads : Bytes → List Nat
  | a :: b :: c :: d :: r => (((digit a * 10 + digit b) * 10 + digit c) * 10 + digit d) :: quads r
  | _ => []

def stripLeading : List Nat → Int → List Nat × Int
  | [], weight => ([], weight)
  | g :: gs, weight => if g = 0 then stripLeading gs (weight - 1) else (g :: gs, weight)

def stripTrailing (gs : List Nat) : List Nat := (gs.reverse.dropWhile (· = 0)).reverse

def fractionPart (t : Bytes) : Bytes × Bytes :=
  match t with
  | c :: r => if c = POINT then (r.takeWhile isDigit, r.dropWhile isDigit) else ([], c :: r)
  | [] => ([], [])

def numericGroups (ip fp : Bytes) : List Nat × Int :=
  let lead := ip.dropWhile (· = ZERO)
  let intGroups := (lead.length + 3) / 4
  let fracGroups := (fp.length + 3) / 4
  let groups := quads (List.replicate (intGroups * 4 - lead.length) ZERO ++ lead) ++
    quads (fp ++ List.replicate (fracGroups * 4 - fp.length) ZERO)
  let (kept, weight) := stripLeading groups (intGroups - 1)
  let kept := stripTrailing kept
  (kept, if kept = [] then 0 else weight)

def numericTextToBinary (cap : Nat) : Option Bytes :=
  if s = ascii "NaN" then
    if cap < 8 then none else some (storeBe 2 0 ++ storeBe 2 0 ++ storeBe 2 0xC000 ++ storeBe 2 0)
  else
    let (neg, t) := takeSign s
    let ip := t.takeWhile isDigit
    let (fp, rest) := fractionPart (t.dropWhile isDigit)
    if kMaxScalarText ≤ ip.length ∨ kMaxScalarText ≤ fp.length then none
    -- exponents are refused
    else if rest ≠ [] ∨ ip.length + fp.length = 0 then none
    else
      let (kept, weight) := numericGroups ip fp
      if cap < 8 + 2 * kept.length then none
      else
        some (storeBe 2 kept.length ++ putBe weight 2 ++
          storeBe 2 (if neg ∧ kept ≠ [] then 0x4000 else 0) ++ storeBe 2 fp.length ++
          kept.flatMap (storeBe 2))

/-! ## The codec -/

def bad : CodecError := ⟨"22P02", "result value does not match its declared type"⟩
def small : CodecError := ⟨"54000", "binary result cell exceeds the wire buffer"⟩
def unsupported : CodecError :=
  ⟨"0A000", "binary result format is not supported for this column type -- request text format"⟩

def fitted (cap : Nat) (b : Bytes) : Except CodecError Bytes := if cap < b.length then .error small else .ok b

def intWidth (t : Nat) : Nat := if t = Oid.kInt8 then 8 else if t = Oid.kInt2 then 2 else 4

def isIntOid (t : Nat) : Bool := t = Oid.kInt2 ∨ t = Oid.kInt4 ∨ t = Oid.kInt8 ∨ t = Oid.kOid

/-- `text_to_binary_result` into a buffer of `cap` octets. `floatBits` is the
value of `strtod` in so many octets, if the text is a number. -/
def textToBinaryResult (floatBits : Nat → Bytes → Option Nat) (text : Bytes) (typeOid cap : Nat) :
    Except CodecError Bytes :=
  if typeOid = Oid.kBool then
    match parseBoolText text with
    | none => .error bad
    | some v => fitted cap [if v then 1 else 0]
  else if isIntOid typeOid then
    if text = [] ∨ 24 < text.length then .error bad
    else
      -- the text is copied and read up to its first NUL
      let (v, rest) := strtoll (text.takeWhile (· ≠ 0))
      if rest ≠ [] then .error bad else fitted cap (putBe v (intWidth typeOid))
  else if typeOid = Oid.kFloat4 ∨ typeOid = Oid.kFloat8 then
    if text = [] ∨ kMaxScalarText < text.length then .error bad
    else
      let w := if typeOid = Oid.kFloat4 then 4 else 8
      match floatBits w (text.takeWhile (· ≠ 0)) with
      | none => .error bad
      | some u => fitted cap (storeBe w u)
  else if typeOid = Oid.kDate then
    match parseDateText text with
    | none => .error bad
    | some days => fitted cap (putBe days 4)
  else if typeOid = Oid.kTimestamp then
    match parseTimestampText text with
    | none => .error bad
    | some us => fitted cap (putBe us 8)
  else if typeOid = Oid.kNumeric then
    match numericTextToBinary text cap with
    | none => .error bad
    | some b => .ok b
  else if typeOid ≠ Oid.kBytea ∧ isTextOid typeOid then fitted cap text
  else .error unsupported

/-! ## What texts and octets stand for -/

inductive Value where
  | bool (b : Bool)
  | int (i : Int)
  | date (days : Int)
  | timestamp (us : Int)
  | numeric (q : Option ℚ)
  | text (b : Bytes)
deriving DecidableEq

def trimmed : Bytes := ((s.dropWhile isCSpace).reverse.dropWhile isCSpace).reverse

def boolText : Option Bool :=
  let l := (trimmed s).map toLowerAscii
  if l ∈ [ascii "t", ascii "tr", ascii "tru", ascii "true", ascii "y", ascii "ye", ascii "yes", ascii "on",
      ascii "1"] then some true
  else if l ∈ [ascii "f", ascii "fa", ascii "fal", ascii "fals", ascii "false", ascii "n", ascii "no",
      ascii "of", ascii "off", ascii "0"] then some false
  else none

/-- The integer a text stands for, of any size. -/
def intText : Option Int :=
  let (neg, ds) := takeSign (trimmed s)
  if ds ≠ [] ∧ ds.all isDigit then some (if neg then -decimal ds else decimal ds) else none

def digitsOf : Nat → Nat → Bytes
  | 0, _ => []
  | w + 1, n => digitsOf w (n / 10) ++ [UInt8.ofNat (0x30 + n % 10)]

def dateLit (y m d : Nat) : Bytes := digitsOf 4 y ++ MINUS :: digitsOf 2 m ++ MINUS :: digitsOf 2 d

def clockLit (h m sec : Nat) : Bytes := digitsOf 2 h ++ COLON :: digitsOf 2 m ++ COLON :: digitsOf 2 sec

def DayText (y m d : Nat) : Prop := y < 10 ^ 4 ∧ IsDay y m d ∧ s = dateLit y m d

def DateText (days : Int) : Prop :=
  ∃ y m d, DayText s y m d ∧ days = dayNumber y m d - dayNumber 2000 1 1

def FractionText (us : Nat) : Prop :=
  s = [] ∧ us = 0 ∨
    ∃ w n, 1 ≤ w ∧ w ≤ 6 ∧ n < 10 ^ w ∧ s = POINT :: digitsOf w n ∧ us = n * 10 ^ (6 - w)

/-- The microseconds since 2000-01-01 a text stands for: a date, a blank or `T`, and
a time of the day, where a minute may have a sixty-first second. -/
def TimestampText (us : Int) : Prop :=
  ∃ date sep h m sec frac days f, s = date ++ sep :: (clockLit h m sec ++ frac) ∧
    DateText date days ∧ (sep = SP ∨ sep = 0x54) ∧ h < 24 ∧ m < 60 ∧ sec ≤ 60 ∧ FractionText frac f ∧
    us = days * 86400000000 + (h * 3600 + m * 60 + sec) * 1000000 + f

/-- The number a sign, digits, and digits behind a point stand for; `none` is NaN. -/
def NumericText (q : Option ℚ) : Prop :=
  s = ascii "NaN" ∧ q = none ∨
    ∃ neg sign ip fp tail, s = sign ++ ip ++ tail ∧
      (neg, sign) ∈ [(false, []), (false, [PLUS]), (true, [MINUS])] ∧
      (fp = [] ∧ tail = [] ∨ tail = POINT :: fp) ∧ (ip ++ fp).all isDigit ∧ ip ++ fp ≠ [] ∧
      q = some ((if neg then -1 else 1 : ℚ) * (decimal (ip ++ fp) / 10 ^ fp.length))

variable (typeOid : Nat)

inductive TextValue (s : Bytes) : Value → Prop
  | bool {v} : typeOid = Oid.kBool → boolText s = some v → TextValue s (.bool v)
  | int {i} : isIntOid typeOid → intText s = some i → TextValue s (.int i)
  | date {days} : typeOid = Oid.kDate → DateText s days → TextValue s (.date days)
  | timestamp {us} : typeOid = Oid.kTimestamp → TimestampText s us → TextValue s (.timestamp us)
  | numeric {q} : typeOid = Oid.kNumeric → NumericText s q → TextValue s (.numeric q)
  | text : isTextOid typeOid → TextValue s (.text s)

def signed (b : Bytes) : Int :=
  if loadBe b < 2 ^ (8 * b.length - 1) then loadBe b else loadBe b - 2 ^ (8 * b.length)

def groupsValue : Int → List Nat → ℚ
  | _, [] => 0
  | weight, d :: ds => d * (10000 : ℚ) ^ weight + groupsValue (weight - 1) ds

def pairs : Bytes → List Nat
  | a :: b :: r => loadBe [a, b] :: pairs r
  | _ => []

def numericBinary (b : Bytes) : Option (Option ℚ) :=
  let groups := pairs (b.drop 8)
  let sign := loadBe ((b.drop 4).take 2)
  if b.length ≠ 8 + 2 * loadBe (b.take 2) then none
  else if sign = 0xC000 then some none
  else
    let q := groupsValue (signed ((b.drop 2).take 2)) groups
    if sign = 0 then some (some q) else if sign = 0x4000 then some (some (-q)) else none

def binaryValue (b : Bytes) : Option Value :=
  if typeOid = Oid.kBool then
    if b = [0] then some (.bool false) else if b = [1] then some (.bool true) else none
  else if isIntOid typeOid then
    if b.length ≠ intWidth typeOid then none
    else some (.int (if typeOid = Oid.kOid then loadBe b else signed b))
  else if typeOid = Oid.kDate then if b.length ≠ 4 then none else some (.date (signed b))
  else if typeOid = Oid.kTimestamp then if b.length ≠ 8 then none else some (.timestamp (signed b))
  else if typeOid = Oid.kNumeric then (numericBinary b).map .numeric
  else if isTextOid typeOid then some (.text b)
  else none

/-- The text and the octets stand for one value. -/
def SameValue (s b : Bytes) : Prop :=
  ∃ v, TextValue typeOid s v ∧ binaryValue typeOid b = some v

def intMin : Int := if typeOid = Oid.kOid then 0 else -(2 ^ (8 * intWidth typeOid - 1))
def intMax : Int :=
  if typeOid = Oid.kOid then 2 ^ 32 - 1 else 2 ^ (8 * intWidth typeOid - 1) - 1

/-- An integer text is an integer in the range of its type, and a date is a day
of the calendar. -/
def Representable (s : Bytes) : Prop :=
  (isIntOid typeOid → ∃ v, intText s = some v ∧ intMin typeOid ≤ v ∧ v ≤ intMax typeOid) ∧
    (typeOid = Oid.kDate ∨ typeOid = Oid.kTimestamp → ∃ y m d, DayText (s.take 10) y m d)

end BoltApi.PgWire.BinaryResult
