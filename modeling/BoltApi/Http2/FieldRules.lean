import BoltApi.Http2.Fields

/-! # What a validated header section looks like

The rules of HTTP/2 for the fields of a message, stated of the list of fields,
and that `validate_fields` lets only lists pass that keep them. -/
namespace BoltApi.Http2.FieldRules
open Octets Hpack.Tables Fields List

/-! ## The rules -/

def IsPseudo (h : HPACKHeader) : Prop := h.name.head? = some COLON

def pseudoNames : Section → List Bytes
  | .request => [ascii ":method", ascii ":scheme", ascii ":path", ascii ":authority"]
  | .response => [ascii ":status"]
  | .requestTrailers => []
  | .responseTrailers => []

structure Lawful (sec : Section) (h : HPACKHeader) : Prop where
  nonempty : h.name ≠ []
  lowerCase : ∀ c ∈ h.name, ¬ (0x41 ≤ c ∧ c ≤ 0x5A)
  known : IsPseudo h → h.name ∈ pseudoNames sec
  path : h.name = ascii ":path" → h.value ≠ []
  connection : isConnectionField h.name = false
  te : h.name = ascii "te" → h.value = ascii "trailers"

/-- The rules for the fields of a section: the pseudo-header fields come first,
and each of them once. -/
structure Rules (sec : Section) (fields : List HPACKHeader) : Prop where
  each : ∀ h ∈ fields, Lawful sec h
  first : fields.Pairwise fun a b => IsPseudo b → IsPseudo a
  once : fields.Pairwise fun a b => IsPseudo b → a.name ≠ b.name

def Has (fields : List HPACKHeader) (name : Bytes) : Prop := ∃ h ∈ fields, h.name = name

/-- The content-length is declared as `n`, by each field of that name. -/
def Declares (fields : List HPACKHeader) (n : Option Nat) : Prop :=
  ∀ h ∈ fields, h.name = ascii "content-length" → ∃ k, parseDigits h.value = some k ∧ n = some k

structure RequestRules (fields : List HPACKHeader) : Prop extends Rules .request fields where
  required :
    (∃ h ∈ fields, h.name = ascii ":method" ∧ h.value = ascii "CONNECT") ∧
        Has fields (ascii ":authority") ∧ ¬ Has fields (ascii ":scheme") ∧
        ¬ Has fields (ascii ":path") ∨
      Has fields (ascii ":method") ∧ Has fields (ascii ":scheme") ∧ Has fields (ascii ":path")

/-! ## Names -/

theorem isLowerTchar_lower {c} (h : isLowerTchar c) : ¬ (0x41 ≤ c ∧ c ≤ 0x5A) := by
  simp only [isLowerTchar, isDigit, Bool.or_eq_true, decide_eq_true_eq, contains_iff_mem] at h
  rcases h with (⟨hlow, _⟩ | ⟨_, hhigh⟩) | hmem
  · exact fun hup => absurd (UInt8.le_trans hlow hup.2) (by decide)
  · exact fun hup => absurd (UInt8.le_trans hup.1 hhigh) (by decide)
  · have hall : ∀ c ∈ ascii "!#$%&'*+-.^_`|~", ¬ (0x41 ≤ c ∧ c ≤ 0x5A) := by decide +kernel
    exact hall c hmem

theorem validName_lower {n} (h : validName n) :
    n ≠ [] ∧ ∀ c ∈ n, ¬ (0x41 ≤ c ∧ c ≤ 0x5A) := by
  cases n with
  | nil => cases h
  | cons c rest =>
    refine ⟨nofun, ?_⟩
    simp only [validName] at h
    split at h
    · rename_i hcolon
      simp only [Bool.and_eq_true, all_eq_true] at h
      intro d hd
      rcases mem_cons.mp hd with rfl | hd
      · rw [hcolon]
        decide
      · exact isLowerTchar_lower (h.2 d hd)
    · intro d hd
      exact isLowerTchar_lower (all_eq_true.mp h d hd)

/-! ## One field -/

variable {sec : Section} {h : HPACKHeader} {f g : Facts} {fields : List HPACKHeader}

def seen (f : Facts) (name : Bytes) : Bool :=
  if name = ascii ":method" then f.method.isSome
  else if name = ascii ":scheme" then f.scheme
  else if name = ascii ":path" then f.path
  else if name = ascii ":authority" then f.authority
  else if name = ascii ":status" then f.status != 0
  else false

structure Noted (sec : Section) (h : HPACKHeader) (f g : Facts) : Prop where
  known : h.name ∈ pseudoNames sec
  path : h.name = ascii ":path" → h.value ≠ []
  new : seen f h.name = false
  early : f.regularSeen = false
  regular : g.regularSeen = f.regularSeen
  contentLength : g.contentLength = f.contentLength
  isHead : g.isHead = f.isHead
  status : g.status ≠ f.status → 100 ≤ g.status ∧ g.status ≤ 599
  seen : ∀ name, seen g name = (name == h.name || seen f name)
  method : g.method = if h.name = ascii ":method" then some h.value else f.method

theorem checkPseudo_noted (hc : checkPseudo sec h f = some g) : Noted sec h f g := by
  simp only [checkPseudo] at hc
  split at hc
  · cases hc
  rename_i hearly
  simp only [Bool.or_eq_true, not_or, Bool.not_eq_true] at hearly
  obtain ⟨htrailers, hregular⟩ := hearly
  split at hc
  · rename_i hresponse
    have hsec : sec = .response := by
      revert htrailers hresponse
      cases sec <;> decide
    subst hsec
    split at hc
    · cases hc
    rename_i hnew
    simp only [Bool.or_eq_true, bne_iff_ne, not_or, not_not] at hnew
    obtain ⟨⟨hname, hzero⟩, _⟩ := hnew
    split at hc
    · cases hc
    split at hc
    · cases hc
    rename_i code _ hrange
    cases hc
    have hcode : code ≠ 0 := by omega
    refine ⟨by simp [hname, pseudoNames], ?_, ?_, hregular, rfl, rfl, rfl, ?_, ?_, ?_⟩
    · simp +decide [hname]
    · simp +decide [seen, hname, hzero]
    · intro _
      simp only
      omega
    · intro name
      by_cases hn : name = ascii ":status"
      · simp +decide [seen, hn, hname, hcode]
      · simp [seen, hn, hname]
    · simp +decide [hname]
  rename_i hrequest
  have hsec : sec = .request := by
    revert htrailers hrequest
    cases sec <;> decide
  subst hsec
  split_ifs at hc with hname hnew hname hnew hname hnew hname hnew <;> cases hc
  -- each of the four fields is noted by its own fact, and only once
  all_goals
    simp only [Bool.or_eq_true, not_or, Bool.not_eq_true] at hnew
    refine ⟨by simp [hname, pseudoNames], ?_, ?_, hregular, rfl, rfl, rfl, nofun, fun name => ?_, ?_⟩
    · simp_all +decide
    · simp +decide [seen, hname, hnew]
    · by_cases hn : name = h.name
      · simp +decide [seen, hn, hname]
      · rw [hname] at hn ⊢
        simp [seen, hn]
    · simp +decide [hname]

theorem checkRegular_spec (hc : checkRegular sec h f = some g) :
    isConnectionField h.name = false ∧ (h.name = ascii "te" → h.value = ascii "trailers") ∧
      g = { f with regularSeen := true, contentLength := g.contentLength } ∧
      (h.name = ascii "content-length" →
        ∃ k, parseDigits h.value = some k ∧ g.contentLength = some k) ∧
      ∀ k, f.contentLength = some k → g.contentLength = some k := by
  simp only [checkRegular] at hc
  split at hc
  · cases hc
  rename_i hconn
  split at hc
  · cases hc
  rename_i hte
  have hte : h.name = ascii "te" → h.value = ascii "trailers" := by
    intro hname
    by_contra hne
    exact hte ⟨hname, .inr hne⟩
  refine ⟨by simpa using hconn, hte, ?_⟩
  split at hc
  · split at hc
    · cases hc
    rename_i k hk
    split at hc
    · cases hc
    rename_i hsame
    cases hc
    refine ⟨rfl, fun _ => ⟨k, hk, rfl⟩, ?_⟩
    intro j hj
    rw [hj] at hsame
    have heq : j = k := by simpa using hsame
    rw [heq]
  · rename_i hname
    cases hc
    exact ⟨rfl, fun h => absurd h hname, fun _ hk => hk⟩

/-! ## All fields -/

/-- What the loop of `validate_fields` knows behind the first fields. -/
structure Checked (sec : Section) (fields : List HPACKHeader) (f : Facts) : Prop where
  rules : Rules sec fields
  regular : f.regularSeen = false → ∀ h ∈ fields, IsPseudo h
  seen : ∀ h ∈ fields, IsPseudo h → seen f h.name = true
  has : ∀ name, FieldRules.seen f name → Has fields name
  method : ∀ v, f.method = some v → ∃ h ∈ fields, h.name = ascii ":method" ∧ h.value = v
  length : Declares fields f.contentLength
  status : f.status = 0 ∨ 100 ≤ f.status ∧ f.status ≤ 599
  isHead : f.isHead = false

theorem checked_nil : Checked sec [] {} := by
  refine ⟨⟨nofun, .nil, .nil⟩, nofun, nofun, ?_, nofun, nofun, .inl rfl, rfl⟩
  intro name hname
  simp [seen] at hname

theorem Rules.snoc (hr : Rules sec fields) (hh : Lawful sec h)
    (hfirst : IsPseudo h → ∀ a ∈ fields, IsPseudo a)
    (honce : IsPseudo h → ∀ a ∈ fields, a.name ≠ h.name) : Rules sec (fields ++ [h]) := by
  refine ⟨?_, ?_, ?_⟩
  · intro a ha
    rcases mem_append.mp ha with ha | ha
    · exact hr.each a ha
    · rw [mem_singleton.mp ha]
      exact hh
  · refine pairwise_append.mpr ⟨hr.first, pairwise_singleton _ _, ?_⟩
    intro a ha b hb
    rw [mem_singleton.mp hb]
    exact fun hp => hfirst hp a ha
  refine pairwise_append.mpr ⟨hr.once, pairwise_singleton _ _, ?_⟩
  intro a ha b hb
  rw [mem_singleton.mp hb]
  exact fun hp => honce hp a ha

theorem not_pseudo_name (hp : IsPseudo h) :
    isConnectionField h.name = false ∧ h.name ≠ ascii "te" ∧ h.name ≠ ascii "content-length" := by
  have hne : ∀ n : Bytes, n.head? ≠ some COLON → h.name ≠ n := fun n hn heq => hn (heq ▸ hp)
  refine ⟨?_, hne _ (by decide), hne _ (by decide)⟩
  simp only [isConnectionField, Bool.or_eq_false_iff, beq_eq_false_iff_ne]
  exact ⟨⟨⟨⟨hne _ (by decide), hne _ (by decide)⟩, hne _ (by decide)⟩, hne _ (by decide)⟩,
    hne _ (by decide)⟩

theorem Has.snoc {name} (hh : Has fields name) : Has (fields ++ [h]) name := by
  obtain ⟨a, ha, rfl⟩ := hh
  exact ⟨a, mem_append_left _ ha, rfl⟩

theorem mem_snoc : h ∈ fields ++ [h] := mem_append_right _ (mem_singleton_self h)

theorem Checked.pseudo (hc : Checked sec fields f) (hname : validName h.name)
    (hp : IsPseudo h) (hn : Noted sec h f g) : Checked sec (fields ++ [h]) g := by
  obtain ⟨hconn, hte, hlength⟩ := not_pseudo_name hp
  obtain ⟨hnonempty, hlower⟩ := validName_lower hname
  refine ⟨?_, ?_, ?_, ?_, ?_, ?_, ?_, hn.isHead.trans hc.isHead⟩
  · refine hc.rules.snoc ⟨hnonempty, hlower, fun _ => hn.known, hn.path, hconn,
      fun h => absurd h hte⟩ (fun _ => hc.regular hn.early) ?_
    intro _ a ha heq
    have hseen := hc.seen a ha (heq ▸ hp : a.name.head? = some COLON)
    rw [heq, hn.new] at hseen
    cases hseen
  · intro _ a ha
    rcases mem_append.mp ha with ha | ha
    · exact hc.regular hn.early a ha
    · rwa [mem_singleton.mp ha]
  · intro a ha hpa
    rw [hn.seen]
    rcases mem_append.mp ha with ha | ha
    · simp [hc.seen a ha hpa]
    · simp [mem_singleton.mp ha]
  · intro name hseen
    rw [hn.seen, Bool.or_eq_true, beq_iff_eq] at hseen
    rcases hseen with rfl | hseen
    · exact ⟨h, mem_snoc, rfl⟩
    · exact (hc.has name hseen).snoc
  · intro v hv
    rw [hn.method] at hv
    split at hv
    · rename_i hm
      exact ⟨h, mem_snoc, hm, Option.some.inj hv⟩
    · obtain ⟨a, ha, hav⟩ := hc.method v hv
      exact ⟨a, mem_append_left _ ha, hav⟩
  · intro a ha hal
    rw [hn.contentLength]
    rcases mem_append.mp ha with ha | ha
    · exact hc.length a ha hal
    · rw [mem_singleton.mp ha] at hal
      exact absurd hal hlength
  by_cases hs : g.status = f.status
  · rw [hs]
    exact hc.status
  · exact .inr (hn.status hs)

theorem Checked.regularField (hc : Checked sec fields f) (hname : validName h.name)
    (hp : ¬ IsPseudo h) (hr : checkRegular sec h f = some g) : Checked sec (fields ++ [h]) g := by
  obtain ⟨hconn, hte, hg, hlength, hkeep⟩ := checkRegular_spec hr
  obtain ⟨hnonempty, hlower⟩ := validName_lower hname
  have hseen : ∀ name, FieldRules.seen g name = FieldRules.seen f name := by
    intro name
    rw [hg]
    rfl
  refine ⟨?_, ?_, ?_, ?_, ?_, ?_, ?_, ?_⟩
  · refine hc.rules.snoc ⟨hnonempty, hlower, fun h => absurd h hp, ?_, hconn, hte⟩
      (fun h => absurd h hp) fun h => absurd h hp
    intro hpath
    exact absurd (by rw [IsPseudo, hpath]; decide) hp
  · intro hregular
    rw [hg] at hregular
    cases hregular
  · intro a ha hpa
    rw [hseen]
    rcases mem_append.mp ha with ha | ha
    · exact hc.seen a ha hpa
    · rw [mem_singleton.mp ha] at hpa
      exact absurd hpa hp
  · intro name hname
    exact (hc.has name ((hseen name).symm.trans hname)).snoc
  · intro v hv
    rw [hg] at hv
    obtain ⟨a, ha, hav⟩ := hc.method v hv
    exact ⟨a, mem_append_left _ ha, hav⟩
  · intro a ha hal
    rcases mem_append.mp ha with ha | ha
    · obtain ⟨k, hk, hfk⟩ := hc.length a ha hal
      exact ⟨k, hk, hkeep k hfk⟩
    · rw [mem_singleton.mp ha] at hal ⊢
      exact hlength hal
  · rw [hg]
    exact hc.status
  · rw [hg]
    exact hc.isHead

theorem Checked.step (hc : Checked sec fields f) (hg : checkField sec h f = some g) :
    Checked sec (fields ++ [h]) g := by
  simp only [checkField] at hg
  split at hg
  · cases hg
  split at hg
  · cases hg
  rename_i hvalid
  have hname : validName h.name := by
    simp only [Bool.or_eq_true, not_or, Bool.not_eq_true, Bool.not_eq_false'] at hvalid
    exact hvalid.1
  split at hg
  · rename_i hp
    exact hc.pseudo hname hp (checkPseudo_noted hg)
  · rename_i hp
    exact hc.regularField hname hp hg

theorem Checked.run (rest : List HPACKHeader) :
    ∀ (fields : List HPACKHeader) (f : Facts), Checked sec fields f →
      checkFields sec rest f = some g → Checked sec (fields ++ rest) g := by
  induction rest with
  | nil =>
    intro fields f hc hg
    cases hg
    rwa [append_nil]
  | cons h rest ih =>
    intro fields f hc hg
    obtain ⟨f', hf', hrest⟩ := Option.bind_eq_some_iff.mp hg
    have := ih (fields ++ [h]) f' (hc.step hf') hrest
    rwa [append_assoc] at this

variable {facts : Facts}

/-- The checks behind the loop: `f` is what the loop found, `facts` the result. -/
structure Accepted (sec : Section) (f facts : Facts) : Prop where
  same : { facts with isHead := f.isHead } = f
  status : sec = .response → f.status ≠ 0
  request : sec = .request →
    f.method = some (ascii "CONNECT") ∧ f.authority ∧ f.scheme = false ∧ f.path = false ∧
        facts.isHead = f.isHead ∨
      f.method.isSome ∧ f.scheme ∧ f.path ∧
        facts.isHead = decide (f.method = some (ascii "HEAD"))

theorem validateFields_accepted (hv : validateFields sec fields = some facts) :
    ∃ f, checkFields sec fields {} = some f ∧ Accepted sec f facts := by
  simp only [validateFields] at hv
  split at hv
  · cases hv
  rename_i f hf
  refine ⟨f, hf, ?_⟩
  split at hv
  · cases hv
  split at hv
  · rename_i htrailers
    cases hv
    refine ⟨rfl, ?_, ?_⟩ <;> rintro rfl <;> cases htrailers
  split at hv
  · rename_i hresponse
    split at hv
    · cases hv
    rename_i hstatus
    cases hv
    refine ⟨rfl, fun _ => hstatus, ?_⟩
    rintro rfl
    cases hresponse
  rename_i hrequest
  have hnot : sec ≠ .response := by
    rintro rfl
    exact hrequest rfl
  split at hv
  · rename_i hconnect
    split at hv
    · rename_i hparts
      simp only [Bool.and_eq_true, Bool.not_eq_true'] at hparts
      obtain ⟨⟨hauthority, hscheme⟩, hpath⟩ := hparts
      cases hv
      exact ⟨rfl, fun h => absurd h hnot,
        fun _ => .inl ⟨hconnect, hauthority, hscheme, hpath, rfl⟩⟩
    · cases hv
  split at hv
  · rename_i hparts
    simp only [Bool.and_eq_true] at hparts
    obtain ⟨⟨hmethod, hscheme⟩, hpath⟩ := hparts
    cases hv
    exact ⟨rfl, fun h => absurd h hnot, fun _ => .inr ⟨hmethod, hscheme, hpath, rfl⟩⟩
  · cases hv

theorem checkFields_checked (hf : checkFields sec fields {} = some f) : Checked sec fields f :=
  Checked.run fields [] {} checked_nil hf

theorem validateFields_length (hv : validateFields sec fields = some facts) :
    Declares fields facts.contentLength := by
  obtain ⟨f, hf, hacc⟩ := validateFields_accepted hv
  have hlength := (checkFields_checked hf).length
  rw [← hacc.same] at hlength
  exact hlength

/-- **A request that passes keeps the rules.** -/
theorem validateFields_request (hv : validateFields .request fields = some facts) :
    RequestRules fields := by
  obtain ⟨f, hf, hacc⟩ := validateFields_accepted hv
  have hc := checkFields_checked hf
  have hnot : ∀ name, name.head? = some COLON → seen f name = false → ¬ Has fields name := by
    rintro name hp hunseen ⟨h, hh, rfl⟩
    rw [hc.seen h hh hp] at hunseen
    cases hunseen
  refine ⟨hc.rules, ?_⟩
  rcases hacc.request rfl with ⟨hconnect, hauthority, hscheme, hpath, -⟩ |
    ⟨hmethod, hscheme, hpath, -⟩
  · refine .inl ⟨hc.method _ hconnect, hc.has _ ?_, hnot _ (by decide) ?_, hnot _ (by decide) ?_⟩
    · simpa +decide [seen] using hauthority
    · simpa +decide [seen] using hscheme
    · simpa +decide [seen] using hpath
  refine .inr ⟨hc.has _ ?_, hc.has _ ?_, hc.has _ ?_⟩
  · simpa +decide [seen] using hmethod
  · simpa +decide [seen] using hscheme
  · simpa +decide [seen] using hpath

def IsHead (fields : List HPACKHeader) : Prop :=
  ∃ h ∈ fields, h.name = ascii ":method" ∧ h.value = ascii "HEAD"

theorem validateFields_isHead (hv : validateFields .request fields = some facts)
    (hh : facts.isHead) : IsHead fields := by
  obtain ⟨f, hf, hacc⟩ := validateFields_accepted hv
  have hc := checkFields_checked hf
  rcases hacc.request rfl with ⟨_, _, _, _, hsame⟩ | ⟨_, _, _, hmethod⟩
  · rw [hsame, hc.isHead] at hh
    cases hh
  · rw [hmethod] at hh
    exact hc.method _ (of_decide_eq_true hh)

theorem validateFields_status (hv : validateFields .response fields = some facts) :
    100 ≤ facts.status ∧ facts.status ≤ 599 := by
  obtain ⟨f, hf, hacc⟩ := validateFields_accepted hv
  have hstatus := (checkFields_checked hf).status.resolve_left (hacc.status rfl)
  rw [← hacc.same] at hstatus
  exact hstatus

end BoltApi.Http2.FieldRules
