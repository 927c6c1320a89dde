import BoltApi.Octets
import BoltApi.Lib.BigEndian
import Mathlib.Data.List.Induction

/-! # Serving a PostgreSQL connection

`Protocol::serve_connection` of `proto/postgres_wire_server.cpp` over
`read_exact` of `proto/postgres_wire_internal.h`, as a machine that takes one
poll of the socket at a time. A `recv` that returns several octets is as many
polls that find one. What the session does with a message is the host's.

The idle budget is set once and every idle poll of the connection's life is
taken from it. -/
namespace BoltApi.PgWire.Serving
open Octets Lib.BigEndian List

def kProtocolV3 : Nat := 196608
def kSslRequestCode : Nat := 80877103
def kGssRequestCode : Nat := 80877104
def kCancelCode : Nat := 80877102
def kMaxStartupPairs : Nat := 16
def kMaxUser : Nat := 127

structure Config where
  messageBufferBytes : Nat
  acceptPollMs : Int
  idleTimeoutMs : Int

/-- What one turn of the loop of `read_exact` finds. -/
inductive Poll where
  | stopping
  | failed
  | idle
  | octet (b : UInt8)
deriving DecidableEq

inductive End where
  | idle
  | stopped
  | failed
  | over
deriving DecidableEq

/-- The host of a connection with the state `σ` of its session; a `Bool` is
whether the connection goes on. -/
structure Host (σ : Type) where
  deny : σ → σ × Bool
  requiresPassword : Bool
  challenge : σ → σ × Bool
  authenticate : Bytes → Bytes → Bytes → Bool
  welcome : σ → σ
  query : σ → Bytes → σ
  extended : σ → UInt8 → Bytes → σ × Bool

/-! ## Startup -/

def readCstring : Bytes → Option (Bytes × Bytes)
  | [] => none
  | c :: b => if c = 0 then some ([], b) else (readCstring b).map fun (s, rest) => (c :: s, rest)

/-- The pairs of a StartupMessage, for `left` more of them. -/
def startupPairs : Nat → Bytes → List (Bytes × Bytes)
  | 0, _ => []
  | left + 1, b =>
    match b with
    | [] => []
    | c :: _ =>
      if c = 0 then []
      else
        match readCstring b with
        | none => []
        | some (key, b) =>
          match readCstring b with
          | none => []
          | some (val, b) => (key, val) :: startupPairs left b

def findParam (pairs : List (Bytes × Bytes)) (key : Bytes) : Bytes :=
  (((pairs.find? (·.1 == key)).map (·.2)).getD []).take kMaxUser

/-! ## The connection -/

inductive Phase where
  | startLength (round : Nat)
  | startBody (round length : Nat)
  | passwordHeader (user database : Bytes)
  | password (user database : Bytes) (length : Nat)
  | header
  | body (type : UInt8) (length : Nat)
deriving DecidableEq

def Phase.wanted : Phase → Nat
  | .startLength _ => 4
  | .startBody _ length => length
  | .passwordHeader _ _ => 5
  | .password _ _ length => length
  | .header => 5
  | .body _ length => length

section
variable {σ : Type} (cfg : Config) (host : Host σ)

def dropNul (b : Bytes) : Bytes := if b.getLast? = some 0 then b.dropLast else b

def authed (user database pw : Bytes) (s : σ) : Option (Phase × σ) :=
  if host.authenticate user database pw then some (.header, host.welcome s) else none

/-- The switch over the type of a message. -/
def message (type : UInt8) (b : Bytes) (s : σ) : Option (Phase × σ) :=
  if type = 0x51 then some (.header, host.query s (dropNul b))
  else if (ascii "PBDECHS").contains type then
    match host.extended s type b with
    | (s, true) => some (.header, s)
    | (_, false) => none
  else none

def messageLength (b : Bytes) : Option Nat :=
  let n := loadBe b
  if 2 ^ 31 ≤ n ∨ n < 4 ∨ cfg.messageBufferBytes < n - 4 then none else some (n - 4)

def afterRead (phase : Phase) (got : Bytes) (s : σ) : Option (Phase × σ) :=
  match phase with
  | .startLength round =>
    let n := loadBe got
    if 2 ^ 31 ≤ n ∨ n < 8 ∨ cfg.messageBufferBytes < n then none
    else some (.startBody round (n - 4), s)
  | .startBody round _ =>
    let code := loadBe (got.take 4)
    if code = kSslRequestCode ∨ code = kGssRequestCode then
      match host.deny s with
      | (s, true) => if round + 1 < 3 then some (.startLength (round + 1), s) else none
      | (_, false) => none
    -- a cancel is passed on to the executor; it is answered with nothing
    else if code = kCancelCode then none
    else if code ≠ kProtocolV3 then none
    else
      let pairs := startupPairs kMaxStartupPairs (got.drop 4)
      let user := findParam pairs (ascii "user")
      let database := findParam pairs (ascii "database")
      if host.requiresPassword then
        match host.challenge s with
        | (s, true) => some (.passwordHeader user database, s)
        | (_, false) => none
      else authed host user database [] s
  | .passwordHeader user database =>
    if got.head? ≠ some 0x70 then none
    else
      match messageLength cfg (got.drop 1) with
      | none => none
      | some 0 => authed host user database [] s
      | some n => some (.password user database n, s)
  | .password user database _ => authed host user database (dropNul got) s
  | .header =>
    match got with
    | [] => none
    | type :: b =>
      match messageLength cfg b with
      | none => none
      | some 0 => message host type [] s
      | some n => some (.body type n, s)
  | .body type _ => message host type got s

inductive Conn (σ : Type) where
  | opened (phase : Phase) (got : Bytes) (budget : Int) (s : σ)
  | closed (why : End)
deriving DecidableEq

/-- One turn of the loop of `read_exact`, and what the connection does when the
read is complete. -/
def step (c : Conn σ) (p : Poll) : Conn σ :=
  match c with
  | .closed why => .closed why
  | .opened phase got budget s =>
    match p with
    | .stopping => .closed .stopped
    | .failed => .closed .failed
    | .idle =>
      if budget - cfg.acceptPollMs ≤ 0 then .closed .idle
      else .opened phase got (budget - cfg.acceptPollMs) s
    | .octet b =>
      if (got ++ [b]).length < phase.wanted then .opened phase (got ++ [b]) budget s
      else
        match afterRead cfg host phase (got ++ [b]) s with
        | none => .closed .over
        | some (phase, s) => .opened phase [] budget s

def run (s : σ) (polls : List Poll) : Conn σ :=
  polls.foldl (step cfg host) (.opened (.startLength 0) [] cfg.idleTimeoutMs s)

end

/-! ## Idleness -/

def idles (polls : List Poll) : Nat := polls.count .idle

/-- The idle polls since the last octet. -/
def idlesSinceOctet (polls : List Poll) : Nat := (polls.reverse.takeWhile (· == .idle)).length

variable {σ : Type} {cfg : Config} {host : Host σ} {s : σ} {polls : List Poll}

theorem run_concat (p : Poll) : run cfg host s (polls ++ [p]) = step cfg host (run cfg host s polls) p := by
  rw [run, foldl_concat, ← run]

theorem idles_concat (p : Poll) : idles (polls ++ [p]) = idles polls + if p = .idle then 1 else 0 := by
  rw [idles, count_append, ← idles, count_singleton]
  simp only [beq_iff_eq]

theorem step_budget {phase phase' got got' budget budget' s' p}
    (h : step cfg host (.opened phase got budget s) p = .opened phase' got' budget' s') :
    budget' = budget - (if p = .idle then cfg.acceptPollMs else 0) ∧ (p = .idle → 0 < budget') := by
  cases p with
  | idle =>
    simp only [step] at h
    split at h
    · cases h
    · cases h
      exact ⟨rfl, fun _ => by omega⟩
  | octet b =>
    simp only [step] at h
    split at h
    · cases h
      exact ⟨by simp, nofun⟩
    split at h
    · cases h
    · cases h
      exact ⟨by simp, nofun⟩
  | _ => cases h

theorem run_budget {phase got budget s'} (h : run cfg host s polls = .opened phase got budget s') :
    budget = cfg.idleTimeoutMs - idles polls * cfg.acceptPollMs ∧ (0 < idles polls → 0 < budget) := by
  induction polls using List.reverseRecOn generalizing phase got budget s' with
  | nil =>
    cases h
    simp [idles]
  | append_singleton polls p ih =>
    rw [run_concat] at h
    cases hrun : run cfg host s polls with
    | closed why =>
      rw [hrun] at h
      cases h
    | opened phase₀ got₀ budget₀ s₀ =>
      rw [hrun] at h
      obtain ⟨hbudget, hidle⟩ := step_budget h
      obtain ⟨hbudget₀, hpos⟩ := ih hrun
      rw [idles_concat]
      split at hbudget
      · next hp =>
        rw [hbudget, hbudget₀, if_pos hp]
        rw [Int.natCast_add, Int.natCast_one, Int.add_mul, Int.one_mul]
        refine ⟨by omega, fun _ => ?_⟩
        rw [← hbudget₀, ← hbudget]
        exact hidle hp
      · next hp =>
        rw [hbudget, if_neg hp, Int.sub_zero, Nat.add_zero]
        exact ⟨hbudget₀, hpos⟩

theorem idlesSinceOctet_le (polls : List Poll) : idlesSinceOctet polls ≤ idles polls := by
  have htake : idlesSinceOctet polls = (polls.reverse.takeWhile (· == .idle)).count .idle := by
    refine (count_eq_length.mpr fun p hp => ?_).symm
    have hp := all_eq_true.mp all_takeWhile p hp
    exact (beq_iff_eq.mp hp).symm
  rw [htake, idles]
  exact Nat.le_trans ((takeWhile_sublist _).count_le _) (Nat.le_of_eq count_reverse)

theorem idlesSinceOctet_concat : idlesSinceOctet (polls ++ [.idle]) = idlesSinceOctet polls + 1 := by
  simp [idlesSinceOctet]

/-- A connection that is closed for idleness has been idle for the timeout since
its last octet if and only if it had never been idle before that octet. -/
theorem idle_close_iff {phase : Phase} {got : Bytes} {budget : Int} {s' : σ} (hpoll : 0 < cfg.acceptPollMs)
    (hopen : run cfg host s polls = .opened phase got budget s')
    (hclose : run cfg host s (polls ++ [.idle]) = .closed .idle) :
    cfg.idleTimeoutMs ≤ idlesSinceOctet (polls ++ [.idle]) * cfg.acceptPollMs ↔
      idlesSinceOctet polls = idles polls := by
  obtain ⟨hbudget, hpos⟩ := run_budget hopen
  have hspent : budget - cfg.acceptPollMs ≤ 0 := by
    rw [run_concat, hopen] at hclose
    simp only [step] at hclose
    split at hclose
    · assumption
    · cases hclose
  have hle := idlesSinceOctet_le polls
  rw [idlesSinceOctet_concat, Int.natCast_add, Int.natCast_one, Int.add_mul, Int.one_mul]
  constructor
  · intro hlong
    rcases Nat.eq_or_lt_of_le hle with heq | hlt
    · exact heq
    -- a poll before the last octet makes the budget outlast the polls since
    have hgap : ((idlesSinceOctet polls : Int) + 1) * cfg.acceptPollMs ≤ idles polls * cfg.acceptPollMs :=
      Int.mul_le_mul_of_nonneg_right (by omega) (Int.le_of_lt hpoll)
    have hleft := hpos (by omega)
    rw [Int.add_mul, Int.one_mul] at hgap
    omega
  · intro heq
    rw [heq]
    omega

/-! ## A connection that was idle earlier -/

/-- A host that lets everybody in and ignores every message. -/
def quietHost : Host Unit where
  deny _ := ((), true)
  requiresPassword := false
  challenge _ := ((), true)
  authenticate _ _ _ := true
  welcome _ := ()
  query _ _ := ()
  extended _ _ _ := ((), true)

def shortConfig : Config where
  messageBufferBytes := 8192
  acceptPollMs := 100
  idleTimeoutMs := 200

def octets (b : Bytes) : List Poll := b.map .octet

/-- A StartupMessage without parameters. -/
def startup : List Poll := octets [0, 0, 0, 9, 0, 3, 0, 0, 0]

def sync : List Poll := octets [0x53, 0, 0, 0, 4]

theorem idle_close_quiet :
    run shortConfig quietHost () (startup ++ [.idle] ++ [.idle]) = .closed .idle ∧
      (shortConfig.idleTimeoutMs ≤
        idlesSinceOctet (startup ++ [.idle] ++ [.idle]) * shortConfig.acceptPollMs) := by
  have hopen : run shortConfig quietHost () (startup ++ [.idle]) = .opened .header [] 100 () := by
    decide +kernel
  have hclose : run shortConfig quietHost () (startup ++ [.idle] ++ [.idle]) = .closed .idle := by
    decide +kernel
  exact ⟨hclose, (idle_close_iff (by decide) hopen hclose).mpr (by decide)⟩

/-- A connection that was idle for half of the timeout before a message is
closed when it has been idle for the other half behind it. -/
theorem idle_before_message_counts :
    run shortConfig quietHost () (startup ++ [.idle] ++ sync) = .opened .header [] 100 () ∧
      run shortConfig quietHost () (startup ++ [.idle] ++ sync ++ [.idle]) = .closed .idle ∧
      idlesSinceOctet (startup ++ [.idle] ++ sync ++ [.idle]) * shortConfig.acceptPollMs <
        shortConfig.idleTimeoutMs := by
  decide +kernel

end BoltApi.PgWire.Serving
