import BoltApi.Neo4j.Steps

/-! # Work only for the authenticated

The executor works for a client that was authenticated and has not logged off since,
as long as no RESET arrives before that and, where HELLO authenticates, no HELLO comes
without its dictionary. -/
namespace BoltApi.Neo4j
open Octets Lib.History PackStream List

def grantStep (g : Bool) : Event → Bool
  | .authenticate _ _ _ granted => g || granted
  | .message m => g && signatureOf m != some .logoff
  | _ => g

/-- `authenticate` returned true and no LOGOFF has come since. -/
def granted (log : List Event) : Bool := log.foldl grantStep false

def Event.isWork : Event → Bool
  | .message _ => false
  | .authenticate .. => false
  | _ => true

/-- The call is allowed behind the events before it. -/
def Allowed (before : List Event) (e : Event) : Prop := e.isWork → granted before

/-- A message that does not get round authentication. -/
def Proper (version : Version) (before : List Event) : Event → Prop
  | .message m =>
    (signatureOf m = some .reset → granted before) ∧
      (version.hasLogon = false → bareHello m = false)
  | _ => True

def State.working (s : State) : Bool :=
  s = .ready ∨ s = .streaming ∨ s = .txReady ∨ s = .txStreaming

variable {c : Connection} {m : PackValue} {s : State} {tx g : Bool} {calls : List Event}

def permits (g : Bool) (e : Event) : Prop := e.isWork → g

theorem runs_work (hcalls : ∀ e ∈ calls, e.isWork) :
    Runs grantStep permits true calls true := by
  induction calls with
  | nil => rfl
  | cons e calls ih =>
    rw [forall_mem_cons] at hcalls
    refine ⟨fun _ => rfl, ?_⟩
    cases e <;> first | exact ih hcalls.2 | cases hcalls.1

theorem Moves.allowed {version} (hinv : c.state.working → g)
    (hv : c.version = version) (hreset : signatureOf m = some .reset → g)
    (hbare : version.hasLogon = false → bareHello m = false) (hmoves : Moves c m s tx calls) :
    ∃ g', Runs grantStep permits g (.message m :: calls) g' ∧ (s.working → g') := by
  have hmessage : permits g (.message m) := nofun
  -- calls of the executor are made in a state behind authentication, or by RESET
  have hwork : g → signatureOf m ≠ some .logoff → (∀ e ∈ calls, e.isWork) →
      ∃ g', Runs grantStep permits g (.message m :: calls) g' ∧ (s.working → g') := by
    intro hg hm hcalls
    have hstep : grantStep g (.message m) := by simp [grantStep, hg, hm]
    exact ⟨true, ⟨hmessage, hstep ▸ runs_work hcalls⟩, fun _ => rfl⟩
  cases hmoves with
  | still s hs =>
    refine ⟨_, ⟨hmessage, rfl⟩, fun hw => ?_⟩
    rcases hs with ⟨rfl, hlogoff⟩ | rfl | rfl
    · have hm : signatureOf m ≠ some .logoff := fun h => by
        rw [hlogoff h] at hw
        cases hw
      simp [grantStep, hinv hw, hm]
    · cases hw
    · cases hw
  | hello hc hm hversion =>
    rw [hv] at hversion
    rw [hbare hversion] at hm
    cases hm
  | granted hc scheme principal credentials =>
    exact ⟨_, ⟨hmessage, nofun, Bool.or_true _⟩, fun _ => rfl⟩
  | denied hc scheme principal credentials => exact ⟨_, ⟨hmessage, nofun, rfl⟩, nofun⟩
  | logoff hm => exact ⟨_, ⟨hmessage, rfl⟩, nofun⟩
  | run hm s hs timeout db cypher params =>
    refine hwork (hinv ?_) (by simp [hm]) (by simp [Event.isWork])
    rcases hs with ⟨hc, -⟩ | ⟨hc, -⟩ | ⟨hc | hc, -⟩ <;> rw [hc] <;> rfl
  | result hm s hs e he =>
    refine hwork (hinv ?_) (by rcases hm with hm | hm <;> simp [hm]) ?_
    · rcases hs with ⟨hc, -⟩ | ⟨hc, -⟩ | ⟨hc | hc, -⟩ <;> rw [hc] <;> rfl
    · rcases he with rfl | ⟨n, rfl⟩ <;> simp [Event.isWork]
  | begun hm hc timeout db =>
    exact hwork (hinv (by rw [hc]; rfl)) (by simp [hm]) (by simp [Event.isWork])
  | notBegun hm hc timeout db =>
    exact hwork (hinv (by rw [hc]; rfl)) (by simp [hm]) (by simp [Event.isWork])
  | ended hm hc s hs e he =>
    refine hwork (hinv (by rw [hc]; rfl)) (by rcases hm with hm | hm <;> simp [hm]) ?_
    rcases he with rfl | ⟨ok, rfl⟩ <;> simp [Event.isWork]
  | reset hm =>
    refine hwork (hreset hm) (by simp [hm]) ?_
    cases c.txOpen <;> simp [Event.isWork]

/-- If every RESET arrives behind a successful authentication without LOGOFF since, and
HELLO before Bolt 5.1 carries its dictionary, every call of the executor stands behind
such an authentication, and so does every state that accepts RUN or BEGIN. -/
theorem work_only_granted (cfg : Config) (connId : Nat) (version : Version) (hosts : List Host)
    (stream : Bytes)
    (hproper : Each (Proper version) (serveLoop cfg hosts stream (greeted connId version)).log) :
    Each Allowed (serveLoop cfg hosts stream (greeted connId version)).log ∧
      ((serveLoop cfg hosts stream (greeted connId version)).conn.state.working = true →
        granted (serveLoop cfg hosts stream (greeted connId version)).log = true) := by
  refine serveLoop_run (I := fun c before => c.state.working = true → granted before)
    (Q := Proper version) ?_ ?_ (fun h => by cases h) rfl each_nil hproper
  · intro c m s tx calls before hinv hv hQ hmoves hbefore
    obtain ⟨g, hrun, hg⟩ := hmoves.allowed hinv hv hQ.1 hQ.2
    obtain ⟨hallowed, hgranted⟩ := Each.runs hbefore hrun
    exact ⟨hallowed, fun c' _ hs _ hw => hgranted.trans (hg (by rw [← hs]; exact hw))⟩
  · intro c c' before _ _ hfailed _ hw
    rw [hfailed] at hw
    cases hw

/-! ## Past the authenticator -/

def strictHost : Host where
  authenticate _ _ _ := false
  beginQuery _ _ := .ok []
  pull _ := ⟨[], .ok false⟩
  beginTx := .ok ()
  commitTx := .ok ()
  queryType := ascii "r"
  stats := []
  sent := true

def Event.isBeginQuery : Event → Bool
  | .beginQuery .. => true
  | _ => false

/-- RUN with a query, behind another message. -/
def thenRun (first : Bytes) : Bytes :=
  frame [first] ++ frame [[0xB3, 0x10, 0x81, 0x78, 0xA0, 0xA0]]

/-- A query is begun though no call of `authenticate` returned true. -/
def Unauthenticated (log : List Event) : Prop :=
  log.any Event.isBeginQuery ∧ log.any Event.granted = false

instance (log : List Event) : Decidable (Unauthenticated log) := inferInstanceAs (Decidable (_ ∧ _))

/-- RESET and then RUN, or HELLO without fields and then RUN on Bolt 4.4, reach the
executor without any successful authentication. -/
theorem reset_and_bare_hello_reach_executor :
    Unauthenticated (serveLoop {} [strictHost, strictHost] (thenRun [0xB0, 0x0F])
      (greeted 0 ⟨5, 4⟩)).log ∧
    Unauthenticated (serveLoop {} [strictHost, strictHost] (thenRun [0xB0, 0x01])
      (greeted 0 ⟨4, 4⟩)).log := by
  decide +kernel

/-- A host that authenticates everybody. -/
def openHost : Host := { strictHost with authenticate := fun _ _ _ => true }

def Event.isReset : Event → Bool
  | .message m => signatureOf m = some .reset
  | _ => false

theorem work_only_granted_logon :
    (serveLoop {} [openHost, openHost] (thenRun [0xB1, 0x6A, 0xA0])
      (greeted 0 ⟨5, 4⟩)).log.any Event.isBeginQuery = true ∧
    Each Allowed (serveLoop {} [openHost, openHost] (thenRun [0xB1, 0x6A, 0xA0])
      (greeted 0 ⟨5, 4⟩)).log := by
  have hreset : ∀ e ∈ (serveLoop {} [openHost, openHost] (thenRun [0xB1, 0x6A, 0xA0])
      (greeted 0 ⟨5, 4⟩)).log, e.isReset = false := by decide +kernel
  refine ⟨by decide +kernel, (work_only_granted {} 0 ⟨5, 4⟩ [openHost, openHost] _ ?_).1⟩
  refine each_of_forall fun e he before => ?_
  cases e with
  | message m =>
    have hm : signatureOf m ≠ some .reset := by simpa [Event.isReset] using hreset _ he
    exact ⟨fun h => absurd h hm, fun h => absurd h (by decide)⟩
  | _ => trivial

end BoltApi.Neo4j
