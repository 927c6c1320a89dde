import BoltApi.Neo4j.Steps

/-! # Transactions are bracketed

`begin_tx` is called only while no transaction is open and every transaction is ended
once, by `commit_tx` or `rollback_tx`, before the connection is over, as long as no
LOGOFF arrives inside a transaction. -/
namespace BoltApi.Neo4j
open Octets Lib.History PackStream List

def txStep (opened : Bool) : Event → Bool
  | .beginTx ok => opened || ok
  | .commitTx _ => false
  | .rollbackTx => false
  | _ => opened

/-- A transaction was begun and neither committed nor rolled back since. -/
def inTx (log : List Event) : Bool := log.foldl txStep false

/-- Begin only outside a transaction, end only inside one. -/
def Bracketed (before : List Event) : Event → Prop
  | .beginTx _ => inTx before = false
  | .commitTx _ => inTx before = true
  | .rollbackTx => inTx before = true
  | _ => True

def Orderly (before : List Event) : Event → Prop
  | .message m => signatureOf m = some .logoff → inTx before = false
  | _ => True

def bracket (opened : Bool) : Event → Prop
  | .beginTx _ => opened = false
  | .commitTx _ => opened = true
  | .rollbackTx => opened = true
  | _ => True

theorem bracketed_eq : Bracketed = fun before e => bracket (inTx before) e := by
  funext before e
  cases e <;> rfl

def State.agrees (tx : Bool) : State → Bool
  | .txReady | .txStreaming => tx
  | .failed | .defunct => true
  | _ => !tx

structure TxInv (c : Connection) (before : List Event) : Prop where
  flag : inTx before = c.txOpen
  agree : c.state.agrees c.txOpen

variable {c : Connection} {m : PackValue} {s : State} {tx : Bool} {calls : List Event}

theorem Moves.bracketed (hmoves : Moves c m s tx calls) (h : c.state.agrees c.txOpen)
    (hq : signatureOf m = some .logoff → c.txOpen = false) :
    Runs txStep bracket c.txOpen (.message m :: calls) tx ∧ s.agrees tx := by
  -- in the states with a transaction or without one the flag is known
  have hflag : ∀ {s}, c.state = s → s.agrees c.txOpen := fun hc => hc ▸ h
  cases hmoves with
  | still s hs =>
    refine ⟨⟨trivial, rfl⟩, ?_⟩
    rcases hs with ⟨rfl, -⟩ | rfl | rfl
    · exact h
    · rfl
    · rfl
  | hello hc hm hv => exact ⟨⟨trivial, rfl⟩, (hflag hc :)⟩
  | granted hc scheme principal credentials => exact ⟨⟨trivial, trivial, rfl⟩, (hflag hc :)⟩
  | denied hc scheme principal credentials => exact ⟨⟨trivial, trivial, rfl⟩, rfl⟩
  | logoff hm => exact ⟨⟨trivial, rfl⟩, by rw [hq hm]; rfl⟩
  | run hm s hs timeout db cypher params =>
    refine ⟨⟨trivial, trivial, trivial, rfl⟩, ?_⟩
    rcases hs with ⟨hc, rfl⟩ | ⟨hc, rfl⟩ | ⟨-, rfl⟩
    · exact (hflag hc :)
    · exact (hflag hc :)
    · rfl
  | result hm s hs e he =>
    refine ⟨by rcases he with rfl | ⟨n, rfl⟩ <;> exact ⟨trivial, trivial, rfl⟩, ?_⟩
    rcases hs with ⟨hc, rfl⟩ | ⟨hc, rfl⟩ | ⟨-, rfl | rfl⟩
    · exact (hflag hc :)
    · exact (hflag hc :)
    · exact h
    · rfl
  | begun hm hc timeout db =>
    rw [show c.txOpen = false by simpa [State.agrees] using hflag hc]
    exact ⟨⟨trivial, trivial, rfl, rfl⟩, rfl⟩
  | notBegun hm hc timeout db =>
    rw [show c.txOpen = false by simpa [State.agrees] using hflag hc]
    exact ⟨⟨trivial, trivial, rfl, rfl⟩, rfl⟩
  | ended hm hc s hs e he =>
    have htx : c.txOpen := hflag hc
    refine ⟨?_, by rcases hs with rfl | rfl <;> rfl⟩
    rcases he with rfl | ⟨ok, rfl⟩
    · exact ⟨trivial, htx, rfl⟩
    · exact ⟨trivial, htx, rfl⟩
  | reset hm =>
    refine ⟨?_, rfl⟩
    cases c.txOpen with
    | false => exact ⟨trivial, trivial, rfl⟩
    | true => exact ⟨trivial, trivial, rfl, rfl⟩

/-- The calls of a whole connection in which no LOGOFF arrives inside a transaction are
bracketed, and no transaction is left open at its end. -/
theorem transactions_bracketed (cfg : Config) (connId : Nat) (sent : Bool) (hosts : List Host)
    (stream : Bytes) (horderly : Each Orderly (serveConnection cfg connId sent hosts stream)) :
    Each Bracketed (serveConnection cfg connId sent hosts stream) ∧
      inTx (serveConnection cfg connId sent hosts stream) = false := by
  unfold serveConnection at horderly ⊢
  split
  · exact ⟨each_nil.snoc trivial, rfl⟩
  rename_i version rest hhandshake
  simp only [hhandshake] at horderly ⊢
  have hloop := horderly.of_append.of_append
  rw [bracketed_eq]
  obtain ⟨hbracketed, hinv⟩ := serveLoop_run (v := version) (I := TxInv)
    (P := fun before e => bracket (inTx before) e)
    (fun c m s tx calls before hinv _ hq hmoves hbefore =>
      have h := hmoves.bracketed hinv.agree fun hm => hinv.flag.symm.trans (hq hm)
      have hrun := hbefore.runs (show Runs _ _ (inTx before) _ _ from hinv.flag.symm ▸ h.1)
      ⟨hrun.1, fun c' _ hs ht => ⟨hrun.2.trans ht.symm, by rw [hs, ht]; exact h.2⟩⟩)
    (fun c c' before hinv _ hs ht => ⟨hinv.flag.trans ht.symm, by rw [hs]; rfl⟩)
    (show TxInv (greeted connId version) [] from ⟨rfl, rfl⟩) rfl each_nil hloop
  rw [nil_append] at hbracketed hinv
  have hflag := hinv.flag
  unfold txGuard
  rw [append_assoc]
  refine hbracketed.runs ?_
  rw [show foldl txStep false _ = _ from hflag]
  cases (serveLoop cfg hosts rest (greeted connId version)).conn.txOpen with
  | false => exact ⟨trivial, rfl⟩
  | true => exact ⟨trivial, rfl, trivial, rfl⟩

/-! ## LOGOFF inside a transaction -/

/-- The transaction calls of the executor. -/
inductive TxCall
  | begin (ok : Bool)
  | commit (ok : Bool)
  | rollback
  deriving DecidableEq

def Event.txCall : Event → Option TxCall
  | .beginTx ok => some (.begin ok)
  | .commitTx ok => some (.commit ok)
  | .rollbackTx => some .rollback
  | _ => none

def willingHost : Host where
  authenticate _ _ _ := true
  beginQuery _ _ := .ok []
  pull _ := ⟨[], .ok false⟩
  beginTx := .ok ()
  commitTx := .ok ()
  queryType := ascii "w"
  stats := []
  sent := true

/-- The handshake of a client that speaks Bolt 5.0 to 5.4. -/
def clientHello : Bytes :=
  [0x60, 0x60, 0xB0, 0x17] ++ [0, 4, 4, 5] ++ List.replicate 12 0

def logonMsg : Bytes := [0xB1, 0x6A, 0xA0]
def logoffMsg : Bytes := [0xB0, 0x6B]
def beginMsg : Bytes := [0xB1, 0x11, 0xA0]
def commitMsg : Bytes := [0xB0, 0x12]

/-- BEGIN, LOGOFF, LOGON, BEGIN: the second transaction is begun inside the first. -/
theorem logoff_keeps_transaction :
    (serveConnection {} 0 true (List.replicate 5 willingHost)
      (clientHello ++ [logonMsg, beginMsg, logoffMsg, logonMsg, beginMsg].flatMap
        fun m => frame [m])).filterMap Event.txCall =
      [.begin true, .begin true, .rollback] := by
  decide +kernel

def Event.isLogoff : Event → Bool
  | .message m => signatureOf m = some .logoff
  | _ => false

theorem transactions_bracketed_commit :
    (serveConnection {} 0 true (List.replicate 3 willingHost)
      (clientHello ++ [logonMsg, beginMsg, commitMsg].flatMap
        fun m => frame [m])).filterMap Event.txCall = [.begin true, .commit true] ∧
    Each Bracketed (serveConnection {} 0 true (List.replicate 3 willingHost)
      (clientHello ++ [logonMsg, beginMsg, commitMsg].flatMap fun m => frame [m])) := by
  have hlogoff : ∀ e ∈ serveConnection {} 0 true (List.replicate 3 willingHost)
      (clientHello ++ [logonMsg, beginMsg, commitMsg].flatMap fun m => frame [m]),
      e.isLogoff = false := by decide +kernel
  refine ⟨by decide +kernel, (transactions_bracketed {} 0 true _ _ ?_).1⟩
  refine each_of_forall fun e he before => ?_
  cases e with
  | message m =>
    have hm : signatureOf m ≠ some .logoff := by simpa [Event.isLogoff] using hlogoff _ he
    exact fun h => absurd h hm
  | _ => trivial

end BoltApi.Neo4j
