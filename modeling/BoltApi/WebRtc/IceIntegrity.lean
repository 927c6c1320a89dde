import BoltApi.WebRtc.Ice

/-! # What an inbound message may change in the ICE agent

Two runs of the agent that differ in nothing but octets no verified
MESSAGE-INTEGRITY covers end in the same state, and a message without such a
check changes nothing. The sources give this up in three places: an error
response is acted on without any check, an agent that has no remote password
takes every success response, and an attribute is found behind the check as
well as in front of it. A message is proper when it stays clear of them. -/
namespace BoltApi.WebRtc.Ice
open Octets Wire Stun

/-- What happens to an agent: a datagram arrives, or the application or the
timer drives it, which no datagram has a part in. -/
inductive Input where
  | stun (peer : Sockaddr) (sent : Bool) (data : Bytes)
  | drive (f : FullIceAgent → FullIceAgent)

def InFront (m : Message) (t : Nat) : Prop := m.find t = m.covered.find? (·.type == t)

instance (m : Message) (t : Nat) : Decidable (InFront m t) := inferInstanceAs (Decidable (_ = _))

def requestAttrs : List Nat :=
  [Stun.AttrType.username, AttrType.iceControlling, AttrType.iceControlled, AttrType.priority,
    AttrType.useCandidate]

namespace FullIceAgent

def keyFor (a : FullIceAgent) : Stun.Class → Bytes
  | .request => a.pwd
  | .indication => a.pwd
  | .successResponse => a.remotePwd
  | .errorResponse => a.remotePwd

/-- The octets of a datagram under a MESSAGE-INTEGRITY that verifies. -/
def authenticOctets (hmac : Bytes → Bytes → Bytes) (a : FullIceAgent) (data : Bytes) :
    Option Bytes :=
  match parse data with
  | none => none
  | some m => m.authentic hmac (a.keyFor m.cls)

/-- A message that keeps clear of what the agent does not check. -/
def Proper (hmac : Bytes → Bytes → Bytes) (a : FullIceAgent) (m : Message) : Prop :=
  match m.cls with
  | .request => verifyMessageIntegrity hmac m a.pwd = true → ∀ t ∈ requestAttrs, InFront m t
  | .indication => True
  | .successResponse => a.remotePwd ≠ []
  | .errorResponse =>
    a.pairForTxn m.transactionId ≠ none →
      verifyMessageIntegrity hmac m a.remotePwd ∧ InFront m Stun.AttrType.errorCode

instance (hmac : Bytes → Bytes → Bytes) (a : FullIceAgent) (m : Message) :
    Decidable (a.Proper hmac m) := by
  unfold Proper
  split <;> infer_instance

def step (hmac : Bytes → Bytes → Bytes) (a : FullIceAgent) : Input → FullIceAgent
  | .stun peer sent data => (a.handleStun hmac peer sent data).1
  | .drive f => f a

def run (hmac : Bytes → Bytes → Bytes) (a : FullIceAgent) (l : List Input) : FullIceAgent :=
  l.foldl (step hmac) a

/-- Every datagram of the run is proper when it arrives. -/
def ProperRun (hmac : Bytes → Bytes → Bytes) : FullIceAgent → List Input → Prop
  | _, [] => True
  | a, .stun peer sent data :: l =>
    (∀ m ∈ parse data, a.Proper hmac m) ∧ ProperRun hmac (a.step hmac (.stun peer sent data)) l
  | a, .drive f :: l => ProperRun hmac (f a) l

/-- Two runs that differ in nothing but octets without a verified check: the
datagrams come from the same peers with the same authentic octets, everything
else is the same. -/
def SameAuthentic (hmac : Bytes → Bytes → Bytes) : FullIceAgent → List Input → List Input → Prop
  | _, [], [] => True
  | a, .stun peer sent data :: l, .stun peer' sent' data' :: l' =>
    peer = peer' ∧ sent = sent' ∧ a.authenticOctets hmac data = a.authenticOctets hmac data' ∧
      SameAuthentic hmac (a.step hmac (.stun peer sent data)) l l'
  | a, .drive f :: l, .drive g :: l' => f = g ∧ SameAuthentic hmac (f a) l l'
  | _, _, _ => False

variable {hmac : Bytes → Bytes → Bytes} {a : FullIceAgent} {peer : Sockaddr} {sent : Bool}
  {m m' : Message} {data data' p key : Bytes}

theorem verify_of_authentic (h : m.authentic hmac key = some p) :
    verifyMessageIntegrity hmac m key := by
  unfold Message.authentic at h
  split at h
  · assumption
  · cases h

theorem verify_of_authentic_none (h : m.authentic hmac key = none) :
    verifyMessageIntegrity hmac m key = false := by
  unfold Message.authentic at h
  split at h
  · next hv =>
    -- the check that verified is an attribute of the message
    rw [Option.map_eq_none_iff] at h
    rw [verifyMessageIntegrity, verifyIntegrity, h] at hv
    cases hv
  · next hv => simpa using hv

theorem onMessage_unauthentic (hm : a.Proper hmac m) (h : m.authentic hmac (a.keyFor m.cls) = none) :
    (a.onMessage hmac peer sent m).1 = a := by
  have hv := verify_of_authentic_none h
  unfold onMessage
  split
  · rfl
  unfold Proper at hm
  cases hc : m.cls with
  | request =>
    simp only [hc, keyFor] at hv
    have hauth : requestAuthed hmac a m = false := by
      unfold requestAuthed
      split
      · rfl
      · rw [hv, Bool.and_false]
    simp only [onRequest, if_pos hauth]
  | indication => rfl
  | successResponse =>
    simp only [hc, keyFor] at hv hm
    simp only [onResponse, hc]
    split
    · rfl
    rw [if_neg (by decide)]
    split
    · rfl
    · rw [onSuccessResponse, if_pos ⟨hm, hv⟩]
  | errorResponse =>
    simp only [hc, keyFor] at hv hm
    simp only [onResponse]
    split
    · rfl
    next i hi =>
    rw [hi] at hm
    rw [(hm nofun).1] at hv
    cases hv

theorem value_eq {t}
    (hcov : m.covered.map (fun a => (a.type, a.value)) = m'.covered.map fun a => (a.type, a.value))
    (h : InFront m t) (h' : InFront m' t) : m.value t = m'.value t := by
  rw [value_covered h, value_covered h', hcov]

theorem onRequest_congr (hv : verifyMessageIntegrity hmac m a.pwd = verifyMessageIntegrity hmac m' a.pwd)
    (h : ∀ t ∈ requestAttrs, m.value t = m'.value t) :
    a.onRequest hmac peer sent m = a.onRequest hmac peer sent m' := by
  have hauth : requestAuthed hmac a m = requestAuthed hmac a m' := by
    rw [requestAuthed, requestAuthed, h _ (by decide), hv]
  have hrole : ∀ b : FullIceAgent, b.resolveRoleConflict m = b.resolveRoleConflict m' := fun b => by
    simp only [resolveRoleConflict, h AttrType.iceControlling (by decide),
      h AttrType.iceControlled (by decide)]
  have hpri : inboundPriority m = inboundPriority m' := by
    rw [inboundPriority, inboundPriority, h _ (by decide)]
  simp only [onRequest, hauth, hrole, hpri, h AttrType.useCandidate (by decide)]

theorem onMessage_authentic (hparse : parse data = some m) (hparse' : parse data' = some m')
    (hm : a.Proper hmac m) (hm' : a.Proper hmac m') (h : m.authentic hmac (a.keyFor m.cls) = some p)
    (h' : m'.authentic hmac (a.keyFor m'.cls) = some p) :
    a.onMessage hmac peer sent m = a.onMessage hmac peer sent m' := by
  obtain ⟨hcls, hmethod, htxn, hcov⟩ := parse_authentic hparse h
  obtain ⟨hcls', hmethod', htxn', hcov'⟩ := parse_authentic hparse' h'
  have hv := verify_of_authentic h
  have hv' := verify_of_authentic h'
  have hclass : m'.cls = m.cls := hcls'.trans hcls.symm
  have htx : m'.transactionId = m.transactionId := htxn'.trans htxn.symm
  have hvalue : ∀ t, InFront m t → InFront m' t → m.value t = m'.value t := fun t =>
    value_eq (hcov.trans hcov'.symm)
  unfold Proper at hm hm'
  simp only [onMessage, hmethod'.trans hmethod.symm, hclass]
  split
  · rfl
  cases hc : m.cls with
  | request =>
    simp only [hclass, hc, keyFor] at hv hv' hm hm'
    exact onRequest_congr (hv.trans hv'.symm) fun t ht => hvalue t (hm hv t ht) (hm' hv' t ht)
  | indication => rfl
  | successResponse =>
    simp only [hclass, hc, keyFor] at hv hv'
    simp only [onResponse, onSuccessResponse, htx, hclass, hc, hv, hv']
    rfl
  | errorResponse =>
    simp only [hclass, hc, htx] at hm hm'
    simp only [onResponse, htx, hclass, hc]
    split
    · rfl
    next i hi =>
    rw [hi] at hm hm'
    have hcode : isRoleConflict m = isRoleConflict m' := by
      rw [isRoleConflict, isRoleConflict, hvalue _ (hm (Option.some_ne_none i)).2 (hm' (Option.some_ne_none i)).2]
    simp only [↓reduceIte, onErrorResponse, hcode]

theorem handleStun_unauthentic (hm : ∀ m ∈ parse data, a.Proper hmac m)
    (h : a.authenticOctets hmac data = none) : (a.handleStun hmac peer sent data).1 = a := by
  unfold authenticOctets at h
  unfold handleStun
  cases hp : parse data with
  | none => rfl
  | some m =>
    rw [hp] at h
    exact onMessage_unauthentic (hm m hp) h

theorem handleStun_authentic (hm : ∀ m ∈ parse data, a.Proper hmac m)
    (hm' : ∀ m ∈ parse data', a.Proper hmac m)
    (h : a.authenticOctets hmac data = a.authenticOctets hmac data') :
    (a.handleStun hmac peer sent data).1 = (a.handleStun hmac peer sent data').1 := by
  cases hp : a.authenticOctets hmac data with
  | none => rw [handleStun_unauthentic hm hp, handleStun_unauthentic hm' (h ▸ hp)]
  | some p =>
    have hp' := h ▸ hp
    unfold authenticOctets at hp hp'
    split at hp
    · cases hp
    next m hparse =>
    split at hp'
    · cases hp'
    · next m' hparse' =>
      simp only [handleStun, hparse, hparse',
        onMessage_authentic hparse hparse' (hm m hparse) (hm' m' hparse') hp hp']

/-- Runs of proper datagrams: what no verified MESSAGE-INTEGRITY covers has no
effect, so two runs with the same authentic octets end in the same agent, and
a datagram without authentic octets leaves the agent as it was. -/
theorem run_authentic (l l' : List Input) (hl : ProperRun hmac a l) (hl' : ProperRun hmac a l')
    (h : SameAuthentic hmac a l l') :
    run hmac a l = run hmac a l' ∧
      ∀ (b : FullIceAgent) (peer : Sockaddr) (sent : Bool) (data : Bytes),
        (∀ m ∈ parse data, b.Proper hmac m) → b.authenticOctets hmac data = none →
          run hmac b [.stun peer sent data] = b := by
  refine ⟨?_, fun b peer sent data hm hd => handleStun_unauthentic hm hd⟩
  induction l generalizing a l' with
  | nil =>
    cases l' with
    | nil => rfl
    | cons => exact h.elim
  | cons i l ih =>
    cases i with
    | stun peer sent data =>
      cases l' with
      | nil => exact h.elim
      | cons j l' =>
        cases j with
        | drive => exact h.elim
        | stun peer' sent' data' =>
          obtain ⟨rfl, rfl, hsame, hrest⟩ := h
          have hstep : a.step hmac (.stun peer sent data) = a.step hmac (.stun peer sent data') :=
            handleStun_authentic hl.1 hl'.1 hsame
          have hnext := hl'.2
          rw [← hstep] at hnext
          rw [run, List.foldl_cons, run, List.foldl_cons, ← hstep]
          exact ih l' hl.2 hnext hrest
    | drive f =>
      cases l' with
      | nil => exact h.elim
      | cons j l' =>
        cases j with
        | stun => exact h.elim
        | drive g =>
          obtain ⟨rfl, hrest⟩ := h
          exact ih l' hl hl' hrest

end FullIceAgent

/-! ## One check in flight -/

def checkedPeer : Sockaddr := .inet 5000 0x7F000001

def checkTxn : Bytes := List.replicate 12 7

/-- A controlling agent with one pair whose check is under way. -/
def checking : FullIceAgent :=
  { role := .controlling
    tiebreaker := 5
    ufrag := ascii "abcd"
    pwd := ascii "0123456789012345678901"
    remoteUfrag := ascii "wxyz"
    remotePwd := ascii "1098765432109876543210"
    locals := [⟨100, .inet 4000 0x7F000001⟩]
    remotes := [⟨100, checkedPeer⟩]
    pairs := [⟨0, 0, 1, .inProgress, false, false, some checkTxn, 0, 0⟩] }

/-- A Binding message of a type in the transaction of that check. -/
def bindingMessage (type : Nat) (attrs : Bytes) : Bytes := frame type checkTxn attrs

/-- USERNAME and a MESSAGE-INTEGRITY that verifies. -/
def keyedAttrs : Bytes :=
  wr16 Stun.AttrType.username ++ wr16 6 ++ ascii "abcd:x" ++ [0, 0] ++ zeroIntegrity

theorem run_authentic_fingerprint :
    FullIceAgent.run zeroHmac checking
        [.stun checkedPeer true (bindingMessage 0x0001 (keyedAttrs ++ [0x80, 0x28, 0, 4, 1, 2, 3, 4]))] =
      FullIceAgent.run zeroHmac checking [.stun checkedPeer true (bindingMessage 0x0001 keyedAttrs)] :=
  (FullIceAgent.run_authentic
    [.stun checkedPeer true (bindingMessage 0x0001 (keyedAttrs ++ [0x80, 0x28, 0, 4, 1, 2, 3, 4]))]
    [.stun checkedPeer true (bindingMessage 0x0001 keyedAttrs)]
    (show FullIceAgent.ProperRun zeroHmac checking _ from ⟨by decide +kernel, trivial⟩)
    ⟨by decide +kernel, trivial⟩ ⟨rfl, rfl, by decide +kernel, trivial⟩).1

/-- An error response that carries no check turns the role around and puts the
pair back; USE-CANDIDATE behind the check nominates, though the octets under
the check are those of a request without it. -/
theorem unauthenticated_error_turns_role :
    checking.authenticOctets zeroHmac (bindingMessage 0x0111 [0, 9, 0, 4, 0, 0, 4, 87]) = none ∧
    (checking.handleStun zeroHmac checkedPeer true
      (bindingMessage 0x0111 [0, 9, 0, 4, 0, 0, 4, 87])).1.role = .controlled ∧
    (checking.handleStun zeroHmac checkedPeer true
      (bindingMessage 0x0111 [0, 9, 0, 4, 0, 0, 4, 87])).1.pairs.map (·.state) = [.waiting] ∧
    checking.authenticOctets zeroHmac (bindingMessage 0x0001 (keyedAttrs ++ [0, 0x25, 0, 0])) =
      checking.authenticOctets zeroHmac (bindingMessage 0x0001 keyedAttrs) ∧
    (checking.handleStun zeroHmac checkedPeer true
      (bindingMessage 0x0001 keyedAttrs)).1.haveNominated = false ∧
    (checking.handleStun zeroHmac checkedPeer true
      (bindingMessage 0x0001 (keyedAttrs ++ [0, 0x25, 0, 0]))).1.haveNominated = true := by
  decide +kernel

end BoltApi.WebRtc.Ice
