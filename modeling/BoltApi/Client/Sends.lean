import BoltApi.Client.Pool
import BoltApi.Client.Exchange

/-! # What sends return

In every run of sends and servers, a connection in the pool has nothing on it,
and one that a send uses has the octets of the answer to this send's request and
no others. That holds as long as the client understands the answers. -/
namespace BoltApi.Client.Pool
open Octets Server Exchange Function List

/-- The connection is in the pool of the upstream at `i`. -/
def State.Holds (s : State) (i : Nat) (fd : Fd) : Prop := ∃ tp, s.targets[i]? = some tp ∧ fd ∈ tp.idle

def Conn.Clean (conn : Conn) : Prop := conn.unread = [] ∧ conn.asked = []

def Call.parser (call : Call) : ResponseParser :=
  match call.phase with
  | .reading p => p
  | _ => {}

def Call.Begun (call : Call) : Prop :=
  match call.phase with
  | .connecting => False
  | .writing sent => sent ≠ 0
  | .reading _ => True

structure Answered (p : ResponseParser) (conn : Conn) (R : Reply) : Prop where
  understood : Understood R
  asked : conn.asked = []
  octets : p.buf ++ conn.unread = R.wire
  waiting : Waiting R p
  closed : R.closes → conn.closed

inductive Serving (id : Nat) (call : Call) (conn : Conn) : Option Reply → Prop
  | fresh : ¬ call.Begun → conn.Clean → Serving id call conn none
  | asked : call.Begun → conn.asked = [(id, call.req.method)] → conn.unread = [] → call.parser = {} →
    Serving id call conn none
  | answered {R : Reply} : call.Begun → Answered call.parser conn R → Serving id call conn (some R)

theorem Serving.not_begun {id call conn answer} (h : Serving id call conn answer)
    (hnot : ¬ call.Begun) : conn.Clean ∧ answer = none := by
  cases h with
  | fresh _ hclean => exact ⟨hclean, rfl⟩
  | asked hb => exact absurd hb hnot
  | answered hb => exact absurd hb hnot

def Right (answer : Option Reply) (resp : ClientResponse) : Prop :=
  resp.ok → ∃ R, answer = some R ∧ resp.status = R.final.code ∧ resp.body = R.body

structure FdSound (s : State) (fd : Fd) : Prop where
  clean : ∀ {i}, s.Holds i fd → ∃ conn, s.conns fd = some conn ∧ conn.Clean
  once : ∀ {i j}, s.Holds i fd → s.Holds j fd → i = j
  owned : ∀ {conn}, s.conns fd = some conn →
    (∃ i, s.Holds i fd) ∨ ∃ id call, s.calls id = some call ∧ call.fd = fd

structure IdSound (s : State) (id : Nat) : Prop where
  active : ∀ {call}, s.calls id = some call →
    (∀ i, ¬ s.Holds i call.fd) ∧ ∃ conn, s.conns call.fd = some conn ∧ Serving id call conn (s.answers id)
  running : ∀ {call}, s.calls id = some call → s.done id = none
  known : ∀ {R}, s.answers id = some R → (∃ call, s.calls id = some call) ∨ ∃ resp, s.done id = some resp
  right : ∀ {resp}, s.done id = some resp → Right (s.answers id) resp

structure Sound (s : State) : Prop where
  fds : ∀ fd, FdSound s fd
  ids : ∀ id, IdSound s id
  nodup : ∀ {i : Nat} {tp : TargetPool}, s.targets[i]? = some tp → tp.idle.Nodup
  single : ∀ {id id' call call'}, s.calls id = some call → s.calls id' = some call' → call.fd = call'.fd →
    id = id'

theorem sound_init : Sound {} where
  fds fd := by
    have hnone : ∀ i, ¬ ({} : State).Holds i fd := by
      rintro i ⟨tp, h, -⟩
      cases h
    exact ⟨fun h => absurd h (hnone _), fun h => absurd h (hnone _), nofun⟩
  ids id := ⟨nofun, nofun, nofun, nofun⟩
  nodup := by intro i tp h; cases h
  single := nofun

structure Next (s s' : State) : Prop where
  sound : Sound s'
  closes : ∀ {id call resp}, s.calls id = some call → s'.done id = some resp → resp.ok = false →
    s'.conns call.fd = none

section

variable {s s' : State} {id : Nat} {call call' : Call} {conn conn' : Conn} {fd : Fd}

/-- What a step does not touch stays sound: the sends outside `P` and the
connections outside `Q`, which those sends use. -/
theorem Sound.frame (h : Sound s) (P : Nat → Prop) (Q : Fd → Prop)
    (hids : ∀ id, ¬ P id → s'.calls id = s.calls id ∧ s'.done id = s.done id ∧ s'.answers id = s.answers id)
    (hfds : ∀ fd, ¬ Q fd → s'.conns fd = s.conns fd ∧ ∀ j, s'.Holds j fd ↔ s.Holds j fd)
    (hold : ∀ {id call}, s.calls id = some call → (P id ↔ Q call.fd))
    (hnew : ∀ {id call}, P id → s'.calls id = some call → Q call.fd)
    (hone : ∀ {id id'}, P id → P id' → id = id')
    (hnodup : ∀ {i : Nat} {tp : TargetPool}, s'.targets[i]? = some tp → tp.idle.Nodup)
    (hP : ∀ id, P id → IdSound s' id) (hQ : ∀ fd, Q fd → FdSound s' fd)
    (hclose : ∀ {id call resp}, P id → s.calls id = some call → s'.done id = some resp → resp.ok = false →
      s'.conns call.fd = none) : Next s s' := by
  have hside : ∀ {id call}, s'.calls id = some call → (P id ↔ Q call.fd) := by
    intro id call hc
    by_cases hp : P id
    · exact ⟨fun _ => hnew hp hc, fun _ => hp⟩
    · exact hold ((hids id hp).1 ▸ hc)
  refine ⟨⟨fun fd => ?_, fun id => ?_, hnodup, ?_⟩, fun {id call resp} hc hd hf => ?_⟩
  · by_cases hq : Q fd
    · exact hQ fd hq
    obtain ⟨hconn, hholds⟩ := hfds fd hq
    refine ⟨fun hh => hconn ▸ (h.fds fd).clean ((hholds _).mp hh),
      fun hi hj => (h.fds fd).once ((hholds _).mp hi) ((hholds _).mp hj), fun hc => ?_⟩
    rcases (h.fds fd).owned (hconn ▸ hc) with ⟨i, hi⟩ | ⟨id, call, hcall, rfl⟩
    · exact .inl ⟨i, (hholds i).mpr hi⟩
    · have hp : ¬ P id := fun hp => hq ((hold hcall).mp hp)
      exact .inr ⟨id, call, by rw [(hids id hp).1, hcall], rfl⟩
  · by_cases hp : P id
    · exact hP id hp
    obtain ⟨hcalls, hdone, hans⟩ := hids id hp
    refine ⟨fun hc => ?_, fun hc => hdone ▸ (h.ids id).running (hcalls ▸ hc),
      fun hR => hcalls ▸ hdone ▸ (h.ids id).known (hans ▸ hR), fun hr => hans ▸ (h.ids id).right (hdone ▸ hr)⟩
    obtain ⟨hconn, hholds⟩ := hfds _ (fun hq => hp ((hside hc).mpr hq))
    obtain ⟨hidle, conn, hopen, hserv⟩ := (h.ids id).active (hcalls ▸ hc)
    exact ⟨fun i hi => hidle i ((hholds i).mp hi), conn, hconn ▸ hopen, hans ▸ hserv⟩
  · intro id id' call call' hc hc' heq
    by_cases hp : P id
    · exact hone hp ((hside hc').mpr (heq ▸ (hside hc).mp hp))
    · have hp' : ¬ P id' := fun hp' => hp ((hside hc).mpr (heq ▸ (hside hc').mp hp'))
      exact h.single ((hids id hp).1 ▸ hc) ((hids id' hp').1 ▸ hc') heq
  · by_cases hp : P id
    · exact hclose hp hc hd hf
    · exact nomatch ((h.ids id).running hc).symm.trans ((hids id hp).2.1.symm.trans hd)

theorem Sound.touched (h : Sound s) (hcall : s.calls id = some call) {id' c}
    (hc : s.calls id' = some c) : id' = id ↔ c.fd = call.fd := by
  constructor
  · rintro rfl
    rw [hcall] at hc
    cases hc
    rfl
  · exact fun heq => h.single hc hcall heq

theorem Sound.serving (h : Sound s) (hcall : s.calls id = some call) (hconn : s.conns call.fd = some conn) :
    Serving id call conn (s.answers id) := by
  obtain ⟨-, conn', hconn', hserv⟩ := (h.ids id).active hcall
  rw [hconn] at hconn'
  cases hconn'
  exact hserv

theorem fdSound_used (hnot : ∀ i, ¬ s.Holds i fd) (hcall : s.calls id = some call) (hfd : call.fd = fd) :
    FdSound s fd :=
  ⟨fun hh => absurd hh (hnot _), fun hh => absurd hh (hnot _), fun _ => .inr ⟨id, call, hcall, hfd⟩⟩

theorem Sound.change (h : Sound s) (hcall : s.calls id = some call) (call' : Call) (conn' : Conn)
    {calls conns} (answers : Nat → Option Reply) (hcalls : calls = update s.calls id (some call'))
    (hconns : conns = update s.conns call.fd (some conn')) (hfd : call'.fd = call.fd)
    (hans : ∀ id' ≠ id, answers id' = s.answers id') (hserv : Serving id call' conn' (answers id)) :
    Next s { s with calls, conns, answers } := by
  subst hcalls hconns
  refine h.frame (· = id) (· = call.fd) ?_ ?_ (h.touched hcall) ?_ (fun h₁ h₂ => h₁.trans h₂.symm) h.nodup ?_ ?_
    fun _ hc hd _ => nomatch ((h.ids _).running hc).symm.trans hd
  · exact fun id' hid => ⟨update_of_ne hid _ _, rfl, hans id' hid⟩
  · exact fun fd hfd => ⟨update_of_ne hfd _ _, fun j => Iff.rfl⟩
  · rintro id' c rfl hc
    simp only [update_self, Option.some.injEq] at hc
    rw [← hc, hfd]
  · rintro id' rfl
    refine ⟨fun hc => ?_, fun _ => (h.ids _).running hcall, fun _ => .inl ⟨call', update_self _ _ _⟩,
      fun hdone => ?_⟩
    · simp only [update_self, Option.some.injEq] at hc
      subst hc
      rw [hfd]
      exact ⟨((h.ids _).active hcall).1, conn', update_self _ _ _, hserv⟩
    · have hnone := (h.ids _).running hcall
      simp only [hnone] at hdone
      cases hdone
  · rintro fd rfl
    exact fdSound_used ((h.ids id).active hcall).1 (update_self _ _ _) hfd

variable {resp : ClientResponse}

theorem idSound_finish (hans : s'.answers id = s.answers id)
    (hcalls : s'.calls id = none) (hdone : s'.done id = some resp) (hright : Right (s.answers id) resp) :
    IdSound s' id where
  active hc := by rw [hcalls] at hc; cases hc
  running hc := by rw [hcalls] at hc; cases hc
  known _ := .inr ⟨resp, hdone⟩
  right hr := by
    rw [hdone] at hr
    cases hr
    rw [hans]
    exact hright

theorem Sound.leave (h : Sound s) (hcall : s.calls id = some call)
    (hright : Right (s.answers id) resp) : Next s ((s.closeSocket call.fd).finish id resp) := by
  refine h.frame (· = id) (· = call.fd) ?_ ?_ (h.touched hcall) ?_ (fun h₁ h₂ => h₁.trans h₂.symm) h.nodup ?_ ?_
    fun hid hc _ _ => (h.touched hcall hc).mp hid ▸ update_self _ _ _
  · exact fun id' hid => ⟨update_of_ne hid _ _, update_of_ne hid _ _, rfl⟩
  · exact fun fd hfd => ⟨update_of_ne hfd _ _, fun j => Iff.rfl⟩
  · rintro id' c rfl hc
    simp only [State.finish, update_self] at hc
    cases hc
  · rintro id' rfl
    exact idSound_finish rfl (update_self _ _ _) (update_self _ _ _) hright
  rintro fd rfl
  have hnot : ∀ i, ¬ s.Holds i call.fd := ((h.ids id).active hcall).1
  refine ⟨fun hh => absurd hh (hnot _), fun hh => absurd hh (hnot _), fun hc => ?_⟩
  simp only [State.finish, State.closeSocket, update_self] at hc
  cases hc

theorem Sound.fail (h : Sound s) (hcall : s.calls id = some call) : Next s (s.fail id call.fd) :=
  h.leave hcall nofun

theorem Sound.finishNew (h : Sound s) (hcall : s.calls id = none) : Next s (s.finish id {}) := by
  refine h.frame (· = id) (fun _ => False) ?_ (fun fd _ => ⟨rfl, fun j => Iff.rfl⟩) ?_ ?_
    (fun h₁ h₂ => h₁.trans h₂.symm) h.nodup ?_ nofun fun hid hc => nomatch (hid ▸ hcall).symm.trans hc
  · exact fun id' hid => ⟨update_of_ne hid _ _, update_of_ne hid _ _, rfl⟩
  · intro id' c hc
    refine ⟨?_, False.elim⟩
    rintro rfl
    rw [hcall] at hc
    cases hc
  · rintro id' c rfl hc
    simp only [State.finish, update_self] at hc
    cases hc
  · rintro id' rfl
    exact idSound_finish rfl (update_self _ _ _) (update_self _ _ _) nofun

theorem Sound.answers_none (h : Sound s) (hcall : s.calls id = none) (hdone : s.done id = none) :
    s.answers id = none := by
  cases hans : s.answers id with
  | none => rfl
  | some R =>
    rcases (h.ids id).known hans with ⟨c, hc⟩ | ⟨resp, hr⟩
    · rw [hcall] at hc; cases hc
    · rw [hdone] at hr; cases hr

variable {i : Nat} {tp : TargetPool} {idle : List Fd}

theorem holds_setIdle {j} (htp : s.targets[i]? = some tp) :
    (s.setIdle i tp idle).Holds j fd ↔ if j = i then fd ∈ idle else s.Holds j fd := by
  obtain ⟨hlt, -⟩ := List.getElem?_eq_some_iff.mp htp
  unfold State.Holds State.setIdle
  by_cases hj : j = i
  · subst hj
    simp [hlt]
  · simp [hj, List.getElem?_set_ne (Ne.symm hj)]

section
variable (h : Sound s)
include h

theorem nodup_setIdle {j : Nat} {tp' : TargetPool} (hidle : idle.Nodup)
    (hj : (s.setIdle i tp idle).targets[j]? = some tp') : tp'.idle.Nodup := by
  unfold State.setIdle at hj
  by_cases hji : j = i
  · subst hji
    rw [List.getElem?_set_self'] at hj
    obtain ⟨a, -, rfl⟩ := Option.map_eq_some_iff.mp hj
    exact hidle
  · rw [List.getElem?_set_ne (Ne.symm hji)] at hj
    exact h.nodup hj

theorem Sound.giveBack (hcall : s.calls id = some call)
    (htp : s.targets[i]? = some tp) (hclean : conn.Clean) (hright : Right (s.answers id) resp)
    (hok : resp.ok) :
    Next s (((s.setConn call.fd conn).setIdle i tp (tp.idle ++ [call.fd])).finish id resp) := by
  have hnot : ∀ j, ¬ s.Holds j call.fd := ((h.ids id).active hcall).1
  have hholds : ∀ j, (s.setIdle i tp (tp.idle ++ [call.fd])).Holds j call.fd ↔ j = i := by
    intro j
    rw [holds_setIdle htp]
    split
    · next hj => simp [hj]
    · next hj => exact iff_of_false (hnot j) hj
  refine h.frame (· = id) (· = call.fd) ?_ ?_ (h.touched hcall) ?_ (fun h₁ h₂ => h₁.trans h₂.symm) ?_ ?_ ?_ ?_
  · exact fun id' hid => ⟨update_of_ne hid _ _, update_of_ne hid _ _, rfl⟩
  · refine fun fd hfd => ⟨update_of_ne hfd _ _, fun j => (holds_setIdle htp).trans ?_⟩
    split
    · next hj =>
      subst hj
      rw [mem_append, mem_singleton, or_iff_left hfd]
      exact ⟨fun hmem => ⟨tp, htp, hmem⟩, fun ⟨tp', htp', hmem⟩ => by
        rw [htp] at htp'
        cases htp'
        exact hmem⟩
    · rfl
  · rintro id' c rfl hc
    simp only [State.finish, update_self] at hc
    cases hc
  · intro j tp' htp'
    refine nodup_setIdle h ?_ htp'
    refine nodup_append.mpr ⟨h.nodup htp, nodup_cons.mpr ⟨nofun, nodup_nil⟩, ?_⟩
    rintro a ha b hb rfl
    rw [mem_singleton.mp hb] at ha
    exact hnot i ⟨tp, htp, ha⟩
  · rintro id' rfl
    exact idSound_finish rfl (update_self _ _ _) (update_self _ _ _) hright
  · rintro fd rfl
    exact ⟨fun _ => ⟨conn, update_self _ _ _, hclean⟩, fun hj hk => ((hholds _).mp hj).trans ((hholds _).mp hk).symm,
      fun _ => .inl ⟨i, (hholds i).mpr rfl⟩⟩
  rintro id' c r rfl - hd hf
  simp only [State.finish, update_self, Option.some.injEq] at hd
  rw [← hd, hok] at hf
  cases hf

omit h in
theorem idSound_start (hcalls : s'.calls id = some call) (hdone : s'.done id = none)
    (hans : s'.answers id = none) (hnot : ∀ i, ¬ s'.Holds i call.fd) (hconn : s'.conns call.fd = some conn)
    (hclean : conn.Clean) (hbegun : ¬ call.Begun) : IdSound s' id where
  active hc := by
    rw [hcalls] at hc
    cases hc
    exact ⟨hnot, conn, hconn, hans ▸ .fresh hbegun hclean⟩
  running _ := hdone
  known hR := by rw [hans] at hR; cases hR
  right hr := by rw [hdone] at hr; cases hr

theorem Sound.take (hcall : s.calls id = none)
    (hdone : s.done id = none) (htp : s.targets[i]? = some tp) (hidle : tp.idle = idle ++ [call.fd])
    (hbegun : ¬ call.Begun) : Next s ((s.setIdle i tp idle).setCall id call) := by
  have hheld : s.Holds i call.fd := ⟨tp, htp, by rw [hidle]; simp⟩
  have hnodup := h.nodup htp
  rw [hidle, nodup_append] at hnodup
  have hnot : ∀ j, ¬ (s.setIdle i tp idle).Holds j call.fd := by
    intro j
    rw [holds_setIdle htp]
    split
    · exact fun hmem => hnodup.2.2 _ hmem _ (mem_singleton.mpr rfl) rfl
    · next hj => exact fun hh => hj ((h.fds _).once hh hheld)
  obtain ⟨conn, hconn, hclean⟩ := (h.fds _).clean hheld
  refine h.frame (· = id) (· = call.fd) ?_ ?_ ?_ ?_ (fun h₁ h₂ => h₁.trans h₂.symm) ?_ ?_ ?_
    fun hid hc => nomatch (hid ▸ hcall).symm.trans hc
  · exact fun id' hid => ⟨update_of_ne hid _ _, rfl, rfl⟩
  · refine fun fd hfd => ⟨rfl, fun j => (holds_setIdle htp).trans ?_⟩
    split
    · next hj =>
      subst hj
      constructor
      · exact fun hmem => ⟨tp, htp, by rw [hidle]; exact mem_append_left _ hmem⟩
      rintro ⟨tp', htp', hmem⟩
      rw [htp] at htp'
      cases htp'
      rw [hidle, mem_append, mem_singleton, or_iff_left hfd] at hmem
      exact hmem
    · rfl
  · intro id' c hc
    refine iff_of_false (fun hid => ?_) fun hfd => ?_
    · rw [hid, hcall] at hc
      cases hc
    · exact ((h.ids id').active hc).1 i (hfd ▸ hheld)
  · rintro id' c rfl hc
    simp only [State.setCall, update_self, Option.some.injEq] at hc
    rw [hc]
  · exact fun hj => nodup_setIdle h hnodup.1 hj
  · rintro id' rfl
    exact idSound_start (update_self _ _ _) hdone (h.answers_none hcall hdone) hnot hconn hclean hbegun
  · rintro fd rfl
    exact fdSound_used hnot (update_self _ _ _) rfl

theorem Sound.connect (hcall : s.calls id = none) (hdone : s.done id = none)
    (hfree : s.conns call.fd = none) (hbegun : ¬ call.Begun) :
    Next s ((s.setConn call.fd {}).setCall id call) := by
  have hnot : ∀ j, ¬ s.Holds j call.fd := by
    intro j hh
    obtain ⟨conn, hconn, -⟩ := (h.fds _).clean hh
    rw [hfree] at hconn
    cases hconn
  refine h.frame (· = id) (· = call.fd) ?_ ?_ ?_ ?_ (fun h₁ h₂ => h₁.trans h₂.symm) h.nodup ?_ ?_
    fun hid hc => nomatch (hid ▸ hcall).symm.trans hc
  · exact fun id' hid => ⟨update_of_ne hid _ _, rfl, rfl⟩
  · exact fun fd hfd => ⟨update_of_ne hfd _ _, fun j => Iff.rfl⟩
  · intro id' c hc
    refine iff_of_false (fun hid => ?_) fun hfd => ?_
    · rw [hid, hcall] at hc
      cases hc
    · obtain ⟨-, conn, hconn, -⟩ := (h.ids id').active hc
      rw [hfd, hfree] at hconn
      cases hconn
  · rintro id' c rfl hc
    simp only [State.setCall, update_self, Option.some.injEq] at hc
    rw [hc]
  · rintro id' rfl
    exact idSound_start (update_self _ _ _) hdone (h.answers_none hcall hdone) hnot (update_self _ _ _)
      ⟨rfl, rfl⟩ hbegun
  · rintro fd rfl
    exact fdSound_used hnot (update_self _ _ _) rfl

theorem Sound.getTarget {cfg host port i targets}
    (hget : getTarget cfg s.targets host port = some (targets, i)) : Sound { s with targets } := by
  unfold Pool.getTarget at hget
  split at hget
  · cases hget
    exact h
  split at hget
  · cases hget
  cases hget
  have hnew : ∀ {j : Nat} {tp : TargetPool}, (s.targets ++ [({ host, port } : TargetPool)])[j]? = some tp →
      s.targets[j]? = some tp ∨ tp.idle = [] := by
    intro j tp htp
    rcases Nat.lt_or_ge j s.targets.length with hlt | hge
    · exact .inl (by rwa [List.getElem?_append_left hlt] at htp)
    rw [List.getElem?_append_right hge] at htp
    refine .inr ?_
    obtain ⟨hlt, rfl⟩ := List.getElem?_eq_some_iff.mp htp
    simp
  refine Next.sound (s := s) (h.frame (fun _ => False) (fun _ => False) (fun _ _ => ⟨rfl, rfl, rfl⟩) ?_ (fun _ => Iff.rfl) nofun nofun
    ?_ nofun nofun nofun)
  · refine fun fd _ => ⟨rfl, fun j => ⟨?_, ?_⟩⟩
    · rintro ⟨tp, htp, hmem⟩
      rcases hnew htp with htp | hnil
      · exact ⟨tp, htp, hmem⟩
      · rw [hnil] at hmem
        cases hmem
    · rintro ⟨tp, htp, hmem⟩
      exact ⟨tp, by rw [List.getElem?_append_left (List.getElem?_eq_some_iff.mp htp).1]; exact htp, hmem⟩
  intro j tp htp
  rcases hnew htp with htp | hnil
  · exact h.nodup htp
  · rw [hnil]
    exact nodup_nil

/-! ## Steps -/

theorem Sound.hangUp (hconn : s.conns fd = some conn) :
    Next s (s.setConn fd { conn with closed := true }) := by
  rcases (h.fds fd).owned hconn with ⟨i, hheld⟩ | ⟨id, call, hcall, rfl⟩
  · refine h.frame (fun _ => False) (· = fd) (fun _ _ => ⟨rfl, rfl, rfl⟩) ?_ ?_ nofun nofun h.nodup nofun ?_ nofun
    · exact fun fd' hfd => ⟨update_of_ne hfd _ _, fun j => Iff.rfl⟩
    · intro id' c hc
      exact iff_of_false (fun hf => hf) fun hfd => ((h.ids id').active hc).1 i (hfd ▸ hheld)
    rintro fd' rfl
    refine ⟨fun _ => ⟨_, update_self _ _ _, ?_⟩, (h.fds _).once, fun _ => .inl ⟨i, hheld⟩⟩
    obtain ⟨conn', hconn', hclean⟩ := (h.fds _).clean hheld
    rw [hconn] at hconn'
    cases hconn'
    exact hclean
  have hserv := h.serving hcall hconn
  refine h.change hcall call { conn with closed := true } s.answers (by rw [← hcall, update_eq_self]) rfl rfl
    (fun _ _ => rfl) ?_
  generalize s.answers id = answer at hserv ⊢
  cases hserv with
  | fresh hbegun hclean => exact .fresh hbegun hclean
  | asked hbegun hasked hunread hparser => exact .asked hbegun hasked hunread hparser
  | answered hbegun ha =>
    exact .answered hbegun ⟨ha.understood, ha.asked, ha.octets, ha.waiting, fun _ => rfl⟩

theorem Sound.answer {R : Reply} (hU : Understood R) (hconn : s.conns fd = some conn)
    {method asked} (hasked : conn.asked = (id, method) :: asked) : Next s { s with
      conns := update s.conns fd (some { unread := conn.unread ++ R.wire, asked, closed := R.closes })
      answers := update s.answers id (some R) } := by
  rcases (h.fds fd).owned hconn with ⟨i, hheld⟩ | ⟨id', call, hcall, rfl⟩
  · obtain ⟨conn', hconn', -, hnone⟩ := (h.fds fd).clean hheld
    rw [hconn] at hconn'
    cases hconn'
    rw [hasked] at hnone
    cases hnone
  have hserv := h.serving hcall hconn
  generalize s.answers id' = answer at hserv
  cases hserv with
  | fresh _ hclean => rw [hclean.2] at hasked; cases hasked
  | answered _ ha => rw [ha.asked] at hasked; cases hasked
  | asked hbegun hone hunread hparser =>
    rw [hone] at hasked
    cases hasked
    refine h.change hcall call { unread := conn.unread ++ R.wire, asked := [], closed := R.closes } _
      (by rw [← hcall, update_eq_self]) rfl rfl (fun _ hid => update_of_ne hid _ _) ?_
    rw [update_self]
    refine .answered hbegun ⟨hU, rfl, ?_, hparser ▸ waiting_start R, fun hc => hc⟩
    rw [hparser, hunread]
    rfl

omit h in
theorem closeSocket_setConn : (s.setConn fd conn).closeSocket fd = s.closeSocket fd := by
  simp [State.setConn, State.closeSocket, update_idem]

theorem Sound.recycle {cfg} (hcall : s.calls id = some call) (conn : Conn)
    (hclean : conn.Clean) {resp} (hright : Right (s.answers id) resp) (hok : resp.ok)
    (keepAlive : Bool) :
    Next s ((recycle cfg (s.setConn call.fd conn) call keepAlive).finish id resp) := by
  have hclosed : Next s (((s.setConn call.fd conn).closeSocket call.fd).finish id resp) := by
    rw [closeSocket_setConn]
    exact h.leave hcall hright
  unfold Pool.recycle
  split
  · split
    · exact hclosed
    next tp htp =>
    unfold pushIdle
    split
    · next hpush =>
      split at hpush
      · cases hpush
      · cases hpush
        exact h.giveBack hcall htp hclean hright hok
    · exact hclosed
  · exact hclosed

theorem Sound.onRead {cfg p n} (hcall : s.calls id = some call)
    (hphase : call.phase = .reading p) (hconn : s.conns call.fd = some conn) (hpos : 0 < n)
    (hchunk : n ≤ kClientRecvChunk) (hn : n ≤ conn.unread.length) :
    Next s (onRead cfg (s.setConn call.fd { conn with unread := conn.unread.drop n }) id call p
      (conn.unread.take n)) := by
  have hparser : call.parser = p := by rw [Call.parser, hphase]
  have hserv := h.serving hcall hconn
  cases hans : s.answers id with
  | none =>
    rw [hans] at hserv
    -- no answer, and nothing to read
    have hunread : conn.unread = [] := by
      cases hserv with
      | fresh _ hclean => exact hclean.1
      | asked _ _ hunread _ => exact hunread
    rw [hunread] at hn
    exact absurd hn (by simp; omega)
  | some R =>
    rw [hans] at hserv
    obtain ⟨hbegun, ha⟩ : call.Begun ∧ Answered p conn R := by
      cases hserv with
      | answered hbegun ha => exact ⟨hbegun, hparser ▸ ha⟩
    have hsplit : (p.buf ++ conn.unread.take n) ++ conn.unread.drop n = R.wire := by
      rw [append_assoc, take_append_drop, ha.octets]
    have hlen : (conn.unread.take n).length ≤ kClientRecvChunk := by
      rw [length_take]
      omega
    unfold Pool.onRead
    rcases consume_cases ha.waiting ⟨_, hsplit⟩ hlen with ⟨p', heq, hbuf, hw⟩ | ⟨p', hd, heq, hbuf, hwhole⟩ | ⟨p', heq⟩
    · rw [heq]
      refine h.change hcall { call with phase := .reading p' }
        { conn with unread := conn.unread.drop n } s.answers rfl rfl rfl (fun _ _ => rfl) ?_
      rw [hans]
      exact .answered trivial ⟨ha.understood, ha.asked, by show p'.buf ++ _ = _; rw [hbuf, hsplit], hw, ha.closed⟩
    · rw [heq]
      simp only [hwhole.head]
      obtain ⟨hstatus, hbody, hnil⟩ := whole_right ha.understood hwhole (hbuf ▸ hsplit)
      refine h.recycle hcall { conn with unread := conn.unread.drop n } ⟨hnil, ha.asked⟩ ?_ rfl _
      rw [hans]
      exact fun _ => ⟨R, rfl, hstatus, hbody⟩
    rw [heq]
    simp only [State.fail]
    rw [closeSocket_setConn]
    exact h.leave hcall nofun

theorem Sound.start {cfg resolves host port req newFd} (hcall : s.calls id = none)
    (hdone : s.done id = none) (hs : start cfg resolves s id host port req newFd = some s') :
    Next s s' := by
  unfold Pool.start at hs
  split at hs
  · cases hs
    exact h.finishNew hcall
  next targets i hget =>
  have h := h.getTarget hget
  suffices Next { s with targets } s' from ⟨this.sound, this.closes⟩
  simp only at hs
  split at hs
  · cases hs
  next tp htp =>
  split at hs
  · cases hs
    exact h.finishNew hcall
  split at hs
  · next fd idle hpop =>
    cases hs
    obtain ⟨last, hlast, heq⟩ := Option.map_eq_some_iff.mp hpop
    cases heq
    exact h.take hcall hdone htp (dropLast_append_getLast? _ hlast).symm (fun hb => hb rfl)
  split at hs
  · cases hs
    exact h.finishNew hcall
  split at hs
  · cases hs
  · next fd hopen =>
    cases hs
    exact h.connect hcall hdone (Option.not_isSome_iff_eq_none.mp hopen) (fun hb => hb)

theorem Sound.wrote {sent next} (hcall : s.calls id = some call)
    (hphase : call.phase = .writing sent) (hconn : s.conns call.fd = some conn)
    (hnext : (∃ m, next = .writing m ∧ m ≠ 0) ∨ next = .reading {}) :
    Next s ((if sent = 0 then s.setConn call.fd { conn with asked := conn.asked ++ [(id, call.req.method)] }
      else s).setCall id { call with phase := next }) := by
  have hbegun' : Call.Begun { call with phase := next } := by
    rcases hnext with ⟨m, rfl, hm⟩ | rfl
    · exact hm
    · trivial
  have hparser' : Call.parser { call with phase := next } = {} := by
    rcases hnext with ⟨m, rfl, -⟩ | rfl <;> rfl
  have hparser : call.parser = {} := by rw [Call.parser, hphase]
  have hserv := h.serving hcall hconn
  split
  · next hsent =>
    obtain ⟨hclean, hnone⟩ := hserv.not_begun (by rw [Call.Begun, hphase]; exact fun hb => hb hsent)
    refine h.change hcall { call with phase := next }
      { conn with asked := conn.asked ++ [(id, call.req.method)] } s.answers rfl rfl rfl (fun _ _ => rfl) ?_
    rw [hnone]
    exact .asked hbegun' (by show conn.asked ++ _ = _; rw [hclean.2]; rfl) hclean.1 hparser'
  next hsent =>
  refine h.change hcall { call with phase := next } conn s.answers rfl (by rw [← hconn, update_eq_self]) rfl
    (fun _ _ => rfl) ?_
  have hbegun : call.Begun := by
    rw [Call.Begun, hphase]
    exact hsent
  generalize s.answers id = answer at hserv ⊢
  cases hserv with
  | fresh hb => exact absurd hbegun hb
  | asked _ hasked hunread _ => exact .asked hbegun' hasked hunread hparser'
  | answered _ ha => exact .answered hbegun' (by rw [hparser']; rw [hparser] at ha; exact ha)

end

variable {cfg : Config} {resolves : Bytes → Bool}

theorem Sound.step {l} (h : Sound s) (hU : ∀ fd R, l = .answer fd R → Understood R)
    (hs : step cfg resolves s l = some s') : Next s s' := by
  cases l with
  | send id host port req newFd =>
    simp only [Pool.step] at hs
    split at hs
    · cases hs
    · next hnew =>
      simp only [not_or, Bool.not_eq_true, Option.isSome_eq_false_iff, Option.isNone_iff_eq_none] at hnew
      exact h.start hnew.1 hnew.2 hs
  | connected id ok =>
    simp only [Pool.step] at hs
    split at hs
    · next call hcall =>
      split at hs
      · next hphase =>
        cases hs
        split
        · obtain ⟨-, conn, hconn, hserv⟩ := (h.ids id).active hcall
          obtain ⟨hclean, hnone⟩ := hserv.not_begun (by rw [Call.Begun, hphase]; exact fun hb => hb)
          refine h.change hcall { call with phase := .writing 0 } conn s.answers rfl
            (by rw [← hconn, update_eq_self]) rfl (fun _ _ => rfl) ?_
          rw [hnone]
          exact .fresh (fun hb => hb rfl) hclean
        · exact h.fail hcall
      · cases hs
    · cases hs
  | wrote id n =>
    simp only [Pool.step] at hs
    split at hs
    · next call hcall =>
      split at hs
      · next sent conn hphase hconn =>
        split at hs
        · cases hs
          exact h.fail hcall
        next hn =>
        split at hs
        · cases hs
        cases hs
        refine h.wrote hcall hphase hconn ?_
        split
        · exact .inl ⟨_, rfl, by omega⟩
        · exact .inr rfl
      · cases hs
    · cases hs
  | read id n =>
    simp only [Pool.step] at hs
    split at hs
    · next call hcall =>
      split at hs
      · next p conn hphase hconn =>
        split at hs
        · next hn =>
          cases hs
          exact h.onRead hcall hphase hconn hn.1 hn.2.1 hn.2.2
        · cases hs
      · cases hs
    · cases hs
  | readFailed id =>
    simp only [Pool.step] at hs
    split at hs
    · next call hcall =>
      split at hs
      · cases hs
        exact h.fail hcall
      · cases hs
    · cases hs
  | answer fd R =>
    simp only [Pool.step] at hs
    split at hs
    · next conn hconn =>
      split at hs
      · next id method asked hasked =>
        split at hs
        · cases hs
        · cases hs
          exact h.answer (hU fd R rfl) hconn hasked
      · cases hs
    · cases hs
  | hangUp fd =>
    simp only [Pool.step] at hs
    split at hs
    · next conn hconn =>
      cases hs
      exact h.hangUp hconn
    · cases hs

theorem Sound.run {ls} (h : Sound s) (hU : ∀ fd R, Label.answer fd R ∈ ls → Understood R)
    (hs : run cfg resolves s ls = some s') : Sound s' := by
  induction ls generalizing s with
  | nil =>
    cases hs
    exact h
  | cons l ls ih =>
    obtain ⟨t, ht, hrest⟩ := Option.bind_eq_some_iff.mp hs
    exact ih (h.step (fun fd R hl => hU fd R (hl ▸ mem_cons_self)) ht).sound
      (fun fd R hmem => hU fd R (mem_cons_of_mem _ hmem)) hrest

/-- What holds of a client whose servers are understood: a send returns the
answer to its own request, a send that fails closes its connection, and a send
whose answer was sent is never left waiting. -/
structure Faithful (cfg : Config) (resolves : Bytes → Bool) (s : State) : Prop where
  right : ∀ {id resp}, s.done id = some resp → Right (s.answers id) resp
  closes : ∀ {l s' id call resp}, Pool.step cfg resolves s l = some s' → s.calls id = some call →
    s'.done id = some resp → resp.ok = false → s'.conns call.fd = none
  moves : ∀ {id call p R}, s.calls id = some call → call.phase = .reading p → s.answers id = some R →
    ∃ conn, s.conns call.fd = some conn ∧ (conn.unread ≠ [] ∨ conn.closed)

/-- Every run of sends over the pool, with any interleaving, any pieces the
answers are read in and any failures. -/
theorem sends_faithful {ls : List Label} (hrun : run cfg resolves {} ls = some s)
    (hU : ∀ fd R, Label.answer fd R ∈ ls → Understood R) : Faithful cfg resolves s := by
  have h := sound_init.run hU hrun
  refine ⟨fun hdone => (h.ids _).right hdone, ?_, ?_⟩
  · intro l s' id call resp hs hcall hdone hfail
    cases l with
    | answer fd R =>
      simp only [Pool.step] at hs
      repeat split at hs <;> try cases hs
      exact nomatch ((h.ids id).running hcall).symm.trans hdone
    | _ => exact (h.step (by nofun) hs).closes hcall hdone hfail
  intro id call p R hcall hphase hans
  obtain ⟨-, conn, hconn, hserv⟩ := (h.ids id).active hcall
  refine ⟨conn, hconn, ?_⟩
  rw [hans] at hserv
  cases hserv with
  | answered _ ha =>
    by_cases hunread : conn.unread = []
    · have hoctets := ha.octets
      rw [hunread, append_nil] at hoctets
      exact .inr (ha.closed (waiting_end ha.understood ha.waiting hoctets))
    · exact .inl hunread

end

/-! ## Answers that are not understood -/

def lengthTwo : FieldLine := ⟨ascii "Content-Length", ascii " 2", by decide, by decide, by decide⟩

def okHead (fields : List FieldLine) : ReplyHead :=
  { code := 200, reason := ascii "OK", fields, code_lo := by decide, code_hi := by decide,
    reason_text := by decide }

/-- A body of two octets. -/
def greeting (body : Bytes) (hbody : body.length = 2) : Reply where
  method := ascii "GET"
  interim := []
  final := okHead [lengthTwo]
  framing := .length
  body
  closes := false
  interim_code := nofun
  final_code := by decide
  framed := ⟨by decide, rfl, lengthTwo, rfl, by decide, by decide, by rw [hbody]; decide⟩

def continueHead : ReplyHead :=
  { code := 100, reason := ascii "Continue", fields := [], code_lo := by decide, code_hi := by decide,
    reason_text := by decide }

/-- The same behind an interim response. -/
def continued (body : Bytes) (hbody : body.length = 2) : Reply :=
  { greeting body hbody with
    interim := [continueHead]
    interim_code := by intro h hmem; rw [mem_singleton.mp hmem]; decide }

/-- A body up to the end of the connection. -/
def untilClose (body : Bytes) : Reply where
  method := ascii "GET"
  interim := []
  final := okHead []
  framing := .close
  body
  closes := true
  interim_code := nofun
  final_code := by decide
  framed := ⟨by decide, rfl, rfl, rfl⟩

/-- A send and its answer, read in pieces of the given sizes. The request has 38
octets. -/
def exchange (id : Nat) (newFd : Option Fd) (reply : Reply) (pieces : List Nat) : List Label :=
  [.send id (ascii "127.0.0.1") 80 {} newFd] ++ (if newFd.isSome then [.connected id true] else []) ++
    [.wrote id 38, .answer 5 reply] ++ pieces.map (.read id)

/-- The second send uses the connection of the first. -/
theorem sends_faithful_twice :
    ∃ s, run {} (fun _ => true) {} (exchange 1 (some 5) (greeting (ascii "hi") rfl) [30, 10] ++
        exchange 2 none (greeting (ascii "yo") rfl) [7, 33]) = some s ∧
      Faithful {} (fun _ => true) s := by
  have hapart : Apart (okHead [lengthTwo]) (ascii "content-length:") := by
    unfold Apart
    decide
  have hU : ∀ body hbody, Understood (greeting body hbody) := fun body hbody =>
    understood_of_length rfl rfl hapart
  obtain ⟨s, hs⟩ : ∃ s, run {} (fun _ => true) {} (exchange 1 (some 5) (greeting (ascii "hi") rfl) [30, 10] ++
      exchange 2 none (greeting (ascii "yo") rfl) [7, 33]) = some s :=
    Option.isSome_iff_exists.mp (by decide +kernel)
  refine ⟨s, hs, sends_faithful hs ?_⟩
  intro fd R hmem
  simp only [exchange, Option.isSome_some, Option.isSome_none, if_true, Bool.false_eq_true, if_false, append_nil,
    cons_append, nil_append, mem_cons, not_mem_nil, or_false, reduceCtorEq, false_or, map_cons,
    map_nil, Label.answer.injEq] at hmem
  rcases hmem with ⟨-, rfl⟩ | ⟨-, rfl⟩
  · exact hU _ _
  · exact hU _ _

/-- What two sends return, one behind the other on one connection. -/
def returned (first second : Reply) (pieces pieces' : List Nat) (id : Nat) : Option (Int × Bytes) :=
  ((run {} (fun _ => true) {} (exchange 1 (some 5) first pieces ++ exchange 2 none second pieces')).bind
    (·.done id)).map fun resp => (resp.status, resp.body)

/-- An interim response is returned as the response, and the next send returns
the answer to the request before. A body up to the end of the connection is
returned as empty. -/
theorem interim_returned :
    returned (continued (ascii "hi") rfl) (greeting (ascii "yo") rfl) [25] [40] 1 = some (100, []) ∧
      returned (continued (ascii "hi") rfl) (greeting (ascii "yo") rfl) [25] [40] 2 = some (200, ascii "hi") ∧
      ((run {} (fun _ => true) {} (exchange 1 (some 5) (untilClose (ascii "hi")) [21])).bind (·.done 1)).map
        (fun resp => (resp.ok, resp.status, resp.body)) = some (true, 200, []) := by
  decide +kernel

end BoltApi.Client.Pool
