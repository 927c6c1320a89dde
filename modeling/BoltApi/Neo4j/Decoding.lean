import BoltApi.Neo4j.Server

/-! # From octets to messages

The loop of the connection is a reader of messages in front of `dispatch`; the reader
returns the messages a peer sent, however it divided them into chunks, if there are not
too many chunks and no keep-alives between the messages. -/
namespace BoltApi.Neo4j
open Octets PackStream List

/-! ## The reader of the loop -/

inductive Ending
  | stopped
  | closed
  | refused
  | undecodable (e : PackError)
  deriving DecidableEq

/-- At most `n` messages of the stream, and why there are no more. -/
def decode (cfg : Config) : Nat → Bytes → List PackValue × Ending
  | 0, _ => ([], .stopped)
  | n + 1, stream =>
    match readMessage cfg.messageBufferBytes stream with
    | .closed => ([], .closed)
    | .refused => ([], .refused)
    | .message payload rest =>
      match PackStream.read ⟨payload, ⟨cfg.valueArenaBytes, 0⟩⟩ with
      | .error e => ([], .undecodable e)
      | .ok (m, _) => (m :: (decode cfg n rest).1, (decode cfg n rest).2)

def endSession (cfg : Config) (h : Host) (c : Connection) : Ending → Session
  | .stopped => { conn := c, live := true }
  | .closed => { conn := c, live := false }
  | .refused =>
    (sendFailure cfg h.sent c
      (invalidRequest "message exceeds the server's bounded buffer")).session false
  | .undecodable e =>
    (sendFailure cfg h.sent c
      ⟨ascii "Neo.ClientError.Request.Invalid", packErrorName e⟩).session false

/-- The connection over messages instead of octets. -/
def serveMessages (cfg : Config) : List Host → List PackValue → Ending → Connection → Session
  | [], _, _, c => { conn := c, live := true }
  | h :: hosts, messages, ending, c =>
    if c.state = .defunct then { conn := c, live := false }
    else
      match messages with
      | [] => endSession cfg h c ending
      | m :: messages =>
        let t := dispatch cfg h c m
        if ¬t.ok ∨ t.conn.writeFailed then (t.session false).after [.message m] []
        else (serveMessages cfg hosts messages ending t.conn).after (.message m :: t.calls) t.replies

theorem serveLoop_eq_serveMessages (cfg : Config) (hosts : List Host) (stream : Bytes)
    (c : Connection) :
    serveLoop cfg hosts stream c = serveMessages cfg hosts (decode cfg hosts.length stream).1
      (decode cfg hosts.length stream).2 c := by
  induction hosts generalizing stream c with
  | nil => rfl
  | cons h hosts ih =>
    rw [serveLoop, serveMessages.eq_def, length_cons, decode]
    simp only
    split
    · rfl
    cases hread : readMessage cfg.messageBufferBytes stream with
    | message payload rest =>
      simp only
      cases hvalue : PackStream.read ⟨payload, ⟨cfg.valueArenaBytes, 0⟩⟩ with
      | error e => rfl
      | ok r => simp only [ih]
    | _ => rfl

/-! ## Streams of framed messages -/

/-- A message on its way: the keep-alives before it, its chunks, and what it says. -/
structure Framed where
  noops : Nat
  chunks : List Bytes
  value : PackValue

def Framed.wire (f : Framed) : Bytes := (List.replicate f.noops [0, 0]).flatten ++ frame f.chunks

/-- The message is divided into chunks, fits the buffer and decodes. -/
structure Framed.Valid (cfg : Config) (f : Framed) : Prop where
  chunks : ∀ c ∈ f.chunks, ChunkOk c
  fits : f.chunks.flatten.length ≤ cfg.messageBufferBytes
  decodes : ∃ r, PackStream.read ⟨f.chunks.flatten, ⟨cfg.valueArenaBytes, 0⟩⟩ = .ok (f.value, r)

/-- No keep-alives, and not more chunks than the server takes. -/
def Framed.Plain (f : Framed) : Prop := f.noops = 0 ∧ f.chunks.length ≤ kMaxChunksPerMessage

variable {cfg : Config} {f : Framed} {n : Nat} {rest : Bytes}

theorem decode_plain (hv : f.Valid cfg) (hp : f.Plain) :
    (decode cfg (n + 1) (f.wire ++ rest)).1 = f.value :: (decode cfg n rest).1 := by
  obtain ⟨r, hr⟩ := hv.decodes
  have hwire : f.wire ++ rest = frame f.chunks ++ rest := by simp [Framed.wire, hp.1]
  rw [hwire, decode, readMessage_frame hv.chunks hv.fits, if_pos hp.2]
  simp only [hr]

theorem decode_not_plain (hv : f.Valid cfg) (hp : ¬f.Plain) :
    (decode cfg (n + 1) (f.wire ++ rest)).1 = [] := by
  rw [decode]
  cases hn : f.noops with
  | zero =>
    have hmany : ¬f.chunks.length ≤ kMaxChunksPerMessage := fun h => hp ⟨hn, h⟩
    have hwire : f.wire ++ rest = frame f.chunks ++ rest := by simp [Framed.wire, hn]
    rw [hwire, readMessage_frame hv.chunks hv.fits, if_neg hmany]
  | succ k =>
    -- the keep-alive is a message without octets, which does not decode
    have hwire : f.wire ++ rest =
        0 :: 0 :: ((List.replicate k [0, 0]).flatten ++ (frame f.chunks ++ rest)) := by
      simp [Framed.wire, hn, replicate_succ]
    rw [hwire, readMessage_noop]
    rfl

theorem decode_frames {frames : List Framed} (hv : ∀ f ∈ frames, f.Valid cfg)
    (hn : frames.length ≤ n) :
    (decode cfg n (frames.flatMap Framed.wire ++ rest)).1.take frames.length =
        frames.map Framed.value ↔
      ∀ f ∈ frames, f.Plain := by
  induction frames generalizing n with
  | nil => simp
  | cons f frames ih =>
    rw [forall_mem_cons] at hv
    obtain ⟨n, rfl⟩ := Nat.exists_eq_add_of_le' (Nat.le_trans (Nat.succ_pos _) hn)
    rw [flatMap_cons, append_assoc, forall_mem_cons]
    by_cases hp : f.Plain
    · rw [decode_plain hv.1 hp, ← ih hv.2 (Nat.le_of_succ_le_succ hn)]
      simp [hp]
    · rw [decode_not_plain hv.1 hp]
      simp [hp]

/-- The connection handles the messages its reader returns. The reader returns the
messages that were framed, in order, precisely if none has a keep-alive before it or more
chunks than the server takes; and it takes back what `write_message` sent precisely if
that fits the buffer and that number of chunks. -/
theorem connection_decodes (cfg : Config) (frames : List Framed) (hv : ∀ f ∈ frames, f.Valid cfg) :
    (∀ hosts stream c, serveLoop cfg hosts stream c =
      serveMessages cfg hosts (decode cfg hosts.length stream).1
        (decode cfg hosts.length stream).2 c) ∧
    (∀ n rest, frames.length ≤ n →
      ((decode cfg n (frames.flatMap Framed.wire ++ rest)).1.take frames.length =
          frames.map Framed.value ↔ ∀ f ∈ frames, f.Plain)) ∧
    ∀ payload, (∃ s, writeMessage payload = some s ∧
        ∀ rest, readMessage cfg.messageBufferBytes (s ++ rest) = .message payload rest) ↔
      payload.length ≤ cfg.messageBufferBytes ∧
        payload.length ≤ kMaxChunksPerMessage * kMaxChunk :=
  ⟨serveLoop_eq_serveMessages cfg, fun _ _ hn => decode_frames hv hn,
    readMessage_writeMessage cfg.messageBufferBytes⟩

def resetFramed : Framed := ⟨0, [[0xB0], [0x0F]], .struct 0x0F []⟩

theorem resetFramed_valid : resetFramed.Valid {} where
  chunks := by
    simp only [resetFramed, forall_mem_cons]
    exact ⟨⟨by decide, by decide⟩, ⟨by decide, by decide⟩, nofun⟩
  fits := by decide
  decodes := ⟨_, rfl⟩

theorem connection_decodes_reset :
    (decode {} 1 (resetFramed.wire ++ [])).1.take 1 = [.struct 0x0F []] := by
  have h := (connection_decodes {} [resetFramed] (forall_mem_singleton.mpr resetFramed_valid)).2.1 1 [] (by decide)
  rw [flatMap_singleton] at h
  exact h.mpr (by simp [Framed.Plain, resetFramed, kMaxChunksPerMessage])

/-- A keep-alive before a message ends the connection without the message. -/
theorem keep_alive_closes :
    (decode {} 2 ([0, 0] ++ frame [[0xB0, 0x0F]])).1.length = 0 ∧
      (decode {} 2 ([0, 0] ++ frame [[0xB0, 0x0F]])).2 = .undecodable .truncated := by
  decide +kernel

end BoltApi.Neo4j
