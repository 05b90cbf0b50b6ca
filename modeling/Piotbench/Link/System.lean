import Piotbench.Client.Counts
import Piotbench.Server.Answering

/-!
# A client and the server over a socket

One connection of a client, and the session on the server that it gets: session `n` of connection
object `c`. Between them are two channels of bytes, first in, first out. A `recv` returns some of
the bytes at the front or `EAGAIN`, and the server reads end of stream when the client has closed
and nothing is left to read. The server's other connections go on as they like.
-/

namespace Piotbench.Link

open Server Client Transition

/-- The server, the client, and the bytes on their way up to the server and down to the client. -/
structure LinkState where
  srv : Traced
  client : ClientWorker
  up : List Byte
  down : List Byte

def LinkState.init (cfg : ServerConfig) (bufs : BufId → ServerBuffer) (nrRequests : Nat) :
    LinkState where
  srv := .init cfg bufs
  client := .init nrRequests
  up := []
  down := []

inductive LinkAction
  | server (a : Action)
  | client (a : ClientAction)

/-- `Z_recv` on connection `c` returns end of stream. -/
def readsEof (s : ServerContext) (c : ConnId) : Action → Bool
  | .requestRecv k .eof =>
    match (s.io k).pc with
    | .recv c' _ => c' = c
    | _ => false
  | _ => false

/-- A step of the server; in session `n` of connection `c` it is connected to the client. -/
def serverStep (cfg : ServerConfig) (sha1 : Sha1) (c : ConnId) (n : Nat) (l : LinkState)
    (a : Action) : Option LinkState :=
  if (l.srv.hist c).session = n then
    let inn := Server.bytesIn l.srv.srv c a
    if inn <+: l.up ∧ (readsEof l.srv.srv c a = true → l.client.conn.closed = true ∧ l.up = []) then
      (tstep cfg sha1 l.srv a).map fun t =>
        { l with
          srv := t
          up := l.up.drop inn.length
          down := l.down ++ Server.bytesOut l.srv.srv c a }
    else none
  else (tstep cfg sha1 l.srv a).map fun t => { l with srv := t }

/-- A step of the client. -/
def clientStep (l : LinkState) (a : ClientAction) : Option LinkState :=
  let inn := Client.bytesIn a
  if inn <+: l.down then
    (Client.clientStep l.client a).map fun cl =>
      { l with
        client := cl
        up := l.up ++ Client.bytesOut l.client a
        down := l.down.drop inn.length }
  else none

def linkStep (cfg : ServerConfig) (sha1 : Sha1) (c : ConnId) (n : Nat) (l : LinkState) :
    LinkAction → Option LinkState
  | .server a => serverStep cfg sha1 c n l a
  | .client a => clientStep l a

/-- The server's steps are orderly. -/
def orderlyLink (l : LinkState) : LinkAction → Prop
  | .server a => Orderly l.srv.srv a
  | .client _ => True

instance : ∀ (l : LinkState) (a : LinkAction), Decidable (orderlyLink l a)
  | l, .server a => inferInstanceAs (Decidable (Orderly l.srv.srv a))
  | _, .client _ => .isTrue trivial

/-- The runs of a client and the server. -/
abbrev LinkRun (cfg : ServerConfig) (sha1 : Sha1) (c : ConnId) (n : Nat)
    (bufs : BufId → ServerBuffer) (nrRequests : Nat) : LinkState → Prop :=
  Reachable (linkStep cfg sha1 c n) orderlyLink (.init cfg bufs nrRequests)

variable {cfg : ServerConfig} {sha1 : Sha1} {c : ConnId} {n : Nat} {l l' : LinkState}

/-- A step of the server in a link: a step of the server, and what it does to the channels. -/
theorem serverStep_cases {a : Action} (h : serverStep cfg sha1 c n l a = some l') :
    tstep cfg sha1 l.srv a = some l'.srv ∧ l'.client = l.client ∧
      ((l.srv.hist c).session = n ∧ l.up = Server.bytesIn l.srv.srv c a ++ l'.up ∧
          l'.down = l.down ++ Server.bytesOut l.srv.srv c a ∨
        (l.srv.hist c).session ≠ n ∧ l'.up = l.up ∧ l'.down = l.down) := by
  unfold serverStep at h
  split at h
  · next hsession =>
    simp only at h
    split at h
    · next hin =>
      obtain ⟨t, ht, rfl⟩ := Option.map_eq_some_iff.mp h
      refine ⟨ht, rfl, .inl ⟨hsession, ?_, rfl⟩⟩
      exact List.prefix_iff_eq_append.mp hin.1 |>.symm
    · cases h
  · next hsession =>
    obtain ⟨t, ht, rfl⟩ := Option.map_eq_some_iff.mp h
    exact ⟨ht, rfl, .inr ⟨hsession, rfl, rfl⟩⟩

theorem clientStep_cases {a : ClientAction} (h : clientStep l a = some l') :
    Client.clientStep l.client a = some l'.client ∧ l'.srv = l.srv ∧
      l'.up = l.up ++ Client.bytesOut l.client a ∧ l.down = Client.bytesIn a ++ l'.down := by
  simp only [clientStep] at h
  split at h
  · next hin =>
    obtain ⟨cl, hcl, rfl⟩ := Option.map_eq_some_iff.mp h
    exact ⟨hcl, rfl, rfl, (List.prefix_iff_eq_append.mp hin).symm⟩
  · cases h

/-- Seen from the server alone, a run with a client is a run. -/
theorem LinkRun.trace {bufs : BufId → ServerBuffer} {nrRequests : Nat}
    (h : LinkRun cfg sha1 c n bufs nrRequests l) : Trace cfg sha1 Orderly bufs l.srv := by
  apply h.project LinkState.srv
  intro l a l' hok hstep
  cases a with
  | server a => exact .inr ⟨a, hok, (serverStep_cases hstep).1⟩
  | client a => exact .inl (clientStep_cases hstep).2.1

end Piotbench.Link
