import Piotbench.Server.Epoll

/-!
# The submitters

`src/server/io/submit.c`, `__submitter_worker`. One round of its loop is up to four steps: taking a
buffer from the inbox, the `trylock`, the section under `conn->lock`, and, after a disposal, the
comparison of the counters, which is made after the lock is dropped. When the `trylock` is refused,
the buffer goes back to the inbox in a step of its own: a compute worker may get there first.
-/

namespace Piotbench.Server

/-- `queue_get(inbox)`, and `conn = buff->conn`. -/
def submitterGet (s : ServerContext) (j : Nat) : ServerContext :=
  match s.submitterInbox j with
  | [] => s
  | b :: rest =>
    { s with
      submitterInbox := Function.update s.submitterInbox j rest
      submit := Function.update s.submit j (.got b (s.bufs b).conn) }

/-- `trylock(&conn->lock)` -/
def submitterTrylock (s : ServerContext) (j : Nat) (b : BufId) (c : ConnId) : ServerContext :=
  if (s.conns c).lock then { s with submit := Function.update s.submit j (.refused b c) }
  else
    { s with
      conns := Function.update s.conns c { s.conns c with lock := true }
      submit := Function.update s.submit j (.locked b c) }

/-- `queue_put(q, inbox)` after a refused `trylock`: the buffer goes to the end of the inbox. -/
def submitterPutBack (s : ServerContext) (j : Nat) (b : BufId) : ServerContext :=
  { s with
    submitterInbox := Function.update s.submitterInbox j (queuePut b (s.submitterInbox j))
    submit := Function.update s.submit j .idle }

/-- The section under `conn->lock` for a closed connection: dispose of the buffer. -/
def submitterDispose (s : ServerContext) (j : Nat) (b : BufId) (c : ConnId) : ServerContext :=
  let conn := s.conns c
  { s with
    conns := Function.update s.conns c { conn with processed := conn.processed + 1, lock := false }
    emptyBuffers := queuePut b s.emptyBuffers
    submit := Function.update s.submit j (.compare c) }

/-- The section under `conn->lock` for an open connection: queue the response and ask for
`EPOLLOUT`. An error of `epoll_ctl` ends the worker. -/
def submitterQueue (s : ServerContext) (j : Nat) (b : BufId) (c : ConnId) (ok : Bool) :
    ServerContext :=
  let conn := s.conns c
  let conn' :=
    { conn with processed := conn.processed + 1, sendQueue := queuePut b conn.sendQueue }
  let res := epollSetConnState s.kernel c conn' (conn.epollState ||| epollOut) ok
  { s with
    kernel := res.1
    conns := Function.update s.conns c { res.2.1 with lock := false }
    submit := Function.update s.submit j (if res.2.2 then .exited else .idle) }

/-- The section under `conn->lock`. -/
def submitterSection (s : ServerContext) (j : Nat) (b : BufId) (c : ConnId) (ok : Bool) :
    ServerContext :=
  if (s.conns c).closed then submitterDispose s j b c else submitterQueue s j b c ok

/-- The comparison after a disposal: the last in-flight buffer hands the connection object back. -/
def submitterCompare (s : ServerContext) (j : Nat) (c : ConnId) : ServerContext :=
  if (s.conns c).processed = (s.conns c).received then
    { s with
      emptyConnections := queuePut c s.emptyConnections
      submit := Function.update s.submit j .idle }
  else { s with submit := Function.update s.submit j .idle }

end Piotbench.Server
