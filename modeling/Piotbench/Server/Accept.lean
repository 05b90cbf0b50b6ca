import Piotbench.Server.Epoll

/-!
# The accept workers

`src/server/io/accept.c`. `handle_accept` takes a connection object from `empty_connections`,
accepts a socket, resets the object and registers it. The object is in nobody else's hands in
between, so the model has two steps: taking the object, and all the rest.
-/

namespace Piotbench.Server

/-- `handle_accept`: `queue_get(empty_connections)`. With nothing there it returns 0. -/
def handleAcceptTake (s : ServerContext) (a : Nat) : ServerContext :=
  match s.emptyConnections with
  | [] => s
  | c :: rest =>
    { s with emptyConnections := rest, accept := Function.update s.accept a (.took c) }

/-- The fields that `handle_accept` sets before it registers the connection. `sendbuf` is not
among them. `next`, an `int` that wraps around, is counted on here. -/
def acceptedConnection (cfg : ServerConfig) (next : Nat) (fd : Fd) (conn : ServerConnection) :
    ServerConnection :=
  { conn with
    sent := 0
    received := 0
    processed := 0
    fd := fd
    ioidx := next % cfg.threads.io
    submitidx := (next + 1) % cfg.threads.submit
    computeidx := (next + 1) % cfg.threads.compute
    epollFd := next % cfg.threads.io
    sendQueue := []
    recvbuf := none
    epollState := 0
    closed := false
    lock := false }

/-- `handle_accept` from `Z_accept4` on: `accepted` is the new descriptor, or `none` when the call
failed; `ok` says whether `epoll_ctl` can succeed. The kernel hands out a descriptor that is not
open. A division by zero ends the process, so it leads to no state. An error makes
`__accept_worker` and the thread return. The listening socket blocks, so the call returns only when
there is a connection, or an error: nothing here says that this step ever comes. -/
def handleAcceptInit (cfg : ServerConfig) (s : ServerContext) (a : Nat) (c : ConnId)
    (accepted : Option Fd) (ok : Bool) : Option ServerContext :=
  match accepted with
  | none => some { s with accept := Function.update s.accept a (.failed c) }
  | some fd =>
    if s.kernel.isOpen fd = true ∨ cfg.threads.io = 0 ∨ cfg.threads.submit = 0 ∨
        cfg.threads.compute = 0 then none
    else
      let kern := { s.kernel with isOpen := Function.update s.kernel.isOpen fd true }
      let conn := acceptedConnection cfg s.next fd (s.conns c)
      let res := epollSetConnState kern c conn epollIn ok
      some
        { s with
          next := s.next + 1
          kernel := res.1
          conns := Function.update s.conns c res.2.1
          accept := Function.update s.accept a (if res.2.2 then .failed c else .idle) }

end Piotbench.Server
