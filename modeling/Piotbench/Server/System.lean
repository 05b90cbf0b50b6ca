import Piotbench.Lib.Transition
import Piotbench.Server.Accept
import Piotbench.Server.Compute
import Piotbench.Server.Io
import Piotbench.Server.Submit

/-!
# The server as a transition system

An action names the worker that moves and what the kernel, the clock or the network answer it.
`step` runs the piece of the worker's code that its position points at; an action that does not
fit the position is not enabled, and neither is `lock()` on a lock that is held. Any interleaving
of the workers is a list of actions.
-/

namespace Piotbench.Server

inductive Action
  /-- `handle_accept` on accept worker `a`: take an object. -/
  | acceptTake (a : Nat)
  /-- `handle_accept`: `Z_accept4` returns, and the rest. -/
  | acceptInit (a : Nat) (accepted : Option Fd) (ok : Bool)
  /-- `Z_epoll_wait` returns a batch of events to IO worker `k`. -/
  | epollWait (k : Nat) (batch : List (Fd × EpollMask))
  /-- `Z_epoll_wait` fails, other than by `EINTR`: the worker ends. -/
  | epollFail (k : Nat)
  /-- IO worker `k` looks at the next event of its batch. -/
  | event (k : Nat)
  /-- `handle_response`: top of the loop. -/
  | responseTop (k : Nat)
  | responseSend (k : Nat) (res : SendResult)
  | responseRecycle (k : Nat)
  | responseLock (k : Nat)
  | responseSettle (k : Nat) (ok : Bool)
  /-- `handle_request`: top of the loop. -/
  | requestTop (k : Nat)
  /-- `handle_request`: top of the loop; `queue_get` comes up empty, meeting another call of it. -/
  | requestMiss (k : Nat)
  | requestRecv (k : Nat) (res : RecvResult)
  | requestLock (k : Nat)
  | requestDeliver (k : Nat)
  /-- `finish_connection`: its `trylock`. -/
  | finishTrylock (k : Nat)
  /-- `finish_connection`: the rest of its body. -/
  | finishBody (k : Nat)
  /-- Compute worker `i`: `queue_get`. -/
  | computeGet (i : Nat)
  /-- Compute worker `i`: `compute_request` and `queue_put`, with the clock's answers. -/
  | computeRun (i : Nat) (clock : List (Option UInt64))
  /-- Submitter `j`: `queue_get`. -/
  | submitGet (j : Nat)
  | submitTrylock (j : Nat)
  /-- Submitter `j`: `queue_put` after a refused `trylock`. -/
  | submitPutBack (j : Nat)
  | submitSection (j : Nat) (ok : Bool)
  | submitCompare (j : Nat)
  deriving DecidableEq

/-- `lock(&conn->lock)`, after which IO worker `k` stands at `pc`. -/
def ioLock (s : ServerContext) (k : Nat) (c : ConnId) (pc : IoPc) : Option ServerContext :=
  if (s.conns c).lock then none
  else
    some <|
      { s with conns := Function.update s.conns c { s.conns c with lock := true } }.goto k pc

/-- One step of the server. -/
def step (cfg : ServerConfig) (sha1 : Sha1) (s : ServerContext) : Action → Option ServerContext
  | .acceptTake a =>
    match s.accept a with
    | .idle => some (handleAcceptTake s a)
    | _ => none
  | .acceptInit a accepted ok =>
    match s.accept a with
    | .took c => handleAcceptInit cfg s a c accepted ok
    | _ => none
  | .epollWait k batch =>
    match s.io k with
    | ⟨.wait, []⟩ => ioEpollWait s k batch
    | _ => none
  | .epollFail k =>
    match s.io k with
    | ⟨.wait, []⟩ => some (s.goto k .exited)
    | _ => none
  | .event k =>
    match s.io k with
    | ⟨.wait, (c, events) :: rest⟩ =>
      some { s with io := Function.update s.io k ⟨.dispatch c events, rest⟩ }
    | _ => none
  | .responseTop k =>
    match (s.io k).pc with
    | .response c input => some (handleResponseTop s k c input)
    | _ => none
  | .responseSend k res =>
    match (s.io k).pc with
    | .send c input b => handleResponseSend cfg s k c input b res
    | _ => none
  | .responseRecycle k =>
    match (s.io k).pc with
    | .recycle c input b => some (handleResponseRecycle s k c input b)
    | _ => none
  | .responseLock k =>
    match (s.io k).pc with
    | .lockResponse c input => ioLock s k c (.settle c input)
    | _ => none
  | .responseSettle k ok =>
    match (s.io k).pc with
    | .settle c input => some (handleResponseSettle s k c input ok)
    | _ => none
  | .requestTop k =>
    match (s.io k).pc with
    | .request c => some (handleRequestTop cfg s k c)
    | _ => none
  | .requestMiss k =>
    match (s.io k).pc with
    | .request c => handleRequestMiss cfg s k c
    | _ => none
  | .requestRecv k res =>
    match (s.io k).pc with
    | .recv c b => handleRequestRecv cfg s k c b res
    | _ => none
  | .requestLock k =>
    match (s.io k).pc with
    | .lockRequest c b => ioLock s k c (.deliver c b)
    | _ => none
  | .requestDeliver k =>
    match (s.io k).pc with
    | .deliver c b => some (handleRequestDeliver s k c b)
    | _ => none
  | .finishTrylock k =>
    match (s.io k).pc with
    | .finish c input => some (finishTrylock s k c input)
    | _ => none
  | .finishBody k =>
    match (s.io k).pc with
    | .teardown c input => some (finishBody s k c input)
    | _ => none
  | .computeGet i =>
    match s.compute i with
    | .idle => some (computeWorkerGet s i)
    | _ => none
  | .computeRun i clock =>
    match s.compute i with
    | .got b => computeWorkerRun cfg sha1 s i b clock
    | _ => none
  | .submitGet j =>
    match s.submit j with
    | .idle => some (submitterGet s j)
    | _ => none
  | .submitTrylock j =>
    match s.submit j with
    | .got b c => some (submitterTrylock s j b c)
    | _ => none
  | .submitPutBack j =>
    match s.submit j with
    | .refused b _ => some (submitterPutBack s j b)
    | _ => none
  | .submitSection j ok =>
    match s.submit j with
    | .locked b c => some (submitterSection s j b c ok)
    | _ => none
  | .submitCompare j =>
    match s.submit j with
    | .compare c => some (submitterCompare s j c)
    | _ => none

end Piotbench.Server
