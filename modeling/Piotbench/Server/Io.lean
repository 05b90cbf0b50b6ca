import Piotbench.Server.Epoll

/-!
# The IO workers

`src/server/io/io.c`: `handle_request`, `handle_response`, `finish_connection` and the event loop
of `__io_worker`. Each handler is cut at its accesses to shared data, and each piece moves the
worker to the next one (`IoPc`).

The results of `Z_recv` and `Z_send` are part of the step's action. On a descriptor that is not
open the kernel can only answer with an error.
-/

namespace Piotbench.Server

/-- What `Z_recv` returns: some bytes, end of stream, `EAGAIN`, or another error. -/
inductive RecvResult
  | data (bytes : List Byte)
  | eof
  | eagain
  | error
  deriving DecidableEq

/-- What `Z_send` returns: how much it took, `EAGAIN`, or another error. -/
inductive SendResult
  | sent (n : Nat)
  | eagain
  | error
  deriving DecidableEq

/-- After `handle_response` has returned 0 the worker goes on to `handle_request` when the event
carries `EPOLLIN`. -/
def IoPc.afterResponse (c : ConnId) (input : Bool) : IoPc := if input then .request c else .wait

/-! ## `finish_connection` -/

/-- `trylock(&conn->lock)`; when it is refused, `finish_connection` returns 0. -/
def finishTrylock (s : ServerContext) (k : Nat) (c : ConnId) (input : Bool) : ServerContext :=
  if (s.conns c).lock then s.goto k (.afterResponse c input)
  else
    { s with conns := Function.update s.conns c { s.conns c with lock := true } }.goto k
      (.teardown c input)

/-- The rest of `finish_connection`, under the lock: both buffers in progress and the whole send
queue go back to `empty_buffers`, and the socket is closed. When every request received has been
sent, the object goes back to `empty_connections` with its lock still held; otherwise the lock is
dropped and the object is left to the submitter. It returns 0 either way. -/
def finishBody (s : ServerContext) (k : Nat) (c : ConnId) (input : Bool) : ServerContext :=
  let conn := s.conns c
  let sent := conn.sent + conn.sendQueue.length
  let release := sent = conn.received
  { s with
    emptyBuffers :=
      s.emptyBuffers ++ conn.sendbuf.toList ++ conn.recvbuf.toList ++ conn.sendQueue
    kernel := s.kernel.close conn.fd
    emptyConnections := if release then queuePut c s.emptyConnections else s.emptyConnections
    conns := Function.update s.conns c
      { conn with sendQueue := [], sent := sent, closed := true, lock := decide release } }.goto k
    (.afterResponse c input)

/-! ## `handle_request` -/

/-- Top of the loop: go on with the buffer in progress, or take a new one unless the connection has
read ahead far enough or there is none. -/
def handleRequestTop (cfg : ServerConfig) (s : ServerContext) (k : Nat) (c : ConnId) :
    ServerContext :=
  let conn := s.conns c
  match conn.recvbuf with
  | some b => s.goto k (.recv c b)
  | none =>
    if cfg.load.readahead < ulongSub conn.received conn.sent then s.goto k .wait
    else
      match s.emptyBuffers with
      -- "no buffer available"
      | [] => s.goto k .wait
      | b :: rest =>
        { s with
          emptyBuffers := rest
          bufs := Function.update s.bufs b
            { s.bufs b with conn := c, left := sizeofRequest, ptr := 0 }
          conns := Function.update s.conns c { conn with recvbuf := some b } }.goto k (.recv c b)

/-- Top of the loop, when `queue_get(empty_buffers)` meets another worker's call, which has taken
the divider out of the queue and not put it back yet: it may come up empty whatever is there. -/
def handleRequestMiss (cfg : ServerConfig) (s : ServerContext) (k : Nat) (c : ConnId) :
    Option ServerContext :=
  let conn := s.conns c
  if conn.recvbuf = none ∧ ¬ cfg.load.readahead < ulongSub conn.received conn.sent then
    some (s.goto k .wait)
  else none

/-- `Z_recv` and what depends on its result. -/
def handleRequestRecv (cfg : ServerConfig) (s : ServerContext) (k : Nat) (c : ConnId) (b : BufId)
    (res : RecvResult) : Option ServerContext :=
  let buff := s.bufs b
  let ioSize := min buff.left cfg.load.maxIoSize
  let isOpen := s.kernel.isOpen (s.conns c).fd
  match res with
  | .eagain => if isOpen then some (s.goto k .wait) else none
  -- `len <= 0`
  | .eof => if isOpen then some (s.goto k (.finish c false)) else none
  | .error => some (s.goto k (.finish c false))
  | .data bytes =>
    if isOpen ∧ 0 < bytes.length ∧ bytes.length ≤ ioSize then
      let left := buff.left - bytes.length
      some <|
        { s with
          bufs := Function.update s.bufs b
            { buff with
              msg := Bytes.blit buff.msg buff.ptr bytes
              left := left
              ptr := buff.ptr + bytes.length } }.goto k
          (if left = 0 then .lockRequest c b else .request c)
    else none

/-- The section under the lock: count the request and hand its buffer to the compute worker. -/
def handleRequestDeliver (s : ServerContext) (k : Nat) (c : ConnId) (b : BufId) : ServerContext :=
  let conn := s.conns c
  let i := conn.computeidx
  { s with
    conns := Function.update s.conns c
      { conn with received := conn.received + 1, recvbuf := none, lock := false }
    computeInbox := Function.update s.computeInbox i (queuePut b (s.computeInbox i)) }.goto k
    (.request c)

/-! ## `handle_response` -/

/-- Top of the loop: go on with the response in progress, or take the next one. -/
def handleResponseTop (s : ServerContext) (k : Nat) (c : ConnId) (input : Bool) :
    ServerContext :=
  let conn := s.conns c
  match conn.sendbuf with
  | some b => s.goto k (.send c input b)
  | none =>
    match conn.sendQueue with
    | [] => s.goto k (.afterResponse c input)
    | b :: rest =>
      { s with
        bufs := Function.update s.bufs b
          { s.bufs b with conn := c, left := sizeofResponse, ptr := resOffset }
        conns := Function.update s.conns c
          { conn with sendQueue := rest, sendbuf := some b } }.goto k (.send c input b)

/-- `Z_send` and what depends on its result. -/
def handleResponseSend (cfg : ServerConfig) (s : ServerContext) (k : Nat) (c : ConnId)
    (input : Bool) (b : BufId) (res : SendResult) : Option ServerContext :=
  let conn := s.conns c
  let buff := s.bufs b
  let ioSize := min buff.left cfg.load.maxIoSize
  let isOpen := s.kernel.isOpen conn.fd
  match res with
  | .eagain => if isOpen then some (s.goto k (.afterResponse c input)) else none
  | .error => some (s.goto k (.finish c input))
  | .sent n =>
    if isOpen ∧ n ≤ ioSize then
      let left := buff.left - n
      let s' := { s with
        bufs := Function.update s.bufs b { buff with left := left, ptr := buff.ptr + n } }
      if n < ioSize then some (s'.goto k (.afterResponse c input))
      -- the chunk was taken whole, the response is not out yet
      else if left ≠ 0 then some (s'.goto k (.response c input))
      else
        some <|
          { s' with
            conns := Function.update s.conns c
              { conn with sent := conn.sent + 1, sendbuf := none } }.goto k (.recycle c input b)
    else none

/-- The buffer of a response that is complete goes back to `empty_buffers`. -/
def handleResponseRecycle (s : ServerContext) (k : Nat) (c : ConnId) (input : Bool) (b : BufId) :
    ServerContext :=
  { s with emptyBuffers := queuePut b s.emptyBuffers }.goto k (.lockResponse c input)

/-- The section under the lock: with nothing left to send, `EPOLLOUT` is taken out. An error of
`epoll_ctl` makes `handle_response` return it, and the worker goes on to the next event. -/
def handleResponseSettle (s : ServerContext) (k : Nat) (c : ConnId) (input : Bool) (ok : Bool) :
    ServerContext :=
  let conn := s.conns c
  if conn.processed = conn.sent then
    let res := epollSetConnState s.kernel c conn (conn.epollState &&& ~~~epollOut) ok
    { s with
      kernel := res.1
      conns := Function.update s.conns c { res.2.1 with lock := false } }.goto k
      (if res.2.2 then .wait else .response c input)
  else
    { s with conns := Function.update s.conns c { conn with lock := false } }.goto k
      (.response c input)

/-! ## `__io_worker` -/

/-- What the worker does with one event: an error ends the connection; otherwise responses first,
then requests. -/
def IoPc.dispatch (c : ConnId) (events : EpollMask) : IoPc :=
  if events.has epollErr then .finish c false
  else if events.has epollOut then .response c (events.has epollIn)
  else if events.has epollIn then .request c
  else .wait

/-- `MAX_EVENTS` -/
def maxEvents : Nat := 10

/-- The kernel may report an event for descriptor `e.1` to the epoll instance of worker `k`. -/
def Kernel.reports (kern : Kernel) (k : Nat) (e : Fd × EpollMask) : Bool :=
  match kern.interest e.1 with
  | some i => i.epollFd == k
  | none => false

/-- What the worker sees of a batch: the connection in `data.ptr`, and the events. -/
def Kernel.deliver (kern : Kernel) (batch : List (Fd × EpollMask)) : List (ConnId × EpollMask) :=
  batch.filterMap fun e => (kern.interest e.1).map fun i => (i.conn, e.2)

/-- `Z_epoll_wait` returns a batch: descriptors registered with this worker's epoll instance, each
at most once, with any events. -/
def ioEpollWait (s : ServerContext) (k : Nat) (batch : List (Fd × EpollMask)) :
    Option ServerContext :=
  if batch.length ≤ maxEvents ∧ (batch.map (·.1)).Nodup ∧ batch.all (s.kernel.reports k) then
    some { s with io := Function.update s.io k ⟨.wait, s.kernel.deliver batch⟩ }
  else none

end Piotbench.Server
