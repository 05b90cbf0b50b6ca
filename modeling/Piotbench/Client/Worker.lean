import Piotbench.Server.Io

/-!
# The client's worker

`src/client/worker.c`, for one connection: `client_conn_handle_output`, `client_conn_handle_input`
and `handle_client_epoll_event`, which calls them. One step is one `send` or `recv` with its
bookkeeping, or what the worker does between two of them. The worker's other connections do not
touch this one.
-/

namespace Piotbench.Client

open Server

/-- A message on its way, and how much of it is still to be transferred. -/
structure MessageBuffer where
  msg : Nat → Byte
  left : Nat

/-- `struct client_status_t`, less the two times. -/
structure ClientStatus where
  sent : Nat
  received : Nat
  total : Nat

/-- `struct client_connection_t`. `closed`: its `fd` is -1. -/
structure ClientConnection where
  closed : Bool
  sendbuf : MessageBuffer
  recvbuf : MessageBuffer
  status : ClientStatus

/-- Where the worker stands with the connection. `input`: the event in hand also carries
`EPOLLIN`. -/
inductive ClientPc
  /-- Not handling an event of this connection. -/
  | wait
  /-- `client_conn_handle_output`: at the top of its loop. -/
  | output (input : Bool)
  /-- `client_conn_handle_output`: at `send`. -/
  | send (input : Bool)
  /-- `client_conn_handle_output` has returned 0. -/
  | afterOutput (input : Bool)
  /-- `client_conn_handle_input`: at the top of its loop. -/
  | input
  /-- `client_conn_handle_input`: at `recv`. -/
  | recv
  /-- `client_conn_handle_input` has returned 0. -/
  | afterInput
  deriving DecidableEq

/-- The worker and one connection: `ctx->stopping`, and the mask that `epoll` has registered. -/
structure ClientWorker where
  pc : ClientPc
  conn : ClientConnection
  stopping : Bool
  interest : EpollMask

/-- `init_client_conn` and `init_client_thread_epoll`: everything zero but the total, and
registered for both directions. -/
def ClientWorker.init (nrRequests : Nat) : ClientWorker where
  pc := .wait
  conn :=
    { closed := false
      sendbuf := ⟨fun _ => 0, 0⟩
      recvbuf := ⟨fun _ => 0, 0⟩
      status := ⟨0, 0, nrRequests⟩ }
  stopping := false
  interest := epollIn ||| epollOut

inductive ClientAction
  /-- Another thread sets `stopping`. -/
  | stop
  /-- `epoll_wait` reports events; `clockOk` is about `clock_gettime` for the start time. -/
  | event (events : EpollMask) (clockOk : Bool)
  | outputTop
  | send (res : SendResult)
  | afterOutput (ok : Bool)
  | inputTop
  | recv (res : RecvResult)
  | afterInput (clockOk : Bool)
  deriving DecidableEq

/-! ## `epoll_set_conn` -/

/-- `epoll_set_conn`: the old registration goes first, then the new one is made unless there is
nothing to register. The `Bool` says whether it returned an error. -/
def epollSetConn (cl : ClientWorker) (events : EpollMask) (ok : Bool) : ClientWorker × Bool :=
  if events = 0#32 then ({ cl with interest := 0 }, false)
  else if ok then ({ cl with interest := events }, false)
  else ({ cl with interest := 0 }, true)

/-! ## `client_conn_handle_output` -/

/-- `sendbuf.msg.id = status.sent`, an `unsigned int`, least significant byte first. -/
def idBytes (sent : Nat) : List Byte :=
  (List.range sizeofId).map fun i => UInt8.ofNat (sent >>> (8 * i))

/-- Top of the loop: go on with the request in progress; otherwise stop if asked to, or create the
next one. -/
def handleOutputTop (cl : ClientWorker) (input : Bool) : ClientWorker :=
  let conn := cl.conn
  if conn.sendbuf.left = 0 then
    if cl.stopping then
      { cl with
        conn := { conn with status := { conn.status with total := conn.status.sent } }
        pc := .afterOutput input }
    else
      { cl with
        conn := { conn with
          sendbuf := ⟨Bytes.blit conn.sendbuf.msg 0 (idBytes conn.status.sent), sizeofRequest⟩ }
        pc := .send input }
  else { cl with pc := .send input }

/-- `send` and what depends on its result. -/
def handleOutputSend (cl : ClientWorker) (input : Bool) (res : SendResult) : Option ClientWorker :=
  let conn := cl.conn
  match res with
  | .eagain => some { cl with pc := .afterOutput input }
  | .error => some { cl with pc := .wait }
  | .sent written =>
    if written ≤ conn.sendbuf.left then
      let left := conn.sendbuf.left - written
      let conn' := { conn with sendbuf := { conn.sendbuf with left := left } }
      if left = 0 then
        let sent := conn.status.sent + 1
        some
          { cl with
            conn := { conn' with status := { conn.status with sent := sent } }
            pc := if sent = conn.status.total then .afterOutput input else .output input }
      else some { cl with conn := conn', pc := .output input }
    else none

/-! ## `client_conn_handle_input` -/

/-- Top of the loop: go on with the response in progress; otherwise return if that was the last, or
begin to receive the next. -/
def handleInputTop (cl : ClientWorker) : ClientWorker :=
  let conn := cl.conn
  if conn.recvbuf.left = 0 then
    if conn.status.received = conn.status.total then { cl with pc := .afterInput }
    else
      { cl with
        conn := { conn with recvbuf := { conn.recvbuf with left := sizeofResponse } }
        pc := .recv }
  else { cl with pc := .recv }

/-- `recv` and what depends on its result. End of stream is taken for 0 bytes received. -/
def handleInputRecv (cl : ClientWorker) (res : RecvResult) : Option ClientWorker :=
  let conn := cl.conn
  match res with
  | .eagain => some { cl with pc := .afterInput }
  | .error => some { cl with pc := .wait }
  | .eof => some { cl with pc := .input }
  | .data bytes =>
    if 0 < bytes.length ∧ bytes.length ≤ conn.recvbuf.left then
      let left := conn.recvbuf.left - bytes.length
      let msg := Bytes.blit conn.recvbuf.msg (sizeofResponse - conn.recvbuf.left) bytes
      let received := if left = 0 then conn.status.received + 1 else conn.status.received
      some
        { cl with
          conn := { conn with
            recvbuf := ⟨msg, left⟩
            status := { conn.status with received := received } }
          pc := .input }
    else none

/-! ## `handle_client_epoll_event` -/

/-- After the output part, the input part if the event carries `EPOLLIN`. -/
def ClientPc.afterEvent (input : Bool) : ClientPc := if input then .input else .wait

def epollHup : EpollMask := 0x10

/-- `epoll_wait` reports the events it was asked for, and errors. -/
def ClientWorker.reports (cl : ClientWorker) (events : EpollMask) : Bool :=
  !cl.conn.closed && events &&& ~~~(cl.interest ||| epollErr ||| epollHup) == 0

/-- The beginning, up to the call of `client_conn_handle_output`. -/
def handleEvent (cl : ClientWorker) (events : EpollMask) (clockOk : Bool) : Option ClientWorker :=
  if cl.reports events then
    if events.has epollOut then
      if cl.conn.status.sent = 0 ∧ clockOk = false then some { cl with pc := .wait }
      else some { cl with pc := .output (events.has epollIn) }
    else some { cl with pc := .afterEvent (events.has epollIn) }
  else none

/-- With all requests sent, `EPOLLOUT` is taken out. -/
def handleAfterOutput (cl : ClientWorker) (input : Bool) (ok : Bool) : ClientWorker :=
  if cl.conn.status.sent = cl.conn.status.total then
    let res := epollSetConn cl epollIn ok
    { res.1 with pc := if res.2 then .wait else .afterEvent input }
  else { cl with pc := .afterEvent input }

/-- With all responses received, the connection is closed. -/
def handleAfterInput (cl : ClientWorker) (clockOk : Bool) : ClientWorker :=
  if cl.conn.status.received = cl.conn.status.total then
    if clockOk then
      let res := epollSetConn cl 0 true
      { res.1 with conn := { cl.conn with closed := true }, pc := .wait }
    else { cl with pc := .wait }
  else { cl with pc := .wait }

/-- One step of the client. -/
def clientStep (cl : ClientWorker) : ClientAction → Option ClientWorker
  | .stop => some { cl with stopping := true }
  | .event events clockOk =>
    match cl.pc with
    | .wait => handleEvent cl events clockOk
    | _ => none
  | .outputTop =>
    match cl.pc with
    | .output input => some (handleOutputTop cl input)
    | _ => none
  | .send res =>
    match cl.pc with
    | .send input => handleOutputSend cl input res
    | _ => none
  | .afterOutput ok =>
    match cl.pc with
    | .afterOutput input => some (handleAfterOutput cl input ok)
    | _ => none
  | .inputTop =>
    match cl.pc with
    | .input => some (handleInputTop cl)
    | _ => none
  | .recv res =>
    match cl.pc with
    | .recv => handleInputRecv cl res
    | _ => none
  | .afterInput clockOk =>
    match cl.pc with
    | .afterInput => some (handleAfterInput cl clockOk)
    | _ => none

/-- The bytes that `send` takes. -/
def bytesOut (cl : ClientWorker) : ClientAction → List Byte
  | .send (.sent written) =>
    Bytes.slice cl.conn.sendbuf.msg (sizeofRequest - cl.conn.sendbuf.left) written
  | _ => []

/-- The bytes that `recv` returns. -/
def bytesIn : ClientAction → List Byte
  | .recv (.data bytes) => bytes
  | _ => []

/-! ## What a step can do -/

/-- The steps, one constructor for each piece of the source. -/
inductive ClientMove (cl : ClientWorker) : ClientAction → ClientWorker → Prop
  | stop : ClientMove cl .stop { cl with stopping := true }
  | event {events : EpollMask} {clockOk : Bool} {cl' : ClientWorker} (hpc : cl.pc = .wait)
      (hstep : handleEvent cl events clockOk = some cl') :
      ClientMove cl (.event events clockOk) cl'
  | outputTop {input : Bool} (hpc : cl.pc = .output input) :
      ClientMove cl .outputTop (handleOutputTop cl input)
  | send {input : Bool} {res : SendResult} {cl' : ClientWorker} (hpc : cl.pc = .send input)
      (hstep : handleOutputSend cl input res = some cl') : ClientMove cl (.send res) cl'
  | afterOutput {input ok : Bool} (hpc : cl.pc = .afterOutput input) :
      ClientMove cl (.afterOutput ok) (handleAfterOutput cl input ok)
  | inputTop (hpc : cl.pc = .input) : ClientMove cl .inputTop (handleInputTop cl)
  | recv {res : RecvResult} {cl' : ClientWorker} (hpc : cl.pc = .recv)
      (hstep : handleInputRecv cl res = some cl') : ClientMove cl (.recv res) cl'
  | afterInput {clockOk : Bool} (hpc : cl.pc = .afterInput) :
      ClientMove cl (.afterInput clockOk) (handleAfterInput cl clockOk)

theorem client_cases {cl cl' : ClientWorker} {a : ClientAction}
    (hstep : clientStep cl a = some cl') : ClientMove cl a cl' := by
  cases a with
  | stop => exact Option.some.inj hstep ▸ .stop
  | event events clockOk =>
    simp only [clientStep] at hstep
    split at hstep
    · next hpc => exact .event hpc hstep
    · cases hstep
  | outputTop =>
    simp only [clientStep] at hstep
    split at hstep
    · next hpc => exact Option.some.inj hstep ▸ .outputTop hpc
    · cases hstep
  | send res =>
    simp only [clientStep] at hstep
    split at hstep
    · next hpc => exact .send hpc hstep
    · cases hstep
  | afterOutput ok =>
    simp only [clientStep] at hstep
    split at hstep
    · next hpc => exact Option.some.inj hstep ▸ .afterOutput hpc
    · cases hstep
  | inputTop =>
    simp only [clientStep] at hstep
    split at hstep
    · next hpc => exact Option.some.inj hstep ▸ .inputTop hpc
    · cases hstep
  | recv res =>
    simp only [clientStep] at hstep
    split at hstep
    · next hpc => exact .recv hpc hstep
    · cases hstep
  | afterInput clockOk =>
    simp only [clientStep] at hstep
    split at hstep
    · next hpc => exact Option.some.inj hstep ▸ .afterInput hpc
    · cases hstep

end Piotbench.Client
