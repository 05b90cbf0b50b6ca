import Piotbench.Lib.Bytes
import Mathlib.Logic.Function.Basic

/-!
# The server's data

`include/server.h` and `include/rpc.h`: the configuration, the preallocated connection and buffer
objects, the queues between the workers, and where each worker thread stands in its code.

* Connection and buffer objects are preallocated and never freed while the server runs, so an
  object is named by a number and the heap is a function from names to contents.
* A queue is the list of the objects in it. `queue_put` appends and `queue_get` takes the head; the
  chain of `next` pointers behind it is not part of this model. A list stands for the chain
  as long as no object is put while it is in a queue, which is what `Ownership` is about; behind
  a second put it says nothing about the chain. Where several workers take from one queue, a
  `queue_get` may also come up empty (`requestMiss`).
* Counters are `unsigned long`; they count messages, and are natural numbers here. The one place
  that subtracts two of them does so modulo `2 ^ 64` (`ulongSub`).
* A worker's position in its C function is a constructor of its `…Pc` type. One step of the model
  is one access to shared data, or one section under `conn->lock`, together with the private work
  around it.
-/

namespace Piotbench.Server

abbrev Byte := UInt8

/-- A preallocated `struct server_connection_t`. -/
abbrev ConnId := Nat

/-- A preallocated `struct server_buffer_t`. -/
abbrev BufId := Nat

/-- A socket's file descriptor. -/
abbrev Fd := Nat

/-- The event bits of `epoll`, an `int` in the source. -/
abbrev EpollMask := BitVec 32

def epollIn : EpollMask := 0x1
def epollOut : EpollMask := 0x4
def epollErr : EpollMask := 0x8

/-- `mask & bit` as a C condition. -/
def EpollMask.has (mask bit : EpollMask) : Bool := mask &&& bit != 0

/-! ## Configuration -/

structure LoadConfig where
  /-- What `compute_request` gets as `nsec`. -/
  computeDur : Nat
  maxIoSize : Nat
  readahead : Nat

structure ThreadsConfig where
  io : Nat
  accept : Nat
  submit : Nat
  compute : Nat

structure AllocConfig where
  sessions : Nat
  buffers : Nat

/-- `struct server_config_t`, less the socket path and the kerncall switches. -/
structure ServerConfig where
  load : LoadConfig
  threads : ThreadsConfig
  alloc : AllocConfig

/-- `a - b` on `unsigned long`. -/
def ulongSub (a b : Nat) : Nat := (a + UInt64.size - b % UInt64.size) % UInt64.size

/-! ## Messages

`struct message_t` is a request (an `unsigned int` id and 1020 bytes of data) followed by a
response (an id and a SHA-1 digest). Offsets count from the start of the message. -/

def requestLength : Nat := 1020
def shaDigestLength : Nat := 20
def sizeofId : Nat := 4

/-- `sizeof (struct request_t)`. -/
def sizeofRequest : Nat := sizeofId + requestLength

/-- `sizeof (struct response_t)`. -/
def sizeofResponse : Nat := sizeofId + shaDigestLength

theorem sizeofRequest_eq : sizeofRequest = 1024 := rfl

theorem sizeofResponse_eq : sizeofResponse = 24 := rfl

/-- Offset of `msg.res`. -/
def resOffset : Nat := sizeofRequest

/-- `struct server_buffer_t`: the message, the connection it belongs to, and how far the transfer
of the request or of the response has come. `ptr` is an offset into the message. -/
structure ServerBuffer where
  msg : Nat → Byte
  conn : ConnId
  left : Nat
  ptr : Nat

/-! ## Connections -/

/-- `struct server_connection_t`. `lock` is `true` while someone holds `conn->lock`. -/
structure ServerConnection where
  fd : Fd
  closed : Bool
  ioidx : Nat
  submitidx : Nat
  computeidx : Nat
  epollFd : Nat
  epollState : EpollMask
  recvbuf : Option BufId
  sendbuf : Option BufId
  sendQueue : List BufId
  received : Nat
  processed : Nat
  sent : Nat
  lock : Bool

/-- A connection object with every field zero. -/
def ServerConnection.zero : ServerConnection where
  fd := 0
  closed := false
  ioidx := 0
  submitidx := 0
  computeidx := 0
  epollFd := 0
  epollState := 0
  recvbuf := none
  sendbuf := none
  sendQueue := []
  received := 0
  processed := 0
  sent := 0
  lock := false

/-! ## The kernel's side -/

/-- What `epoll` has registered for a descriptor: in which instance, for which events, and the
connection in `data.ptr`. Epoll instances are named by their index in `epoll_fds`. -/
structure Interest where
  epollFd : Nat
  events : EpollMask
  conn : ConnId

/-- The descriptors that are open, and the interest registered for each. -/
structure Kernel where
  isOpen : Fd → Bool
  interest : Fd → Option Interest

/-! ## Workers -/

/-- Where an accept worker stands. `took c`: `handle_accept` has taken `c` from
`empty_connections`. `failed c`: it returned an error, which ends the worker, and the object it
had taken was `c`. -/
inductive AcceptPc
  | idle
  | took (c : ConnId)
  | failed (c : ConnId)
  deriving DecidableEq

/-- Where an IO worker stands. `input` says that the event in hand also carries `EPOLLIN`, so that
`handle_request` is called after `handle_response` has returned 0. -/
inductive IoPc
  /-- In the loop over the events, or in `epoll_wait` when there are none left. -/
  | wait
  /-- `handle_response`: at the top of its loop. -/
  | response (c : ConnId) (input : Bool)
  /-- `handle_response`: at `Z_send`. -/
  | send (c : ConnId) (input : Bool) (b : BufId)
  /-- `handle_response`: a response is complete; its buffer is in the worker's hand. -/
  | recycle (c : ConnId) (input : Bool) (b : BufId)
  /-- `handle_response`: at `lock(&conn->lock)`. -/
  | lockResponse (c : ConnId) (input : Bool)
  /-- `handle_response`: holding the lock. -/
  | settle (c : ConnId) (input : Bool)
  /-- `handle_request`: at the top of its loop. -/
  | request (c : ConnId)
  /-- `handle_request`: at `Z_recv`. -/
  | recv (c : ConnId) (b : BufId)
  /-- `handle_request`: a request is complete; at `lock(&conn->lock)`. -/
  | lockRequest (c : ConnId) (b : BufId)
  /-- `handle_request`: holding the lock. -/
  | deliver (c : ConnId) (b : BufId)
  /-- `finish_connection`: at its `trylock`. -/
  | finish (c : ConnId) (input : Bool)
  /-- `finish_connection`: past its `trylock`, holding the lock. -/
  | teardown (c : ConnId) (input : Bool)
  /-- `__io_worker` has returned an error, which ends the worker. -/
  | exited
  deriving DecidableEq

/-- An IO worker: its position, and the events of the current batch it has not yet looked at. -/
structure IoWorker where
  pc : IoPc
  events : List (ConnId × EpollMask)

/-- Where a compute worker stands. -/
inductive ComputePc
  | idle
  | got (b : BufId)
  deriving DecidableEq

/-- Where a submitter stands; `c` is the `conn` it read from the buffer. -/
inductive SubmitPc
  | idle
  /-- At `trylock`. -/
  | got (b : BufId) (c : ConnId)
  /-- Holding `conn->lock`. -/
  | locked (b : BufId) (c : ConnId)
  /-- Refused at `trylock`; about to put the buffer back. -/
  | refused (b : BufId) (c : ConnId)
  /-- Unlocked after a disposal; about to compare `processed` with `received`. -/
  | compare (c : ConnId)
  /-- `__submitter_worker` has returned an error, which ends the worker. -/
  | exited
  deriving DecidableEq

/-! ## The server -/

/-- `struct server_context_t`, with the heap, the kernel and the position of every worker. Each
family of workers and queues is a total function; only the indices that `handle_accept` hands out
are ever used. -/
structure ServerContext where
  conns : ConnId → ServerConnection
  bufs : BufId → ServerBuffer
  emptyConnections : List ConnId
  emptyBuffers : List BufId
  computeInbox : Nat → List BufId
  submitterInbox : Nat → List BufId
  /-- `ctx->io.next` -/
  next : Nat
  kernel : Kernel
  accept : Nat → AcceptPc
  io : Nat → IoWorker
  compute : Nat → ComputePc
  submit : Nat → SubmitPc

/-- The connection objects after `create_server`. Numbers from `alloc.sessions` on name no object;
what stands there is closed and is never used. -/
def ServerConnection.init (cfg : ServerConfig) (c : ConnId) : ServerConnection :=
  { ServerConnection.zero with closed := decide (cfg.alloc.sessions ≤ c) }

/-- The server after `create_server`: all objects in the pools, all workers idle. Connection
objects are zero, buffers hold whatever `aligned_alloc` left in them. -/
def ServerContext.init (cfg : ServerConfig) (bufs : BufId → ServerBuffer) : ServerContext where
  conns := .init cfg
  bufs := bufs
  emptyConnections := List.range cfg.alloc.sessions
  emptyBuffers := List.range cfg.alloc.buffers
  computeInbox := fun _ => []
  submitterInbox := fun _ => []
  next := 0
  kernel := ⟨fun _ => false, fun _ => none⟩
  accept := fun _ => .idle
  io := fun _ => ⟨.wait, []⟩
  compute := fun _ => .idle
  submit := fun _ => .idle

/-- `queue_put` -/
def queuePut {α : Type} (x : α) (q : List α) : List α := q ++ [x]

/-- Move IO worker `k` to `pc`. -/
def ServerContext.goto (s : ServerContext) (k : Nat) (pc : IoPc) : ServerContext :=
  { s with io := Function.update s.io k { s.io k with pc := pc } }

section Goto

variable (s : ServerContext) (k : Nat) (pc : IoPc)

@[simp] theorem goto_conns : (s.goto k pc).conns = s.conns := rfl
@[simp] theorem goto_bufs : (s.goto k pc).bufs = s.bufs := rfl
@[simp] theorem goto_emptyConnections : (s.goto k pc).emptyConnections = s.emptyConnections := rfl
@[simp] theorem goto_emptyBuffers : (s.goto k pc).emptyBuffers = s.emptyBuffers := rfl
@[simp] theorem goto_computeInbox : (s.goto k pc).computeInbox = s.computeInbox := rfl
@[simp] theorem goto_submitterInbox : (s.goto k pc).submitterInbox = s.submitterInbox := rfl
@[simp] theorem goto_kernel : (s.goto k pc).kernel = s.kernel := rfl
@[simp] theorem goto_accept : (s.goto k pc).accept = s.accept := rfl
@[simp] theorem goto_compute : (s.goto k pc).compute = s.compute := rfl
@[simp] theorem goto_submit : (s.goto k pc).submit = s.submit := rfl
@[simp] theorem goto_io :
    (s.goto k pc).io = Function.update s.io k { s.io k with pc := pc } := rfl

end Goto

/-- Writing an object whose field `f` is unchanged leaves field `f` of every object unchanged. -/
theorem field_update {α : Type} (f : ServerConnection → α) {conns : ConnId → ServerConnection}
    {c c' : ConnId} {conn : ServerConnection} (h : f conn = f (conns c)) :
    f (Function.update conns c conn c') = f (conns c') := by
  by_cases hc : c' = c
  · subst hc
    rw [Function.update_self]
    exact h
  · rw [Function.update_of_ne hc]

theorem field_update_eq {α : Type} (f : ServerConnection → α)
    {conns : ConnId → ServerConnection} {c c' : ConnId} {conn : ServerConnection} {x : α}
    (h : f conn = f (conns c)) (hx : f (conns c') = x) :
    f (Function.update conns c conn c') = x :=
  (field_update f h).trans hx

end Piotbench.Server
