import Piotbench.Lib.Places
import Piotbench.Server.Cases

/-!
# The server's invariant

What holds in every state of a run whose steps are `Orderly`. The definitions only; that every
step keeps them is proved in the modules that follow, group by group, and put together in
`Safety`.

* `owned`: every buffer is at one place (`ServerContext.owned`).
* `parked`: a connection object is parked (in `empty_connections` or in the hands of an accept
  worker) at most once, and nothing of an earlier session is left in it. An object that is not
  parked is in a session.
* `inFlight`: a buffer at compute or at a submitter belongs to a connection that is in a session,
  and waits for the worker that `handle_accept` gave that connection.
* `watched`, `sessions`: what the kernel has registered for a descriptor is an open session, and
  every open session is registered.
* `workers`: the IO workers only handle sessions that are registered with them, each at one place
  in the batch.
* `accounts`: the counters of a session and the places of its buffers agree.
-/

namespace Piotbench.Server

open Places

/-! ## Where buffers are -/

/-- The places a buffer can be owned from. -/
inductive Place
  | emptyBuffers
  | recvbuf (c : ConnId)
  | computeInbox (i : Nat)
  | computeHand (i : Nat)
  | submitterInbox (j : Nat)
  | submitterHand (j : Nat)
  | sendQueue (c : ConnId)
  | sendbuf (c : ConnId)
  | ioHand (k : Nat)
  deriving DecidableEq

/-- The buffer in a compute worker's hand. -/
def ComputePc.hand : ComputePc → List BufId
  | .idle => []
  | .got b => [b]

/-- The buffer in a submitter's hand. -/
def SubmitPc.hand : SubmitPc → List BufId
  | .got b _ | .locked b _ | .refused b _ => [b]
  | .idle | .compare _ | .exited => []

/-- The buffer in a submitter's hand, and the `buff->conn` that it has read. -/
def SubmitPc.carried : SubmitPc → Option (BufId × ConnId)
  | .got b c | .locked b c | .refused b c => some (b, c)
  | .idle | .compare _ | .exited => none

theorem SubmitPc.hand_of_carried {pc : SubmitPc} {b : BufId} {c : ConnId}
    (h : pc.carried = some (b, c)) : pc.hand = [b] := by
  cases pc with
  | got | locked | refused =>
    cases h
    rfl
  | idle | compare | exited => cases h

/-- The buffer in an IO worker's hand: the one it has just taken out of `sendbuf`. -/
def IoPc.hand : IoPc → List BufId
  | .recycle _ _ b => [b]
  | .wait | .response _ _ | .send _ _ _ | .lockResponse _ _ | .settle _ _ | .request _ | .recv _ _
  | .lockRequest _ _ | .deliver _ _ | .finish _ _ | .teardown _ _ | .exited => []

/-- The buffers at each place. The pointers of a connection that is closed are stale: they own
nothing. -/
def ServerContext.owned (s : ServerContext) : Place → List BufId
  | .emptyBuffers => s.emptyBuffers
  | .recvbuf c => if (s.conns c).closed then [] else (s.conns c).recvbuf.toList
  | .computeInbox i => s.computeInbox i
  | .computeHand i => (s.compute i).hand
  | .submitterInbox j => s.submitterInbox j
  | .submitterHand j => (s.submit j).hand
  | .sendQueue c => (s.conns c).sendQueue
  | .sendbuf c => if (s.conns c).closed then [] else (s.conns c).sendbuf.toList
  | .ioHand k => (s.io k).pc.hand

/-- The buffers at compute worker `i`, the one in its hand first. -/
def ServerContext.computeLine (s : ServerContext) (i : Nat) : List BufId :=
  (s.compute i).hand ++ s.computeInbox i

/-- The buffers at submitter `j`, the one in its hand first. -/
def ServerContext.submitLine (s : ServerContext) (j : Nat) : List BufId :=
  (s.submit j).hand ++ s.submitterInbox j

/-- The buffers of connection `c` at its compute worker, in order. -/
def ServerContext.computing (s : ServerContext) (c : ConnId) : List BufId :=
  (s.computeLine (s.conns c).computeidx).filter fun b => (s.bufs b).conn = c

/-- The buffers of connection `c` at its submitter, in order. -/
def ServerContext.submitting (s : ServerContext) (c : ConnId) : List BufId :=
  (s.submitLine (s.conns c).submitidx).filter fun b => (s.bufs b).conn = c

/-! ## Where connection objects are -/

inductive Shelf
  | emptyConnections
  | accept (a : Nat)
  deriving DecidableEq

/-- The object in an accept worker's hands. -/
def AcceptPc.object : AcceptPc → List ConnId
  | .idle => []
  | .took c | .failed c => [c]

/-- The connection objects that are not in a session. -/
def ServerContext.parked (s : ServerContext) : Shelf → List ConnId
  | .emptyConnections => s.emptyConnections
  | .accept a => (s.accept a).object

/-- The object of connection `c` is in a session. -/
structure ServerContext.InSession (s : ServerContext) (c : ConnId) : Prop where
  notParked : ∀ p, c ∉ s.parked p

/-- Nothing of an earlier session is left in a parked object. -/
structure ServerContext.Blank (s : ServerContext) (c : ConnId) : Prop where
  queue : (s.conns c).sendQueue = []
  bufs : (s.conns c).closed = false → (s.conns c).recvbuf = none ∧ (s.conns c).sendbuf = none

structure Parked (s : ServerContext) : Prop where
  exclusive : Exclusive s.parked
  blank : ∀ p, ∀ c ∈ s.parked p, s.Blank c
  /-- Only an object without a response in progress is handed out. -/
  fresh : ∀ a c, s.accept a = .took c → (s.conns c).sendbuf = none
  drained : ∀ c, (s.conns c).closed = true → (s.conns c).sendQueue = []

/-! ## Who refers to a connection -/

structure InFlight (s : ServerContext) : Prop where
  compute : ∀ i, ∀ b ∈ s.computeLine i, s.InSession (s.bufs b).conn ∧
    (s.conns (s.bufs b).conn).computeidx = i
  submit : ∀ j, ∀ b ∈ s.submitLine j, s.InSession (s.bufs b).conn ∧
    (s.conns (s.bufs b).conn).submitidx = j
  hand : ∀ j b c, (s.submit j).carried = some (b, c) → (s.bufs b).conn = c
  compare : ∀ j c, s.submit j = .compare c → s.InSession c ∧ (s.conns c).closed = true ∧
    (s.conns c).submitidx = j
  queue : ∀ c, ∀ b ∈ (s.conns c).sendQueue, (s.bufs b).conn = c
  recvbuf : ∀ c b, (s.conns c).closed = false → (s.conns c).recvbuf = some b → (s.bufs b).conn = c

/-- The registration `i` of descriptor `fd` is an open session, registered with its IO worker. -/
structure Registered (s : ServerContext) (fd : Fd) (i : Interest) : Prop where
  descr : (s.conns i.conn).fd = fd
  closed : (s.conns i.conn).closed = false
  session : s.InSession i.conn
  ioidx : (s.conns i.conn).ioidx = i.epollFd
  epollFd : (s.conns i.conn).epollFd = i.epollFd
  isOpen : s.kernel.isOpen fd = true
  input : (s.conns i.conn).epollState.has epollIn = true

/-- Connection `c` is registered with IO worker `k`. -/
def ServerContext.Live (s : ServerContext) (k : Nat) (c : ConnId) : Prop :=
  ∃ events, s.kernel.interest (s.conns c).fd = some ⟨k, events, c⟩

/-- The connection an IO worker is handling. -/
def IoPc.conn : IoPc → List ConnId
  | .response c _ | .send c _ _ | .recycle c _ _ | .lockResponse c _ | .settle c _ | .request c
  | .recv c _ | .lockRequest c _ | .deliver c _ | .finish c _ | .teardown c _ => [c]
  | .wait | .exited => []

/-- The connections an IO worker is handling or has events for. -/
def IoWorker.conns (w : IoWorker) : List ConnId := w.pc.conn ++ w.events.map (·.1)

/-- What an IO worker relies on where it stands. -/
def ServerContext.PcOk (s : ServerContext) : IoPc → Prop
  | .send c _ b => (s.conns c).sendbuf = some b
  | .recv c b => (s.conns c).recvbuf = some b
  | .lockRequest c b | .deliver c b => (s.conns c).recvbuf = some b ∧ (s.bufs b).left = 0
  | .teardown _ input => input = false
  | .wait | .response _ _ | .recycle _ _ _ | .lockResponse _ _ | .settle _ _ | .request _
  | .finish _ _ | .exited => True

structure WorkerOk (s : ServerContext) (k : Nat) : Prop where
  once : (s.io k).conns.Nodup
  live : ∀ c ∈ (s.io k).conns, s.Live k c
  pc : s.PcOk (s.io k).pc

/-! ## Counters -/

/-- Counters and places of one session. `flow`: every request received has been processed, or is
at compute or at the submitter. `output`: while the connection is open, every request processed has
been sent, or is in the send queue or in `sendbuf`. -/
structure Accounts (s : ServerContext) (c : ConnId) : Prop where
  flow : (s.conns c).received
    = (s.conns c).processed + (s.computing c).length + (s.submitting c).length
  output : (s.conns c).closed = false → (s.conns c).processed
    = (s.conns c).sent + (s.conns c).sendQueue.length + (s.conns c).sendbuf.toList.length

/-! ## The invariant -/

structure Inv (cfg : ServerConfig) (s : ServerContext) : Prop where
  owned : Partition (· < cfg.alloc.buffers) s.owned
  parked : Parked s
  inFlight : InFlight s
  watched : ∀ fd i, s.kernel.interest fd = some i → Registered s fd i
  sessions : ∀ c, s.InSession c → (s.conns c).closed = false → s.Live (s.conns c).ioidx c
  workers : ∀ k, WorkerOk s k
  accounts : ∀ c, s.InSession c → Accounts s c

/-! ### What an IO worker knows about a connection it refers to -/

/-- Connection `c` is open, in a session, and registered with IO worker `k`. -/
structure ServerContext.OpenAt (s : ServerContext) (k : Nat) (c : ConnId) : Prop where
  closed : (s.conns c).closed = false
  session : s.InSession c
  ioidx : (s.conns c).ioidx = k
  epollFd : (s.conns c).epollFd = k
  isOpen : s.kernel.isOpen (s.conns c).fd = true
  input : (s.conns c).epollState.has epollIn = true

section

variable {cfg : ServerConfig} {s : ServerContext} {k : Nat} {c : ConnId}

theorem Inv.openAt_of_live (h : Inv cfg s) (hl : s.Live k c) : s.OpenAt k c := by
  obtain ⟨events, hi⟩ := hl
  have hr := h.watched _ _ hi
  exact ⟨hr.closed, hr.session, hr.ioidx, hr.epollFd, hr.isOpen, hr.input⟩

theorem Inv.live (h : Inv cfg s) (hc : c ∈ (s.io k).pc.conn) : s.Live k c :=
  (h.workers k).live c (List.mem_append_left _ hc)

theorem Inv.openAt (h : Inv cfg s) (hc : c ∈ (s.io k).pc.conn) : s.OpenAt k c :=
  h.openAt_of_live (h.live hc)

/-- A submitter only has buffers of sessions that are its own. -/
theorem Inv.submitHand {j : Nat} {b : BufId} (h : Inv cfg s)
    (hpc : (s.submit j).carried = some (b, c)) :
    s.InSession c ∧ (s.conns c).submitidx = j ∧ (s.bufs b).conn = c := by
  have hconn := h.inFlight.hand j b c hpc
  have hline : b ∈ s.submitLine j := by
    simp [ServerContext.submitLine, SubmitPc.hand_of_carried hpc]
  have hs := h.inFlight.submit j b hline
  rw [hconn] at hs
  exact ⟨hs.1, hs.2, hconn⟩

theorem Inv.pcOk {pc : IoPc} (h : Inv cfg s) (hpc : (s.io k).pc = pc) : s.PcOk pc :=
  hpc ▸ (h.workers k).pc

end

/-! ## Orderly steps -/

/-- `finish_connection`, called from `handle_response` for an event that also carries `EPOLLIN`,
does not get past its `trylock`. Otherwise the worker goes on to call `handle_request` on the
connection that has just been torn down. -/
def noCallAfterTeardown (s : ServerContext) : Action → Bool
  | .finishTrylock k =>
    match (s.io k).pc with
    | .finish c true => (s.conns c).lock
    | _ => true
  | _ => true

/-- `handle_accept` takes an object in which no response is in progress. -/
def cleanStart (s : ServerContext) : Action → Bool
  | .acceptTake _ =>
    match s.emptyConnections with
    | c :: _ => (s.conns c).sendbuf.isNone
    | [] => true
  | _ => true

/-- The two conditions under which the workers do not get into each other's way. -/
structure Orderly (s : ServerContext) (a : Action) : Prop where
  noCall : noCallAfterTeardown s a = true
  cleanStart : cleanStart s a = true

instance (s : ServerContext) (a : Action) : Decidable (Orderly s a) :=
  decidable_of_iff (noCallAfterTeardown s a = true ∧ cleanStart s a = true)
    ⟨fun h => ⟨h.1, h.2⟩, fun h => ⟨h.noCall, h.cleanStart⟩⟩

theorem Orderly.lock {s : ServerContext} {k : Nat} {c : ConnId}
    (h : Orderly s (.finishTrylock k)) (hpc : (s.io k).pc = .finish c true) :
    (s.conns c).lock = true := by
  simpa [noCallAfterTeardown, hpc] using h.noCall

theorem Orderly.sendbuf {s : ServerContext} {a : Nat} {c : ConnId} {rest : List ConnId}
    (h : Orderly s (.acceptTake a)) (hq : s.emptyConnections = c :: rest) :
    (s.conns c).sendbuf = none := by
  simpa [Server.cleanStart, hq] using h.cleanStart

end Piotbench.Server
