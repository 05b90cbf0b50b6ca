import Piotbench.Server.Basic
import Piotbench.Lib.Stage

/-!
# Starting and destroying the server

`create_server` and `destroy_server` of `src/server/main.c`, with what they call there, in
`src/util.c` and in `src/thread.c`. Every call that can fail is a `StartStep`, and `ok` says which
of them succeed. An access outside of an array and a queue operation on a null pointer are faults.

The context is modelled with what it has of the outside: the threads that have been started and not
joined, the objects that have been allocated and freed, the descriptors that have been closed.
-/

namespace Piotbench.Server

open Stage

/-- `SERVER_MAX_THREADS`. -/
def serverMaxThreads : Nat := 128

/-- `THREAD_GROUP_MAX`. -/
def threadGroupMax : Nat := 64

/-- The size of `sun_path`. -/
def sunPathMax : Nat := 108

inductive Fault
  /-- An access to element `i` of an array of `size` elements. -/
  | outOfBounds (i size : Nat)
  /-- A null pointer instead of a queue root. -/
  | nullQueue
  | divideByZero
  deriving DecidableEq

/-- An access to element `i` of an array of `size` elements, and what comes of it. -/
def checked {S E : Type} (i size : Nat) (res : Result S E Fault) : Result S E Fault :=
  if i < size then res else .fault (.outOfBounds i size)

/-! ## The context -/

inductive Group
  | compute
  | submit
  | io
  | accept
  deriving DecidableEq

/-- A thread, by its `group_info`. -/
structure ThreadId where
  group : Group
  current : Nat
  deriving DecidableEq

/-- `struct thread_group_t`. -/
structure ThreadGroup where
  n : Nat
  threads : Nat → Option ThreadId

/-- The server's descriptors: those that the context holds, and those of the sessions. -/
inductive ServerFd
  | listen
  | epoll (i : Nat)
  | session (fd : Fd)
  deriving DecidableEq

/-- The queue roots of `struct server_queues_t`. -/
inductive QueueName
  | emptyConnections
  | emptyBuffers
  | computeInbox (i : Nat)
  | submitterInbox (i : Nat)
  deriving DecidableEq

/-- `struct server_context_t` while no worker changes it, and what it has of the outside. A
descriptor that is -1 and a pointer that is null are `none`. -/
structure ServerSetup where
  nrIo : Nat
  listenFd : Option ServerFd
  epollFds : Nat → Option ServerFd
  queues : QueueName → Option (List Nat)
  threads : Group → Option ThreadGroup
  /-- The threads that have been started and not joined. -/
  running : List ThreadId
  /-- The connection objects that have been allocated. -/
  conns : List ConnId
  /-- The buffer objects that have been allocated. -/
  bufs : List BufId
  freedConns : List ConnId
  freedBufs : List BufId
  freedQueues : List QueueName
  closed : List ServerFd

/-- The context after `memset`. -/
def ServerSetup.init : ServerSetup where
  nrIo := 0
  listenFd := none
  epollFds _ := none
  queues _ := none
  threads _ := none
  running := []
  conns := []
  bufs := []
  freedConns := []
  freedBufs := []
  freedQueues := []
  closed := []

/-- The calls that can fail. `bind` stands for `bind` and `listen`, and `thread` for all that
`__create_thread` does. -/
inductive StartStep
  | context
  | socket
  | bind
  | epoll (i : Nat)
  | queue (q : QueueName)
  | connection (i : Nat)
  | buffer (i : Nat)
  | group (g : Group)
  | thread (g : Group) (i : Nat)
  deriving DecidableEq

/-- A part of `create_server` or `destroy_server`. -/
abbrev SetupStage := ServerSetup → Result ServerSetup StartStep Fault

/-- How many threads a group is to have. -/
def ServerConfig.nrThreads (cfg : ServerConfig) : Group → Nat
  | .compute => cfg.threads.compute
  | .submit => cfg.threads.submit
  | .io => cfg.threads.io
  | .accept => cfg.threads.accept

/-! ## `create_server` -/

section Create

variable (ok : StartStep → Bool) (cfg : ServerConfig)

/-- `sun_path` after `memset` and `strcpy` in `bind_sock`. The terminator goes behind the path. -/
def bindAddress (path : List Byte) : Except Fault (List Byte) :=
  if path.length < sunPathMax then
    .ok (path ++ List.replicate (sunPathMax - path.length) 0)
  else .error (.outOfBounds path.length sunPathMax)

/-- `bind_server_socket` with `bind_sock`. -/
def bindServerSocket (path : List Byte) : SetupStage := fun s =>
  if ok .socket then
    -- the address is filled in between `socket` and `bind`
    match bindAddress path with
    | .error f => .fault f
    | .ok _ => if ok .bind then .done { s with listenFd := some .listen } else .failed .bind s
  else .failed .socket s

def setupServerEpoll : SetupStage := fun s =>
  forUpTo cfg.threads.io
    (fun i s =>
      if ok (.epoll i) then
        -- `nr_io` is not compared with the size of `epoll_fds`
        checked i serverMaxThreads
          (.done { s with epollFds := Function.update s.epollFds i (some (.epoll i)) })
      else .failed (.epoll i) s)
    { s with nrIo := cfg.threads.io }

def setupServerIo (path : List Byte) : SetupStage :=
  andThen (bindServerSocket ok path) (setupServerEpoll ok cfg)

/-- `alloc_one_queue`. `alloc_queue_root` initializes what `malloc` returns without a check. -/
def allocOneQueue (q : QueueName) : SetupStage := fun s =>
  if ok (.queue q) then .done { s with queues := Function.update s.queues q (some []) }
  else .fault .nullQueue

def allocNQueues (inbox : Nat → QueueName) (n : Nat) : SetupStage :=
  forUpTo n fun i s => checked i serverMaxThreads (allocOneQueue ok (inbox i) s)

def allocServerQueues : SetupStage :=
  andThen (allocOneQueue ok .emptyConnections) <|
  andThen (allocOneQueue ok .emptyBuffers) <|
  andThen (allocNQueues ok .computeInbox cfg.threads.compute)
    (allocNQueues ok .submitterInbox cfg.threads.submit)

/-- `queue_put` on a queue of the context. -/
def putElement (q : QueueName) (x : Nat) : SetupStage := fun s =>
  match s.queues q with
  | none => .fault .nullQueue
  | some l => .done { s with queues := Function.update s.queues q (some (queuePut x l)) }

def setupServerPrealloc : SetupStage :=
  andThen
    (forUpTo cfg.alloc.sessions fun i s =>
      if ok (.connection i) then putElement .emptyConnections i { s with conns := s.conns ++ [i] }
      else .failed (.connection i) s)
    (forUpTo cfg.alloc.buffers fun i s =>
      if ok (.buffer i) then putElement .emptyBuffers i { s with bufs := s.bufs ++ [i] }
      else .failed (.buffer i) s)

/-- One iteration of the loop in `thread_group_create`. -/
def createThread (g : Group) (i : Nat) (p : ServerSetup × ThreadGroup) :
    Result (ServerSetup × ThreadGroup) StartStep Fault :=
  checked i threadGroupMax <|
    if ok (.thread g i) then
      .done ({ p.1 with running := p.1.running ++ [⟨g, i⟩] },
        { p.2 with threads := Function.update p.2.threads i (some ⟨g, i⟩) })
    else .failed (.thread g i) p

/-- `thread_group_create`, and the assignment of what it returns. The group is freed when a thread
cannot be created; the threads created before it go on. -/
def threadGroupCreate (g : Group) (n : Nat) : SetupStage := fun s =>
  if ok (.group g) then
    withLocal ⟨n, fun _ => none⟩ (forUpTo n (createThread ok g))
      (fun s tg => { s with threads := Function.update s.threads g (some tg) }) s
  else .failed (.group g) s

def spawnServerThreads : SetupStage :=
  andThen (threadGroupCreate ok .compute cfg.threads.compute) <|
  andThen (threadGroupCreate ok .submit cfg.threads.submit) <|
  andThen (threadGroupCreate ok .io cfg.threads.io)
    (threadGroupCreate ok .accept cfg.threads.accept)

/-- `create_server` up to the point where it returns the context or gives up. -/
def constructServer (path : List Byte) : SetupStage :=
  andThen (setupServerIo ok cfg path) <|
  andThen (allocServerQueues ok cfg) <|
  andThen (setupServerPrealloc ok cfg) (spawnServerThreads ok cfg)

end Create

/-! ## `destroy_server` -/

/-- `thread_group_join`. -/
def threadGroupJoin (tg : ThreadGroup) : SetupStage :=
  forUpTo tg.n fun i s =>
    checked i threadGroupMax <|
      match tg.threads i with
      -- `continue`
      | none => .done s
      | some t => .done { s with running := s.running.filter (· ≠ t) }

/-- A group is joined if it was created. -/
def joinGroup (g : Group) : SetupStage := fun s =>
  match s.threads g with
  | none => .done s
  | some tg => threadGroupJoin tg s

def cleanupServerThreads : SetupStage :=
  andThen (joinGroup .submit) <|
  andThen (joinGroup .io) <|
  andThen (joinGroup .accept) (joinGroup .compute)

/-- The two loops of `free_server_prealloc`: `queue_get` returns one object after another. -/
def freeServerPrealloc : SetupStage := fun s =>
  match s.queues .emptyConnections, s.queues .emptyBuffers with
  | some conns, some bufs =>
    .done { s with
      queues := Function.update (Function.update s.queues .emptyConnections (some []))
        .emptyBuffers (some [])
      freedConns := s.freedConns ++ conns
      freedBufs := s.freedBufs ++ bufs }
  | _, _ => .fault .nullQueue

/-- `cleanup_one_queue`: what is in the queue stays where it is. -/
def cleanupOneQueue (q : QueueName) : SetupStage := fun s =>
  match s.queues q with
  | none => .done s
  | some _ => .done { s with freedQueues := s.freedQueues ++ [q] }

def cleanupNQueues (inbox : Nat → QueueName) (n : Nat) : SetupStage :=
  forUpTo n fun i s => checked i serverMaxThreads (cleanupOneQueue (inbox i) s)

def cleanupServerQueues (cfg : ServerConfig) : SetupStage :=
  andThen (cleanupOneQueue .emptyConnections) <|
  andThen (cleanupOneQueue .emptyBuffers) <|
  andThen (cleanupNQueues .computeInbox cfg.threads.compute)
    (cleanupNQueues .submitterInbox cfg.threads.submit)

/-- `close`; -1 is not a descriptor. -/
def ServerSetup.close (s : ServerSetup) (fd : Option ServerFd) : ServerSetup :=
  { s with closed := s.closed ++ fd.toList }

/-- `cleanup_server_epoll`: every iteration closes `epoll_fds[0]`. -/
def cleanupServerEpoll : SetupStage := fun s =>
  forUpTo s.nrIo (fun _ s => .done (s.close (s.epollFds 0))) s

def cleanupServerIo : SetupStage :=
  andThen cleanupServerEpoll fun s => .done (s.close s.listenFd)

/-- `destroy_server`, up to `free(ctx)`. -/
def destroyServer (cfg : ServerConfig) : SetupStage :=
  andThen cleanupServerThreads <|
  andThen freeServerPrealloc <|
  andThen (cleanupServerQueues cfg) cleanupServerIo

/-- `create_server`: the context, or the step that failed and what is left after
`destroy_server`. -/
def createServer (ok : StartStep → Bool) (cfg : ServerConfig) (path : List Byte) :
    Result ServerSetup StartStep Fault :=
  if ok .context then
    match constructServer ok cfg path .init with
    -- `out_cleanup`
    | .failed e s =>
      match destroyServer cfg s with
      | .done s' => .failed e s'
      | res => res
    | res => res
  else .failed .context .init

/-! ## What `create_server` builds

Every step that succeeds leaves one definite state, so what a step that fails leaves behind can be
written down for each (`leftAt`). -/

/-- The queue roots, with so many inboxes. -/
def queueRoots (compute submit : Nat) (conns : List ConnId) (bufs : List BufId) :
    QueueName → Option (List Nat)
  | .emptyConnections => some conns
  | .emptyBuffers => some bufs
  | .computeInbox i => if i < compute then some [] else none
  | .submitterInbox i => if i < submit then some [] else none

/-- A group with the first `k` of its `n` threads. -/
def ThreadGroup.upTo (g : Group) (n k : Nat) : ThreadGroup :=
  ⟨n, fun i => if i < k then some ⟨g, i⟩ else none⟩

def threadsUpTo (g : Group) (k : Nat) : List ThreadId := (List.range k).map (⟨g, ·⟩)

/-- The socket is bound, and the first `k` of `n` epoll descriptors are there. -/
def ServerSetup.polling (n k : Nat) : ServerSetup :=
  { ServerSetup.init with
    nrIo := n
    listenFd := some .listen
    epollFds := fun i => if i < k then some (.epoll i) else none }

/-- With the queues, and these objects in them. -/
def ServerSetup.stocked (cfg : ServerConfig) (conns : List ConnId) (bufs : List BufId) :
    ServerSetup :=
  { ServerSetup.polling cfg.threads.io cfg.threads.io with
    queues := queueRoots cfg.threads.compute cfg.threads.submit conns bufs
    conns := conns
    bufs := bufs }

/-- With all objects, these groups, and these threads running. -/
def ServerSetup.spawned (cfg : ServerConfig) (groups : List Group) (running : List ThreadId) :
    ServerSetup :=
  { ServerSetup.stocked cfg (List.range cfg.alloc.sessions) (List.range cfg.alloc.buffers) with
    threads := fun g =>
      if g ∈ groups then some (.upTo g (cfg.nrThreads g) (cfg.nrThreads g)) else none
    running := running }

/-- The threads of these groups. -/
def ServerConfig.threadsOf (cfg : ServerConfig) (groups : List Group) : List ThreadId :=
  groups.flatMap fun g => threadsUpTo g (cfg.nrThreads g)

/-- The groups that are created before this one. -/
def Group.before : Group → List Group
  | .compute => []
  | .submit => [.compute]
  | .io => [.compute, .submit]
  | .accept => [.compute, .submit, .io]

/-- What is there when a step fails. -/
def leftAt (cfg : ServerConfig) : StartStep → ServerSetup
  | .context | .socket | .bind | .queue _ => .init
  | .epoll i => .polling cfg.threads.io i
  | .connection i => .stocked cfg (List.range i) []
  | .buffer i => .stocked cfg (List.range cfg.alloc.sessions) (List.range i)
  | .group g => .spawned cfg g.before (cfg.threadsOf g.before)
  | .thread g i => .spawned cfg g.before (cfg.threadsOf g.before ++ threadsUpTo g i)

/-- The context that `create_server` returns. -/
def ServerSetup.started (cfg : ServerConfig) : ServerSetup :=
  .spawned cfg [.compute, .submit, .io, .accept]
    (cfg.threadsOf [.compute, .submit, .io, .accept])

end Piotbench.Server
