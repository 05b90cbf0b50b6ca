import Piotbench.Command.Limits
import Piotbench.Server.Construction

/-!
# Setting up the client and cleaning up after it

`init_client` and `cleanup_client` of `src/client/main.c`, with what they call there, whatever
`calloc`, `socket`, `connect`, `fcntl` and `pthread_barrier_init` return. The context is modelled
with what it has of the outside: the sockets that have been opened and closed, and the `conns`
arrays that have been allocated and freed.

`init_client_conn` takes every descriptor that is not negative; `cleanup_client_conn` closes those
that are positive. So everything is cleaned up exactly if no connection that it has to close has
descriptor 0 (`client_cleanup_iff`).
-/

namespace Piotbench.Client

open Server Stage
open Command (maxClientThreads)

/-- `fd` and `state` of `struct client_connection_t`. `isOpen`: the state is `CONN_OPEN`. -/
structure Endpoint where
  fd : Int
  isOpen : Bool

/-- `struct client_context_t`, as far as setting up and cleaning up go, and what it has of the
outside. -/
structure ClientSetup where
  init : Nat → Bool
  conns : Nat → Nat → Endpoint
  opened : List Int
  closed : List Int
  /-- The threads whose `conns` have been allocated. -/
  allocated : List Nat
  freed : List Nat

/-- The context after `calloc`. -/
def ClientSetup.zero : ClientSetup where
  init _ := false
  conns _ _ := ⟨0, false⟩
  opened := []
  closed := []
  allocated := []
  freed := []

def ClientSetup.setConn (s : ClientSetup) (i j : Nat) (conn : Endpoint) : ClientSetup :=
  { s with conns := Function.update s.conns i (Function.update (s.conns i) j conn) }

/-- What the calls return, for thread `i` and its connection `j`. -/
structure SetupCalls where
  context : Bool
  conns (i : Nat) : Bool
  socket (i j : Nat) : Option Fd
  connect (i j : Nat) : Bool
  setnonblock (i j : Nat) : Bool
  barrier : Bool

/-- The calls that can fail. -/
inductive SetupStep
  | context
  | conns (i : Nat)
  | socket (i j : Nat)
  | connect (i j : Nat)
  | setnonblock (i j : Nat)
  | barrier

abbrev ClientStage := ClientSetup → Result ClientSetup SetupStep Fault

/-! ## `cleanup_client` -/

def cleanupClientConn (s : ClientSetup) (i j : Nat) : ClientSetup :=
  let conn := s.conns i j
  let s := if 0 < conn.fd then { s with closed := s.closed ++ [conn.fd] } else s
  s.setConn i j { conn with isOpen := false }

def cleanupClientThread (nrConnections : Nat) (s : ClientSetup) (i : Nat) : ClientSetup :=
  let s := (List.range nrConnections).foldl
    (fun s j => if (s.conns i j).isOpen then cleanupClientConn s i j else s) s
  { s with freed := s.freed ++ [i], init := Function.update s.init i false }

def cleanupClient (nrThreads nrConnections : Nat) (s : ClientSetup) : ClientSetup :=
  (List.range nrThreads).foldl
    (fun s i => if s.init i then cleanupClientThread nrConnections s i else s) s

/-! ## `init_client` -/

section Init

variable (calls : SetupCalls) (nrThreads nrConnections : Nat)

/-- `init_client_conn`. -/
def initClientConn (i j : Nat) : ClientStage := fun s =>
  match calls.socket i j with
  | none => .failed (.socket i j) (s.setConn i j { s.conns i j with fd := -1 })
  | some fd =>
    let s := { s.setConn i j { s.conns i j with fd := fd } with opened := s.opened ++ [(fd : Int)] }
    if calls.connect i j then
      if calls.setnonblock i j then .done (s.setConn i j ⟨fd, true⟩)
      else .failed (.setnonblock i j) { s with closed := s.closed ++ [(fd : Int)] }
    else .failed (.connect i j) { s with closed := s.closed ++ [(fd : Int)] }

/-- `init_client_thread`. -/
def initClientThread (i : Nat) : ClientStage := fun s =>
  if calls.conns i then
    andThen
      (onFailure (forUpTo nrConnections (initClientConn calls i))
        (cleanupClientThread nrConnections · i))
      (fun s => .done { s with init := Function.update s.init i true })
      { s with
        conns := Function.update s.conns i fun _ => ⟨0, false⟩
        allocated := s.allocated ++ [i] }
  else .failed (.conns i) s

def initBarrier : ClientStage := fun s =>
  if calls.barrier then .done s else .failed .barrier s

/-- `init_client`. -/
def initClient : Result ClientSetup SetupStep Fault :=
  if calls.context then
    onFailure
      (andThen
        (forUpTo nrThreads fun i s =>
          checked i maxClientThreads (initClientThread calls nrConnections i s))
        (initBarrier calls))
      (cleanupClient nrThreads nrConnections) .zero
  else .failed .context .zero

end Init

/-- The workers close these connections: `close(conn->fd)`, and -1 is put in its place. -/
def workersClose (finished : List (Nat × Nat)) (s : ClientSetup) : ClientSetup :=
  finished.foldl
    (fun s p =>
      { s.setConn p.1 p.2 { s.conns p.1 p.2 with fd := -1 } with
        closed := s.closed ++ [(s.conns p.1 p.2).fd] }) s

/-! ## What the calls amount to -/

/-- `conn->fd` after `socket`. -/
def SetupCalls.fd (calls : SetupCalls) (i j : Nat) : Int :=
  match calls.socket i j with
  | none => -1
  | some fd => fd

/-- `init_client_conn` succeeds. -/
def SetupCalls.connected (calls : SetupCalls) (i j : Nat) : Bool :=
  (calls.socket i j).isSome && calls.connect i j && calls.setnonblock i j

/-- Nothing fails up to connection `j` of thread `i`, and nothing there. -/
structure SetupCalls.SetUp (calls : SetupCalls) (nrConnections i j : Nat) : Prop where
  context : calls.context = true
  before : ∀ a < i, ∀ b < nrConnections, calls.conns a = true ∧ calls.connected a b = true
  here : ∀ b ≤ j, calls.conns i = true ∧ calls.connected i b = true

/-- The sockets of the first `i` threads. -/
def SetupCalls.fds (calls : SetupCalls) (nrConnections i : Nat) : List Int :=
  (List.range i).flatMap fun a => (List.range nrConnections).map (calls.fd a)

/-- The sockets that the workers leave open. -/
def SetupCalls.remaining (calls : SetupCalls) (nrThreads nrConnections : Nat)
    (finished : List (Nat × Nat)) : List Int :=
  (List.range nrThreads).flatMap fun i =>
    ((List.range nrConnections).filter fun j => (i, j) ∉ finished).map (calls.fd i)

/-! ## What is cleaned up -/

section Cleanup

variable {nrConnections : Nat} {s s' : ClientSetup}

/-- The descriptors that `cleanup_client_thread` closes. -/
def ClientSetup.closes (s : ClientSetup) (nrConnections i : Nat) : List Int :=
  (List.range nrConnections).filterMap fun j =>
    if (s.conns i j).isOpen = true ∧ 0 < (s.conns i j).fd then some (s.conns i j).fd else none

/-- `cleanup_client_thread` of thread `i`, seen from outside. -/
structure CleanedThread (nrConnections i : Nat) (s s' : ClientSetup) : Prop where
  closed : s'.closed = s.closed ++ s.closes nrConnections i
  freed : s'.freed = s.freed ++ [i]
  init : s'.init = Function.update s.init i false
  opened : s'.opened = s.opened
  allocated : s'.allocated = s.allocated
  conns : ∀ a ≠ i, s'.conns a = s.conns a

/-- The loop of `cleanup_client_thread` before connection `k`. -/
structure CleaningThread (i k : Nat) (s s' : ClientSetup) : Prop where
  closed : s'.closed = s.closed ++ s.closes k i
  freed : s'.freed = s.freed
  init : s'.init = s.init
  opened : s'.opened = s.opened
  allocated : s'.allocated = s.allocated
  conns : ∀ a ≠ i, s'.conns a = s.conns a
  rest : ∀ b, k ≤ b → s'.conns i b = s.conns i b

theorem closes_succ (i k : Nat) : s.closes (k + 1) i = s.closes k i ++
    (if (s.conns i k).isOpen = true ∧ 0 < (s.conns i k).fd then [(s.conns i k).fd] else []) := by
  rw [ClientSetup.closes, List.range_succ, List.filterMap_append]
  congr 1
  by_cases hclose : (s.conns i k).isOpen = true ∧ 0 < (s.conns i k).fd
  · simp [hclose]
  · simp only [hclose, List.filterMap_cons, List.filterMap_nil, if_false]

theorem setConn_ne (s : ClientSetup) {a i : Nat} (j : Nat) (conn : Endpoint) (h : a ≠ i) :
    (s.setConn i j conn).conns a = s.conns a :=
  Function.update_of_ne h ..

theorem setConn_conns (s : ClientSetup) (i j b : Nat) (conn : Endpoint) :
    (s.setConn i j conn).conns i b = if b = j then conn else s.conns i b := by
  simp only [ClientSetup.setConn, Function.update_self]
  split
  · next h => rw [h, Function.update_self]
  · next h => rw [Function.update_of_ne h]

/-- `cleanup_client_conn` closes a positive descriptor, and marks the connection in any case. -/
theorem cleanupClientConn_eq (s : ClientSetup) (i j : Nat) :
    cleanupClientConn s i j = { s.setConn i j { s.conns i j with isOpen := false } with
      closed := s.closed ++ if 0 < (s.conns i j).fd then [(s.conns i j).fd] else [] } := by
  simp only [cleanupClientConn]
  split
  · rfl
  · rw [List.append_nil]
    rfl

theorem cleaningThread_step {i k : Nat} (h : CleaningThread i k s s') :
    CleaningThread i (k + 1) s
      (if (s'.conns i k).isOpen then cleanupClientConn s' i k else s') := by
  have hk := h.rest k (Nat.le_refl k)
  have hrest : ∀ b, k + 1 ≤ b → s'.conns i b = s.conns i b := by
    intro b hb
    exact h.rest b (by omega)
  split
  · next hopen =>
    rw [hk] at hopen
    rw [cleanupClientConn_eq]
    refine ⟨?_, h.freed, h.init, h.opened, h.allocated, ?_, ?_⟩
    · rw [closes_succ, ← List.append_assoc, ← h.closed, hk]
      simp only [hopen, true_and]
    · intro a ha
      exact (setConn_ne s' k _ ha).trans (h.conns a ha)
    · intro b hb
      have hne : b ≠ k := by omega
      exact (setConn_conns s' i k b _).trans ((if_neg hne).trans (hrest b hb))
  · next hshut =>
    rw [hk] at hshut
    refine ⟨?_, h.freed, h.init, h.opened, h.allocated, h.conns, hrest⟩
    rw [closes_succ, if_neg (fun hboth => hshut hboth.1), List.append_nil, h.closed]

theorem cleanupClientThread_cleaned (nrConnections : Nat) (s : ClientSetup) (i : Nat) :
    CleanedThread nrConnections i s (cleanupClientThread nrConnections s i) := by
  have hloop : ∀ k, CleaningThread i k s ((List.range k).foldl
      (fun s j => if (s.conns i j).isOpen then cleanupClientConn s i j else s) s) := by
    intro k
    induction k with
    | zero =>
      refine ⟨?_, rfl, rfl, rfl, rfl, fun _ _ => rfl, fun _ _ => rfl⟩
      simp [ClientSetup.closes]
    | succ k ih =>
      rw [List.range_succ, List.foldl_append]
      exact cleaningThread_step ih
  obtain ⟨hclosed, hfreed, hinit, hopened, hallocated, hconns, -⟩ := hloop nrConnections
  refine ⟨hclosed, ?_, ?_, hopened, hallocated, hconns⟩
  · simp only [cleanupClientThread, hfreed]
  · simp only [cleanupClientThread, hinit]

/-- `cleanup_client`, seen from outside. -/
structure Cleaned (nrThreads nrConnections : Nat) (s s' : ClientSetup) : Prop where
  closed : s'.closed =
    s.closed ++ ((List.range nrThreads).filter s.init).flatMap (s.closes nrConnections)
  freed : s'.freed = s.freed ++ (List.range nrThreads).filter s.init
  opened : s'.opened = s.opened
  allocated : s'.allocated = s.allocated

theorem closes_congr {i : Nat} (h : s'.conns i = s.conns i) :
    s'.closes nrConnections i = s.closes nrConnections i := by
  simp only [ClientSetup.closes, h]

theorem cleanupClient_cleaned (nrThreads nrConnections : Nat) (s : ClientSetup) :
    Cleaned nrThreads nrConnections s (cleanupClient nrThreads nrConnections s) := by
  have hloop : ∀ k, Cleaned k nrConnections s (cleanupClient k nrConnections s) ∧
      (∀ a, k ≤ a → (cleanupClient k nrConnections s).init a = s.init a) ∧
      ∀ a, k ≤ a → (cleanupClient k nrConnections s).conns a = s.conns a := by
    intro k
    induction k with
    | zero => exact ⟨⟨by simp [cleanupClient], by simp [cleanupClient], rfl, rfl⟩,
        fun _ _ => rfl, fun _ _ => rfl⟩
    | succ k ih =>
      obtain ⟨hcleaned, hinit, hconns⟩ := ih
      have hnext : cleanupClient (k + 1) nrConnections s =
          if (cleanupClient k nrConnections s).init k then
            cleanupClientThread nrConnections (cleanupClient k nrConnections s) k
          else cleanupClient k nrConnections s := by
        rw [cleanupClient, List.range_succ, List.foldl_append]
        rfl
      rw [hnext, hinit k (Nat.le_refl k)]
      split
      · next hk =>
        have hthread :=
          cleanupClientThread_cleaned nrConnections (cleanupClient k nrConnections s) k
        have hcloses : (cleanupClient k nrConnections s).closes nrConnections k =
            s.closes nrConnections k := closes_congr (hconns k (Nat.le_refl k))
        refine ⟨⟨?_, ?_, hthread.opened.trans hcleaned.opened,
          hthread.allocated.trans hcleaned.allocated⟩, ?_, ?_⟩
        · rw [hthread.closed, hcleaned.closed, hcloses, List.range_succ, List.filter_append]
          simp [hk]
        · rw [hthread.freed, hcleaned.freed, List.range_succ, List.filter_append]
          simp [hk]
        · intro a ha
          rw [hthread.init, Function.update_of_ne (by omega), hinit a (by omega)]
        · intro a ha
          rw [hthread.conns a (by omega), hconns a (by omega)]
      · next hk =>
        refine ⟨⟨?_, ?_, hcleaned.opened, hcleaned.allocated⟩, fun a ha => hinit a (by omega),
          fun a ha => hconns a (by omega)⟩
        · rw [hcleaned.closed, List.range_succ, List.filter_append]
          simp [hk]
        · rw [hcleaned.freed, List.range_succ, List.filter_append]
          simp [hk]
  exact (hloop nrThreads).1

end Cleanup

end Piotbench.Client
