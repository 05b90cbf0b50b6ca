import Piotbench.Client.Requests

/-!
# A thread of the client

`client_worker` of `src/client/worker.c` with all connections of the thread: it waits for events,
handles those of a batch one after another, and goes on as long as a connection has responses to
come. What it does with one event is `clientStep`, on the connection the event is for; the rest of
the thread's connections stay as they are (`threadStep_worker`).
-/

namespace Piotbench.Client

open Server Transition

/-- `MAX_EVENTS`. -/
def maxEvents : Nat := 10

/-- An entry of `events`. -/
inductive ThreadEvent
  /-- The thread's `wakefd` is readable. -/
  | wake
  | conn (i : Nat) (events : EpollMask)
  deriving DecidableEq

/-- Where `client_worker` stands. -/
inductive ThreadPc
  /-- At the condition of the `while` loop. -/
  | top
  /-- At `epoll_wait`. -/
  | wait
  /-- In the `for` loop, with these events to come. -/
  | batch (rest : List ThreadEvent)
  /-- In `handle_client_epoll_event` for connection `i`. -/
  | conn (i : Nat) (pc : ClientPc) (rest : List ThreadEvent)
  /-- Behind the loop. -/
  | left
  deriving DecidableEq

/-- `struct client_thread_t` with what `client_worker` works on: `ctx->stopping`, the masks that
`epoll` has registered, and the value to be returned. -/
structure ClientThread where
  pc : ThreadPc
  conns : Nat → ClientConnection
  interest : Nat → EpollMask
  stopping : Bool
  ret : Int

/-- `init_client_thread` and `init_client_thread_epoll`, for every connection. -/
def ClientThread.init (nrRequests : Nat) : ClientThread where
  pc := .top
  conns _ := (ClientWorker.init nrRequests).conn
  interest _ := (ClientWorker.init nrRequests).interest
  stopping := false
  ret := 0

/-- Where the thread stands with connection `i`. -/
def ThreadPc.worker (i : Nat) : ThreadPc → ClientPc
  | .conn j pc _ => if j = i then pc else .wait
  | .top | .wait | .batch _ | .left => .wait

/-- The thread, seen from connection `i`. -/
def ClientThread.worker (t : ClientThread) (i : Nat) : ClientWorker :=
  ⟨t.pc.worker i, t.conns i, t.stopping, t.interest i⟩

/-- What `epoll_wait` returns. -/
inductive WaitResult
  | eintr
  | error
  | events (batch : List ThreadEvent)
  deriving DecidableEq

inductive ThreadAction
  /-- Another thread sets `stopping`. -/
  | stop
  | loopTop
  | epollWait (res : WaitResult)
  /-- The next event of the batch; `clockOk` is about `clock_gettime` for the start time. -/
  | nextEvent (clockOk : Bool)
  | conn (a : ClientAction)
  deriving DecidableEq

/-- `thread_has_active_connections`. -/
def threadHasActiveConnections (nrConnections : Nat) (t : ClientThread) : Nat :=
  (List.range nrConnections).countP fun i =>
    (t.conns i).status.received < (t.conns i).status.total

/-- The connection that an event is for. -/
def ThreadEvent.conn? : ThreadEvent → Option Nat
  | .wake => none
  | .conn i _ => some i

/-- What `epoll_wait` may report: one entry for each connection, of what it is registered for. -/
def ClientThread.reports (nrConnections : Nat) (t : ClientThread) (batch : List ThreadEvent) :
    Bool :=
  (batch.filterMap ThreadEvent.conn?).Nodup ∧ batch.all fun
    | .wake => true
    | .conn i events => i < nrConnections ∧ (t.worker i).reports events

def epollWait (nrConnections : Nat) (t : ClientThread) : WaitResult → Option ClientThread
  | .eintr => some { t with pc := .top }
  | .error => some { t with pc := .left, ret := -1 }
  | .events batch =>
    if batch.length ≤ maxEvents ∧ t.reports nrConnections batch then
      some { t with pc := .batch batch }
    else none

/-- The step makes `handle_client_epoll_event` return an error. -/
def returnsError (cl : ClientWorker) : ClientAction → Bool
  | .event events clockOk => events.has epollOut && cl.conn.status.sent == 0 && !clockOk
  | .send res => res = .error
  | .recv res => res = .error
  | .afterOutput ok => cl.conn.status.sent == cl.conn.status.total && !ok
  | .afterInput clockOk => cl.conn.status.received == cl.conn.status.total && !clockOk
  | .stop | .outputTop | .inputTop => false

/-- A step for connection `i`. An error drops the rest of the batch, and the thread goes on. -/
def connStep (t : ClientThread) (i : Nat) (rest : List ThreadEvent) (a : ClientAction) :
    Option ClientThread :=
  (clientStep (t.worker i) a).map fun cl =>
    { t with
      conns := Function.update t.conns i cl.conn
      interest := Function.update t.interest i cl.interest
      ret := if returnsError (t.worker i) a then -1 else t.ret
      pc :=
        if returnsError (t.worker i) a then .top
        else if cl.pc = .wait then .batch rest else .conn i cl.pc rest }

def threadStep (nrConnections : Nat) (t : ClientThread) : ThreadAction → Option ClientThread
  | .stop => some { t with stopping := true }
  | .loopTop =>
    match t.pc with
    | .top =>
      some { t with
        pc := if threadHasActiveConnections nrConnections t = 0 then .left else .wait }
    | _ => none
  | .epollWait res =>
    match t.pc with
    | .wait => epollWait nrConnections t res
    | _ => none
  | .nextEvent clockOk =>
    match t.pc with
    -- an event of `wakefd` ends the `for` loop, whatever is behind it
    | .batch [] | .batch (.wake :: _) => some { t with pc := .top }
    | .batch (.conn i events :: rest) => connStep t i rest (.event events clockOk)
    | _ => none
  | .conn a =>
    match t.pc with
    | .conn i _ rest => if a = .stop then none else connStep t i rest a
    | _ => none

/-- The step of `client_worker` as a step for connection `i`, if it is one. -/
def ThreadAction.on (t : ClientThread) (i : Nat) : ThreadAction → Option ClientAction
  | .stop => some .stop
  | .nextEvent clockOk =>
    match t.pc with
    | .batch (.conn j events :: _) => if j = i then some (.event events clockOk) else none
    | _ => none
  | .conn a =>
    match t.pc with
    | .conn j _ _ => if j = i then some a else none
    | _ => none
  | .loopTop | .epollWait _ => none

/-! ## The thread and one of its connections -/

section Step

variable {nrConnections : Nat} {t t' : ClientThread} {a : ThreadAction}

/-- Only the other thread sets `stopping`. -/
theorem clientStep_stopping {cl cl' : ClientWorker} {a : ClientAction}
    (hstep : clientStep cl a = some cl') (ha : a ≠ .stop) : cl'.stopping = cl.stopping := by
  cases client_cases hstep with
  | stop => exact absurd rfl ha
  | event hpc hevent => exact (handleEvent_flags hevent).stopping
  | outputTop hpc => exact (handleOutputTop_flags _ _).stopping
  | send hpc hsend => exact (handleOutputSend_flags hsend).stopping
  | afterOutput hpc => exact (handleAfterOutput_flags _ _ _).stopping
  | inputTop hpc => exact (handleInputTop_flags _).stopping
  | recv hpc hrecv => exact (handleInputRecv_flags hrecv).stopping
  | afterInput hpc =>
    simp only [handleAfterInput, epollSetConn]
    split
    · split <;> rfl
    · rfl

/-- With an error the event is done with. -/
theorem returnsError_wait {cl cl' : ClientWorker} {a : ClientAction}
    (hstep : clientStep cl a = some cl') (herr : returnsError cl a = true) : cl'.pc = .wait := by
  cases client_cases hstep with
  | stop | outputTop | inputTop => cases herr
  | @event events clockOk _ hpc hevent =>
    simp only [returnsError, Bool.and_eq_true, beq_iff_eq, Bool.not_eq_true'] at herr
    obtain ⟨⟨hout, hfirst⟩, hclock⟩ := herr
    simp only [handleEvent, hout, hfirst, hclock, true_and, if_true] at hevent
    split at hevent
    · cases hevent
      rfl
    · cases hevent
  | @send input res _ hpc hsend =>
    obtain rfl : res = .error := by simpa [returnsError] using herr
    cases hsend
    rfl
  | @afterOutput input ok hpc =>
    simp only [returnsError, Bool.and_eq_true, beq_iff_eq, Bool.not_eq_true'] at herr
    obtain ⟨hlast, rfl⟩ := herr
    simp only [handleAfterOutput, epollSetConn, hlast, if_true]
    rfl
  | @recv res _ hpc hrecv =>
    obtain rfl : res = .error := by simpa [returnsError] using herr
    cases hrecv
    rfl
  | @afterInput clockOk hpc =>
    simp only [returnsError, Bool.and_eq_true, beq_iff_eq, Bool.not_eq_true'] at herr
    obtain ⟨hlast, rfl⟩ := herr
    simp only [handleAfterInput, hlast, if_true]
    rfl

theorem worker_eq {i : Nat} {cl : ClientWorker} (hpc : t.pc.worker i = cl.pc)
    (hconn : t.conns i = cl.conn) (hstopping : t.stopping = cl.stopping)
    (hinterest : t.interest i = cl.interest) : t.worker i = cl := by
  rw [ClientThread.worker, hpc, hconn, hstopping, hinterest]

/-- A step for connection `i`, seen from `i`. -/
theorem connStep_self {i : Nat} {rest : List ThreadEvent} {a : ClientAction} (ha : a ≠ .stop)
    (hstep : connStep t i rest a = some t') :
    clientStep (t.worker i) a = some (t'.worker i) := by
  obtain ⟨cl, hcl, rfl⟩ := Option.map_eq_some_iff.mp hstep
  rw [hcl, Option.some.injEq]
  refine (worker_eq ?_ ?_ ?_ ?_).symm
  · show ThreadPc.worker i (if _ then _ else _) = cl.pc
    -- with an error the batch is dropped, and the connection waits as `clientStep` says
    split
    · next herr => exact (returnsError_wait hcl herr).symm
    · split
      · next hwait => exact hwait.symm
      · exact if_pos rfl
  · exact Function.update_self ..
  · exact (clientStep_stopping hcl ha).symm
  · exact Function.update_self ..

/-- A step for connection `i`, seen from another. -/
theorem connStep_of_ne {i j : Nat} {rest : List ThreadEvent} {a : ClientAction} (hj : j ≠ i)
    (hwait : t.pc.worker j = .wait) (hstep : connStep t i rest a = some t') :
    t'.worker j = t.worker j := by
  obtain ⟨cl, -, rfl⟩ := Option.map_eq_some_iff.mp hstep
  refine worker_eq ?_ ?_ rfl ?_
  · show ThreadPc.worker j (if _ then _ else _) = t.pc.worker j
    rw [hwait]
    split
    · rfl
    · split
      · rfl
      · exact if_neg (Ne.symm hj)
  · exact Function.update_of_ne hj ..
  · exact Function.update_of_ne hj ..

/-- The steps of the thread, one constructor for each statement and outcome. -/
inductive ThreadMove (nrConnections : Nat) (t : ClientThread) : ThreadAction → ClientThread → Prop
  | stop : ThreadMove nrConnections t .stop { t with stopping := true }
  | leave (hpc : t.pc = .top) (hidle : threadHasActiveConnections nrConnections t = 0) :
      ThreadMove nrConnections t .loopTop { t with pc := .left }
  | stay (hpc : t.pc = .top) : ThreadMove nrConnections t .loopTop { t with pc := .wait }
  | eintr (hpc : t.pc = .wait) :
      ThreadMove nrConnections t (.epollWait .eintr) { t with pc := .top }
  | fail (hpc : t.pc = .wait) :
      ThreadMove nrConnections t (.epollWait .error) { t with pc := .left, ret := -1 }
  | events {batch : List ThreadEvent} (hpc : t.pc = .wait)
      (hreports : t.reports nrConnections batch = true) :
      ThreadMove nrConnections t (.epollWait (.events batch)) { t with pc := .batch batch }
  /-- The batch has come to its end, or to `wakefd`. -/
  | done {rest : List ThreadEvent} {clockOk : Bool} (hpc : t.pc = .batch rest)
      (hend : rest.head? = none ∨ rest.head? = some .wake) :
      ThreadMove nrConnections t (.nextEvent clockOk) { t with pc := .top }
  | event {t' : ClientThread} {i : Nat} {mask : EpollMask} {rest : List ThreadEvent}
      {clockOk : Bool} (hpc : t.pc = .batch (.conn i mask :: rest))
      (hstep : connStep t i rest (.event mask clockOk) = some t') :
      ThreadMove nrConnections t (.nextEvent clockOk) t'
  | conn {t' : ClientThread} {i : Nat} {pc : ClientPc} {rest : List ThreadEvent}
      {a : ClientAction} (hpc : t.pc = .conn i pc rest) (ha : a ≠ .stop)
      (hstep : connStep t i rest a = some t') : ThreadMove nrConnections t (.conn a) t'

theorem threadStep_cases (hstep : threadStep nrConnections t a = some t') :
    ThreadMove nrConnections t a t' := by
  cases a with
  | stop => exact Option.some.inj hstep ▸ .stop
  | loopTop =>
    simp only [threadStep] at hstep
    split at hstep
    · next hpc =>
      cases hstep
      split
      · next hidle => exact .leave hpc hidle
      · exact .stay hpc
    · cases hstep
  | epollWait res =>
    simp only [threadStep] at hstep
    split at hstep
    · next hpc =>
      cases res with
      | eintr => exact Option.some.inj hstep ▸ .eintr hpc
      | error => exact Option.some.inj hstep ▸ .fail hpc
      | events batch =>
        simp only [epollWait] at hstep
        split at hstep
        · next hbatch => exact Option.some.inj hstep ▸ .events hpc hbatch.2
        · cases hstep
    · cases hstep
  | nextEvent clockOk =>
    simp only [threadStep] at hstep
    split at hstep
    · next hpc => exact Option.some.inj hstep ▸ .done hpc (.inl rfl)
    · next hpc => exact Option.some.inj hstep ▸ .done hpc (.inr rfl)
    · next hpc => exact .event hpc hstep
    · cases hstep
  | conn b =>
    simp only [threadStep] at hstep
    split at hstep
    · next hpc =>
      split at hstep
      · cases hstep
      · next hb => exact .conn hpc hb hstep
    · cases hstep

/-- **The thread, seen from connection `i`**: a step of its worker, or nothing happens. -/
theorem threadStep_worker (hstep : threadStep nrConnections t a = some t') (i : Nat) :
    match a.on t i with
    | some b => clientStep (t.worker i) b = some (t'.worker i)
    | none => t'.worker i = t.worker i := by
  cases threadStep_cases hstep with
  | stop => rfl
  | leave hpc | stay hpc | eintr hpc | fail hpc | events hpc =>
    simp only [ThreadAction.on, ClientThread.worker, hpc, ThreadPc.worker]
  | @done rest clockOk hpc hend =>
    have hon : ThreadAction.on t i (.nextEvent clockOk) = none := by
      rcases rest with _ | ⟨_ | _, _⟩
      · simp only [ThreadAction.on, hpc]
      · simp only [ThreadAction.on, hpc]
      · simp at hend
    rw [hon]
    simp only [ClientThread.worker, hpc, ThreadPc.worker]
  | @event _ j mask rest clockOk hpc hconn =>
    by_cases hj : j = i
    · subst hj
      simp only [ThreadAction.on, hpc, if_true]
      exact connStep_self (by simp) hconn
    · simp only [ThreadAction.on, hpc, hj, if_false]
      exact connStep_of_ne (Ne.symm hj) (by rw [hpc, ThreadPc.worker]) hconn
  | @conn _ j pc rest b hpc hb hconn =>
    by_cases hj : j = i
    · subst hj
      simp only [ThreadAction.on, hpc, if_true]
      exact connStep_self hb hconn
    · simp only [ThreadAction.on, hpc, hj, if_false]
      exact connStep_of_ne (Ne.symm hj) (by rw [hpc, ThreadPc.worker, if_neg hj]) hconn

end Step

end Piotbench.Client
