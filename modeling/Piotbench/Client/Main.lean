import Piotbench.Client.System
import Piotbench.Lib.Barrier

/-!
# The client program

`run_client` of `src/client/main.c` from its first statement to the return: the threads are created
one after another and wait at a barrier until all of them and the main thread have come, the main
thread looks at them once a second, sets `stopping` at the deadline, joins them when all have
returned, and cleans up. `ClientSystem` is the part of it in which the threads run and progress is
reported; a run of the program is a run of that system (`ProgramRun.system`).

`thread_join` reads what the thread has returned out of memory that it has just freed, so the value
is part of the step. `cleanup_client` begins with `pthread_barrier_destroy`, which waits as long as
a thread is at the barrier. The memory of the context is taken to stay as it is when
`cleanup_client` frees it while threads are still to come there.
-/

namespace Piotbench.Client

open Transition Command

/-! ## Data -/

/-- Where a client thread stands. -/
inductive ThreadPhase
  /-- It has not been created. -/
  | absent
  /-- At `pthread_barrier_wait`. -/
  | created
  /-- It has arrived at the barrier. -/
  | waiting
  /-- Behind the barrier, in `client_worker`. -/
  | worker (phase : WorkerPhase)
  /-- `thread_wrapper` has set `ti->returned`, and the thread ends. -/
  | done (ret : Int)
  deriving DecidableEq

/-- Where the main thread stands. -/
inductive RunPc
  /-- At `prepare_client`. -/
  | prepare
  /-- In `start_client_threads`: at `create_thread` for thread `i`. -/
  | create (i : Nat)
  /-- At `ctx->client_threads[i].ti = ti`. -/
  | store (i : Nat)
  /-- At `pthread_barrier_wait`. -/
  | barrier
  | waiting
  /-- In `client_nr_threads_done`: `done` of the first `i` threads have returned. -/
  | count (i done : Nat)
  /-- At `report_progress`. -/
  | report
  /-- In its loops. -/
  | reading
  /-- At `cur_nanoseconds() >= ctx->deadline`. -/
  | deadline
  /-- At `ctx->stopping = 1`. -/
  | stop
  | sleep
  /-- In `join_client_threads`. -/
  | join (i : Nat) (err : Int)
  /-- At `report_client_stats`. -/
  | stats
  /-- At `cleanup_client`. -/
  | cleanup (err : Int)
  | returned (err : Int)
  deriving DecidableEq

/-- The client while `run_client` runs. -/
structure ClientProgram where
  pc : RunPc
  phase : Nat → ThreadPhase
  /-- `ctx->client_threads[i].ti` is set. -/
  ti : Nat → Bool
  /-- How many have arrived at `ctx->start_barrier`. -/
  arrived : Nat
  sys : ClientSystem
  stopping : Bool
  /-- What the clock showed in `init_client`. -/
  start : Timespec
  /-- What it has shown last. -/
  now : Nat

def ClientProgram.init (cfg : ClientConfig) : ClientProgram where
  pc := .prepare
  phase _ := .absent
  ti _ := false
  arrived := 0
  sys := .init cfg
  stopping := false
  start := ⟨0, 0⟩
  now := 0

/-- `ctx->deadline`. -/
def clientDeadline (cfg : ClientConfig) (start : Timespec) : Nat :=
  if cfg.duration = -1 then UInt64.size - 1
  else (((start.sec + cfg.duration) * 1000000000 + start.nsec) % UInt64.size).toNat

/-! ## Steps -/

inductive ProgramAction
  /-- `prepare_client`, with its result and the time. -/
  | prepare (ok : Bool) (ts : Timespec)
  | create (ok : Bool)
  | store
  /-- Thread `t` comes to the barrier. -/
  | arrive (t : Nat)
  | pass (t : Nat)
  | mainArrive
  | mainPass
  /-- `init_client_thread_epoll` in thread `t`. -/
  | initEpoll (t : Nat) (created registered : Bool)
  | run (t : Nat) (a : ThreadAction) (ts : Timespec)
  /-- Thread `t` closes its epoll instance. -/
  | close (t : Nat)
  | ret (t : Nat)
  /-- `thread_wrapper`: `ti->returned = 1`. -/
  | wrap (t : Nat)
  /-- A turn of the loop in `client_nr_threads_done`, or the comparison behind it. -/
  | count
  | report
  | read
  | reported
  /-- `cur_nanoseconds`. -/
  | clock (ts : Timespec)
  | stop
  /-- `sleep` returns. -/
  | wake
  /-- A turn of `join_client_threads`, or its end; `value` is what `thread_join` returns. -/
  | join (value : Int)
  | stats
  | cleanup

/-- The loop of `start_client_threads`. -/
def nextCreate (cfg : ClientConfig) (i : Nat) : RunPc :=
  if i < cfg.nrThreads then .create i else .barrier

/-- Everybody the barrier has been set up for has arrived. -/
def ClientProgram.opened (cfg : ClientConfig) (p : ClientProgram) : Bool :=
  p.arrived = cfg.nrThreads + 1

/-- Some thread is at the barrier, and `pthread_barrier_destroy` waits. -/
def ClientProgram.occupied (cfg : ClientConfig) (p : ClientProgram) : Bool :=
  (List.range cfg.nrThreads).any fun t => p.phase t = .waiting

def ClientProgram.setPhase (p : ClientProgram) (t : Nat) (phase : ThreadPhase) : ClientProgram :=
  { p with phase := Function.update p.phase t phase }

/-- `init_client_thread_epoll`, as in `initClientThreadEpoll`. -/
def epollPhase (created registered : Bool) : WorkerPhase :=
  if created && registered then .loop else .returned (-1)

/-- What `client_worker` of thread `t` works on. -/
def ClientProgram.worker (p : ClientProgram) (t : Nat) : ClientThread :=
  (p.sys.threads t).wired.thread

/-- `ti->returned`. -/
def ThreadPhase.returned : ThreadPhase → Bool
  | .done _ => true
  | .absent | .created | .waiting | .worker _ => false

/-- One step of the program. -/
def programStep (cfg : ClientConfig) (p : ClientProgram) : ProgramAction → Option ClientProgram
  | .prepare ok ts =>
    match p.pc with
    | .prepare =>
      if ok then some { p with pc := nextCreate cfg 0, start := ts, now := ts.ns }
      else some { p with pc := .returned (-1) }
    | _ => none
  | .create ok =>
    match p.pc with
    | .create i =>
      if ok then some { p.setPhase i .created with pc := .store i }
      else some { p with pc := .cleanup (-1) }
    | _ => none
  | .store =>
    match p.pc with
    | .store i => some { p with ti := Function.update p.ti i true, pc := nextCreate cfg (i + 1) }
    | _ => none
  | .arrive t =>
    match p.phase t with
    | .created => some { p.setPhase t .waiting with arrived := p.arrived + 1 }
    | _ => none
  | .pass t =>
    match p.phase t with
    | .waiting => if p.opened cfg then some (p.setPhase t (.worker .start)) else none
    | _ => none
  | .mainArrive =>
    match p.pc with
    | .barrier => some { p with arrived := p.arrived + 1, pc := .waiting }
    | _ => none
  | .mainPass =>
    match p.pc with
    | .waiting => if p.opened cfg then some { p with pc := .count 0 0 } else none
    | _ => none
  | .initEpoll t created registered =>
    match p.phase t with
    | .worker .start => some (p.setPhase t (.worker (epollPhase created registered)))
    | _ => none
  | .run t a ts =>
    match p.phase t with
    | .worker .loop =>
      (systemStep cfg p.sys (.thread t a ts)).map fun sys => { p with sys := sys, now := ts.ns }
    | _ => none
  | .close t =>
    match p.phase t with
    | .worker .loop =>
      if (p.worker t).pc = .left then some (p.setPhase t (.worker .closed)) else none
    | _ => none
  | .ret t =>
    match p.phase t with
    | .worker .closed => some (p.setPhase t (.worker (.returned (p.worker t).ret)))
    | _ => none
  | .wrap t =>
    match p.phase t with
    | .worker (.returned ret) => some (p.setPhase t (.done ret))
    | _ => none
  | .count =>
    match p.pc with
    | .count i done =>
      if i < cfg.nrThreads then
        some { p with pc := .count (i + 1) (done + (p.phase i).returned.toNat) }
      else some { p with pc := if done = cfg.nrThreads then .join 0 0 else .report }
    | _ => none
  | .report =>
    match p.pc with
    | .report => (systemStep cfg p.sys .report).map fun sys => { p with sys := sys, pc := .reading }
    | _ => none
  | .read =>
    match p.pc with
    | .reading => (systemStep cfg p.sys .read).map fun sys => { p with sys := sys }
    | _ => none
  | .reported =>
    match p.pc, p.sys.main with
    | .reading, .reported _ => some { p with pc := .deadline }
    | _, _ => none
  | .clock ts =>
    match p.pc with
    | .deadline =>
      some { p with
        now := ts.ns
        pc := if clientDeadline cfg p.start ≤ asNanoseconds ts then .stop else .sleep }
    | _ => none
  | .stop =>
    match p.pc with
    | .stop =>
      (systemStep cfg p.sys .stop).map fun sys =>
        { p with sys := sys, stopping := true, pc := .sleep }
    | _ => none
  | .wake =>
    match p.pc with
    | .sleep => some { p with pc := .count 0 0 }
    | _ => none
  | .join value =>
    match p.pc with
    | .join i err =>
      if i < cfg.nrThreads then
        if p.ti i then
          -- `pthread_join` returns when the thread has ended
          if (p.phase i).returned then
            some { p with pc := .join (i + 1) (if value = 0 then err else 1) }
          else none
        else some { p with pc := .join (i + 1) err }
      else some { p with pc := if err = 0 then .stats else .cleanup err }
    | _ => none
  | .stats =>
    match p.pc with
    | .stats => some { p with pc := .cleanup 0 }
    | _ => none
  | .cleanup =>
    match p.pc with
    | .cleanup err => if p.occupied cfg then none else some { p with pc := .returned err }
    | _ => none

/-! ## What a step can do -/

/-- The moves of the main thread that only it sees, from one position to another. -/
inductive MainMove (cfg : ClientConfig) (p : ClientProgram) : RunPc → ProgramAction → RunPc → Prop
  | refused {ts : Timespec} : MainMove cfg p .prepare (.prepare false ts) (.returned (-1))
  | createFailed {i : Nat} : MainMove cfg p (.create i) (.create false) (.cleanup (-1))
  | pass (hopen : p.opened cfg = true) : MainMove cfg p .waiting .mainPass (.count 0 0)
  | countNext {i done : Nat} (hi : i < cfg.nrThreads) :
      MainMove cfg p (.count i done) .count (.count (i + 1) (done + (p.phase i).returned.toNat))
  | countAll {i : Nat} (hi : ¬i < cfg.nrThreads) :
      MainMove cfg p (.count i cfg.nrThreads) .count (.join 0 0)
  | countSome {i done : Nat} (hi : ¬i < cfg.nrThreads) (hdone : done ≠ cfg.nrThreads) :
      MainMove cfg p (.count i done) .count .report
  | reported {new : ClientProgress} (hmain : p.sys.main = .reported new) :
      MainMove cfg p .reading .reported .deadline
  | wake : MainMove cfg p .sleep .wake (.count 0 0)
  | joined {i : Nat} {err value : Int} (hi : i < cfg.nrThreads) (hti : p.ti i = true)
      (hret : (p.phase i).returned = true) :
      MainMove cfg p (.join i err) (.join value) (.join (i + 1) (if value = 0 then err else 1))
  | joinSkip {i : Nat} {err value : Int} (hi : i < cfg.nrThreads) (hti : p.ti i = false) :
      MainMove cfg p (.join i err) (.join value) (.join (i + 1) err)
  | joinOk {i : Nat} {value : Int} (hi : ¬i < cfg.nrThreads) :
      MainMove cfg p (.join i 0) (.join value) .stats
  | joinErr {i : Nat} {err value : Int} (hi : ¬i < cfg.nrThreads) (herr : err ≠ 0) :
      MainMove cfg p (.join i err) (.join value) (.cleanup err)
  | stats : MainMove cfg p .stats .stats (.cleanup 0)
  | cleanup {err : Int} (hfree : p.occupied cfg = false) :
      MainMove cfg p (.cleanup err) .cleanup (.returned err)

/-- The moves of a thread behind the barrier, from one phase to another. -/
inductive PhaseMove (p : ClientProgram) (t : Nat) :
    WorkerPhase → ProgramAction → ThreadPhase → Prop
  | initEpoll {created registered : Bool} :
      PhaseMove p t .start (.initEpoll t created registered)
        (.worker (epollPhase created registered))
  | close (hleft : (p.worker t).pc = .left) : PhaseMove p t .loop (.close t) (.worker .closed)
  | ret : PhaseMove p t .closed (.ret t) (.worker (.returned (p.worker t).ret))
  | wrap {ret : Int} : PhaseMove p t (.returned ret) (.wrap t) (.done ret)

/-- The cases of `programStep`. -/
inductive ProgramStep (cfg : ClientConfig) (p : ClientProgram) :
    ProgramAction → ClientProgram → Prop
  | main {a : ProgramAction} {pc : RunPc} (hm : MainMove cfg p p.pc a pc) :
      ProgramStep cfg p a { p with pc := pc }
  | phase {t : Nat} {w : WorkerPhase} {a : ProgramAction} {phase : ThreadPhase}
      (hphase : p.phase t = .worker w) (hm : PhaseMove p t w a phase) :
      ProgramStep cfg p a (p.setPhase t phase)
  | prepare {ts : Timespec} (hpc : p.pc = .prepare) :
      ProgramStep cfg p (.prepare true ts)
        { p with pc := nextCreate cfg 0, start := ts, now := ts.ns }
  | create {i : Nat} (hpc : p.pc = .create i) :
      ProgramStep cfg p (.create true) { p.setPhase i .created with pc := .store i }
  | store {i : Nat} (hpc : p.pc = .store i) :
      ProgramStep cfg p .store
        { p with ti := Function.update p.ti i true, pc := nextCreate cfg (i + 1) }
  | arrive {t : Nat} (hphase : p.phase t = .created) :
      ProgramStep cfg p (.arrive t) { p.setPhase t .waiting with arrived := p.arrived + 1 }
  | pass {t : Nat} (hphase : p.phase t = .waiting) (hopen : p.opened cfg = true) :
      ProgramStep cfg p (.pass t) (p.setPhase t (.worker .start))
  | mainArrive (hpc : p.pc = .barrier) :
      ProgramStep cfg p .mainArrive { p with arrived := p.arrived + 1, pc := .waiting }
  | run {t : Nat} {a : ThreadAction} {ts : Timespec} {sys : ClientSystem}
      (hphase : p.phase t = .worker .loop)
      (hsys : systemStep cfg p.sys (.thread t a ts) = some sys) :
      ProgramStep cfg p (.run t a ts) { p with sys := sys, now := ts.ns }
  | report {sys : ClientSystem} (hpc : p.pc = .report)
      (hsys : systemStep cfg p.sys .report = some sys) :
      ProgramStep cfg p .report { p with sys := sys, pc := .reading }
  | read {sys : ClientSystem} (hpc : p.pc = .reading)
      (hsys : systemStep cfg p.sys .read = some sys) :
      ProgramStep cfg p .read { p with sys := sys }
  | clock {ts : Timespec} {pc : RunPc} (hpc : p.pc = .deadline)
      (hnext : pc = .sleep ∨ pc = .stop ∧ clientDeadline cfg p.start ≤ asNanoseconds ts) :
      ProgramStep cfg p (.clock ts) { p with now := ts.ns, pc := pc }
  | stop {sys : ClientSystem} (hpc : p.pc = .stop)
      (hsys : systemStep cfg p.sys .stop = some sys) :
      ProgramStep cfg p .stop { p with sys := sys, stopping := true, pc := .sleep }

theorem program_cases {cfg : ClientConfig} {p p' : ClientProgram} {a : ProgramAction}
    (h : programStep cfg p a = some p') : ProgramStep cfg p a p' := by
  cases a with
  | prepare ok ts =>
    simp only [programStep] at h
    split at h
    · next hpc =>
      cases ok with
      | true =>
        cases h
        exact .prepare hpc
      | false =>
        cases h
        exact .main (hpc ▸ .refused)
    · cases h
  | create ok =>
    simp only [programStep] at h
    split at h
    · next i hpc =>
      cases ok with
      | true =>
        cases h
        exact .create hpc
      | false =>
        cases h
        exact .main (hpc ▸ .createFailed)
    · cases h
  | store =>
    simp only [programStep] at h
    split at h
    · next i hpc =>
      cases h
      exact .store hpc
    · cases h
  | arrive t =>
    simp only [programStep] at h
    split at h
    · next hphase =>
      cases h
      exact .arrive hphase
    · cases h
  | pass t =>
    simp only [programStep] at h
    split at h
    · next hphase =>
      split at h
      · next hopen =>
        cases h
        exact .pass hphase hopen
      · cases h
    · cases h
  | mainArrive =>
    simp only [programStep] at h
    split at h
    · next hpc =>
      cases h
      exact .mainArrive hpc
    · cases h
  | mainPass =>
    simp only [programStep] at h
    split at h
    · next hpc =>
      split at h
      · next hopen =>
        cases h
        exact .main (hpc ▸ .pass hopen)
      · cases h
    · cases h
  | initEpoll t created registered =>
    simp only [programStep] at h
    split at h
    · next hphase =>
      cases h
      exact .phase hphase .initEpoll
    · cases h
  | run t a ts =>
    simp only [programStep] at h
    split at h
    · next hphase =>
      obtain ⟨sys, hsys, rfl⟩ := Option.map_eq_some_iff.mp h
      exact .run hphase hsys
    · cases h
  | close t =>
    simp only [programStep] at h
    split at h
    · next hphase =>
      split at h
      · next hleft =>
        cases h
        exact .phase hphase (.close hleft)
      · cases h
    · cases h
  | ret t =>
    simp only [programStep] at h
    split at h
    · next hphase =>
      cases h
      exact .phase hphase .ret
    · cases h
  | wrap t =>
    simp only [programStep] at h
    split at h
    · next ret hphase =>
      cases h
      exact .phase hphase .wrap
    · cases h
  | count =>
    simp only [programStep] at h
    split at h
    · next i done hpc =>
      split at h
      · next hi =>
        cases h
        exact .main (hpc ▸ .countNext hi)
      · next hi =>
        cases h
        by_cases hdone : done = cfg.nrThreads
        · rw [if_pos hdone]
          subst hdone
          exact .main (hpc ▸ .countAll hi)
        · rw [if_neg hdone]
          exact .main (hpc ▸ .countSome hi hdone)
    · cases h
  | report =>
    simp only [programStep] at h
    split at h
    · next hpc =>
      obtain ⟨sys, hsys, rfl⟩ := Option.map_eq_some_iff.mp h
      exact .report hpc hsys
    · cases h
  | read =>
    simp only [programStep] at h
    split at h
    · next hpc =>
      obtain ⟨sys, hsys, rfl⟩ := Option.map_eq_some_iff.mp h
      exact .read hpc hsys
    · cases h
  | reported =>
    simp only [programStep] at h
    split at h
    · next new hpc hmain =>
      cases h
      exact .main (hpc ▸ .reported hmain)
    · cases h
  | clock ts =>
    simp only [programStep] at h
    split at h
    · next hpc =>
      cases h
      apply ProgramStep.clock hpc
      by_cases hdue : clientDeadline cfg p.start ≤ asNanoseconds ts
      · rw [if_pos hdue]
        exact .inr ⟨rfl, hdue⟩
      · rw [if_neg hdue]
        exact .inl rfl
    · cases h
  | stop =>
    simp only [programStep] at h
    split at h
    · next hpc =>
      obtain ⟨sys, hsys, rfl⟩ := Option.map_eq_some_iff.mp h
      exact .stop hpc hsys
    · cases h
  | wake =>
    simp only [programStep] at h
    split at h
    · next hpc =>
      cases h
      exact .main (hpc ▸ .wake)
    · cases h
  | join value =>
    simp only [programStep] at h
    split at h
    · next i err hpc =>
      split at h
      · next hi =>
        split at h
        · next hti =>
          split at h
          · next hret =>
            cases h
            exact .main (hpc ▸ .joined hi hti hret)
          · cases h
        · next hti =>
          cases h
          exact .main (hpc ▸ .joinSkip hi (by simpa using hti))
      · next hi =>
        cases h
        by_cases herr : err = 0
        · rw [if_pos herr]
          subst herr
          exact .main (hpc ▸ .joinOk hi)
        · rw [if_neg herr]
          exact .main (hpc ▸ .joinErr hi herr)
    · cases h
  | stats =>
    simp only [programStep] at h
    split at h
    · next hpc =>
      cases h
      exact .main (hpc ▸ .stats)
    · cases h
  | cleanup =>
    simp only [programStep] at h
    split at h
    · next err hpc =>
      split at h
      · cases h
      · next hfree =>
        cases h
        exact .main (hpc ▸ .cleanup (Bool.eq_false_of_not_eq_true hfree))
    · cases h

end Piotbench.Client
