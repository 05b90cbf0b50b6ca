import Piotbench.Server.AcceptWorker
import Piotbench.Server.ConnLock
import Piotbench.Server.Shutdown

/-!
# The loops of the threads, and `run_server`

The workers of `Piotbench.Server.System` run inside loops that end when `stopping` is set or an
error has been returned: `io_worker` around `__io_worker`, `accept_worker` around `__accept_worker`,
`submitter_worker` around `__submitter_worker`, and `compute_worker`. The main thread sleeps in
`run_server` until `sigint_handler` has set `stopping`, and then joins all threads before it frees
anything: what `destroy_server` is given is a server whose workers have stopped (`joined_stopped`).
-/

namespace Piotbench.Server

open Transition

/-! ## The program -/

/-- Where a thread stands in its loops. -/
inductive Loop
  /-- `accept_worker`: before it has an epoll descriptor. -/
  | setup
  /-- At the test `!ctx->stopping && !ret`; `failed` says that `ret` is not 0. -/
  | outer (failed : Bool)
  /-- At the test `!*stopping && iter++ < n`. -/
  | inner (iter : Nat)
  /-- In the body of that loop. -/
  | body (iter : Nat)
  | returned
  deriving DecidableEq

/-- Where the main thread stands in `run_server`. -/
inductive MainPc
  | sleeping
  /-- `cleanup_server_threads`: these threads are still to be joined. -/
  | join (rest : List ThreadId)
  /-- The rest of `destroy_server`. -/
  | cleanup
  | finished
  /-- `exit(1)` in `sigint_handler`. -/
  | killed
  deriving DecidableEq

structure ServerProgram where
  srv : ServerContext
  stopping : Bool
  loop : ThreadId → Loop
  main : MainPc

inductive ServerAction
  /-- A step of a worker. -/
  | work (a : Action)
  /-- `accept_worker`: `Z_epoll_create1` and `Z_epoll_ctl`. -/
  | setup (t : ThreadId) (ok : Bool)
  /-- `__accept_worker`: `Z_epoll_wait`, when it does not lead to `handle_accept`. -/
  | acceptWait (a : Nat) (outcome : AcceptOutcome)
  /-- `__io_worker`: `Z_epoll_wait` fails with `EINTR`. -/
  | ioInterrupted (k : Nat)
  /-- A thread at the test of its outer loop. -/
  | testOuter (t : ThreadId)
  | testInner (t : ThreadId)
  | sigint
  /-- The main thread goes on. -/
  | main
  deriving DecidableEq

/-- The thread that takes an action. -/
def Action.threadId : Action → ThreadId
  | .acceptTake a | .acceptInit a _ _ => ⟨.accept, a⟩
  | .epollWait k _ | .epollFail k | .event k | .responseTop k | .responseSend k _
  | .responseRecycle k | .responseLock k | .responseSettle k _ | .requestTop k | .requestMiss k
  | .requestRecv k _ | .requestLock k | .requestDeliver k | .finishTrylock k
  | .finishBody k => ⟨.io, k⟩
  | .computeGet i | .computeRun i _ => ⟨.compute, i⟩
  | .submitGet j | .submitTrylock j | .submitPutBack j | .submitSection j _
  | .submitCompare j => ⟨.submit, j⟩

def Locker.threadId : Locker → ThreadId
  | .io k => ⟨.io, k⟩
  | .submit j => ⟨.submit, j⟩

/-- How a worker stands to the body of its loop. -/
inductive Status
  /-- At the beginning, or at the end. -/
  | idle
  | busy
  /-- It has met an error. -/
  | failed
  deriving DecidableEq

def IoWorker.status (w : IoWorker) : Status :=
  match w.pc, w.events with
  | .wait, [] => .idle
  | .exited, _ => .failed
  | _, _ => .busy

def AcceptPc.status : AcceptPc → Status
  | .idle => .idle
  | .took _ => .busy
  | .failed _ => .failed

def ComputePc.status : ComputePc → Status
  | .idle => .idle
  | .got _ => .busy

def SubmitPc.status : SubmitPc → Status
  | .idle => .idle
  | .got _ _ | .locked _ _ | .refused _ _ | .compare _ => .busy
  | .exited => .failed

def ServerContext.status (s : ServerContext) (t : ThreadId) : Status :=
  match t.group with
  | .io => (s.io t.current).status
  | .accept => (s.accept t.current).status
  | .compute => (s.compute t.current).status
  | .submit => (s.submit t.current).status

/-- How many iterations one call of `__io_worker`, `__accept_worker` or `__submitter_worker` has;
`compute_worker` has no such limit. -/
def Group.iterations : Group → Option Nat
  | .io => some 1000
  | .accept => some acceptIterations
  | .submit => some 10000000
  | .compute => none

/-- The inner loop ends without an error. `compute_worker` has only this one. -/
def Group.leave : Group → Loop
  | .compute => .returned
  | .io | .accept | .submit => .outer false

/-- `while (!*stopping && iter++ < n)` -/
def Group.testInner (g : Group) (stopping : Bool) (iter : Nat) : Loop :=
  if stopping then g.leave
  else
    match g.iterations with
    | none => .body iter
    | some n => if iter < n then .body (iter + 1) else g.leave

/-- `while (!ctx->stopping && !ret)` -/
def testOuter (stopping failed : Bool) : Loop := if stopping || failed then .returned else .inner 0

/-- Where a thread stands after step `a` of the body: an error is returned, and so is 0 when there
was no event. -/
def afterWork (a : Action) (status : Status) (iter : Nat) : Loop :=
  match a with
  | .epollWait _ [] => .outer false
  | _ =>
    match status with
    | .idle => .inner iter
    | .busy => .body iter
    | .failed => .outer true

/-- The order in which `cleanup_server_threads` joins. -/
def joinOrder (cfg : ServerConfig) : List ThreadId :=
  cfg.threadsOf [.submit, .io, .accept, .compute]

/-- Where a thread begins; one that does not exist has nothing to do. -/
def ThreadId.begin (cfg : ServerConfig) (t : ThreadId) : Loop :=
  if t.current < cfg.nrThreads t.group then
    match t.group with
    | .accept => .setup
    | .compute => .inner 0
    | .io | .submit => .outer false
  else .returned

/-- What `create_server` returns to `run_server`, with its threads. -/
def ServerProgram.init (cfg : ServerConfig) (bufs : BufId → ServerBuffer) : ServerProgram where
  srv := .init cfg bufs
  stopping := false
  loop := ThreadId.begin cfg
  main := .sleeping

def ServerProgram.goto (p : ServerProgram) (t : ThreadId) (l : Loop) : ServerProgram :=
  { p with loop := Function.update p.loop t l }

/-- The threads are there until the process ends. -/
def MainPc.over : MainPc → Bool
  | .finished | .killed => true
  | .sleeping | .join _ | .cleanup => false

/-- `run_server` -/
def mainStep (cfg : ServerConfig) (p : ServerProgram) : Option ServerProgram :=
  match p.main with
  | .sleeping => some (if p.stopping then { p with main := .join (joinOrder cfg) } else p)
  | .join [] => some { p with main := .cleanup }
  | .join (t :: rest) =>
    if p.loop t = .returned then some { p with main := .join rest } else none
  | .cleanup => some { p with main := .finished }
  | .finished | .killed => none

/-- What a thread does. -/
def threadStep (cfg : ServerConfig) (sha1 : Sha1) (p : ServerProgram) :
    ServerAction → Option ServerProgram
  | .work a =>
    match p.loop a.threadId with
    | .body iter =>
      (step cfg sha1 p.srv a).map fun srv =>
        { p with srv := srv }.goto a.threadId (afterWork a (srv.status a.threadId) iter)
    | _ => none
  | .setup t ok =>
    match p.loop t with
    | .setup => some (p.goto t (if ok then .outer false else .returned))
    | _ => none
  | .acceptWait a outcome =>
    match p.loop ⟨.accept, a⟩, p.srv.accept a with
    | .body iter, .idle =>
      match outcome with
      | .error => some (p.goto ⟨.accept, a⟩ (.outer true))
      | .timeout => some (p.goto ⟨.accept, a⟩ (.outer false))
      | .interrupted | .ready false _ _ => some (p.goto ⟨.accept, a⟩ (.inner iter))
      -- `handle_accept` is called
      | .ready true _ _ => none
    | _, _ => none
  | .ioInterrupted k =>
    match p.loop ⟨.io, k⟩, p.srv.io k with
    | .body iter, ⟨.wait, []⟩ =>
      some (p.goto ⟨.io, k⟩ (if p.stopping then .outer false else .inner iter))
    | _, _ => none
  | .testOuter t =>
    match p.loop t with
    | .outer failed => some (p.goto t (Server.testOuter p.stopping failed))
    | _ => none
  | .testInner t =>
    match p.loop t with
    | .inner iter => some (p.goto t (t.group.testInner p.stopping iter))
    | _ => none
  | .sigint | .main => none

/-- One step of the process. The first `SIGINT` sets `stopping`, the second one ends it. -/
def serverStep (cfg : ServerConfig) (sha1 : Sha1) (p : ServerProgram) (a : ServerAction) :
    Option ServerProgram :=
  if p.main.over then none
  else
    match a with
    | .sigint =>
      some (if p.stopping then { p with main := .killed } else { p with stopping := true })
    | .main => mainStep cfg p
    | a => threadStep cfg sha1 p a

/-- A condition on the steps of the workers. -/
def OnWork (ok : ServerContext → Action → Prop) (p : ServerProgram) : ServerAction → Prop
  | .work a => ok p.srv a
  | _ => True

instance (ok : ServerContext → Action → Prop) [∀ s a, Decidable (ok s a)] (p : ServerProgram) :
    (a : ServerAction) → Decidable (OnWork ok p a)
  | .work a => inferInstanceAs (Decidable (ok p.srv a))
  | .setup _ _ | .acceptWait _ _ | .ioInterrupted _ | .testOuter _ | .testInner _ | .sigint
  | .main => .isTrue trivial

abbrev ProgramRun (cfg : ServerConfig) (sha1 : Sha1) (ok : ServerContext → Action → Prop)
    (bufs : BufId → ServerBuffer) : ServerProgram → Prop :=
  Reachable (serverStep cfg sha1) (OnWork ok) (.init cfg bufs)

variable {cfg : ServerConfig} {sha1 : Sha1} {bufs : BufId → ServerBuffer}
  {ok : ServerContext → Action → Prop}

/-! ## The cases of a step -/

/-- A move of thread `t` through its loops to `l`, outside the steps of the worker. -/
inductive LoopMove (p : ServerProgram) (t : ThreadId) : Loop → Prop
  | setup {ok : Bool} (hl : p.loop t = .setup) :
      LoopMove p t (if ok then .outer false else .returned)
  | waited {iter : Nat} {l : Loop} (hl : p.loop t = .body iter) (hidle : p.srv.status t = .idle)
      (hl' : l = .inner iter ∨ ∃ failed, l = .outer failed) : LoopMove p t l
  | outer {failed : Bool} (hl : p.loop t = .outer failed) :
      LoopMove p t (Server.testOuter p.stopping failed)
  | inner {iter : Nat} (hl : p.loop t = .inner iter) :
      LoopMove p t (t.group.testInner p.stopping iter)

/-- What one step of the process can be. -/
inductive ServerMove (cfg : ServerConfig) (sha1 : Sha1) (p : ServerProgram) :
    ServerAction → ServerProgram → Prop
  | work {a : Action} {iter : Nat} {srv : ServerContext} (hl : p.loop a.threadId = .body iter)
      (hstep : step cfg sha1 p.srv a = some srv) :
      ServerMove cfg sha1 p (.work a)
        ({ p with srv := srv }.goto a.threadId (afterWork a (srv.status a.threadId) iter))
  | loop {a : ServerAction} {t : ThreadId} {l : Loop} (hmove : LoopMove p t l) :
      ServerMove cfg sha1 p a (p.goto t l)
  | sigint (hclear : p.stopping = false) :
      ServerMove cfg sha1 p .sigint { p with stopping := true }
  | sigintAgain (hset : p.stopping = true) :
      ServerMove cfg sha1 p .sigint { p with main := .killed }
  | sleep (hclear : p.stopping = false) : ServerMove cfg sha1 p .main p
  | main {pc : MainPc} (hset : p.main = .sleeping → p.stopping = true)
      (hmain : p.main = .sleeping ∧ pc = .join (joinOrder cfg) ∨
        p.main = .join [] ∧ pc = .cleanup ∨
        (∃ t rest, p.main = .join (t :: rest) ∧ p.loop t = .returned ∧ pc = .join rest) ∨
        p.main = .cleanup ∧ pc = .finished) :
      ServerMove cfg sha1 p .main { p with main := pc }

theorem threadStep_cases {p p' : ServerProgram} {a : ServerAction}
    (h : threadStep cfg sha1 p a = some p') : ServerMove cfg sha1 p a p' := by
  cases a with
  | work a =>
    simp only [threadStep] at h
    split at h
    · next iter hl =>
      obtain ⟨srv, hstep, rfl⟩ := Option.map_eq_some_iff.mp h
      exact .work hl hstep
    · cases h
  | setup t ok =>
    simp only [threadStep] at h
    split at h
    · next hl =>
      cases h
      exact .loop (.setup hl)
    · cases h
  | acceptWait w outcome =>
    simp only [threadStep] at h
    split at h
    · next iter hl hpc =>
      have hidle : p.srv.status ⟨.accept, w⟩ = .idle := congrArg AcceptPc.status hpc
      split at h
      · cases h
        exact .loop (.waited hl hidle (.inr ⟨true, rfl⟩))
      · cases h
        exact .loop (.waited hl hidle (.inr ⟨false, rfl⟩))
      · cases h
        exact .loop (.waited hl hidle (.inl rfl))
      · cases h
        exact .loop (.waited hl hidle (.inl rfl))
      · cases h
    · cases h
  | ioInterrupted k =>
    simp only [threadStep] at h
    split at h
    · next iter hl hw =>
      have hidle : p.srv.status ⟨.io, k⟩ = .idle := congrArg IoWorker.status hw
      cases h
      refine .loop (.waited hl hidle ?_)
      split
      · exact .inr ⟨false, rfl⟩
      · exact .inl rfl
    · cases h
  | testOuter t =>
    simp only [threadStep] at h
    split at h
    · next failed hl =>
      cases h
      exact .loop (.outer hl)
    · cases h
  | testInner t =>
    simp only [threadStep] at h
    split at h
    · next iter hl =>
      cases h
      exact .loop (.inner hl)
    · cases h
  | sigint | main => cases h

theorem serverStep_cases {p p' : ServerProgram} {a : ServerAction}
    (h : serverStep cfg sha1 p a = some p') :
    p.main.over = false ∧ ServerMove cfg sha1 p a p' := by
  unfold serverStep at h
  split at h
  · cases h
  · next hover =>
    refine ⟨Bool.not_eq_true _ ▸ hover, ?_⟩
    split at h
    · split at h
      · next hset =>
        cases h
        exact .sigintAgain hset
      · next hclear =>
        cases h
        exact .sigint (Bool.not_eq_true _ ▸ hclear)
    · unfold mainStep at h
      split at h
      · next hmain =>
        split at h
        · next hset =>
          cases h
          exact .main (fun _ => hset) (.inl ⟨hmain, rfl⟩)
        · next hclear =>
          cases h
          exact .sleep (Bool.not_eq_true _ ▸ hclear)
      · next hmain =>
        cases h
        exact .main (by simp [hmain]) (.inr (.inl ⟨hmain, rfl⟩))
      · next t rest hmain =>
        split at h
        · next hl =>
          cases h
          exact .main (by simp [hmain]) (.inr (.inr (.inl ⟨t, rest, hmain, hl, rfl⟩)))
        · cases h
      · next hmain =>
        cases h
        exact .main (by simp [hmain]) (.inr (.inr (.inr ⟨hmain, rfl⟩)))
      · cases h
      · cases h
    · exact threadStep_cases h

/-- A run of the process is, for the workers, a run of the server. -/
theorem ProgramRun.srv {p : ServerProgram} (h : ProgramRun cfg sha1 ok bufs p) :
    Run cfg sha1 ok bufs p.srv := by
  apply h.project ServerProgram.srv
  intro p a p' hok hstep
  cases (serverStep_cases hstep).2 with
  | work hl hwork => exact .inr ⟨_, hok, hwork⟩
  | _ => exact .inl rfl

/-! ## What the workers do to their status -/

section Status

variable {s s' : ServerContext} {a : Action}

theorem accept_of_ne {w : Nat} (hs : Step cfg sha1 s a s') (ha : a.threadId ≠ ⟨.accept, w⟩) :
    s'.accept w = s.accept w := by
  cases hs with
  | acceptTake | acceptRefused | accepted =>
    apply Function.update_of_ne
    rintro rfl
    exact ha rfl
  | _ => rfl

theorem compute_of_ne {i : Nat} (hs : Step cfg sha1 s a s') (ha : a.threadId ≠ ⟨.compute, i⟩) :
    s'.compute i = s.compute i := by
  cases hs with
  | computeGet | computeRun =>
    apply Function.update_of_ne
    rintro rfl
    exact ha rfl
  | _ => rfl

theorem threadId_of_ioWorker {k : Nat} (h : a.ioWorker = some k) : a.threadId = ⟨.io, k⟩ := by
  cases a <;> cases h <;> rfl

theorem threadId_of_locker {u : Locker} (h : a.locker = some u) : a.threadId = u.threadId := by
  cases a <;> cases h <;> rfl

/-- A worker that does not act keeps its status. -/
theorem status_of_ne {t : ThreadId} (hs : Step cfg sha1 s a s') (ha : a.threadId ≠ t) :
    s'.status t = s.status t := by
  obtain ⟨g, i⟩ := t
  cases g with
  | io =>
    have hio : a.ioWorker ≠ some i := fun hk => ha (threadId_of_ioWorker hk)
    simp only [ServerContext.status, io_of_ne hs hio]
  | accept => simp only [ServerContext.status, accept_of_ne hs ha]
  | compute => simp only [ServerContext.status, compute_of_ne hs ha]
  | submit =>
    have hsubmit : a.locker ≠ some (.submit i) := fun hj => ha (threadId_of_locker hj)
    simp only [ServerContext.status, submit_of_ne hs hsubmit]

/-- Workers none of which is busy have left the bodies of their loops. -/
theorem stopped_of_status (h : ∀ t, s.status t ≠ .busy) : Stopped s where
  accept a := by
    have hnot := h ⟨.accept, a⟩
    cases hpc : s.accept a with
    | idle => exact .inl rfl
    | took c => exact absurd (congrArg AcceptPc.status hpc) hnot
    | failed c => exact .inr ⟨c, rfl⟩
  io k := by
    have hnot := h ⟨.io, k⟩
    simp only [ServerContext.status, IoWorker.status] at hnot
    split at hnot
    · next hpc hevents => exact .inl ⟨hpc, hevents⟩
    · next hpc => exact .inr hpc
    · exact absurd rfl hnot
  compute i := by
    have hnot := h ⟨.compute, i⟩
    cases hpc : s.compute i with
    | idle => rfl
    | got b => exact absurd (congrArg ComputePc.status hpc) hnot
  submit j := by
    have hnot := h ⟨.submit, j⟩
    cases hpc : s.submit j with
    | idle => exact .inl rfl
    | exited => exact .inr rfl
    | got | locked | refused | compare => exact absurd (congrArg SubmitPc.status hpc) hnot

end Status

/-! ## What holds in every run -/

/-- The threads that are still to be joined. -/
def MainPc.left (cfg : ServerConfig) : MainPc → List ThreadId
  | .sleeping | .killed => joinOrder cfg
  | .join rest => rest
  | .cleanup | .finished => []

/-- Where a thread can stand: inside the body while its worker is busy, and on the way out after an
error. -/
def LoopOk : Status → Loop → Prop
  | .idle, _ => True
  | .busy, .body _ => True
  | .failed, .outer true | .failed, .returned => True
  | _, _ => False

structure ProgramInv (cfg : ServerConfig) (p : ServerProgram) : Prop where
  loops : ∀ t, LoopOk (p.srv.status t) (p.loop t)
  order : p.main.left cfg <:+ joinOrder cfg
  joined : ∀ t, t ∉ p.main.left cfg → p.loop t = .returned
  stopping : p.main ≠ .sleeping → p.stopping = true

variable {p p' : ServerProgram} {a : ServerAction}

theorem mem_joinOrder {t : ThreadId} :
    t ∈ joinOrder cfg ↔ t.current < cfg.nrThreads t.group := by
  obtain ⟨g, i⟩ := t
  cases g <;> simp [joinOrder, ServerConfig.threadsOf, threadsUpTo]

theorem loopOk_idle {st : Status} {l : Loop} (h : st = .idle) : LoopOk st l := by
  subst h
  trivial

theorem programInv_init : ProgramInv cfg (.init cfg bufs) where
  loops t := by
    apply loopOk_idle
    obtain ⟨g, i⟩ := t
    cases g <;> rfl
  order := List.suffix_rfl
  joined t ht := if_neg (fun hlt => ht (mem_joinOrder.mpr hlt))
  stopping h := absurd rfl h

/-- With no event the worker is where it was. -/
theorem status_epollWait_nil {s s' : ServerContext} {k : Nat}
    (h : step cfg sha1 s (.epollWait k []) = some s') : s'.status ⟨.io, k⟩ = .idle := by
  simp only [step] at h
  split at h
  · unfold ioEpollWait at h
    split at h
    · cases h
      simp only [ServerContext.status, Function.update_self]
      rfl
    · cases h
  · cases h

theorem loopOk_afterWork {s s' : ServerContext} {b : Action} (iter : Nat)
    (h : step cfg sha1 s b = some s') :
    LoopOk (s'.status b.threadId) (afterWork b (s'.status b.threadId) iter) := by
  unfold afterWork
  split
  · exact loopOk_idle (status_epollWait_nil h)
  · cases s'.status b.threadId <;> trivial

theorem LoopMove.running {t : ThreadId} {l : Loop} (h : LoopMove p t l) :
    p.loop t ≠ .returned := by
  cases h with
  | setup hl | waited hl | outer hl | inner hl => simp [hl]

/-- A thread moves through its loops only where its worker allows it. -/
theorem LoopMove.keeps {t : ThreadId} {l : Loop} (h : LoopMove p t l)
    (hold : LoopOk (p.srv.status t) (p.loop t)) : LoopOk (p.srv.status t) l := by
  cases h with
  | setup hl | inner hl =>
    rw [hl] at hold
    cases hst : p.srv.status t with
    | idle => trivial
    | busy | failed =>
      rw [hst] at hold
      exact hold.elim
  | waited hl hidle hl' =>
    rw [hidle]
    trivial
  | @outer failed hl =>
    rw [hl] at hold
    cases hst : p.srv.status t with
    | idle => trivial
    | busy =>
      rw [hst] at hold
      exact hold.elim
    | failed =>
      rw [hst] at hold
      cases failed with
      | true =>
        rw [testOuter, Bool.or_true]
        trivial
      | false => exact hold.elim

/-- Thread `t` moves, which has not returned. -/
theorem ProgramInv.move (h : ProgramInv cfg p) {t : ThreadId} {l : Loop} {srv : ServerContext}
    (hret : p.loop t ≠ .returned) (hok : LoopOk (srv.status t) l)
    (hothers : ∀ u, u ≠ t → srv.status u = p.srv.status u) :
    ProgramInv cfg ({ p with srv := srv }.goto t l) where
  loops u := by
    show LoopOk (srv.status u) (Function.update p.loop t l u)
    by_cases hut : u = t
    · subst hut
      rw [Function.update_self]
      exact hok
    · rw [Function.update_of_ne hut, hothers u hut]
      exact h.loops u
  order := h.order
  joined u hu := by
    have hold := h.joined u hu
    have hut : u ≠ t := by
      rintro rfl
      exact hret hold
    exact (Function.update_of_ne hut ..).trans hold
  stopping := h.stopping

theorem programInv_step (h : ProgramInv cfg p) (hstep : serverStep cfg sha1 p a = some p') :
    ProgramInv cfg p' := by
  cases (serverStep_cases hstep).2 with
  | @work b iter srv hl hwork =>
    refine h.move (by simp [hl]) (loopOk_afterWork iter hwork) fun u hu => ?_
    exact status_of_ne (step_cases hwork) (Ne.symm hu)
  | @loop _ t l hmove =>
    exact h.move hmove.running (hmove.keeps (h.loops t)) fun _ _ => rfl
  | sigint hclear => exact ⟨h.loops, h.order, h.joined, fun _ => rfl⟩
  | sigintAgain hset =>
    refine ⟨h.loops, List.suffix_rfl, fun t ht => ?_, fun _ => hset⟩
    exact h.joined t fun hl => ht (h.order.subset hl)
  | sleep => exact h
  | @main pc hset hmain =>
    refine ⟨h.loops, ?_, fun t ht => ?_, fun _ => ?_⟩
    · rcases hmain with ⟨hpc, rfl⟩ | ⟨hpc, rfl⟩ | ⟨u, rest, hpc, hu, rfl⟩ | ⟨hpc, rfl⟩
      · exact List.suffix_rfl
      · exact List.nil_suffix
      · have horder := h.order
        rw [hpc] at horder
        exact (List.suffix_cons u rest).trans horder
      · exact List.nil_suffix
    · rcases hmain with ⟨hpc, rfl⟩ | ⟨hpc, rfl⟩ | ⟨u, rest, hpc, hu, rfl⟩ | ⟨hpc, rfl⟩
      · exact h.joined t (by rwa [hpc])
      · exact h.joined t (by rwa [hpc])
      · by_cases htu : t = u
        · exact htu ▸ hu
        · refine h.joined t ?_
          rw [hpc]
          exact List.not_mem_cons_of_ne_of_not_mem htu ht
      · exact h.joined t (by rwa [hpc])
    · by_cases hsleep : p.main = .sleeping
      · exact hset hsleep
      · exact h.stopping hsleep

theorem programInv_of_run (h : ProgramRun cfg sha1 ok bufs p) : ProgramInv cfg p := by
  apply h.invariant (I := ProgramInv cfg) programInv_init
  intro p a p' _ hI _ hstep
  exact programInv_step hI hstep

/-! ## What `destroy_server` is given -/

/-- Behind the joins all threads have returned. -/
theorem ProgramInv.returned (h : ProgramInv cfg p) (hmain : p.main = .cleanup ∨ p.main = .finished)
    (t : ThreadId) : p.loop t = .returned := by
  apply h.joined
  rcases hmain with hmain | hmain <;> simp [hmain, MainPc.left]

theorem ProgramInv.stopped (h : ProgramInv cfg p) (hret : ∀ t, p.loop t = .returned) :
    Stopped p.srv := by
  apply stopped_of_status
  intro t hbusy
  have hok := h.loops t
  rw [hbusy, hret t] at hok
  exact hok

/-- **No thread is running when the server is taken down.** Whenever `run_server` has got past the
joins of `destroy_server`, `stopping` is set, every thread that `create_server` has started has
returned, and the workers have stopped: what is freed then is the context of a stopped server, for
which `Piotbench.Server.Shutdown` says what is released. -/
theorem joined_stopped {start : StartStep → Bool} {path : List Byte}
    (hcreated : ∃ s, constructServer start cfg path .init = .done s)
    (h : ProgramRun cfg sha1 ok bufs p) (hmain : p.main = .cleanup ∨ p.main = .finished) :
    p.stopping = true ∧ (∀ t, p.loop t = .returned) ∧ StoppedServer cfg p.srv := by
  have hinv := programInv_of_run h
  have hreturned := hinv.returned hmain
  refine ⟨hinv.stopping ?_, hreturned, ?_, ?_, hinv.stopped hreturned⟩
  · rcases hmain with hmain | hmain <;> simp [hmain]
  · exact ⟨start, path, constructServer_started hcreated⟩
  · exact ⟨sha1, bufs, h.srv.strengthen fun _ _ => trivial⟩

/-- A client connects, the user presses Ctrl-C, and the threads are joined. -/
def interruptedRun : List ServerAction :=
  [.setup ⟨.accept, 0⟩ true, .testOuter ⟨.accept, 0⟩, .testInner ⟨.accept, 0⟩,
    .work (.acceptTake 0), .work (.acceptInit 0 (some 5) true), .testInner ⟨.compute, 0⟩,
    .testOuter ⟨.io, 0⟩, .sigint, .work (.computeGet 0), .testInner ⟨.compute, 0⟩,
    .testInner ⟨.io, 0⟩, .testOuter ⟨.io, 0⟩, .testOuter ⟨.submit, 0⟩, .testInner ⟨.accept, 0⟩,
    .testOuter ⟨.accept, 0⟩] ++
    List.replicate 6 .main

theorem joined_stopped_interrupted : ∃ p,
    ProgramRun smallServer zeroSha1 (fun _ _ => True) blankBuffers p ∧ p.main = .cleanup ∧
      p.srv.kernel.isOpen 5 = true ∧ StoppedServer smallServer p.srv := by
  have hrun := exists_reachable_of_run interruptedRun
    (fun p => decide (p.main = .cleanup ∧ p.srv.kernel.isOpen 5 = true))
    (by decide +kernel : (run (serverStep smallServer zeroSha1) (OnWork fun _ _ => True)
      (.init smallServer blankBuffers) interruptedRun).map _ = some true)
  obtain ⟨p, hp, hq⟩ := hrun
  obtain ⟨hmain, hopen⟩ := of_decide_eq_true hq
  exact ⟨p, hp, hmain, hopen, (joined_stopped ⟨_, smallServer_started⟩ hp (.inl hmain)).2.2⟩

end Piotbench.Server
