import Piotbench.Client.Thread

/-!
# A fatal error in the client's worker

All of `client_worker`, from `init_client_thread_epoll` to the return, with counts of the calls that
matter: `epoll_wait`, `handle_client_epoll_event` and `close(epollfd)`. When `epoll_wait` fails the
`break` leaves the `while` loop. When `handle_client_epoll_event` fails the same statement leaves
the `for` loop only, and the worker stops if and only if none of its connections has responses to
come at that moment (`fatal_event_iff`).
-/

namespace Piotbench.Client

open Server Transition

/-! ## `client_worker` -/

inductive WorkerPhase
  /-- At `init_client_thread_epoll`. -/
  | start
  /-- In the loop, or at its end with the epoll instance open. -/
  | loop
  /-- Behind `close(epollfd)`. -/
  | closed
  | returned (ret : Int)
  deriving DecidableEq

/-- `client_worker` on its thread. -/
structure WorkerThread where
  phase : WorkerPhase
  thread : ClientThread
  waits : Nat
  handled : Nat
  closes : Nat

def WorkerThread.init (nrRequests : Nat) : WorkerThread where
  phase := .start
  thread := .init nrRequests
  waits := 0
  handled := 0
  closes := 0

inductive WorkerAction
  /-- `init_client_thread_epoll`, with the results of `epoll_create1` and of the `epoll_ctl`s. -/
  | initEpoll (created registered : Bool)
  | thread (a : ThreadAction)
  | close
  | ret
  deriving DecidableEq

/-- The calls of `epoll_wait` in a step. -/
def ThreadAction.waits : ThreadAction → Nat
  | .epollWait _ => 1
  | .stop | .loopTop | .nextEvent _ | .conn _ => 0

/-- The calls of `handle_client_epoll_event` in a step. -/
def ThreadAction.handles (t : ClientThread) : ThreadAction → Nat
  | .nextEvent _ =>
    match t.pc with
    | .batch (.conn _ _ :: _) => 1
    | _ => 0
  | .stop | .loopTop | .epollWait _ | .conn _ => 0

/-- `init_client_thread_epoll`: with an error it leaves nothing open. -/
def initClientThreadEpoll (w : WorkerThread) (created registered : Bool) : WorkerThread :=
  if created then
    if registered then { w with phase := .loop }
    else { w with phase := .returned (-1), closes := w.closes + 1 }
  else { w with phase := .returned (-1) }

def workerStep (nrConnections : Nat) (w : WorkerThread) : WorkerAction → Option WorkerThread
  | .initEpoll created registered =>
    match w.phase with
    | .start => some (initClientThreadEpoll w created registered)
    | _ => none
  | .thread a =>
    if w.phase = .loop ∨ a = .stop then
      (threadStep nrConnections w.thread a).map fun t =>
        { w with
          thread := t
          waits := w.waits + a.waits
          handled := w.handled + a.handles w.thread }
    else none
  | .close =>
    if w.phase = .loop ∧ w.thread.pc = .left then
      some { w with phase := .closed, closes := w.closes + 1 }
    else none
  | .ret =>
    match w.phase with
    | .closed => some { w with phase := .returned w.thread.ret }
    | _ => none

/-- The worker's own steps. -/
def WorkerAction.own : WorkerAction → Nat
  | .thread .stop => 0
  | .initEpoll .. | .thread _ | .close | .ret => 1

/-- The worker comes from `w` to `w'`. -/
abbrev WorkerPath (nrConnections : Nat) : WorkerThread → WorkerThread → Prop :=
  Reachable (workerStep nrConnections) fun _ _ => True

/-- The step makes `handle_client_epoll_event` return an error. -/
def ThreadAction.fails (t : ClientThread) : ThreadAction → Bool
  | .nextEvent clockOk =>
    match t.pc with
    | .batch (.conn i events :: _) => returnsError (t.worker i) (.event events clockOk)
    | _ => false
  | .conn a =>
    match t.pc with
    | .conn i _ _ => returnsError (t.worker i) a
    | _ => false
  | .stop | .loopTop | .epollWait _ => false

/-- The worker is on its way out: it handles no more events, waits no more, and whatever happens
it closes its epoll instance, once, and returns an error after three steps of its own. -/
structure Stops (nrConnections : Nat) (w : WorkerThread) : Prop where
  noEvent : ∀ w', WorkerPath nrConnections w w' → w'.handled = w.handled
  noWait : ∀ w', WorkerPath nrConnections w w' → w'.waits = w.waits
  result : ∀ w' ret, WorkerPath nrConnections w w' → w'.phase = .returned ret →
    ret ≠ 0 ∧ w'.closes = 1
  progress : ∀ w', WorkerPath nrConnections w w' → (∀ ret, w'.phase ≠ .returned ret) →
    ∃ a w'', a.own = 1 ∧ workerStep nrConnections w' a = some w''
  bounded : ∀ l w', Path (workerStep nrConnections) (fun _ _ => True) w l w' →
    total (fun _ a => a.own) l ≤ 3

/-! ## What an error leaves behind -/

section Error

variable {nrConnections : Nat} {t t' : ClientThread} {a : ThreadAction}

/-- An error leaves the connection as it was. -/
theorem returnsError_conn {cl cl' : ClientWorker} {a : ClientAction}
    (hstep : clientStep cl a = some cl') (herr : returnsError cl a = true) :
    cl'.conn = cl.conn := by
  cases client_cases hstep with
  | stop | outputTop | inputTop => cases herr
  | event hpc hevent => exact handleEvent_conn hevent
  | @send input res _ hpc hsend =>
    obtain rfl : res = .error := by simpa [returnsError] using herr
    cases hsend
    rfl
  | @afterOutput input ok hpc => exact handleAfterOutput_conn cl input ok
  | @recv res _ hpc hrecv =>
    obtain rfl : res = .error := by simpa [returnsError] using herr
    cases hrecv
    rfl
  | @afterInput clockOk hpc =>
    simp only [returnsError, Bool.and_eq_true, beq_iff_eq, Bool.not_eq_true'] at herr
    obtain ⟨hlast, rfl⟩ := herr
    simp only [handleAfterInput, hlast, if_true]
    rfl

/-- Back at the condition of the `while` loop, with the error in `ret`. -/
structure Dropped (t t' : ClientThread) : Prop where
  pc : t'.pc = .top
  ret : t'.ret = -1
  conns : t'.conns = t.conns

theorem connStep_fails {i : Nat} {rest : List ThreadEvent} {b : ClientAction}
    (hstep : connStep t i rest b = some t') (herr : returnsError (t.worker i) b = true) :
    Dropped t t' := by
  obtain ⟨cl, hcl, rfl⟩ := Option.map_eq_some_iff.mp hstep
  have hconn : cl.conn = t.conns i := returnsError_conn hcl herr
  refine ⟨if_pos herr, if_pos herr, ?_⟩
  show Function.update t.conns i cl.conn = t.conns
  rw [hconn, Function.update_eq_self]

/-- **A failing step** drops the rest of the batch, and nothing else. -/
theorem threadStep_fails (herr : a.fails t = true)
    (hstep : threadStep nrConnections t a = some t') : Dropped t t' := by
  cases threadStep_cases hstep with
  | stop | leave | stay | eintr | fail | events => cases herr
  | @done rest clockOk hpc hend =>
    rcases rest with _ | ⟨_ | _, _⟩
    · simp [ThreadAction.fails, hpc] at herr
    · simp [ThreadAction.fails, hpc] at herr
    · simp at hend
  | event hpc hconn | conn hpc hb hconn =>
    simp only [ThreadAction.fails, hpc] at herr
    exact connStep_fails hconn herr

theorem active_congr (h : t'.conns = t.conns) :
    threadHasActiveConnections nrConnections t' = threadHasActiveConnections nrConnections t := by
  rw [threadHasActiveConnections, threadHasActiveConnections, h]

/-- What can be done at the condition of the loop. -/
theorem threadStep_top (hpc : t.pc = .top) (hstep : threadStep nrConnections t a = some t') :
    (a = .stop ∧ t' = { t with stopping := true }) ∨
      (a = .loopTop ∧ t' = { t with
        pc := if threadHasActiveConnections nrConnections t = 0 then .left else .wait }) := by
  cases a with
  | stop => exact .inl ⟨rfl, (Option.some.inj hstep).symm⟩
  | loopTop =>
    simp only [threadStep, hpc, Option.some.injEq] at hstep
    exact .inr ⟨rfl, hstep.symm⟩
  | epollWait | nextEvent | conn => simp [threadStep, hpc] at hstep

/-- Behind the loop. -/
theorem threadStep_left (hpc : t.pc = .left) (hstep : threadStep nrConnections t a = some t') :
    a = .stop ∧ t' = { t with stopping := true } := by
  cases a with
  | stop => exact ⟨rfl, (Option.some.inj hstep).symm⟩
  | loopTop | epollWait | nextEvent | conn => simp [threadStep, hpc] at hstep

end Error

/-! ## The way out -/

section Ending

variable {nrConnections : Nat} {w₀ w w' : WorkerThread} {a : WorkerAction}

/-- The positions between the error and the return. -/
inductive WayOut (nrConnections : Nat) (w : WorkerThread) : Prop
  | top : w.phase = .loop → w.closes = 0 → w.thread.pc = .top →
      threadHasActiveConnections nrConnections w.thread = 0 → WayOut nrConnections w
  | left : w.phase = .loop → w.closes = 0 → w.thread.pc = .left → WayOut nrConnections w
  | closed : w.phase = .closed → w.closes = 1 → WayOut nrConnections w
  | returned : w.phase = .returned (-1) → w.closes = 1 → WayOut nrConnections w

/-- On the way out since `w₀`. -/
structure Ending (nrConnections : Nat) (w₀ w : WorkerThread) : Prop where
  handled : w.handled = w₀.handled
  waits : w.waits = w₀.waits
  ret : w.thread.ret = -1
  out : WayOut nrConnections w

/-- The steps that the worker has still to take. -/
def WorkerThread.remaining (w : WorkerThread) : Nat :=
  match w.phase with
  | .start => 4
  | .loop => if w.thread.pc = .left then 2 else 3
  | .closed => 1
  | .returned _ => 0

theorem remaining_le (h : WayOut nrConnections w) : w.remaining ≤ 3 := by
  cases h with
  | top hphase _ hpc | left hphase _ hpc =>
    simp only [WorkerThread.remaining, hphase, hpc]
    decide
  | closed hphase | returned hphase => simp [WorkerThread.remaining, hphase]

/-- A step of the thread, with what is counted of it. -/
theorem workerStep_thread {b : ThreadAction}
    (hstep : workerStep nrConnections w (.thread b) = some w') :
    (w.phase = .loop ∨ b = .stop) ∧ ∃ t, threadStep nrConnections w.thread b = some t ∧
      w' = { w with
        thread := t
        waits := w.waits + b.waits
        handled := w.handled + b.handles w.thread } := by
  simp only [workerStep] at hstep
  split at hstep
  · next hphase =>
    obtain ⟨t, ht, rfl⟩ := Option.map_eq_some_iff.mp hstep
    exact ⟨hphase, t, ht, rfl⟩
  · cases hstep

/-- Asking the worker to stop changes nothing any more. -/
theorem ending_stop (h : Ending nrConnections w₀ w)
    (hstep : workerStep nrConnections w (.thread .stop) = some w') :
    Ending nrConnections w₀ w' ∧ w'.remaining = w.remaining := by
  obtain ⟨-, t, ht, rfl⟩ := workerStep_thread hstep
  cases ht
  refine ⟨⟨h.handled, h.waits, h.ret, ?_⟩, rfl⟩
  cases h.out with
  | top hphase hcloses hpc hidle => exact .top hphase hcloses hpc hidle
  | left hphase hcloses hpc => exact .left hphase hcloses hpc
  | closed hphase hcloses => exact .closed hphase hcloses
  | returned hphase hcloses => exact .returned hphase hcloses

theorem ending_step (h : Ending nrConnections w₀ w)
    (hstep : workerStep nrConnections w a = some w') :
    Ending nrConnections w₀ w' ∧ a.own + w'.remaining ≤ w.remaining := by
  cases a with
  | initEpoll created registered =>
    cases h.out with
    | top hphase | left hphase | closed hphase | returned hphase =>
      simp [workerStep, hphase] at hstep
  | thread b =>
    by_cases hb : b = .stop
    · subst hb
      obtain ⟨hend, hsame⟩ := ending_stop h hstep
      exact ⟨hend, by rw [hsame, WorkerAction.own, Nat.zero_add]⟩
    · obtain ⟨hloop, t, ht, rfl⟩ := workerStep_thread hstep
      have hloop := hloop.resolve_right hb
      cases h.out with
      | top hphase hcloses hpc hidle =>
        obtain ⟨hstop, -⟩ | ⟨rfl, rfl⟩ := threadStep_top hpc ht
        · exact absurd hstop hb
        · -- no connection is active: the loop is left
          refine ⟨⟨h.handled, h.waits, h.ret, .left hphase hcloses (if_pos hidle)⟩, ?_⟩
          simp only [WorkerThread.remaining, WorkerAction.own, hphase, hpc, hidle, if_true]
          decide
      | left hphase hcloses hpc => exact absurd (threadStep_left hpc ht).1 hb
      | closed hphase | returned hphase => exact absurd (hphase.symm.trans hloop) (by simp)
  | close =>
    cases h.out with
    | top hphase hcloses hpc => simp [workerStep, hphase, hpc] at hstep
    | left hphase hcloses hpc =>
      simp only [workerStep, hphase, hpc, and_self, if_true, Option.some.injEq] at hstep
      subst hstep
      refine ⟨⟨h.handled, h.waits, h.ret, .closed rfl (by simp [hcloses])⟩, ?_⟩
      simp only [WorkerThread.remaining, WorkerAction.own, hphase, hpc, if_true]
      decide
    | closed hphase | returned hphase => simp [workerStep, hphase] at hstep
  | ret =>
    cases h.out with
    | top hphase | left hphase | returned hphase => simp [workerStep, hphase] at hstep
    | closed hphase hcloses =>
      simp only [workerStep, hphase, Option.some.injEq] at hstep
      subst hstep
      refine ⟨⟨h.handled, h.waits, h.ret, .returned (by rw [h.ret]) hcloses⟩, ?_⟩
      simp only [WorkerThread.remaining, WorkerAction.own, hphase]
      decide

theorem Ending.progress (h : Ending nrConnections w₀ w) (hbusy : ∀ ret, w.phase ≠ .returned ret) :
    ∃ a w', a.own = 1 ∧ workerStep nrConnections w a = some w' := by
  cases h.out with
  | top hphase hcloses hpc hidle =>
    exact ⟨.thread .loopTop, _, rfl, by simp [workerStep, hphase, threadStep, hpc]; rfl⟩
  | left hphase hcloses hpc =>
    exact ⟨.close, _, rfl, by simp [workerStep, hphase, hpc]; rfl⟩
  | closed hphase => exact ⟨.ret, _, rfl, by simp [workerStep, hphase]; rfl⟩
  | returned hphase => exact absurd hphase (hbusy _)

/-- Who is on the way out stops. -/
theorem Ending.stops (h : Ending nrConnections w w) : Stops nrConnections w := by
  have hall : ∀ w', WorkerPath nrConnections w w' → Ending nrConnections w w' := by
    intro w' hw'
    exact hw'.invariant h fun _ hend _ hstep => (ending_step hend hstep).1
  refine ⟨fun w' hw' => (hall w' hw').handled, fun w' hw' => (hall w' hw').waits, ?_,
    fun w' hw' => (hall w' hw').progress, ?_⟩
  · intro w' ret hw' hphase
    cases (hall w' hw').out with
    | top hloop | left hloop | closed hloop => exact absurd (hloop.symm.trans hphase) (by simp)
    | returned hret hcloses =>
      obtain rfl := WorkerPhase.returned.inj (hret.symm.trans hphase)
      exact ⟨by decide, hcloses⟩
  · intro l w' hpath
    have hpay := hpath.bounded WorkerThread.remaining (fun _ a => a.own)
      (fun hr _ hstep => (ending_step (hall _ hr) hstep).2) .refl
    have hthree := remaining_le h.out
    omega

/-- Who finds an active connection waits again. -/
theorem not_stops (hphase : w.phase = .loop) (hpc : w.thread.pc = .top)
    (hactive : threadHasActiveConnections nrConnections w.thread ≠ 0) :
    ¬ Stops nrConnections w := by
  intro hstops
  have htop : workerStep nrConnections w (.thread .loopTop) =
      some { w with thread := { w.thread with pc := .wait } } := by
    simp [workerStep, hphase, threadStep, hpc, hactive, ThreadAction.waits, ThreadAction.handles]
  have hwait : workerStep nrConnections { w with thread := { w.thread with pc := .wait } }
      (.thread (.epollWait .eintr)) =
      some { w with thread := { w.thread with pc := .top }, waits := w.waits + 1 } := by
    simp [workerStep, hphase, threadStep, epollWait, ThreadAction.waits, ThreadAction.handles]
  have hmore := hstops.noWait _ (.tail (.tail .refl trivial htop) trivial hwait)
  simp at hmore

end Ending

/-! ## Runs -/

/-- Until it has closed its epoll instance the worker has not closed it. -/
theorem closes_eq_zero {nrConnections nrRequests : Nat} {w : WorkerThread}
    (hw : WorkerPath nrConnections (.init nrRequests) w)
    (hphase : w.phase = .start ∨ w.phase = .loop) : w.closes = 0 := by
  refine hw.invariant (I := fun w => w.phase = .start ∨ w.phase = .loop → w.closes = 0)
    (fun _ => rfl) ?_ hphase
  intro w a w' _ hzero _ hstep hphase'
  cases a with
  | initEpoll created registered =>
    simp only [workerStep] at hstep
    split at hstep
    · next hstart =>
      have hclosed := hzero (.inl hstart)
      cases hstep
      cases created <;> cases registered <;> simp [initClientThreadEpoll, hclosed] at hphase' ⊢
    · cases hstep
  | thread b =>
    obtain ⟨-, t, -, rfl⟩ := workerStep_thread hstep
    exact hzero hphase'
  | close =>
    simp only [workerStep] at hstep
    split at hstep
    · cases hstep
      simp at hphase'
    · cases hstep
  | ret =>
    simp only [workerStep] at hstep
    split at hstep
    · cases hstep
      simp at hphase'
    · cases hstep

/-- **A fatal event error**, in every run of `client_worker`: after `epoll_wait` has failed the
worker stops; after `handle_client_epoll_event` has failed it stops exactly when no connection of
the thread has responses to come. -/
theorem fatal_event_iff {nrConnections nrRequests : Nat} {w w' : WorkerThread} {b : ThreadAction}
    (hw : WorkerPath nrConnections (.init nrRequests) w)
    (hstep : workerStep nrConnections w (.thread b) = some w') :
    (b = .epollWait .error → Stops nrConnections w') ∧
      (b.fails w.thread = true → (Stops nrConnections w' ↔
        threadHasActiveConnections nrConnections w.thread = 0)) := by
  obtain ⟨hloop, t, ht, rfl⟩ := workerStep_thread hstep
  constructor
  · rintro rfl
    have hphase := hloop.resolve_right (by simp)
    have hcloses := closes_eq_zero hw (.inr hphase)
    cases threadStep_cases ht with
    | fail hpc => exact Ending.stops ⟨rfl, rfl, rfl, .left hphase hcloses rfl⟩
  · intro herr
    have hb : b ≠ .stop := by
      rintro rfl
      cases herr
    have hphase := hloop.resolve_right hb
    have hcloses := closes_eq_zero hw (.inr hphase)
    obtain ⟨hpc, hret, hconns⟩ := threadStep_fails herr ht
    have hactive : threadHasActiveConnections nrConnections t =
        threadHasActiveConnections nrConnections w.thread := active_congr hconns
    constructor
    · intro hstops
      by_contra hne
      refine absurd hstops (not_stops hphase hpc fun hidle => hne ?_)
      exact hactive.symm.trans hidle
    · intro hidle
      exact Ending.stops ⟨rfl, rfl, hret, .top hphase hcloses hpc (hactive.trans hidle)⟩

/-- One connection with one request, up to the input part of the event with the response. -/
def oneRequest : List WorkerAction :=
  .initEpoll true true ::
    ([.loopTop, .epollWait (.events [.conn 0 (epollIn ||| epollOut)]), .nextEvent true,
      .conn .outputTop, .conn (.send (.sent 1024)), .conn (.afterOutput true),
      .conn .inputTop] : List ThreadAction).map .thread

/-- A run, and a step after it that fails. -/
theorem exists_failing (as : List WorkerAction) (b : ThreadAction) (active : Nat)
    (h : (run (workerStep 1) (fun _ _ => True) (.init 1) as).map (fun w =>
      b.fails w.thread && (threadHasActiveConnections 1 w.thread == active) &&
        (workerStep 1 w (.thread b)).isSome) = some true) :
    ∃ w w', WorkerPath 1 (.init 1) w ∧ workerStep 1 w (.thread b) = some w' ∧
      b.fails w.thread = true ∧ threadHasActiveConnections 1 w.thread = active := by
  obtain ⟨w, hw, hp⟩ := exists_reachable_of_run as _ h
  simp only [Bool.and_eq_true, beq_iff_eq, Option.isSome_iff_exists] at hp
  obtain ⟨⟨herr, hactive⟩, w', hw'⟩ := hp
  exact ⟨w, w', hw, hw', herr, hactive⟩

/-- The response has come and `clock_gettime` fails: nothing is left to be done. -/
theorem fatal_event_clock : ∃ w w', WorkerPath 1 (.init 1) w ∧
    workerStep 1 w (.thread (.conn (.afterInput false))) = some w' ∧ Stops 1 w' := by
  obtain ⟨w, w', hw, hw', herr, hidle⟩ := exists_failing
    (oneRequest ++ ([.conn (.recv (.data (List.replicate 24 7))), .conn .inputTop] :
      List ThreadAction).map .thread) (.conn (.afterInput false)) 0 (by decide +kernel)
  exact ⟨w, w', hw, hw', ((fatal_event_iff hw hw').2 herr).mpr hidle⟩

/-- `recv` fails before the response has come, and the worker goes back to `epoll_wait`. -/
theorem not_fatal_event_recv : ∃ w w', WorkerPath 1 (.init 1) w ∧
    workerStep 1 w (.thread (.conn (.recv .error))) = some w' ∧
    ThreadAction.fails w.thread (.conn (.recv .error)) = true ∧ ¬ Stops 1 w' := by
  obtain ⟨w, w', hw, hw', herr, hactive⟩ := exists_failing oneRequest (.conn (.recv .error)) 1
    (by decide +kernel)
  obtain ⟨hloop, t, ht, rfl⟩ := workerStep_thread hw'
  obtain ⟨hpc, -, hconns⟩ := threadStep_fails herr ht
  refine ⟨w, _, hw, hw', herr, not_stops (hloop.resolve_right (by simp)) hpc ?_⟩
  rw [active_congr hconns, hactive]
  decide

end Piotbench.Client
