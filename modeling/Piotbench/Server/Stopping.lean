import Piotbench.Server.Program
import Piotbench.Server.Turns

/-!
# After the first `SIGINT`

Once `stopping` is set, no worker begins another iteration, and the one it is in ends: for an IO
worker that is what `Piotbench.Server.Turns` is about. So all threads together, the main thread
among them, have a bounded number of steps left; and as long as `run_server` has not returned, one
of them can go on, unless all that are left wait in `accept` for a client (`shutdown_ends`).
-/

namespace Piotbench.Server

open Transition

variable {cfg : ServerConfig} {sha1 : Sha1} {bufs : BufId → ServerBuffer}
  {s s' : ServerContext} {b : Action}

/-! ## The iteration in hand -/

def AcceptPc.due : AcceptPc → Nat
  | .idle => 2
  | .took _ => 1
  | .failed _ => 0

def ComputePc.due : ComputePc → Nat
  | .idle => 2
  | .got _ => 1

def SubmitPc.due : SubmitPc → Nat
  | .idle => 4
  | .got _ _ => 3
  | .locked _ _ => 2
  | .refused _ _ | .compare _ => 1
  | .exited => 0

/-- How many steps the body of a worker's loop has left, at most. -/
def ServerContext.bodyDue (cfg : ServerConfig) (s : ServerContext) (t : ThreadId) : Nat :=
  match t.group with
  | .io =>
    if (s.io t.current).status = .idle then eventMost cfg * maxEvents + 1
    else (s.io t.current).work cfg s
  | .accept => (s.accept t.current).due
  | .compute => (s.compute t.current).due
  | .submit => (s.submit t.current).due

theorem bodyDue_pos {t : ThreadId} (h : s.status t = .idle) : 1 ≤ s.bodyDue cfg t := by
  obtain ⟨g, i⟩ := t
  cases g with
  | io =>
    simp only [ServerContext.status] at h
    simp only [ServerContext.bodyDue, h, if_true]
    omega
  | accept =>
    simp only [ServerContext.status, ServerContext.bodyDue] at h ⊢
    cases hpc : s.accept i <;> simp_all [AcceptPc.status, AcceptPc.due]
  | compute =>
    simp only [ServerContext.status, ServerContext.bodyDue] at h ⊢
    cases hpc : s.compute i <;> simp_all [ComputePc.status, ComputePc.due]
  | submit =>
    simp only [ServerContext.status, ServerContext.bodyDue] at h ⊢
    cases hpc : s.submit i <;> simp_all [SubmitPc.status, SubmitPc.due]

/-- The others leave it alone. -/
theorem bodyDue_of_ne {t : ThreadId} (h : Inv cfg s) (hs : Step cfg sha1 s b s')
    (hb : b.threadId ≠ t) : s'.bodyDue cfg t = s.bodyDue cfg t := by
  obtain ⟨g, i⟩ := t
  cases g with
  | io =>
    have hio : b.ioWorker ≠ some i := fun hk => hb (threadId_of_ioWorker hk)
    have hwork := work_other h hs hio
    rw [io_of_ne hs hio] at hwork
    simp only [ServerContext.bodyDue, io_of_ne hs hio, hwork]
  | accept => simp only [ServerContext.bodyDue, accept_of_ne hs hb]
  | compute => simp only [ServerContext.bodyDue, compute_of_ne hs hb]
  | submit =>
    have hsubmit : b.locker ≠ some (.submit i) := fun hj => hb (threadId_of_locker hj)
    simp only [ServerContext.bodyDue, submit_of_ne hs hsubmit]

/-- A step of the body is paid for, and while the worker stays busy so is the next one. -/
structure BodyPays (cfg : ServerConfig) (s s' : ServerContext) (t : ThreadId) : Prop where
  pos : 1 ≤ s.bodyDue cfg t
  busy : s'.status t = .busy → 1 + s'.bodyDue cfg t ≤ s.bodyDue cfg t

theorem accept_pays {w : Nat} (hstep : step cfg sha1 s b = some s')
    (hb : b.threadId = ⟨.accept, w⟩) : BodyPays cfg s s' ⟨.accept, w⟩ := by
  cases b with
  | acceptTake w' =>
    cases hb
    simp only [step] at hstep
    split at hstep
    · next hpc =>
      cases hstep
      unfold handleAcceptTake
      constructor
      · simp [ServerContext.bodyDue, hpc, AcceptPc.due]
      · split <;> simp [ServerContext.status, ServerContext.bodyDue, hpc, AcceptPc.due,
          AcceptPc.status]
    · cases hstep
  | acceptInit w' accepted ok =>
    cases hb
    simp only [step] at hstep
    split at hstep
    · next c hpc =>
      constructor
      · simp [ServerContext.bodyDue, hpc, AcceptPc.due]
      · unfold handleAcceptInit at hstep
        split at hstep
        · cases hstep
          simp [ServerContext.status, AcceptPc.status]
        · split at hstep
          · cases hstep
          · cases hstep
            simp only [ServerContext.status, Function.update_self]
            split <;> simp [AcceptPc.status]
    · cases hstep
  | _ => cases hb

theorem compute_pays {i : Nat} (hstep : step cfg sha1 s b = some s')
    (hb : b.threadId = ⟨.compute, i⟩) : BodyPays cfg s s' ⟨.compute, i⟩ := by
  cases b with
  | computeGet i' =>
    cases hb
    simp only [step] at hstep
    split at hstep
    · next hpc =>
      cases hstep
      unfold computeWorkerGet
      constructor
      · simp [ServerContext.bodyDue, hpc, ComputePc.due]
      · split <;> simp [ServerContext.status, ServerContext.bodyDue, hpc, ComputePc.due,
          ComputePc.status]
    · cases hstep
  | computeRun i' clock =>
    cases hb
    simp only [step] at hstep
    split at hstep
    · next b hpc =>
      constructor
      · simp [ServerContext.bodyDue, hpc, ComputePc.due]
      · obtain ⟨msg, -, rfl⟩ := Option.map_eq_some_iff.mp hstep
        simp [ServerContext.status, ComputePc.status]
    · cases hstep
  | _ => cases hb

theorem submit_pays {j : Nat} (hstep : step cfg sha1 s b = some s')
    (hb : b.threadId = ⟨.submit, j⟩) : BodyPays cfg s s' ⟨.submit, j⟩ := by
  cases b with
  | submitGet j' =>
    cases hb
    simp only [step] at hstep
    split at hstep
    · next hpc =>
      cases hstep
      unfold submitterGet
      constructor
      · simp [ServerContext.bodyDue, hpc, SubmitPc.due]
      · split <;> simp [ServerContext.status, ServerContext.bodyDue, hpc, SubmitPc.due,
          SubmitPc.status]
    · cases hstep
  | submitTrylock j' =>
    cases hb
    simp only [step] at hstep
    split at hstep
    · next b c hpc =>
      cases hstep
      unfold submitterTrylock
      constructor
      · simp [ServerContext.bodyDue, hpc, SubmitPc.due]
      · split <;> simp [ServerContext.status, ServerContext.bodyDue, hpc, SubmitPc.due,
          SubmitPc.status]
    · cases hstep
  | submitPutBack j' =>
    cases hb
    simp only [step] at hstep
    split at hstep
    · next b c hpc =>
      cases hstep
      constructor
      · simp [ServerContext.bodyDue, hpc, SubmitPc.due]
      · simp [submitterPutBack, ServerContext.status, SubmitPc.status]
    · cases hstep
  | submitSection j' ok =>
    cases hb
    simp only [step] at hstep
    split at hstep
    · next b c hpc =>
      cases hstep
      unfold submitterSection
      constructor
      · simp [ServerContext.bodyDue, hpc, SubmitPc.due]
      · split
        · simp [submitterDispose, ServerContext.status, ServerContext.bodyDue, hpc, SubmitPc.due]
        · simp only [submitterQueue, ServerContext.status, Function.update_self]
          split <;> simp [SubmitPc.status]
    · cases hstep
  | submitCompare j' =>
    cases hb
    simp only [step] at hstep
    split at hstep
    · next c hpc =>
      cases hstep
      unfold submitterCompare
      constructor
      · simp [ServerContext.bodyDue, hpc, SubmitPc.due]
      · split <;> simp [ServerContext.status, SubmitPc.status]
    · cases hstep
  | _ => cases hb

/-- What is known of the connections of an IO worker. -/
theorem conns_bounded (hra : cfg.load.readahead < UInt32.size) (h : Run cfg sha1 Orderly bufs s)
    (k : Nat) : ∀ c ∈ (s.io k).conns, Bounded cfg s c := by
  intro c hc
  have hinv := inv_of_run (fun _ _ => id) h
  have hop := hinv.openAt_of_live ((hinv.workers k).live c hc)
  exact bounded_of_run hra h hop.session hop.closed

theorem eq_of_idle {w : IoWorker} (h : w.status = .idle) : w = ⟨.wait, []⟩ := by
  obtain ⟨pc, events⟩ := w
  unfold IoWorker.status at h
  split at h
  · next hpc hevents =>
    cases hpc
    cases hevents
    rfl
  · cases h
  · cases h

/-- `epoll_wait` is called between two iterations. -/
theorem idle_of_polls {k : Nat} (hstep : step cfg sha1 s b = some s') (hpoll : b.polls k = true) :
    (s.io k).status = .idle := by
  unfold Action.polls at hpoll
  split at hpoll
  · obtain rfl := eq_of_beq hpoll
    simp only [step] at hstep
    split at hstep
    · next hw => exact congrArg IoWorker.status hw
    · cases hstep
  · obtain rfl := eq_of_beq hpoll
    simp only [step] at hstep
    split at hstep
    · next hw => exact congrArg IoWorker.status hw
    · cases hstep
  · cases hpoll

theorem bodyDue_busy {k : Nat} (h : (s.io k).status ≠ .idle) :
    s.bodyDue cfg ⟨.io, k⟩ = (s.io k).work cfg s := by
  simp only [ServerContext.bodyDue, h, if_false]

theorem bodyDue_idle {k : Nat} (h : (s.io k).status = .idle) :
    s.bodyDue cfg ⟨.io, k⟩ = eventMost cfg * maxEvents + 1 := by
  simp only [ServerContext.bodyDue, h, if_true]

/-- A batch of events is at most `MAX_EVENTS` of them. -/
theorem work_le_most (hra : cfg.load.readahead < UInt32.size) (h : Run cfg sha1 Orderly bufs s)
    (k : Nat) : (s.io k).work cfg s ≤ eventMost cfg * maxEvents :=
  (work_le (conns_bounded hra h k)).trans (Nat.mul_le_mul_left _ (conns_le_of_run h k))

theorem io_pays (hio : 0 < cfg.load.maxIoSize) (hra : cfg.load.readahead < UInt32.size)
    (h : Run cfg sha1 Orderly bufs s) (ho : Orderly s b) {k : Nat}
    (hstep : step cfg sha1 s b = some s') (hb : b.ioWorker = some k) :
    BodyPays cfg s s' ⟨.io, k⟩ := by
  have hnext : Run cfg sha1 Orderly bufs s' := h.tail ho hstep
  have hbusy' : s'.status ⟨.io, k⟩ = .busy → (s'.io k).status ≠ .idle := by
    intro hbusy hidle
    cases hbusy.symm.trans hidle
  cases hpoll : b.polls k with
  | true =>
    have hidle : s.bodyDue cfg ⟨.io, k⟩ = eventMost cfg * maxEvents + 1 :=
      bodyDue_idle (idle_of_polls hstep hpoll)
    refine ⟨by omega, fun hbusy => ?_⟩
    have hwork := work_le_most hra hnext k
    rw [bodyDue_busy (hbusy' hbusy), hidle]
    omega
  | false =>
    have hpays := work_step (inv_of_run (fun _ _ => id) h) hio hra (conns_bounded hra h k)
      (conns_bounded hra hnext k) hstep hb hpoll
    have hnot : (s.io k).status ≠ .idle := by
      intro hidle
      rw [Pays, eq_of_idle hidle] at hpays
      have hzero : (⟨.wait, []⟩ : IoWorker).work cfg s = 0 := rfl
      omega
    rw [Pays] at hpays
    refine ⟨?_, fun hbusy => ?_⟩
    · rw [bodyDue_busy hnot]
      omega
    · rw [bodyDue_busy hnot, bodyDue_busy (hbusy' hbusy)]
      exact hpays

/-- **One step of a body.** -/
theorem body_pays (hio : 0 < cfg.load.maxIoSize) (hra : cfg.load.readahead < UInt32.size)
    (h : Run cfg sha1 Orderly bufs s) (ho : Orderly s b) (hstep : step cfg sha1 s b = some s') :
    BodyPays cfg s s' b.threadId := by
  cases hb : b.threadId with
  | mk g i =>
    cases g with
    | accept => exact accept_pays hstep hb
    | compute => exact compute_pays hstep hb
    | submit => exact submit_pays hstep hb
    | io =>
      apply io_pays hio hra h ho hstep
      cases b <;> cases hb <;> rfl

/-! ## What is left to do -/

/-- How many steps a thread has left, when the body of its loop has `body`. -/
def Loop.due (body : Nat) : Loop → Nat
  | .returned => 0
  | .outer _ => 1
  | .setup | .inner _ => 2
  | .body _ => body + 2

def MainPc.due (cfg : ServerConfig) : MainPc → Nat
  | .sleeping => (joinOrder cfg).length + 3
  | .join rest => rest.length + 2
  | .cleanup => 1
  | .finished | .killed => 0

def ServerProgram.threadDue (cfg : ServerConfig) (p : ServerProgram) (t : ThreadId) : Nat :=
  (p.loop t).due (p.srv.bodyDue cfg t)

/-- How many steps the process has left, at most, once `stopping` is set. -/
def ServerProgram.due (cfg : ServerConfig) (p : ServerProgram) : Nat :=
  tally (p.threadDue cfg) (joinOrder cfg) + p.main.due cfg

/-- The most that a thread has left. -/
def threadMost (cfg : ServerConfig) : Nat := eventMost cfg * maxEvents + 3

def shutdownMost (cfg : ServerConfig) : Nat :=
  (joinOrder cfg).length * threadMost cfg + ((joinOrder cfg).length + 3)

variable {p p' : ServerProgram} {a : ServerAction}

theorem due_afterWork {st : Status} {n n' : Nat} (iter : Nat) (hpos : 1 ≤ n)
    (hbusy : st = .busy → 1 + n' ≤ n) : 1 + (afterWork b st iter).due n' ≤ n + 2 := by
  unfold afterWork
  split
  · show 1 + 1 ≤ n + 2
    omega
  · cases st with
    | idle =>
      show 1 + 2 ≤ n + 2
      omega
    | busy =>
      have hle := hbusy rfl
      show 1 + (n' + 2) ≤ n + 2
      omega
    | failed =>
      show 1 + 1 ≤ n + 2
      omega

/-- With `stopping` set, a thread only moves towards its end. -/
theorem LoopMove.pays {t : ThreadId} {l : Loop} (h : LoopMove p t l) (hset : p.stopping = true) :
    1 + l.due (p.srv.bodyDue cfg t) ≤ p.threadDue cfg t := by
  unfold ServerProgram.threadDue
  cases h with
  | @setup ok hl =>
    rw [hl]
    cases ok with
    | true =>
      show 1 + 1 ≤ 2
      omega
    | false =>
      show 1 + 0 ≤ 2
      omega
  | waited hl hidle hl' =>
    have hpos : 1 ≤ p.srv.bodyDue cfg t := bodyDue_pos hidle
    rw [hl]
    rcases hl' with rfl | ⟨failed, rfl⟩
    · show 1 + 2 ≤ _ + 2
      omega
    · show 1 + 1 ≤ _ + 2
      omega
  | outer hl =>
    rw [hl, hset, testOuter, Bool.true_or]
    exact Nat.le_refl 1
  | inner hl =>
    rw [hl, hset, Group.testInner, if_pos rfl]
    cases t.group with
    | compute => exact Nat.le_succ 1
    | submit | io | accept => exact Nat.le_refl 2

/-- One thread moves, and pays. -/
theorem due_goto {t : ThreadId} {l : Loop} {srv : ServerContext} (ht : t ∈ joinOrder cfg)
    (hothers : ∀ u, u ≠ t → srv.bodyDue cfg u = p.srv.bodyDue cfg u)
    (hpays : 1 + l.due (srv.bodyDue cfg t) ≤ p.threadDue cfg t) :
    1 + ({ p with srv := srv }.goto t l).due cfg ≤ p.due cfg := by
  have hself : ({ p with srv := srv }.goto t l).threadDue cfg t = l.due (srv.bodyDue cfg t) := by
    show (Function.update p.loop t l t).due _ = _
    rw [Function.update_self]
    rfl
  have hrest : ∀ u ∈ joinOrder cfg,
      ({ p with srv := srv }.goto t l).threadDue cfg u ≤ p.threadDue cfg u := by
    intro u _
    by_cases hut : u = t
    · subst hut
      omega
    · show (Function.update p.loop t l u).due (srv.bodyDue cfg u) ≤ _
      rw [Function.update_of_ne hut, hothers u hut]
      exact Nat.le_refl _
  have htally := tally_lt ht (hself ▸ hpays) hrest
  show 1 + (tally _ _ + p.main.due cfg) ≤ tally _ _ + p.main.due cfg
  omega

/-- A thread that has not returned is still to be joined. -/
theorem ProgramInv.mem {t : ThreadId} (h : ProgramInv cfg p) (hret : p.loop t ≠ .returned) :
    t ∈ joinOrder cfg := by
  by_contra hnot
  exact hret (h.joined t fun hl => hnot (h.order.subset hl))

/-- **One step of the process**, once `stopping` is set, leaves at least one step less. -/
theorem due_step (hio : 0 < cfg.load.maxIoSize) (hra : cfg.load.readahead < UInt32.size)
    (h : ProgramRun cfg sha1 Orderly bufs p) (ho : OnWork Orderly p a)
    (hstep : serverStep cfg sha1 p a = some p') (hset : p.stopping = true) :
    1 + p'.due cfg ≤ p.due cfg := by
  have hinv := programInv_of_run h
  obtain ⟨hover, hmove⟩ := serverStep_cases hstep
  cases hmove with
  | @work b iter srv hl hwork =>
    have hpays := body_pays hio hra h.srv ho hwork
    have hmem := hinv.mem (t := b.threadId) (by simp [hl])
    apply due_goto hmem
    · intro u hu
      exact bodyDue_of_ne (inv_of_run (fun _ _ => id) h.srv) (step_cases hwork) (Ne.symm hu)
    · unfold ServerProgram.threadDue
      rw [hl]
      exact due_afterWork iter hpays.pos hpays.busy
  | @loop _ t l hmove =>
    have hmem := hinv.mem hmove.running
    have hpays : 1 + l.due (p.srv.bodyDue cfg t) ≤ p.threadDue cfg t := hmove.pays hset
    exact due_goto hmem (fun _ _ => rfl) hpays
  | sigint hclear => exact absurd hset (by simp [hclear])
  | sigintAgain _ =>
    have hmain : 1 ≤ p.main.due cfg := by
      cases hpc : p.main with
      | sleeping | join | cleanup =>
        simp only [MainPc.due]
        omega
      | finished | killed => simp [hpc, MainPc.over] at hover
    show 1 + (tally (p.threadDue cfg) (joinOrder cfg) + 0) ≤ tally _ _ + p.main.due cfg
    omega
  | sleep hclear => exact absurd hset (by simp [hclear])
  | @main pc _ hmain =>
    have hpays : 1 + pc.due cfg ≤ p.main.due cfg := by
      rcases hmain with ⟨hpc, rfl⟩ | ⟨hpc, rfl⟩ | ⟨t, rest, hpc, -, rfl⟩ | ⟨hpc, rfl⟩ <;>
        rw [hpc] <;>
        simp only [MainPc.due, List.length_nil, List.length_cons] <;>
        omega
    show 1 + (tally (p.threadDue cfg) (joinOrder cfg) + pc.due cfg) ≤ tally _ _ + p.main.due cfg
    omega

theorem stopping_step (hstep : serverStep cfg sha1 p a = some p') (hset : p.stopping = true) :
    p'.stopping = true := by
  cases (serverStep_cases hstep).2 with
  | sigint => rfl
  | _ => exact hset

theorem due_le_most (hra : cfg.load.readahead < UInt32.size)
    (h : ProgramRun cfg sha1 Orderly bufs p) : p.due cfg ≤ shutdownMost cfg := by
  have hbody : ∀ t, p.srv.bodyDue cfg t ≤ eventMost cfg * maxEvents + 1 := by
    rintro ⟨g, i⟩
    have hmost : 4 ≤ eventMost cfg * maxEvents + 1 := by
      simp only [eventMost, maxEvents]
      omega
    cases g with
    | io =>
      by_cases hidle : (p.srv.io i).status = .idle
      · exact Nat.le_of_eq (bodyDue_idle hidle)
      · rw [bodyDue_busy hidle]
        exact Nat.le_succ_of_le (work_le_most hra h.srv i)
    | accept =>
      refine Nat.le_trans ?_ hmost
      show (p.srv.accept i).due ≤ 4
      cases p.srv.accept i <;> simp [AcceptPc.due]
    | compute =>
      refine Nat.le_trans ?_ hmost
      show (p.srv.compute i).due ≤ 4
      cases p.srv.compute i <;> simp [ComputePc.due]
    | submit =>
      refine Nat.le_trans ?_ hmost
      show (p.srv.submit i).due ≤ 4
      cases p.srv.submit i <;> simp [SubmitPc.due]
  have hthread : ∀ t ∈ joinOrder cfg, p.threadDue cfg t ≤ threadMost cfg := by
    intro t _
    have hle := hbody t
    unfold ServerProgram.threadDue threadMost
    cases p.loop t <;> simp only [Loop.due] <;> omega
  have hmain : p.main.due cfg ≤ (joinOrder cfg).length + 3 := by
    have hleft := (programInv_of_run h).order.length_le
    cases hpc : p.main with
    | join rest =>
      rw [hpc] at hleft
      exact Nat.le_succ_of_le (Nat.add_le_add_right hleft 2)
    | sleeping | cleanup | finished | killed =>
      simp only [MainPc.due]
      omega
  have htally := tally_le hthread
  unfold ServerProgram.due shutdownMost
  omega

/-! ## Somebody can go on

A thread that waits in `accept` goes on when a client connects, and nobody has to. -/

/-- The steps that a client brings about by connecting. -/
def ServerAction.needsClient : ServerAction → Bool
  | .work b => b.isAccept
  | _ => false

/-- Thread `t` is an accept worker that has called `accept`. -/
def ServerProgram.InAccept (p : ServerProgram) (t : ThreadId) : Prop :=
  ∃ w iter c, t = ⟨.accept, w⟩ ∧ p.loop t = .body iter ∧ p.srv.accept w = .took c

/-- The main thread is about to join a thread that has called `accept`, and so has every other one
that has not returned. -/
structure ServerProgram.Accepting (p : ServerProgram) : Prop where
  join : ∃ t rest, p.main = .join (t :: rest) ∧ p.InAccept t
  threads : ∀ t, p.loop t ≠ .returned → p.InAccept t

section Progress

variable {k : Nat}

/-- An IO worker in the middle of an event can go on, unless it waits for a lock. -/
theorem io_enabled (h : Inv cfg s) (hbusy : s.status ⟨.io, k⟩ = .busy)
    (hfree : ∀ c, s.Waits c (.io k) → (s.conns c).lock = false) :
    ∃ b s', b.threadId = ⟨.io, k⟩ ∧ step cfg sha1 s b = some s' := by
  have hopen : ∀ {c}, c ∈ (s.io k).pc.conn → s.kernel.isOpen (s.conns c).fd = true :=
    fun hc => (h.openAt hc).isOpen
  have hstatus : (s.io k).status = .busy := hbusy
  cases hpc : (s.io k).pc with
  | wait =>
    cases hevents : (s.io k).events with
    | nil => simp [IoWorker.status, hpc, hevents] at hstatus
    | cons e rest =>
      have hw : s.io k = ⟨.wait, e :: rest⟩ := by rw [← hpc, ← hevents]
      refine ⟨.event k, { s with io := Function.update s.io k ⟨.dispatch e.1 e.2, rest⟩ }, rfl, ?_⟩
      simp only [step, hw]
  | response c input =>
    exact ⟨.responseTop k, handleResponseTop s k c input, rfl, by simp only [step, hpc]⟩
  | send c input b =>
    refine ⟨.responseSend k .eagain, s.goto k (.afterResponse c input), rfl, ?_⟩
    simp only [step, hpc, handleResponseSend]
    rw [if_pos (hopen (by simp [hpc, IoPc.conn]))]
  | recycle c input b =>
    exact ⟨.responseRecycle k, handleResponseRecycle s k c input b, rfl, by simp only [step, hpc]⟩
  | lockResponse c input =>
    have hlock := hfree c (.inl ⟨input, hpc⟩)
    exact ⟨.responseLock k, _, rfl, by
      simp only [step, hpc, ioLock, hlock]
      rfl⟩
  | settle c input =>
    exact ⟨.responseSettle k true, handleResponseSettle s k c input true, rfl, by
      simp only [step, hpc]⟩
  | request c => exact ⟨.requestTop k, handleRequestTop cfg s k c, rfl, by simp only [step, hpc]⟩
  | recv c b =>
    refine ⟨.requestRecv k .eagain, s.goto k .wait, rfl, ?_⟩
    simp only [step, hpc, handleRequestRecv]
    rw [if_pos (hopen (by simp [hpc, IoPc.conn]))]
  | lockRequest c b =>
    have hlock := hfree c (.inr ⟨b, hpc⟩)
    exact ⟨.requestLock k, _, rfl, by
      simp only [step, hpc, ioLock, hlock]
      rfl⟩
  | deliver c b =>
    exact ⟨.requestDeliver k, handleRequestDeliver s k c b, rfl, by simp only [step, hpc]⟩
  | finish c input =>
    exact ⟨.finishTrylock k, finishTrylock s k c input, rfl, by simp only [step, hpc]⟩
  | teardown c input => exact ⟨.finishBody k, finishBody s k c input, rfl, by simp only [step, hpc]⟩
  | exited => simp [IoWorker.status, hpc] at hstatus

/-- A worker in a section is busy. -/
theorem status_of_held {u : Locker} {c : ConnId} (h : s.held u = some c) :
    s.status u.threadId = .busy := by
  cases u with
  | io k =>
    show (s.io k).status = .busy
    simp only [ServerContext.held] at h
    unfold IoWorker.status
    split
    · next hpc _ => simp [hpc, IoPc.held] at h
    · next hpc => simp [hpc, IoPc.held] at h
    · rfl
  | submit j =>
    show (s.submit j).status = .busy
    simp only [ServerContext.held] at h
    cases hpc : s.submit j with
    | locked => rfl
    | idle | got | refused | compare | exited => simp [hpc, SubmitPc.held] at h

theorem needsClient_work {b : Action} (hb : b.threadId.group ≠ .accept) :
    (ServerAction.work b).needsClient = false := by
  cases b with
  | acceptTake | acceptInit => exact absurd rfl hb
  | _ => rfl

/-- While a worker is busy, it can go on, or the busy one that holds the lock that it waits for. -/
theorem busy_enabled (h : Run cfg sha1 Orderly bufs s) {t : ThreadId} (ht : s.status t = .busy)
    (hgroup : t.group ≠ .accept) :
    ∃ b s', s.status b.threadId = .busy ∧ b.threadId.group ≠ .accept ∧
      step cfg sha1 s b = some s' := by
  obtain ⟨g, i⟩ := t
  cases g with
  | io =>
    by_cases hwait : ∃ c, s.Waits c (.io i) ∧ (s.conns c).lock = true
    · obtain ⟨c, hw, hlock⟩ := hwait
      have hin := (inv_of_run (fun _ _ => id) h).waits hw
      obtain ⟨u, hu⟩ := (lockOk_of_run h).taken c hin hlock
      obtain ⟨b, s', hb, -, hstep⟩ : ∃ b s', b.locker = some u ∧ Orderly s b ∧
          step cfg sha1 s b = some s' := held_enabled hu
      refine ⟨b, s', ?_, ?_, hstep⟩
      · rw [threadId_of_locker hb]
        exact status_of_held hu
      · rw [threadId_of_locker hb]
        cases u <;> simp [Locker.threadId]
    · have hfree : ∀ c, s.Waits c (.io i) → (s.conns c).lock = false :=
        fun c hw => Bool.not_eq_true _ ▸ fun hlock => hwait ⟨c, hw, hlock⟩
      obtain ⟨b, s', hb, hstep⟩ : ∃ b s', b.threadId = ⟨.io, i⟩ ∧ step cfg sha1 s b = some s' :=
        io_enabled (inv_of_run (fun _ _ => id) h) ht hfree
      exact ⟨b, s', hb ▸ ht, hb ▸ hgroup, hstep⟩
  | accept => exact absurd rfl hgroup
  | compute =>
    cases hpc : s.compute i with
    | got b =>
      exact ⟨.computeRun i [none], _, ht, hgroup, by
        simp only [step, hpc]
        rfl⟩
    | idle => simp [ServerContext.status, hpc, ComputePc.status] at ht
  | submit =>
    cases hpc : s.submit i with
    | got b c =>
      exact ⟨.submitTrylock i, submitterTrylock s i b c, ht, hgroup, by simp only [step, hpc]⟩
    | refused b c =>
      exact ⟨.submitPutBack i, submitterPutBack s i b, ht, hgroup, by simp only [step, hpc]⟩
    | locked b c =>
      exact ⟨.submitSection i true, submitterSection s i b c true, ht, hgroup, by
        simp only [step, hpc]⟩
    | compare c =>
      exact ⟨.submitCompare i, submitterCompare s i c, ht, hgroup, by simp only [step, hpc]⟩
    | idle | exited => simp [ServerContext.status, hpc, SubmitPc.status] at ht

theorem idle_enabled {t : ThreadId} (ht : s.status t = .idle) (hgroup : t.group ≠ .accept) :
    ∃ b s', b.threadId = t ∧ step cfg sha1 s b = some s' := by
  obtain ⟨g, i⟩ := t
  cases g with
  | io =>
    have hw := eq_of_idle (w := s.io i) ht
    exact ⟨.epollWait i [], _, rfl, by
      simp only [step, hw]
      rfl⟩
  | accept => exact absurd rfl hgroup
  | compute =>
    cases hpc : s.compute i with
    | idle => exact ⟨.computeGet i, computeWorkerGet s i, rfl, by simp only [step, hpc]⟩
    | got => simp [ServerContext.status, hpc, ComputePc.status] at ht
  | submit =>
    cases hpc : s.submit i with
    | idle => exact ⟨.submitGet i, submitterGet s i, rfl, by simp only [step, hpc]⟩
    | got | locked | refused | compare | exited =>
      simp [ServerContext.status, hpc, SubmitPc.status] at ht

/-- A worker whose thread is in the body of its loop. -/
theorem work_enabled {b : Action} (hstep : step cfg sha1 p.srv b = some s') {iter : Nat}
    (hl : p.loop b.threadId = .body iter) : ∃ p', threadStep cfg sha1 p (.work b) = some p' := by
  simp only [threadStep, hl, hstep]
  exact ⟨_, rfl⟩

/-- An accept worker between two calls of `accept`: its `epoll_wait` times out. -/
theorem accept_enabled {w iter : Nat} (hl : p.loop ⟨.accept, w⟩ = .body iter)
    (hpc : p.srv.accept w = .idle) :
    threadStep cfg sha1 p (.acceptWait w .timeout) = some (p.goto ⟨.accept, w⟩ (.outer false)) := by
  simp only [threadStep, hl, hpc]

/-- A thread that has not returned and is not in `accept` can go on, or another one can. -/
theorem thread_enabled (h : ProgramRun cfg sha1 Orderly bufs p) {t : ThreadId}
    (hret : p.loop t ≠ .returned) (haccept : ¬ p.InAccept t) :
    ∃ a p', (a ≠ .sigint ∧ a ≠ .main) ∧ a.needsClient = false ∧
      threadStep cfg sha1 p a = some p' := by
  have hok := (programInv_of_run h).loops
  cases hl : p.loop t with
  | setup =>
    exact ⟨.setup t true, _, by simp, rfl, by
      simp only [threadStep, hl]
      rfl⟩
  | outer failed =>
    exact ⟨.testOuter t, _, by simp, rfl, by
      simp only [threadStep, hl]
      rfl⟩
  | inner iter =>
    exact ⟨.testInner t, _, by simp, rfl, by
      simp only [threadStep, hl]
      rfl⟩
  | body iter =>
    by_cases hgroup : t.group = .accept
    · obtain ⟨_, w⟩ := t
      cases hgroup
      cases hpc : p.srv.accept w with
      | idle => exact ⟨.acceptWait w .timeout, _, by simp, rfl, accept_enabled hl hpc⟩
      | took c => exact absurd ⟨w, iter, c, rfl, hl, hpc⟩ haccept
      | failed c =>
        have hbody := hok ⟨.accept, w⟩
        simp only [ServerContext.status, hpc, AcceptPc.status, hl] at hbody
        exact hbody.elim
    · cases hst : p.srv.status t with
      | idle =>
        obtain ⟨b, s', rfl, hstep⟩ : ∃ b s', b.threadId = t ∧ step cfg sha1 p.srv b = some s' :=
          idle_enabled hst hgroup
        obtain ⟨p', hp'⟩ := work_enabled hstep hl
        exact ⟨.work b, p', by simp, needsClient_work hgroup, hp'⟩
      | busy =>
        obtain ⟨b, s', hb, hother, hstep⟩ := busy_enabled h.srv hst hgroup
        have hbody := hok b.threadId
        rw [hb] at hbody
        cases hl' : p.loop b.threadId with
        | body i =>
          obtain ⟨p', hp'⟩ := work_enabled hstep hl'
          exact ⟨.work b, p', by simp, needsClient_work hother, hp'⟩
        | setup | outer | inner | returned =>
          rw [hl'] at hbody
          exact hbody.elim
      | failed =>
        have hbody := hok t
        rw [hst, hl] at hbody
        exact hbody.elim
  | returned => exact absurd hl hret

/-- A thread in `accept` makes no other move. -/
theorem ServerProgram.InAccept.not_loopMove {t : ThreadId} {l : Loop} (h : p.InAccept t) :
    ¬ LoopMove p t l := by
  obtain ⟨w, iter, c, rfl, hl, hpc⟩ := h
  intro hmove
  cases hmove with
  | waited _ hidle =>
    have htook : p.srv.status ⟨.accept, w⟩ = .busy := congrArg AcceptPc.status hpc
    rw [htook] at hidle
    cases hidle
  | setup hl' | outer hl' | inner hl' =>
    rw [hl] at hl'
    cases hl'

/-- Then only a client can help. -/
theorem ServerProgram.Accepting.needsClient (h : p.Accepting) (ha : a ≠ .sigint)
    (hstep : serverStep cfg sha1 p a = some p') : a.needsClient = true := by
  obtain ⟨-, hmove⟩ := serverStep_cases hstep
  obtain ⟨t, rest, hmain, w, iter, c, rfl, hl, hpc⟩ := h.join
  cases hmove with
  | @work b _ _ hl' =>
    obtain ⟨v, -, -, hv, -⟩ := h.threads b.threadId (by simp [hl'])
    cases b with
    | acceptTake | acceptInit => rfl
    | _ => cases hv
  | loop hmove => exact absurd hmove (h.threads _ hmove.running).not_loopMove
  | sigint | sigintAgain => exact absurd rfl ha
  | sleep hclear =>
    unfold serverStep mainStep at hstep
    simp [hmain, hl] at hstep
  | main _ hmain' =>
    rcases hmain' with ⟨hpc', -⟩ | ⟨hpc', -⟩ | ⟨u, rest', hpc', hu, -⟩ | ⟨hpc', -⟩ <;>
      rw [hmain] at hpc' <;> cases hpc'
    rw [hl] at hu
    cases hu

end Progress

/-- The main thread can go on, or it waits for a thread that has not returned. -/
theorem mainStep_enabled (hover : p.main.over = false) :
    (∃ p', mainStep cfg p = some p') ∨
      ∃ t rest, p.main = .join (t :: rest) ∧ p.loop t ≠ .returned := by
  unfold mainStep
  cases hpc : p.main with
  | sleeping | cleanup => exact .inl ⟨_, rfl⟩
  | join rest =>
    cases rest with
    | nil => exact .inl ⟨_, rfl⟩
    | cons t rest =>
      by_cases hret : p.loop t = .returned
      · exact .inl ⟨_, if_pos hret⟩
      · exact .inr ⟨t, rest, rfl, hret⟩
  | finished | killed => simp [hpc, MainPc.over] at hover

theorem serverStep_of_thread (hover : p.main.over = false) (ha : a ≠ .sigint ∧ a ≠ .main) :
    serverStep cfg sha1 p a = threadStep cfg sha1 p a := by
  unfold serverStep
  rw [hover, if_neg Bool.false_ne_true]
  split
  · exact absurd rfl ha.1
  · exact absurd rfl ha.2
  · rfl

/-- One of the threads can go on by itself, or all that have not returned are in `accept`. -/
theorem enabled_or_accepting (h : ProgramRun cfg sha1 Orderly bufs p)
    (hover : p.main.over = false) :
    (∃ a p', a ≠ .sigint ∧ a.needsClient = false ∧ serverStep cfg sha1 p a = some p') ∨
      p.Accepting := by
  have hcases : (∃ p', mainStep cfg p = some p') ∨
      ∃ t rest, p.main = .join (t :: rest) ∧ p.loop t ≠ .returned := mainStep_enabled hover
  rcases hcases with ⟨p', hp'⟩ | ⟨t, rest, hmain, hret⟩
  · refine .inl ⟨.main, p', by simp, rfl, ?_⟩
    unfold serverStep
    rw [hover, if_neg Bool.false_ne_true]
    exact hp'
  · by_cases hall : ∀ u, p.loop u ≠ .returned → p.InAccept u
    · exact .inr ⟨⟨t, rest, hmain, hall t hret⟩, hall⟩
    · obtain ⟨u, hnot⟩ := not_forall.mp hall
      obtain ⟨hu, hout⟩ := Classical.not_imp.mp hnot
      obtain ⟨a, p', ha, hown, hp'⟩ := thread_enabled h hu hout
      exact .inl ⟨a, p', ha.1, hown, (serverStep_of_thread hover ha).trans hp'⟩

/-- **Ctrl-C ends the server.** After the first `SIGINT` the process has at most `shutdownMost`
steps left, all its threads together, whatever the clients do; and as long as `run_server` has not
returned, one of its threads can go on, without another signal and without a client that connects,
unless the main thread is about to join a thread that waits in `accept`, and all others that have
not returned wait there too. -/
theorem shutdown_ends (hio : 0 < cfg.load.maxIoSize) (hra : cfg.load.readahead < UInt32.size)
    (h : ProgramRun cfg sha1 Orderly bufs p) (hset : p.stopping = true) :
    (∀ l p', Path (serverStep cfg sha1) (OnWork Orderly) p l p' → l.length ≤ shutdownMost cfg) ∧
      (p.main.over = false →
        ((∃ a p', a ≠ .sigint ∧ a.needsClient = false ∧ serverStep cfg sha1 p a = some p') ↔
          ¬ p.Accepting)) := by
  constructor
  · intro l p' hpath
    have halong := hpath.along (I := fun p => p.stopping = true)
      (fun hset _ hstep => stopping_step hstep hset) hset
    have hpot := halong.potential (fun p => p.due cfg) (fun _ _ => 1) (fun _ _ => 0) And.left
      (fun {p a p'} hr hok hstep => due_step hio hra hr hok.1 hstep hok.2) h
    have hmost := due_le_most hra h
    rw [total_one, total_zero] at hpot
    omega
  · intro hover
    constructor
    · rintro ⟨a, p', hsig, hown, hstep⟩ haccepting
      rw [haccepting.needsClient hsig hstep] at hown
      cases hown
    · exact fun hnot => (enabled_or_accepting h hover).resolve_right hnot

/-- `SIGINT` comes while the IO worker has an event in hand. -/
def signalledRun : List ServerAction :=
  [.setup ⟨.accept, 0⟩ true, .testOuter ⟨.accept, 0⟩, .testInner ⟨.accept, 0⟩,
    .work (.acceptTake 0), .work (.acceptInit 0 (some 5) true), .testOuter ⟨.io, 0⟩,
    .testInner ⟨.io, 0⟩, .work (.epollWait 0 [(5, epollIn)]), .work (.event 0), .sigint]

theorem exists_signalled : ∃ p, ProgramRun smallServer zeroSha1 Orderly blankBuffers p ∧
    p.stopping = true ∧ (p.srv.io 0).pc = .request 0 ∧ p.main = .sleeping := by
  have hrun := exists_reachable_of_run signalledRun
    (fun p => decide (p.stopping = true ∧ (p.srv.io 0).pc = .request 0 ∧ p.main = .sleeping))
    (by decide +kernel : (run (serverStep smallServer zeroSha1) (OnWork Orderly)
      (.init smallServer blankBuffers) signalledRun).map _ = some true)
  obtain ⟨p, hp, hq⟩ := hrun
  exact ⟨p, hp, of_decide_eq_true hq⟩

def twoAcceptServer : ServerConfig :=
  { smallServer with threads := ⟨1, 2, 1, 1⟩, alloc := ⟨2, 4⟩ }

/-- Two accept workers are told of one connection, and one of them has got it when `SIGINT`
comes. -/
def acceptingRun : List ServerAction :=
  [.setup ⟨.accept, 0⟩ true, .testOuter ⟨.accept, 0⟩, .testInner ⟨.accept, 0⟩,
    .setup ⟨.accept, 1⟩ true, .testOuter ⟨.accept, 1⟩, .testInner ⟨.accept, 1⟩,
    .work (.acceptTake 0), .work (.acceptTake 1), .work (.acceptInit 0 (some 5) true), .sigint,
    .testInner ⟨.accept, 0⟩, .testOuter ⟨.accept, 0⟩, .testOuter ⟨.io, 0⟩, .testOuter ⟨.submit, 0⟩,
    .testInner ⟨.compute, 0⟩] ++
    List.replicate 4 .main

/-- The main thread joins the other one, which waits for the next client. -/
theorem exists_accepting : ∃ p,
    ProgramRun twoAcceptServer zeroSha1 Orderly blankBuffers p ∧ p.stopping = true ∧
      p.main.over = false ∧ p.Accepting := by
  have hrun := exists_reachable_of_run acceptingRun
    (fun p => decide (p.stopping = true ∧
      p.main = .join (⟨.accept, 1⟩ :: twoAcceptServer.threadsOf [.compute]) ∧
      p.loop ⟨.accept, 1⟩ = .body 1 ∧ p.srv.accept 1 = .took 1 ∧
      ∀ t ∈ joinOrder twoAcceptServer, p.loop t = .returned ∨ t = ⟨.accept, 1⟩))
    (by decide +kernel : (run (serverStep twoAcceptServer zeroSha1) (OnWork Orderly)
      (.init twoAcceptServer blankBuffers) acceptingRun).map _ = some true)
  obtain ⟨p, hp, hq⟩ := hrun
  obtain ⟨hset, hmain, hl, hpc, hall⟩ := of_decide_eq_true hq
  have hin : p.InAccept ⟨.accept, 1⟩ := ⟨1, 1, 1, rfl, hl, hpc⟩
  refine ⟨p, hp, hset, congrArg MainPc.over hmain, ⟨_, _, hmain, hin⟩, fun t hret => ?_⟩
  rcases hall t ((programInv_of_run hp).mem hret) with hdone | rfl
  · exact absurd hdone hret
  · exact hin

/-- In the first run a thread can go on, in the second one only a client can help. -/
theorem shutdown_ends_signalled :
    (∃ p, ProgramRun smallServer zeroSha1 Orderly blankBuffers p ∧ p.stopping = true ∧
      (p.srv.io 0).pc = .request 0 ∧
      (∀ l p', Path (serverStep smallServer zeroSha1) (OnWork Orderly) p l p' →
        l.length ≤ shutdownMost smallServer) ∧
      ∃ a p', a ≠ .sigint ∧ a.needsClient = false ∧
        serverStep smallServer zeroSha1 p a = some p') ∧
    ∃ p, ProgramRun twoAcceptServer zeroSha1 Orderly blankBuffers p ∧ p.stopping = true ∧
      p.main.over = false ∧
      ¬ ∃ a p', a ≠ .sigint ∧ a.needsClient = false ∧
        serverStep twoAcceptServer zeroSha1 p a = some p' := by
  constructor
  · obtain ⟨p, hp, hset, hpc, hmain⟩ := exists_signalled
    obtain ⟨hbound, hgo⟩ := shutdown_ends (by decide) (by decide) hp hset
    have hnot : ¬ p.Accepting := by
      rintro ⟨⟨t, rest, hjoin, -⟩, -⟩
      rw [hmain] at hjoin
      cases hjoin
    exact ⟨p, hp, hset, hpc, hbound, (hgo (congrArg MainPc.over hmain)).mpr hnot⟩
  · obtain ⟨p, hp, hset, hover, haccepting⟩ := exists_accepting
    have hgo := (shutdown_ends (by decide) (by decide) hp hset).2 hover
    exact ⟨p, hp, hset, hover, fun h => hgo.mp h haccepting⟩

end Piotbench.Server
