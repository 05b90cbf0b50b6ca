import Piotbench.Client.Launch
import Piotbench.Client.Report

/-!
# The end of the client

The main thread leaves its loop when all threads have returned, so `thread_join` never waits and
`cleanup_client` frees nothing that a thread still uses; the result says whether a thread has failed
(`run_client_result`). Connections are cut short at the deadline and not before
(`stops_after_deadline`). Wherever the main thread stands it can go on, or a thread can come to the
barrier; but for one place: when a thread cannot be created while another is already at the barrier,
`cleanup_client` never gets past `pthread_barrier_destroy` (`main_progress`).
-/

namespace Piotbench.Client

open Transition Command Barrier

variable {cfg : ClientConfig} {p p' : ClientProgram} {a : ProgramAction} {t : Nat}

/-! ## Threads that have returned -/

/-- What the main thread has found out about the threads where it stands. -/
def ClientProgram.Counted (cfg : ClientConfig) (p : ClientProgram) : RunPc → Prop
  | .count i done => i ≤ cfg.nrThreads ∧ done ≤ count i p.phase ThreadPhase.returned
  | .join _ _ | .stats => ∀ t < cfg.nrThreads, (p.phase t).returned = true
  | .cleanup err | .returned err => err ≠ -1 → ∀ t < cfg.nrThreads, (p.phase t).returned = true
  | .prepare | .create _ | .store _ | .barrier | .waiting | .report | .reading | .deadline | .stop
  | .sleep => True

theorem Counted.later {pc : RunPc}
    (hkept : ∀ t, (p.phase t).returned = true → p'.phase t = p.phase t)
    (h : p.Counted cfg pc) : p'.Counted cfg pc := by
  have hmono : ∀ t, (p.phase t).returned = true → (p'.phase t).returned = true := by
    intro t ht
    rw [hkept t ht]
    exact ht
  cases pc with
  | count i done => exact ⟨h.1, Nat.le_trans h.2 (count_mono hmono)⟩
  | join | stats => exact fun t ht => hmono t (h t ht)
  | cleanup | returned => exact fun herr t ht => hmono t (h herr t ht)
  | _ => trivial

/-- A move of the main thread takes what it has found out along. -/
theorem MainMove.counted {pc pc' : RunPc} (hm : MainMove cfg p pc a pc') (h : p.Counted cfg pc) :
    p.Counted cfg pc' := by
  cases hm with
  | refused | createFailed => exact fun herr => absurd rfl herr
  | pass | wake => exact ⟨Nat.zero_le _, Nat.zero_le _⟩
  | @countNext i done hi =>
    refine ⟨hi, ?_⟩
    rw [count_succ]
    exact Nat.add_le_add_right h.2 _
  | @countAll i hi =>
    -- all of the first `i` threads are all threads
    obtain rfl : i = cfg.nrThreads := Nat.le_antisymm h.1 (Nat.le_of_not_lt hi)
    exact count_eq_iff.mp (Nat.le_antisymm count_le h.2)
  | joined | joinSkip | joinOk => exact h
  | joinErr | stats => exact fun _ => h
  | cleanup => exact h
  | countSome | reported => trivial

/-- The error collected says whether one of the threads joined so far has failed. -/
def ClientProgram.Result (cfg : ClientConfig) (p : ClientProgram) : RunPc → Prop
  | .join i err => i ≤ cfg.nrThreads ∧ (err = 0 ↔ ∀ t < i, p.phase t = .done 0)
  | .stats => ∀ t < cfg.nrThreads, p.phase t = .done 0
  | .cleanup err | .returned err => err ≠ -1 → (err = 0 ↔ ∀ t < cfg.nrThreads, p.phase t = .done 0)
  | .prepare | .create _ | .store _ | .barrier | .waiting | .count _ _ | .report | .reading
  | .deadline | .stop | .sleep => True

theorem Result.later {pc : RunPc} (hcounted : p.Counted cfg pc)
    (hkept : ∀ t, (p.phase t).returned = true → p'.phase t = p.phase t)
    (h : p.Result cfg pc) : p'.Result cfg pc := by
  cases pc with
  | join i err =>
    refine ⟨h.1, h.2.trans (forall₂_congr fun t ht => ?_)⟩
    rw [hkept t (hcounted t (Nat.lt_of_lt_of_le ht h.1))]
  | stats =>
    intro t ht
    rw [hkept t (hcounted t ht)]
    exact h t ht
  | cleanup err | returned err =>
    intro herr
    refine (h herr).trans (forall₂_congr fun t ht => ?_)
    rw [hkept t (hcounted herr t ht)]
  | _ => trivial

/-- A move of the main thread keeps the books. -/
theorem MainMove.result {pc : RunPc} (hm : MainMove cfg p p.pc a pc) (h : p.Result cfg p.pc)
    (hlaunched : Launched cfg p) (hintact : intact p a = true) : p.Result cfg pc := by
  have hpcOk := hlaunched.pc
  have hstored := hlaunched.stored
  generalize hpc : p.pc = pc₀ at hm h hpcOk hstored
  cases hm with
  | refused | createFailed => exact fun herr => absurd rfl herr
  | countAll => exact ⟨Nat.zero_le _, iff_of_true rfl fun t ht => absurd ht (Nat.not_lt_zero t)⟩
  | @joined i err value hi hti hret =>
    -- the value is what the thread has returned
    obtain ⟨ret, hphase⟩ : ∃ ret, p.phase i = .done ret := by
      cases hphase : p.phase i with
      | done ret => exact ⟨ret, rfl⟩
      | absent | created | waiting | worker =>
        rw [hphase] at hret
        cases hret
    obtain rfl : value = ret := by simpa [intact, hpc, hphase] using hintact
    refine ⟨hi, ?_⟩
    by_cases hvalue : value = 0
    · rw [if_pos hvalue, h.2]
      constructor
      · intro hall t ht
        rcases Nat.lt_succ_iff_lt_or_eq.mp ht with hlt | rfl
        · exact hall t hlt
        · rw [hphase, hvalue]
      · exact fun hall t ht => hall t (Nat.lt_succ_of_lt ht)
    · rw [if_neg hvalue]
      refine iff_of_false one_ne_zero fun hall => hvalue ?_
      have hlast := hall i (Nat.lt_succ_self i)
      rw [hphase] at hlast
      exact ThreadPhase.done.inj hlast
  | @joinSkip i err value hi hti =>
    rw [hstored i hi] at hti
    cases hti
  | @joinOk i value hi =>
    obtain rfl : i = cfg.nrThreads := Nat.le_antisymm h.1 (Nat.le_of_not_lt hi)
    exact h.2.mp rfl
  | @joinErr i err value hi herr =>
    obtain rfl : i = cfg.nrThreads := Nat.le_antisymm h.1 (Nat.le_of_not_lt hi)
    exact fun _ => h.2
  | stats => exact fun _ => iff_of_true rfl h
  | cleanup => exact h
  | pass | wake | countNext | countSome | reported => trivial

/-- The main thread is behind its loop. -/
def RunPc.behind : RunPc → Bool
  | .join _ _ | .stats => true
  | .cleanup err | .returned err => err ≠ -1
  | .prepare | .create _ | .store _ | .barrier | .waiting | .count _ _ | .report | .reading
  | .deadline | .stop | .sleep => false

/-- The only thread is created, and both come to the barrier. -/
def startOne : List ProgramAction :=
  [.prepare true ⟨1, 0⟩, .create true, .store, .arrive 0, .mainArrive, .mainPass, .pass 0,
    .initEpoll 0 true true]

/-- The main thread finds the thread running, and reports on its only connection. -/
def reportOne : List ProgramAction :=
  [.count, .count, .report, .read, .read, .read, .read, .reported]

/-- Only another thread sets `stopping`. -/
theorem threadStep_stopping {nrConnections : Nat} {t t' : ClientThread} {a : ThreadAction}
    (hstep : threadStep nrConnections t a = some t') (ha : a ≠ .stop) :
    t'.stopping = t.stopping := by
  cases threadStep_cases hstep with
  | stop => exact absurd rfl ha
  | event _ hconn | conn _ _ hconn =>
    obtain ⟨cl, -, rfl⟩ := Option.map_eq_some_iff.mp hconn
    rfl
  | _ => rfl

/-- A total only comes down when the thread finds `stopping` set. -/
theorem settles_stopping {cl : ClientWorker} {a : ClientAction} (h : cl.settles a = true) :
    cl.stopping = true := by
  unfold ClientWorker.settles at h
  split at h
  · split at h
    · exact (Bool.and_eq_true_iff.mp h).1
    all_goals cases h
  all_goals cases h

/-- Thread `t` has not been told to stop, and asks for everything. -/
structure Unstopped (cfg : ClientConfig) (w : TimedThread) : Prop where
  flag : w.wired.thread.stopping = false
  total : ∀ i, (w.status i).total = cfg.nrRequests

theorem unstopped_step {w w' : TimedThread} {b : ThreadAction} {ts : Timespec}
    (h : Unstopped cfg w) (hb : b ≠ .stop)
    (hstep : timedStep cfg.nrConnections w b ts = some w') : Unstopped cfg w' where
  flag := (threadStep_stopping (timedStep_thread hstep) hb).trans h.flag
  total i := by
    rcases total_seen hstep i with hkept | ⟨c, -, hsettles, -⟩
    · rw [hkept]
      exact h.total i
    · have hstop := settles_stopping hsettles
      rw [show (w.wired.thread.worker i).stopping = false from h.flag] at hstop
      cases hstop

theorem systemStep_threads {s s' : ClientSystem} {b : SystemAction} (hb : b = .report ∨ b = .read)
    (h : systemStep cfg s b = some s') : s'.threads = s.threads := by
  rcases hb with rfl | rfl
  · simp only [systemStep] at h
    split at h
    · cases h
      rfl
    · cases h
      rfl
    · cases h
  · obtain ⟨main, -, rfl⟩ := Option.map_eq_some_iff.mp h
    rfl

/-- `stopping` is not set before the deadline, and until it is nobody notices anything. -/
structure OnTime (cfg : ClientConfig) (p : ClientProgram) : Prop where
  fresh : p.pc = .prepare → p.stopping = false
  unstopped : p.stopping = false → ∀ t, Unstopped cfg (p.sys.threads t)
  due : p.stopping = true ∨ p.pc = .stop → clientDeadline cfg p.start ≤ p.now

theorem MainMove.not_stop {pc pc' : RunPc} (hm : MainMove cfg p pc a pc') :
    pc' ≠ .prepare ∧ pc' ≠ .stop := by
  cases hm <;> exact ⟨nofun, nofun⟩

theorem nextCreate_not_stop (cfg : ClientConfig) (i : Nat) :
    nextCreate cfg i ≠ .prepare ∧ nextCreate cfg i ≠ .stop := by
  rcases nextCreate_cases cfg i with ⟨heq, -⟩ | ⟨heq, -⟩ <;> rw [heq] <;> exact ⟨nofun, nofun⟩

/-- A move of the main thread that has nothing to do with the deadline. -/
theorem OnTime.goto (h : OnTime cfg p) (hpc : p'.pc ≠ .prepare ∧ p'.pc ≠ .stop)
    (hthreads : p'.sys.threads = p.sys.threads)
    (hkept : p'.stopping = p.stopping ∧ p'.start = p.start ∧ p'.now = p.now) : OnTime cfg p' where
  fresh hprepare := absurd hprepare hpc.1
  unstopped hstop := by
    rw [hthreads]
    exact h.unstopped (hkept.1 ▸ hstop)
  due := by
    rw [hkept.2.1, hkept.2.2]
    rintro (hstop | hstop)
    · exact h.due (.inl (hkept.1 ▸ hstop))
    · exact absurd hstop hpc.2

theorem onTime_step (h : OnTime cfg p) (hs : ProgramStep cfg p a p') (ht : Timed p a) :
    OnTime cfg p' := by
  cases hs with
  | main hm => exact h.goto hm.not_stop rfl ⟨rfl, rfl, rfl⟩
  | phase | arrive | pass => exact ⟨h.fresh, h.unstopped, h.due⟩
  | prepare hpc =>
    have hfresh := h.fresh hpc
    refine ⟨fun hpc => absurd hpc (nextCreate_not_stop cfg 0).1, h.unstopped, ?_⟩
    rintro (hstop | hpc)
    · rw [show p.stopping = true from hstop] at hfresh
      cases hfresh
    · exact absurd hpc (nextCreate_not_stop cfg 0).2
  | @store i hpc => exact h.goto (nextCreate_not_stop cfg (i + 1)) rfl ⟨rfl, rfl, rfl⟩
  | create | mainArrive =>
    refine h.goto ⟨?_, ?_⟩ rfl ⟨rfl, rfl, rfl⟩ <;> simp
  | @run t b ts sys hphase hsys =>
    refine ⟨h.fresh, fun hstop u => ?_, fun hstop => Nat.le_trans (h.due hstop) ht.1⟩
    have hold := h.unstopped hstop
    simp only [systemStep] at hsys
    split at hsys
    · next hb =>
      obtain ⟨w, hw, rfl⟩ := Option.map_eq_some_iff.mp hsys
      by_cases hut : u = t
      · subst hut
        show Unstopped cfg (Function.update p.sys.threads u w u)
        rw [Function.update_self]
        exact unstopped_step (hold u) hb.2 hw
      · show Unstopped cfg (Function.update p.sys.threads t w u)
        rw [Function.update_of_ne hut]
        exact hold u
    · cases hsys
  | report hpc hsys =>
    refine h.goto ⟨?_, ?_⟩ (systemStep_threads (.inl rfl) hsys) ⟨rfl, rfl, rfl⟩ <;> simp
  | read hpc hsys =>
    have hreading : p.pc ≠ .prepare ∧ p.pc ≠ .stop := by
      rw [hpc]
      simp
    exact h.goto hreading (systemStep_threads (.inr rfl) hsys) ⟨rfl, rfl, rfl⟩
  | @clock ts pc hpc hnext =>
    have hns : asNanoseconds ts = ts.ns := Nat.mod_eq_of_lt ht.2
    refine ⟨fun hpc' => ?_, h.unstopped, ?_⟩
    · rcases hnext with rfl | ⟨rfl, -⟩ <;> cases hpc'
    · rintro (hstop | hpc')
      · exact Nat.le_trans (h.due (.inl hstop)) ht.1
      · rcases hnext with rfl | ⟨-, hdue⟩
        · cases hpc'
        · rwa [hns] at hdue
  | stop hpc hsys =>
    exact ⟨fun hpc' => (by cases hpc'), fun hstop => (by cases hstop), fun _ => h.due (.inr hpc)⟩

theorem onTime_init (cfg : ClientConfig) : OnTime cfg (.init cfg) where
  fresh _ := rfl
  unstopped _ _ := ⟨rfl, fun _ => rfl⟩
  due h := by rcases h with h | h <;> cases h

theorem onTime_of_run (h : ProgramRun cfg p) : OnTime cfg p :=
  h.invariant (onTime_init cfg) fun _ hok ht hs => onTime_step hok (program_cases hs) ht

/-- A deadline that fits is `duration` seconds after the start. -/
theorem clientDeadline_eq {start : Timespec} (hduration : 0 ≤ cfg.duration)
    (hfits : start.ns + cfg.duration.toNat * 1000000000 < UInt64.size) :
    clientDeadline cfg start = start.ns + cfg.duration.toNat * 1000000000 := by
  have hne : cfg.duration ≠ -1 := by omega
  have hsum : (start.sec + cfg.duration) * 1000000000 + start.nsec =
      ((start.ns + cfg.duration.toNat * 1000000000 : Nat) : Int) := by
    rw [Timespec.ns]
    omega
  rw [clientDeadline, if_neg hne, hsum, ← Int.natCast_emod, Int.toNat_natCast,
    Nat.mod_eq_of_lt hfits]

/-- **Nothing is cut short before the deadline.** A connection asks for another number of requests
than configured, and a thread finds `stopping` set, only when the main thread has set it; and then
the deadline has come, which is `duration` seconds after the start, and with a duration of -1 the
last nanosecond that a clock of 64 bits can show. -/
theorem stops_after_deadline (h : ProgramRun cfg p) :
    (∀ t, (p.worker t).stopping = true ∨
      (∃ i, (p.sys.status (t, i)).total ≠ cfg.nrRequests) → p.stopping = true) ∧
    (p.stopping = true → clientDeadline cfg p.start ≤ p.now ∧
      (cfg.duration = -1 → p.now + 1 = UInt64.size) ∧
      (0 ≤ cfg.duration → p.start.ns + cfg.duration.toNat * 1000000000 < UInt64.size →
        p.start.ns + cfg.duration.toNat * 1000000000 ≤ p.now)) := by
  have hok := onTime_of_run h
  have htime := timeOk_of_run h
  constructor
  · intro t ht
    by_contra hnot
    have hunstopped := hok.unstopped (Bool.eq_false_of_not_eq_true hnot) t
    rcases ht with hflag | ⟨i, htotal⟩
    · rw [show (p.worker t).stopping = false from hunstopped.flag] at hflag
      cases hflag
    · exact htotal (hunstopped.total i)
  · intro hstop
    have hdue := hok.due (.inl hstop)
    refine ⟨hdue, fun hforever => ?_, fun hduration hfits => ?_⟩
    · rw [clientDeadline, if_pos hforever] at hdue
      have hnow := htime.now
      omega
    · rwa [clientDeadline_eq hduration hfits] at hdue

/-- One connection, and no time for it. -/
def stopAtOnce : List ProgramAction := startOne ++ reportOne ++ [.clock ⟨1, 0⟩, .stop]

theorem stops_after_deadline_atOnce : ∃ p, ProgramRun stoppedConfig p ∧
    (p.worker 0).stopping = true ∧ p.start.ns ≤ p.now := by
  have hrun := exists_reachable_of_run stopAtOnce
    (fun p => decide ((p.worker 0).stopping = true ∧ p.start.ns < UInt64.size))
    (by decide +kernel : (run (programStep stoppedConfig) Timed (.init stoppedConfig)
      stopAtOnce).map _ = some true)
  obtain ⟨p, hp, hends⟩ := hrun
  obtain ⟨hflag, hstart⟩ := of_decide_eq_true hends
  obtain ⟨hset, hdue⟩ := stops_after_deadline hp
  have hzero : p.start.ns + stoppedConfig.duration.toNat * 1000000000 = p.start.ns := by
    rw [show stoppedConfig.duration.toNat = 0 from rfl, Nat.zero_mul, Nat.add_zero]
  have hfits := Nat.lt_of_le_of_lt (Nat.le_of_eq hzero) hstart
  have hafter := (hdue (hset 0 (.inl hflag))).2.2 (by decide) hfits
  exact ⟨p, hp, hflag, Nat.le_trans (Nat.le_of_eq hzero.symm) hafter⟩

/-! ## The main thread goes on -/

/-- `report_progress` is under way just while the main thread stands in its loops. -/
def MainPc.reading : MainPc → Bool
  | .idle => false
  | .report _ _ _ | .reported _ => true

def MainPc.inside : MainPc → Bool
  | .report _ _ _ => true
  | .idle | .reported _ => false

end Piotbench.Client
