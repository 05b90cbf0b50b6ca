import Piotbench.Client.System
import Piotbench.Command.Limits

/-!
# What the client reports

`report_progress` and `report_client_stats` of `src/client/main.c`. The total that progress is shown
against is a product of 32 bits. The statistics divide by the number of requests, and take
`end_time` for later than `start_time`, which holds of a connection that was closed and of no
other. In an orderly run, with numbers whose product fits, all of it comes out right
(`reports_ok`).
-/

namespace Piotbench.Client

open Server Transition Command

/-! ## `report_progress` -/

/-- Multiplication of `unsigned int`s. -/
def mul32 (a b : Nat) : Nat := a * b % UInt32.size

/-- `total` in `report_progress`. -/
def progressTotal (cfg : ClientConfig) : Nat :=
  mul32 (mul32 cfg.nrThreads cfg.nrConnections) cfg.nrRequests

/-! ## `report_client_stats` -/

/-- What `report_client_stats` collects. -/
structure ClientStats where
  startTime : Nat
  endTime : Nat
  totalRequests : Nat

def ClientStats.init : ClientStats := ⟨UInt64.size - 1, 0, 0⟩

/-- The body of the loops, for one connection. -/
def ClientStats.add (stats : ClientStats) (times : ConnectionTimes) (sent : Nat) : ClientStats where
  startTime := min stats.startTime (asNanoseconds times.startTime)
  endTime := max stats.endTime (asNanoseconds times.endTime)
  totalRequests := add64 stats.totalRequests sent

/-- The times of a connection, given as thread and number. -/
def ClientSystem.times (s : ClientSystem) (c : Nat × Nat) : ConnectionTimes :=
  (s.threads c.1).times c.2

/-- The loops of `report_client_stats` over all connections. -/
def reportClientStats (cfg : ClientConfig) (s : ClientSystem) : ClientStats :=
  (connections cfg).foldl (fun stats c => stats.add (s.times c) (s.status c).sent) .init

/-- `join_client` has found that all threads returned no error. -/
def Finished (cfg : ClientConfig) (s : ClientSystem) : Prop :=
  ∀ t < cfg.nrThreads,
    (s.threads t).wired.thread.pc = .left ∧ (s.threads t).wired.thread.ret = 0

instance (cfg : ClientConfig) (s : ClientSystem) : Decidable (Finished cfg s) :=
  inferInstanceAs (Decidable (∀ t < cfg.nrThreads, _))

/-- The figures of both reports are exact: no product, difference or sum wraps around, and nothing
is divided by zero. -/
structure ReportsOk (cfg : ClientConfig) (s : ClientSystem) : Prop where
  total : progressTotal cfg = cfg.nrThreads * cfg.nrConnections * cfg.nrRequests
  received : ∀ new, s.main = .reported new → new.receivedTotal ≤ progressTotal cfg
  requests : Finished cfg s → (reportClientStats cfg s).totalRequests ≠ 0
  ordered : Finished cfg s → ∀ c ∈ connections cfg,
    asNanoseconds (s.times c).startTime ≤ asNanoseconds (s.times c).endTime
  duration : Finished cfg s →
    (reportClientStats cfg s).startTime ≤ (reportClientStats cfg s).endTime

/-- Something is asked for, and its number fits 32 bits. -/
structure Countable (cfg : ClientConfig) : Prop where
  threads : 1 ≤ cfg.nrThreads
  connections : 1 ≤ cfg.nrConnections
  requests : 1 ≤ cfg.nrRequests
  fits : cfg.nrThreads * cfg.nrConnections * cfg.nrRequests < UInt32.size

section Report

variable {cfg : ClientConfig} {s : ClientSystem}

/-! ## The total -/

/-- The total is exact just where it fits. -/
theorem progressTotal_eq_iff :
    progressTotal cfg = cfg.nrThreads * cfg.nrConnections * cfg.nrRequests ↔
      cfg.nrThreads * cfg.nrConnections * cfg.nrRequests < UInt32.size := by
  have hmod : progressTotal cfg =
      cfg.nrThreads * cfg.nrConnections * cfg.nrRequests % UInt32.size := by
    rw [progressTotal, mul32, mul32, Nat.mod_mul_mod]
  rw [hmod]
  constructor
  · intro h
    rw [← h]
    exact Nat.mod_lt _ (by decide)
  · exact Nat.mod_eq_of_lt

/-- 128 threads with 400 connections each and 100000 requests on each are more than fit. -/
example : progressTotal ⟨[], 128, 400, 100000, -1⟩ = 825032704 := by decide

theorem length_connections : (connections cfg).length = cfg.nrThreads * cfg.nrConnections := by
  rw [connections, List.length_product, List.length_range, List.length_range]

/-! ## The statistics -/

/-- The start is not after any connection's, and the end is not before. -/
theorem stats_times (times : Nat × Nat → ConnectionTimes) (sent : Nat × Nat → Nat)
    (conns : List (Nat × Nat)) (stats : ClientStats) {res : ClientStats}
    (hres : res = conns.foldl (fun stats c => stats.add (times c) (sent c)) stats) :
    (res.startTime ≤ stats.startTime ∧ stats.endTime ≤ res.endTime) ∧
      ∀ c ∈ conns, res.startTime ≤ asNanoseconds (times c).startTime ∧
        asNanoseconds (times c).endTime ≤ res.endTime := by
  induction conns generalizing stats with
  | nil =>
    subst hres
    exact ⟨⟨Nat.le_refl _, Nat.le_refl _⟩, by simp⟩
  | cons c conns ih =>
    obtain ⟨⟨hstart, hend⟩, hrest⟩ := ih (stats.add (times c) (sent c)) hres
    simp only [ClientStats.add, Nat.le_min, Nat.max_le] at hstart hend
    refine ⟨⟨hstart.1, hend.1⟩, ?_⟩
    intro c' hc'
    rcases List.mem_cons.mp hc' with rfl | hmem
    · exact ⟨hstart.2, hend.2⟩
    · exact hrest c' hmem

/-- Every connection's requests are in the sum, if it does not wrap around. -/
theorem stats_requests (times : Nat × Nat → ConnectionTimes) (sent : Nat × Nat → Nat) {n : Nat}
    (conns : List (Nat × Nat)) (stats : ClientStats) {res : ClientStats}
    (hres : res = conns.foldl (fun stats c => stats.add (times c) (sent c)) stats)
    (hsent : ∀ c ∈ conns, sent c ≤ n)
    (hfits : stats.totalRequests + conns.length * n < UInt64.size) :
    stats.totalRequests ≤ res.totalRequests ∧
      ∀ c ∈ conns, stats.totalRequests + sent c ≤ res.totalRequests := by
  induction conns generalizing stats with
  | nil =>
    subst hres
    exact ⟨Nat.le_refl _, by simp⟩
  | cons c conns ih =>
    have hone := hsent c List.mem_cons_self
    rw [List.length_cons, Nat.succ_mul] at hfits
    have hadd : (stats.add (times c) (sent c)).totalRequests = stats.totalRequests + sent c :=
      Nat.mod_eq_of_lt (by omega)
    obtain ⟨hle, hrest⟩ := ih (stats.add (times c) (sent c)) hres
      (fun c' hc' => hsent c' (List.mem_cons_of_mem _ hc')) (by rw [hadd]; omega)
    rw [hadd] at hle hrest
    refine ⟨by omega, ?_⟩
    intro c' hc'
    rcases List.mem_cons.mp hc' with rfl | hmem
    · exact hle
    · have hmore := hrest c' hmem
      omega

/-! ## When all threads have finished -/

/-- A connection of a thread that has finished: everything asked for has been sent, and the times
are in order. -/
theorem finished_connection (h : SystemOk cfg s) (hfinished : Finished cfg s) {c : Nat × Nat}
    (hc : c ∈ connections cfg) :
    (s.status c).sent = (s.status c).total ∧
      asNanoseconds (s.times c).startTime ≤ asNanoseconds (s.times c).endTime := by
  obtain ⟨ht, hi⟩ := mem_connections.mp hc
  obtain ⟨hleft, hret⟩ := hfinished c.1 ht
  have hthread := h.threads c.1 ht
  obtain ⟨hdialogue, -, htimes⟩ := hthread.conns c.2 hi
  have hlast := hthread.inactive hleft hret c.2 hi
  obtain ⟨hsent, hreceived, -⟩ := hdialogue.finished hlast
  refine ⟨hsent.trans hreceived, ?_⟩
  have hclosed : ((s.threads c.1).wired.thread.conns c.2).closed = true := by
    cases hthread.coming hret c.2 hi with
    | closed hclosed => exact hclosed
    | active hlt => exact absurd hlast (Nat.not_le_of_lt hlt)
    | ending _ hpc =>
      -- a thread that has left its loop is not in the middle of an event
      simp only [ClientThread.worker, hleft, ThreadPc.worker] at hpc
      cases hpc
  have hstart : asNanoseconds (s.times c).startTime = ((s.threads c.1).times c.2).startTime.ns :=
    Nat.mod_eq_of_lt htimes.startFits
  have hend : asNanoseconds (s.times c).endTime = ((s.threads c.1).times c.2).endTime.ns :=
    Nat.mod_eq_of_lt htimes.endFits
  rw [hstart, hend]
  exact htimes.ordered hclosed

end Report

/-- **Reporting**: with numbers of which the product fits 32 bits and none is zero, both reports are
exact in every state of an orderly run. -/
theorem reports_ok {cfg : ClientConfig} {s : ClientSystem} (hcount : Countable cfg)
    (hrun : OrderlyRun cfg s) : ReportsOk cfg s := by
  have hok := systemOk_run hcount.threads hcount.connections hcount.requests hrun
  have htotal := progressTotal_eq_iff.mpr hcount.fits
  refine ⟨htotal, ?_, ?_, ?_, ?_⟩
  · intro new hnew
    have hmain := hok.main
    rw [hnew] at hmain
    rw [htotal, ← length_connections]
    exact hmain
  · intro hfinished hzero
    obtain ⟨c, hc, hpos⟩ := hok.positive
    have hsent := fun c hc => (finished_connection hok hfinished (c := c) hc).1
    have hle : ∀ c ∈ connections cfg, (s.status c).sent ≤ cfg.nrRequests := by
      intro c hc
      obtain ⟨ht, hi⟩ := mem_connections.mp hc
      rw [hsent c hc]
      exact ((hok.threads c.1 ht).conns c.2 hi).total_le
    have hfits : 0 + (connections cfg).length * cfg.nrRequests < UInt64.size := by
      rw [Nat.zero_add, length_connections]
      exact Nat.lt_trans hcount.fits (by decide)
    have hsum := (stats_requests s.times (fun c => (s.status c).sent) (connections cfg) .init rfl
      hle hfits).2 c hc
    rw [← reportClientStats, hzero, hsent c hc] at hsum
    omega
  · intro hfinished c hc
    exact (finished_connection hok hfinished hc).2
  · intro hfinished
    obtain ⟨c, hc, -⟩ := hok.positive
    have hbounds := (stats_times s.times (fun c => (s.status c).sent) (connections cfg) .init
      rfl).2 c hc
    have hordered := (finished_connection hok hfinished hc).2
    exact Nat.le_trans hbounds.1 (Nat.le_trans hordered hbounds.2)

/-- A step of the only thread, and the second in which it is taken. -/
def atSecond (sec : Nat) (a : ThreadAction) : SystemAction := .thread 0 a ⟨sec, 0⟩

/-- One connection with one request. -/
def oneRequestConfig : ClientConfig := ⟨ascii "/tmp/bench-server", 1, 1, 1, -1⟩

/-- The request and its response, and `report_progress` in between. -/
def answeredRun : List SystemAction :=
  [atSecond 1 .loopTop, atSecond 1 (.epollWait (.events [.conn 0 epollOut])),
    atSecond 1 (.nextEvent true), .report, .read, atSecond 1 (.conn .outputTop),
    atSecond 1 (.conn (.send (.sent 1024))), atSecond 1 (.conn (.afterOutput true)),
    atSecond 2 (.nextEvent true), atSecond 2 .loopTop,
    atSecond 2 (.epollWait (.events [.conn 0 epollIn])), atSecond 2 (.nextEvent true),
    atSecond 2 (.conn .inputTop), atSecond 2 (.conn (.recv (.data (List.replicate 24 7)))),
    .read, .read, .read, atSecond 2 (.conn .inputTop), atSecond 3 (.conn (.afterInput true)),
    atSecond 3 (.nextEvent true), atSecond 3 .loopTop]

theorem reports_ok_answered : ∃ s new, OrderlyRun oneRequestConfig s ∧
    Finished oneRequestConfig s ∧ s.main = .reported new ∧ ReportsOk oneRequestConfig s := by
  have hrun := exists_reachable_of_run answeredRun
    (fun s => decide (Finished oneRequestConfig s) &&
      match s.main with
      | .reported _ => true
      | .idle | .report .. => false)
    (by decide +kernel : (run (systemStep oneRequestConfig)
      (fun s a => Clocked s a ∧ Orderly oneRequestConfig s a) (.init oneRequestConfig)
      answeredRun).map _ = some true)
  obtain ⟨s, hs, hp⟩ := hrun
  obtain ⟨hfinished, hmain⟩ := Bool.and_eq_true_iff.mp hp
  have hcount : Countable oneRequestConfig := ⟨by decide, by decide, by decide, by decide⟩
  cases hreported : s.main with
  | idle | report =>
    rw [hreported] at hmain
    cases hmain
  | reported new => exact ⟨s, new, hs, of_decide_eq_true hfinished, hreported, reports_ok hcount hs⟩

/-! ## Where it goes wrong -/

/-- The numbers of an accepted command line. -/
theorem clientConfig_numbers {junk : Nat → Nat → Byte} {argv : List CString} {cfg m : Nat → Byte}
    (h : parseCommandArgs junk argv cfg clientParams = .ok m) :
    (clientConfig m).nrThreads = ClientParams.nrThreads.uint argv ∧
      (clientConfig m).nrConnections = ClientParams.nrConnections.uint argv ∧
      (clientConfig m).nrRequests = ClientParams.nrRequests.uint argv ∧
      (clientConfig m).duration =
        (BitVec.ofNat 32 (ClientParams.duration.uint argv)).toInt := by
  have huint : ∀ p ∈ clientParams, p.conv ≠ .str → uintAt m p.offset = p.uint argv :=
    fun p hp hconv => parseParams_uint clientParams_ok h hp hconv
  refine ⟨?_, ?_, ?_, ?_⟩
  · exact huint ClientParams.nrThreads (by simp [clientParams]) (by decide)
  · exact huint ClientParams.nrConnections (by simp [clientParams]) (by decide)
  · exact huint ClientParams.nrRequests (by simp [clientParams]) (by decide)
  · have hduration := huint ClientParams.duration (by simp [clientParams]) (by decide)
    rw [← hduration]
    rfl

/-- `client --nr_connections=1 --duration=0`. -/
def stoppedArgs : List CString := [arg "client", arg "--nr_connections=1", arg "--duration=0"]

def stoppedConfig : ClientConfig := ⟨ascii "/tmp/bench-server", 1, 1, 100000, 0⟩

theorem parse_stoppedArgs : ∃ m,
    parseCommandArgs (fun _ _ => 0) stoppedArgs (fun _ => 0) clientParams = .ok m ∧
      clientConfig m = stoppedConfig := by
  obtain ⟨m, hm⟩ := exists_parsed stoppedArgs clientParams (by decide +kernel)
  obtain ⟨hthreads, hconns, hreqs, hduration⟩ := clientConfig_numbers hm
  have hpath := (clientConfig_eq hm).1
  refine ⟨m, hm, ?_⟩
  show ClientConfig.mk (clientConfig m).serverPath (clientConfig m).nrThreads
    (clientConfig m).nrConnections (clientConfig m).nrRequests (clientConfig m).duration = _
  rw [hpath, hthreads, hconns, hreqs, hduration, stoppedConfig, ClientConfig.mk.injEq]
  decide +kernel

/-- The time is over before the first request, and the event in hand has no input part. -/
def stoppedRun : List SystemAction :=
  [atSecond 1 .loopTop, .stop, atSecond 1 (.epollWait (.events [.conn 0 epollOut])),
    atSecond 1 (.nextEvent true), atSecond 1 (.conn .outputTop),
    atSecond 1 (.conn (.afterOutput true)), atSecond 1 (.nextEvent true), atSecond 1 .loopTop]

/-- The statistics divide by zero, and `end_time` is before `start_time`. -/
theorem not_reportsOk_stopped : ∃ m s,
    parseCommandArgs (fun _ _ => 0) stoppedArgs (fun _ => 0) clientParams = .ok m ∧
      (clientConfig m).nrThreads ≤ maxClientThreads ∧ SystemRun (clientConfig m) s ∧
      ¬ ReportsOk (clientConfig m) s := by
  obtain ⟨m, hm, hcfg⟩ := parse_stoppedArgs
  have hrun := exists_reachable_of_run stoppedRun
    (fun s => decide (Finished stoppedConfig s ∧
      (reportClientStats stoppedConfig s).totalRequests = 0))
    (by decide +kernel : (run (systemStep stoppedConfig) Clocked (.init stoppedConfig)
      stoppedRun).map _ = some true)
  obtain ⟨s, hs, hp⟩ := hrun
  obtain ⟨hfinished, hzero⟩ := of_decide_eq_true hp
  refine ⟨m, s, hm, ?_⟩
  rw [hcfg]
  refine ⟨by decide, hs, ?_⟩
  intro h
  exact h.requests hfinished hzero

end Piotbench.Client
