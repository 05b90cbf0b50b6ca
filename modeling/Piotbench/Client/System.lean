import Piotbench.Client.Failure
import Piotbench.Client.Times
import Piotbench.Command.Tables
import Mathlib.Data.List.ProdSigma

/-!
# The whole client

The threads of the client with the times of their connections, and the main thread, which sets
`stopping` for all of them and reads the counters in `report_progress` while they go on. What holds
of each thread (`threadOk_step`) and of the main thread's sums holds in every state of a run
(`systemOk_run`).
-/

namespace Piotbench.Client

open Server Transition Command

/-! ## Threads and their times -/

/-- A thread with the bytes and the times of its connections. -/
structure TimedThread where
  wired : Wired
  times : Nat → ConnectionTimes

def TimedThread.init (nrRequests : Nat) : TimedThread := ⟨.init nrRequests, fun _ => .zero⟩

/-- What a step at time `ts` does to the times of connection `i`. -/
def timesOn (t : ClientThread) (i : Nat) (a : ThreadAction) (ts : Timespec)
    (times : ConnectionTimes) : ConnectionTimes :=
  match a.on t i with
  | some b => times.step (t.worker i) b ts
  | none => times

def timedStep (nrConnections : Nat) (w : TimedThread) (a : ThreadAction) (ts : Timespec) :
    Option TimedThread :=
  (wiredStep nrConnections w.wired a).map fun wired =>
    ⟨wired, fun i => timesOn w.wired.thread i a ts (w.times i)⟩

/-- The thread finds `ctx->stopping` set from now on. -/
def TimedThread.stop (w : TimedThread) : TimedThread :=
  { w with wired := { w.wired with thread := { w.wired.thread with stopping := true } } }

/-- The status of a connection. -/
def TimedThread.status (w : TimedThread) (i : Nat) : ClientStatus := (w.wired.thread.conns i).status

/-! ## The main thread -/

/-- What `struct client_progress_t` has of the counters. -/
structure ClientProgress where
  connsActive : Nat
  sentTotal : Nat
  receivedTotal : Nat

def ClientProgress.zero : ClientProgress := ⟨0, 0, 0⟩

/-- The statements in the loop of `report_progress`, each of which reads a counter. -/
inductive ReportStatement
  | active
  | sent
  | received

/-- Where the main thread stands. -/
inductive MainPc
  | idle
  /-- In the loops of `report_progress`, with these connections to come. -/
  | report (conns : List (Nat × Nat)) (next : ReportStatement) (new : ClientProgress)
  /-- `report_progress` behind its loops. -/
  | reported (new : ClientProgress)

/-- Addition of `unsigned long`s. -/
def add64 (a b : Nat) : Nat := (a + b) % UInt64.size

structure ClientSystem where
  threads : Nat → TimedThread
  main : MainPc
  /-- What the clock has shown last. -/
  now : Nat

/-- The status of a connection, given as thread and number. -/
def ClientSystem.status (s : ClientSystem) (c : Nat × Nat) : ClientStatus :=
  (s.threads c.1).status c.2

def ClientSystem.init (cfg : ClientConfig) : ClientSystem where
  threads _ := .init cfg.nrRequests
  main := .idle
  now := 0

/-- The connections in the order in which two nested loops go through them. -/
def connections (cfg : ClientConfig) : List (Nat × Nat) :=
  List.range cfg.nrThreads ×ˢ List.range cfg.nrConnections

inductive SystemAction
  /-- `ctx->stopping = 1`. -/
  | stop
  | thread (t : Nat) (a : ThreadAction) (ts : Timespec)
  /-- `report_progress` is called. -/
  | report
  /-- A statement of its loop, or the end of it. -/
  | read

/-- One statement of the loop of `report_progress`, with the counters as they are now. -/
def reportRead (cfg : ClientConfig) (status : Nat × Nat → ClientStatus) : MainPc → Option MainPc
  | .report [] _ new => some (.reported new)
  | .report (c :: conns) .active new =>
    let active := (status c).received < cfg.nrRequests
    some (.report (c :: conns) .sent
      { new with connsActive := if active then add64 new.connsActive 1 else new.connsActive })
  | .report (c :: conns) .sent new =>
    some (.report (c :: conns) .received
      { new with sentTotal := add64 new.sentTotal (status c).sent })
  | .report (c :: conns) .received new =>
    some (.report conns .active
      { new with receivedTotal := add64 new.receivedTotal (status c).received })
  | .idle | .reported _ => none

def systemStep (cfg : ClientConfig) (s : ClientSystem) : SystemAction → Option ClientSystem
  | .stop => some { s with threads := fun t => (s.threads t).stop }
  | .thread t a ts =>
    if t < cfg.nrThreads ∧ a ≠ .stop then
      (timedStep cfg.nrConnections (s.threads t) a ts).map fun w =>
        { s with threads := Function.update s.threads t w, now := ts.ns }
    else none
  | .report =>
    match s.main with
    | .idle | .reported _ => some { s with main := .report (connections cfg) .active .zero }
    | .report _ _ _ => none
  | .read => (reportRead cfg s.status s.main).map fun main => { s with main := main }

/-! ## What is asked of a run -/

instance (cl : ClientWorker) (a : ClientAction) : Decidable (cl.SettlesWell a) :=
  inferInstanceAs (Decidable (_ → _))

/-- When the total of a connection comes down, `end_time` is still to come; and the total of a
connection that has not sent anything does not come down last of all. -/
def ClientSystem.SettlesWell (cfg : ClientConfig) (s : ClientSystem) (t : Nat) (a : ThreadAction) :
    Prop :=
  ∀ i < cfg.nrConnections, ∀ b ∈ a.on (s.threads t).wired.thread i,
    ((s.threads t).wired.thread.worker i).SettlesWell b ∧
    (((s.threads t).wired.thread.worker i).settles b = true →
      0 < (s.status (t, i)).sent ∨
        ∃ c ∈ connections cfg, c ≠ (t, i) ∧ 0 < (s.status c).total)

/-- The clock is monotonic, and shows less than `2 ^ 64` nanoseconds. -/
def Clocked (s : ClientSystem) : SystemAction → Prop
  | .thread _ _ ts => s.now ≤ ts.ns ∧ ts.ns < UInt64.size
  | .stop | .report | .read => True

/-- Peers send no more than one response for every complete request, and totals come down where
they should. -/
def Orderly (cfg : ClientConfig) (s : ClientSystem) : SystemAction → Prop
  | .thread t a _ => PeersOk cfg.nrConnections (s.threads t).wired a ∧ s.SettlesWell cfg t a
  | .stop | .report | .read => True

instance (cfg : ClientConfig) (s : ClientSystem) (t : Nat) (a : ThreadAction) :
    Decidable (s.SettlesWell cfg t a) :=
  inferInstanceAs (Decidable (∀ i < cfg.nrConnections, ∀ b ∈ a.on (s.threads t).wired.thread i, _))

instance (s : ClientSystem) : (a : SystemAction) → Decidable (Clocked s a)
  | .thread .. => inferInstanceAs (Decidable (_ ∧ _))
  | .stop | .report | .read => .isTrue trivial

instance (cfg : ClientConfig) (s : ClientSystem) : (a : SystemAction) → Decidable (Orderly cfg s a)
  | .thread .. => inferInstanceAs (Decidable (_ ∧ _))
  | .stop | .report | .read => .isTrue trivial

/-- The runs of the client, with any peers and with `stopping` set at any time. -/
abbrev SystemRun (cfg : ClientConfig) : ClientSystem → Prop :=
  Reachable (systemStep cfg) Clocked (.init cfg)

/-- The runs in which all steps are orderly. -/
abbrev OrderlyRun (cfg : ClientConfig) : ClientSystem → Prop :=
  Reachable (systemStep cfg) (fun s a => Clocked s a ∧ Orderly cfg s a) (.init cfg)

section Ok

variable {cfg : ClientConfig} {w w' : TimedThread} {a : ThreadAction} {ts : Timespec} {now : Nat}

theorem mem_connections {c : Nat × Nat} :
    c ∈ connections cfg ↔ c.1 < cfg.nrThreads ∧ c.2 < cfg.nrConnections := by
  obtain ⟨t, i⟩ := c
  rw [connections, List.mem_product, List.mem_range, List.mem_range]

/-! ## One connection -/

/-- What holds of a connection when the clock has shown no more than `now`. -/
structure ConnectionOk (nrRequests now : Nat) (d : Dialogue) (times : ConnectionTimes) : Prop where
  dialogue : DialogueOk nrRequests d
  total_le : d.cl.conn.status.total ≤ nrRequests
  times : TimesOk now d.cl times

theorem ConnectionOk.later {nrRequests now' : Nat} {d : Dialogue} {times : ConnectionTimes}
    (h : ConnectionOk nrRequests now d times) (hnow : now ≤ now') :
    ConnectionOk nrRequests now' d times :=
  ⟨h.dialogue, h.total_le, h.times.later hnow⟩

/-- No more responses are counted than requests were asked for. -/
theorem ConnectionOk.received_le {nrRequests : Nat} {d : Dialogue} {times : ConnectionTimes}
    (h : ConnectionOk nrRequests now d times) : d.cl.conn.status.received ≤ nrRequests :=
  Nat.le_trans h.dialogue.received_le (Nat.le_trans h.dialogue.ok.sent_le h.total_le)

/-- **One step of a connection.** -/
theorem connectionOk_step {nrRequests : Nat} {d d' : Dialogue} {times : ConnectionTimes}
    {b : ClientAction} (h : ConnectionOk nrRequests now d times) (hpeer : d.PeerOk b)
    (hnow : now ≤ ts.ns) (hts : ts.ns < UInt64.size) (hstep : d.step b = some d') :
    ConnectionOk nrRequests ts.ns d' (times.step d.cl b ts) := by
  have hok' := dialogueOk_step h.dialogue hpeer hstep
  obtain ⟨cl', hcl, rfl⟩ := Option.map_eq_some_iff.mp hstep
  refine ⟨hok', ?_, timesOk_step h.times hcl hnow hts⟩
  rcases total_cases hcl with htotal | ⟨-, htotal⟩
  · exact htotal.symm ▸ h.total_le
  · -- the total has come down
    have hsent := Nat.le_trans h.dialogue.ok.sent_le h.total_le
    exact htotal.symm ▸ hsent

/-! ## One thread -/

/-- What holds of a thread that has seen the clock show no more than `now`. -/
structure ThreadOk (cfg : ClientConfig) (now : Nat) (w : TimedThread) : Prop where
  conns : ∀ i < cfg.nrConnections,
    ConnectionOk cfg.nrRequests now (w.wired.dialogue i) (w.times i)
  inactive : Inactive cfg.nrConnections w.wired.thread
  coming : w.wired.thread.ret = 0 → ∀ i < cfg.nrConnections, Coming (w.wired.thread.worker i)

theorem threadOk_init (h : 1 ≤ cfg.nrRequests) : ThreadOk cfg 0 (.init cfg.nrRequests) where
  conns _ _ := ⟨dialogueOk_init h, Nat.le_refl _, timesOk_zero rfl⟩
  inactive hleft := by cases hleft
  coming _ _ _ := .active h

theorem ThreadOk.later (h : ThreadOk cfg now w) {now' : Nat} (hnow : now ≤ now') :
    ThreadOk cfg now' w :=
  ⟨fun i hi => (h.conns i hi).later hnow, h.inactive, h.coming⟩

theorem ThreadOk.stop (h : ThreadOk cfg now w) : ThreadOk cfg now w.stop where
  conns i hi := by
    obtain ⟨hok, htotal, htimes⟩ := h.conns i hi
    have hstep : (w.wired.dialogue i).step .stop = some (w.stop.wired.dialogue i) := by
      simp only [Dialogue.step, clientStep, Option.map_some, Wired.dialogue, TimedThread.stop,
        ClientThread.worker, bytesOut, bytesIn, List.append_nil]
    have hpeer : (w.wired.dialogue i).PeerOk .stop := by
      show answered _ (_ ++ [])
      rw [List.append_nil]
      exact hok.peer
    exact ⟨dialogueOk_step hok hpeer hstep, htotal,
      ⟨htimes.ordered, htimes.past, htimes.startFits, htimes.endFits⟩⟩
  inactive := h.inactive
  coming hret i hi := (h.coming hret i hi).of_status rfl rfl fun _ hend => hend

/-- A thread that has met an error will return one. -/
theorem threadStep_ret {nrConnections : Nat} {t t' : ClientThread}
    (hstep : threadStep nrConnections t a = some t') (hret : t'.ret = 0) : t.ret = 0 := by
  have hconn : ∀ {i rest b}, connStep t i rest b = some t' → t.ret = 0 := by
    intro i rest b hconn
    obtain ⟨cl, -, rfl⟩ := Option.map_eq_some_iff.mp hconn
    simp only at hret
    split at hret
    · cases hret
    · exact hret
  cases threadStep_cases hstep with
  | stop | leave | stay | eintr | events | done => exact hret
  | fail => cases hret
  | event hpc h | conn hpc hb h => exact hconn h

/-- A step for a connection that returns an error is a failing one of the thread. -/
theorem fails_of_on {t : ClientThread} {i : Nat} {b : ClientAction} (hon : a.on t i = some b)
    (herr : returnsError (t.worker i) b = true) : a.fails t = true := by
  cases a with
  | stop =>
    cases hon
    cases herr
  | loopTop | epollWait => cases hon
  | nextEvent clockOk =>
    simp only [ThreadAction.on] at hon
    split at hon
    · next hpc =>
      split at hon
      · next hj =>
        subst hj
        cases hon
        simpa only [ThreadAction.fails, hpc] using herr
      · cases hon
    · cases hon
  | conn c =>
    simp only [ThreadAction.on] at hon
    split at hon
    · next hpc =>
      split at hon
      · next hj =>
        subst hj
        cases hon
        simpa only [ThreadAction.fails, hpc] using herr
      · cases hon
    · cases hon

/-- A step of the thread, seen from connection `i`: nothing happens, or a step of its worker. -/
inductive Seen (w w' : TimedThread) (a : ThreadAction) (ts : Timespec) (i : Nat) : Prop
  | nothing (hon : a.on w.wired.thread i = none) (hsame : w'.wired.dialogue i = w.wired.dialogue i)
      (hcl : w'.wired.thread.worker i = w.wired.thread.worker i)
      (htimes : w'.times i = w.times i)
  | step {b : ClientAction} (hon : a.on w.wired.thread i = some b)
      (hstep : (w.wired.dialogue i).step b = some (w'.wired.dialogue i))
      (hcl : clientStep (w.wired.thread.worker i) b = some (w'.wired.thread.worker i))
      (htimes : w'.times i = (w.times i).step (w.wired.thread.worker i) b ts)

theorem timedStep_thread (hstep : timedStep cfg.nrConnections w a ts = some w') :
    threadStep cfg.nrConnections w.wired.thread a = some w'.wired.thread := by
  obtain ⟨wired, hwired, rfl⟩ := Option.map_eq_some_iff.mp hstep
  obtain ⟨t', ht, rfl⟩ := Option.map_eq_some_iff.mp hwired
  exact ht

theorem timedStep_seen (hstep : timedStep cfg.nrConnections w a ts = some w') (i : Nat) :
    Seen w w' a ts i := by
  obtain ⟨wired, hwired, rfl⟩ := Option.map_eq_some_iff.mp hstep
  rcases wiredStep_dialogue hwired i with ⟨hon, hsame⟩ | ⟨b, hon, hdialogue⟩
  · refine .nothing hon hsame (congrArg Dialogue.cl hsame) ?_
    simp only [timesOn, hon]
  · obtain ⟨cl, hcl, heq⟩ := Option.map_eq_some_iff.mp hdialogue
    have hworker : cl = wired.thread.worker i := congrArg Dialogue.cl heq
    rw [hworker] at hcl
    refine .step hon hdialogue hcl ?_
    simp only [timesOn, hon]

/-- **One step of a thread.** -/
theorem threadOk_step (h : ThreadOk cfg now w)
    (hpeers : PeersOk cfg.nrConnections w.wired a) (hnow : now ≤ ts.ns)
    (hts : ts.ns < UInt64.size)
    (hsettle : ∀ i < cfg.nrConnections, ∀ b ∈ a.on w.wired.thread i,
      (w.wired.thread.worker i).SettlesWell b)
    (hstep : timedStep cfg.nrConnections w a ts = some w') : ThreadOk cfg ts.ns w' := by
  have hthread := timedStep_thread hstep
  have hconns : ∀ i < cfg.nrConnections,
      ConnectionOk cfg.nrRequests ts.ns (w'.wired.dialogue i) (w'.times i) := by
    intro i hi
    cases timedStep_seen hstep i with
    | nothing hon hsame hcl htimes =>
      rw [hsame, htimes]
      exact (h.conns i hi).later hnow
    | @step b hon hdialogue hcl htimes =>
      have hpeer := hpeers i hi
      simp only [heardOn, hon] at hpeer
      rw [htimes]
      exact connectionOk_step (h.conns i hi) hpeer hnow hts hdialogue
  refine ⟨hconns, inactive_step h.inactive hthread, ?_⟩
  intro hret i hi
  have hcoming := h.coming (threadStep_ret hthread hret) i hi
  cases timedStep_seen hstep i with
  | nothing hon hsame hcl htimes =>
    rw [hcl]
    exact hcoming
  | @step b hon hdialogue hcl htimes =>
    rcases coming_step hcoming (h.conns i hi).dialogue (hconns i hi).dialogue
      (hsettle i hi b hon) hdialogue with hcoming' | herr
    · exact hcoming'
    · -- an error is what the thread will return
      have hfailed := (threadStep_fails (fails_of_on hon herr) hthread).ret
      rw [hret] at hfailed
      cases hfailed

/-! ## The main thread -/

/-- The sum of the responses counted does not exceed what the connections read so far were asked
for. -/
def MainPc.Ok (cfg : ClientConfig) : MainPc → Prop
  | .idle => True
  | .report conns _ new =>
    conns ⊆ connections cfg ∧
      new.receivedTotal + conns.length * cfg.nrRequests ≤ (connections cfg).length * cfg.nrRequests
  | .reported new => new.receivedTotal ≤ (connections cfg).length * cfg.nrRequests

theorem reportRead_ok {status : Nat × Nat → ClientStatus} {main main' : MainPc}
    (h : main.Ok cfg) (hstatus : ∀ c ∈ connections cfg, (status c).received ≤ cfg.nrRequests)
    (hread : reportRead cfg status main = some main') : main'.Ok cfg := by
  cases main with
  | idle | reported => cases hread
  | report conns next new =>
    obtain ⟨hconns, hsum⟩ := h
    cases conns with
    | nil =>
      cases hread
      exact Nat.le_trans (Nat.le_add_right _ _) hsum
    | cons c conns =>
      cases next with
      | active | sent =>
        cases hread
        exact ⟨hconns, hsum⟩
      | received =>
        cases hread
        obtain ⟨hc, hrest⟩ := List.cons_subset.mp hconns
        have hadd : add64 new.receivedTotal (status c).received ≤
            new.receivedTotal + (status c).received := Nat.mod_le _ _
        have hone := hstatus c hc
        rw [List.length_cons, Nat.succ_mul] at hsum
        refine ⟨hrest, ?_⟩
        show add64 new.receivedTotal (status c).received + _ ≤ _
        omega

/-! ## Totals that come down -/

/-- The worker only settles for the connection that it is at. -/
theorem settles_pc {t : ClientThread} {i : Nat} {b : ClientAction}
    (h : (t.worker i).settles b = true) : ∃ pc rest, t.pc = .conn i pc rest := by
  have hbusy : t.pc.worker i ≠ .wait := by
    intro hwait
    cases b <;> simp [ClientWorker.settles, ClientThread.worker, hwait] at h
  cases hpc : t.pc with
  | top | wait | batch | left =>
    rw [hpc] at hbusy
    exact absurd rfl hbusy
  | conn j pc rest =>
    rw [hpc] at hbusy
    by_cases hj : j = i
    · subst hj
      exact ⟨pc, rest, rfl⟩
    · exact absurd (if_neg hj) hbusy

/-- What a step of the thread does to a total. -/
theorem total_seen (hstep : timedStep cfg.nrConnections w a ts = some w') (i : Nat) :
    (w'.status i).total = (w.status i).total ∨
      ∃ b ∈ a.on w.wired.thread i, (w.wired.thread.worker i).settles b = true ∧
        (w'.status i).total = (w.status i).sent := by
  cases timedStep_seen hstep i with
  | nothing hon hsame hcl htimes => exact .inl (congrArg (fun cl => cl.conn.status.total) hcl)
  | @step b hon hdialogue hcl htimes =>
    rcases total_cases hcl with htotal | ⟨hsettles, htotal⟩
    · exact .inl htotal
    · exact .inr ⟨b, hon, hsettles, htotal⟩

/-- Some connection has requests to answer, or has had. -/
def Positive (cfg : ClientConfig) (s : ClientSystem) : Prop :=
  ∃ c ∈ connections cfg, 0 < (s.status c).total

/-- Not all totals come down to nothing. -/
theorem positive_step {s s' : ClientSystem} {t : Nat} (h : Positive cfg s)
    (hsettle : s.SettlesWell cfg t a)
    (hstep : timedStep cfg.nrConnections (s.threads t) a ts = some w')
    (hthreads : s'.threads = Function.update s.threads t w') : Positive cfg s' := by
  have hother : ∀ c, c.1 ≠ t → s'.status c = s.status c := by
    intro c hc
    simp only [ClientSystem.status, hthreads, Function.update_of_ne hc]
  have hself : ∀ i, s'.status (t, i) = w'.status i := by
    intro i
    simp only [ClientSystem.status, hthreads, Function.update_self]
  obtain ⟨⟨t₁, i⟩, hc, hpos⟩ := h
  by_cases ht : t₁ = t
  · subst ht
    rcases total_seen hstep i with hkept | ⟨b, hon, hsettles, htotal⟩
    · refine ⟨(t₁, i), hc, ?_⟩
      rw [hself, hkept]
      exact hpos
    · -- the total comes down to what has been sent, or another one is left
      rcases (hsettle i (mem_connections.mp hc).2 b hon).2 hsettles with
        hsent | ⟨⟨t₂, j⟩, hc', hne, hpos'⟩
      · refine ⟨(t₁, i), hc, ?_⟩
        rw [hself, htotal]
        exact hsent
      · refine ⟨(t₂, j), hc', ?_⟩
        by_cases ht' : t₂ = t₁
        · subst ht'
          rcases total_seen hstep j with hkept | ⟨b', -, hsettles', -⟩
          · rw [hself, hkept]
            exact hpos'
          · -- the thread is at one connection only
            obtain ⟨_, _, hpc⟩ := settles_pc hsettles
            obtain ⟨_, _, hpc'⟩ := settles_pc hsettles'
            obtain ⟨rfl, -, -⟩ := ThreadPc.conn.inj (hpc.symm.trans hpc')
            exact absurd rfl hne
        · rw [hother _ ht']
          exact hpos'
  · exact ⟨(t₁, i), hc, by rw [hother _ ht]; exact hpos⟩

/-! ## The whole client -/

/-- What holds in every state. -/
structure SystemOk (cfg : ClientConfig) (s : ClientSystem) : Prop where
  threads : ∀ t < cfg.nrThreads, ThreadOk cfg s.now (s.threads t)
  positive : Positive cfg s
  main : s.main.Ok cfg

theorem SystemOk.received_le {s : ClientSystem} (h : SystemOk cfg s) {c : Nat × Nat}
    (hc : c ∈ connections cfg) : (s.status c).received ≤ cfg.nrRequests := by
  obtain ⟨ht, hi⟩ := mem_connections.mp hc
  exact ((h.threads c.1 ht).conns c.2 hi).received_le

theorem systemOk_init (hthreads : 1 ≤ cfg.nrThreads) (hconns : 1 ≤ cfg.nrConnections)
    (hreqs : 1 ≤ cfg.nrRequests) : SystemOk cfg (.init cfg) where
  threads _ _ := threadOk_init hreqs
  positive := ⟨(0, 0), mem_connections.mpr ⟨hthreads, hconns⟩, hreqs⟩
  main := trivial

/-- **One step of the client.** -/
theorem systemOk_step {s s' : ClientSystem} {b : SystemAction} (h : SystemOk cfg s)
    (hclock : Clocked s b) (horderly : Orderly cfg s b) (hstep : systemStep cfg s b = some s') :
    SystemOk cfg s' := by
  cases b with
  | stop =>
    cases hstep
    exact ⟨fun t ht => (h.threads t ht).stop, h.positive, h.main⟩
  | thread t a ts =>
    obtain ⟨hnow, hts⟩ := hclock
    obtain ⟨hpeers, hsettle⟩ := horderly
    simp only [systemStep] at hstep
    split at hstep
    · next ht =>
      obtain ⟨w, hw, rfl⟩ := Option.map_eq_some_iff.mp hstep
      refine ⟨fun t₁ ht₁ => ?_, positive_step h.positive hsettle hw rfl, h.main⟩
      by_cases heq : t₁ = t
      · subst heq
        show ThreadOk cfg ts.ns (Function.update s.threads t₁ w t₁)
        rw [Function.update_self]
        exact threadOk_step (h.threads t₁ ht₁) hpeers hnow hts
          (fun i hi b hb => (hsettle i hi b hb).1) hw
      · show ThreadOk cfg ts.ns (Function.update s.threads t w t₁)
        rw [Function.update_of_ne heq]
        exact (h.threads t₁ ht₁).later hnow
    · cases hstep
  | report =>
    simp only [systemStep] at hstep
    have hmain : MainPc.Ok cfg (.report (connections cfg) .active .zero) := by
      refine ⟨List.Subset.refl _, ?_⟩
      show 0 + _ ≤ _
      rw [Nat.zero_add]
    split at hstep
    · cases hstep
      exact ⟨h.threads, h.positive, hmain⟩
    · cases hstep
      exact ⟨h.threads, h.positive, hmain⟩
    · cases hstep
  | read =>
    obtain ⟨main, hmain, rfl⟩ := Option.map_eq_some_iff.mp hstep
    exact ⟨h.threads, h.positive, reportRead_ok h.main (fun c hc => h.received_le hc) hmain⟩

/-- **Every orderly run of the client.** -/
theorem systemOk_run {s : ClientSystem} (hthreads : 1 ≤ cfg.nrThreads)
    (hconns : 1 ≤ cfg.nrConnections) (hreqs : 1 ≤ cfg.nrRequests) (hrun : OrderlyRun cfg s) :
    SystemOk cfg s :=
  hrun.invariant (systemOk_init hthreads hconns hreqs)
    fun _ hok hall hstep => systemOk_step hok hall.1 hall.2 hstep

end Ok

end Piotbench.Client
