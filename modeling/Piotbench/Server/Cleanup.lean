import Piotbench.Server.Cases
import Piotbench.Server.Construction

/-!
# What `destroy_server` does to a context

`destroyServer_done` says what is left when `destroy_server` is given a context with its queue
roots: the threads of the groups that are set have been joined, and what was in the two queues of
empty objects has been freed. Applied to what a failed `create_server` leaves behind, it says which
failures are cleaned up (`failed_start_cleaned_up_iff`). Workers that have been started by then
leave all objects where they are (`unaccepted_run`).
-/

namespace Piotbench.Server

open Stage

/-- The thread belongs to a group that is set. -/
def ServerSetup.joinable (s : ServerSetup) (t : ThreadId) : Bool :=
  match s.threads t.group with
  | none => false
  | some tg => t.current < tg.n

/-- Every group that is set is complete. -/
def ServerSetup.GroupsOk (cfg : ServerConfig) (s : ServerSetup) : Prop :=
  ∀ g, s.threads g = none ∨
    s.threads g = some (.upTo g (cfg.nrThreads g) (cfg.nrThreads g)) ∧
      cfg.nrThreads g ≤ threadGroupMax

/-- A stage that is done, with `Q` of the state it leaves. -/
abbrev Done (res : Result ServerSetup StartStep Fault) (Q : ServerSetup → Prop) : Prop :=
  res.Meets Q (fun _ _ => False) fun _ => False

variable {cfg : ServerConfig} {s : ServerSetup}

theorem joinGroup_done (h : s.GroupsOk cfg) (g : Group) (running : List ThreadId) :
    Done (joinGroup g { s with running := running }) fun s' => s' = { s with
      running := running.filter fun t => !(decide (t.group = g) && s.joinable t) } := by
  rcases h g with hnone | ⟨hsome, hmax⟩
  · -- nothing of a group that is not set
    have hkeep : (running.filter fun t => !(decide (t.group = g) && s.joinable t)) = running := by
      apply List.filter_eq_self.mpr
      intro t _
      by_cases hg : t.group = g
      · simp [ServerSetup.joinable, hg, hnone]
      · simp [hg]
    simp only [joinGroup, hnone, hkeep]
    rfl
  · have hjoin : (fun t => !(decide (t.group = g) && s.joinable t)) =
        fun t => !(decide (t.group = g) && decide (t.current < cfg.nrThreads g)) := by
      funext t
      by_cases hg : t.group = g
      · simp [ServerSetup.joinable, hg, hsome, ThreadGroup.upTo]
      · simp [hg]
    simp only [joinGroup, hsome, hjoin, threadGroupJoin]
    refine .forUpTo (fun i s' => s' = { s with
      running := running.filter fun t => !(decide (t.group = g) && decide (t.current < i)) }) ?_ ?_
    · have hall : (running.filter fun t => !(decide (t.group = g) && decide (t.current < 0))) =
          running := by
        apply List.filter_eq_self.mpr
        simp
      rw [hall]
    · rintro i hi s' rfl
      apply checked_meets
      · intro _
        have hthread : (ThreadGroup.upTo g (cfg.nrThreads g) (cfg.nrThreads g)).threads i =
            some ⟨g, i⟩ := if_pos hi
        simp only [hthread, List.filter_filter, Result.Meets, ServerSetup.mk.injEq, true_and,
          and_true]
        apply List.filter_congr
        intro t _
        have hsplit : t = ⟨g, i⟩ ↔ t.group = g ∧ t.current = i := by
          cases t
          simp
        grind
      · intro hout
        exact absurd (Nat.lt_of_lt_of_le hi hmax) (Nat.not_lt_of_le hout)

theorem cleanupServerThreads_done (h : s.GroupsOk cfg) :
    Done (cleanupServerThreads s) fun s' => s' = { s with
      running := s.running.filter fun t => !s.joinable t } := by
  unfold cleanupServerThreads
  refine .andThen (joinGroup_done h .submit s.running) ?_
  rintro s' rfl
  refine .andThen (joinGroup_done h .io _) ?_
  rintro s' rfl
  refine .andThen (joinGroup_done h .accept _) ?_
  rintro s' rfl
  refine (joinGroup_done h .compute _).imp ?_ (fun _ _ hf => hf) fun _ hf => hf
  rintro s' rfl
  simp only [List.filter_filter, ServerSetup.mk.injEq, true_and, and_true]
  apply List.filter_congr
  intro t _
  cases hg : t.group <;> simp

theorem cleanupOneQueue_done (q : QueueName) (freed : List QueueName) :
    Done (cleanupOneQueue q { s with freedQueues := freed }) fun s' =>
      ∃ freed', s' = { s with freedQueues := freed' } := by
  unfold cleanupOneQueue
  split
  · exact ⟨_, rfl⟩
  · exact ⟨_, rfl⟩

theorem cleanupNQueues_done (inbox : Nat → QueueName) {n : Nat} (hn : n ≤ serverMaxThreads)
    (freed : List QueueName) :
    Done (cleanupNQueues inbox n { s with freedQueues := freed }) fun s' =>
      ∃ freed', s' = { s with freedQueues := freed' } := by
  refine .forUpTo (fun _ s' => ∃ freed', s' = { s with freedQueues := freed' }) ?_ ?_
  · exact ⟨_, rfl⟩
  · rintro i hi s' ⟨freed', rfl⟩
    apply checked_meets
    · intro _
      exact cleanupOneQueue_done (inbox i) freed'
    · intro hout
      exact absurd (Nat.lt_of_lt_of_le hi hn) (Nat.not_lt_of_le hout)

/-- The roots of the queues are freed; their elements are not looked at. -/
theorem cleanupServerQueues_done
    (hinbox : cfg.threads.compute ≤ serverMaxThreads ∧ cfg.threads.submit ≤ serverMaxThreads) :
    Done (cleanupServerQueues cfg s) fun s' => ∃ freed, s' = { s with freedQueues := freed } := by
  unfold cleanupServerQueues
  refine .andThen (cleanupOneQueue_done .emptyConnections s.freedQueues) ?_
  rintro s' ⟨freed, rfl⟩
  refine .andThen (cleanupOneQueue_done .emptyBuffers freed) ?_
  rintro s' ⟨freed', rfl⟩
  refine .andThen (cleanupNQueues_done .computeInbox hinbox.1 freed') ?_
  rintro s' ⟨freed'', rfl⟩
  exact cleanupNQueues_done .submitterInbox hinbox.2 freed''

/-- `epoll_fds[0]` is closed as often as there are epoll descriptors. -/
theorem cleanupServerIo_done :
    Done (cleanupServerIo s) fun s' => s' = { s with
      closed := s.closed ++ (List.replicate s.nrIo (s.epollFds 0).toList).flatten ++
        s.listenFd.toList } := by
  unfold cleanupServerIo cleanupServerEpoll
  refine .andThen (Q := fun s' => s' = { s with
    closed := s.closed ++ (List.replicate s.nrIo (s.epollFds 0).toList).flatten }) ?_ ?_
  · refine .forUpTo (fun i s' => s' = { s with
      closed := s.closed ++ (List.replicate i (s.epollFds 0).toList).flatten }) ?_ ?_
    · simp
    · rintro i - s' rfl
      simp only [Result.Meets, ServerSetup.close, List.replicate_succ', List.flatten_append,
        List.flatten_cons, List.flatten_nil, List.append_nil, List.append_assoc]
  · rintro s' rfl
    rfl

/-- What `destroy_server` leaves. -/
structure Destroyed (s : ServerSetup) (conns : List ConnId) (bufs : List BufId)
    (s' : ServerSetup) : Prop where
  running : s'.running = s.running.filter fun t => !s.joinable t
  conns : s'.freedConns = s.freedConns ++ conns
  bufs : s'.freedBufs = s.freedBufs ++ bufs
  closed : s'.closed = s.closed ++ (List.replicate s.nrIo (s.epollFds 0).toList).flatten ++
    s.listenFd.toList

/-- **`destroy_server`** on a context with its queue roots. -/
theorem destroyServer_done (h : s.GroupsOk cfg)
    (hinbox : cfg.threads.compute ≤ serverMaxThreads ∧ cfg.threads.submit ≤ serverMaxThreads)
    {conns : List ConnId} {bufs : List BufId} (hconns : s.queues .emptyConnections = some conns)
    (hbufs : s.queues .emptyBuffers = some bufs) :
    ∃ s', destroyServer cfg s = .done s' ∧ Destroyed s conns bufs s' := by
  apply Result.Meets.exists_done
  unfold destroyServer
  refine .andThen (cleanupServerThreads_done h) ?_
  rintro s₁ rfl
  refine .andThen (Q := fun s' => s' = { s with
    running := s.running.filter fun t => !s.joinable t
    queues := Function.update (Function.update s.queues .emptyConnections (some []))
      .emptyBuffers (some [])
    freedConns := s.freedConns ++ conns
    freedBufs := s.freedBufs ++ bufs }) ?_ ?_
  · simp only [freeServerPrealloc, hconns, hbufs]
    rfl
  rintro s₂ rfl
  refine .andThen (cleanupServerQueues_done hinbox) ?_
  rintro s₃ ⟨freed, rfl⟩
  refine cleanupServerIo_done.imp ?_ (fun _ _ hf => hf) fun _ hf => hf
  rintro s₄ rfl
  exact ⟨rfl, rfl, rfl, rfl⟩

/-- Without a group set there is nothing to join, and without queue roots `destroy_server` does not
get any further. -/
theorem destroyServer_fault (hthreads : ∀ g, s.threads g = none)
    (hqueues : s.queues .emptyConnections = none) :
    destroyServer cfg s = .fault .nullQueue := by
  have hjoin : cleanupServerThreads s = .done s := by
    simp only [cleanupServerThreads, andThen, joinGroup, hthreads]
  simp only [destroyServer, andThen, hjoin, freeServerPrealloc, hqueues]

/-! ## After a failure -/

/-- `destroy_server` cleans up: it follows no null pointer, every thread that was started has been
joined before the context is freed, and every object that was allocated has been freed once. -/
def CleanedUp (cfg : ServerConfig) (s : ServerSetup) : Prop :=
  ∃ s', destroyServer cfg s = .done s' ∧ s'.running = [] ∧
    s'.freedConns.Perm s.conns ∧ s'.freedBufs.Perm s.bufs

/-- The failures that are cleaned up: those of `setup_server_prealloc`, and those that leave a
group without threads. -/
def StartStep.cleaned : StartStep → Bool
  | .connection _ | .buffer _ | .group _ => true
  | .thread _ i => i = 0
  | .context | .socket | .bind | .epoll _ | .queue _ => false

theorem groupsOk_spawned {g : Group} (hfit : ∀ g' ∈ g.before, cfg.nrThreads g' ≤ threadGroupMax)
    (running : List ThreadId) : (ServerSetup.spawned cfg g.before running).GroupsOk cfg := by
  intro g'
  by_cases hg : g' ∈ g.before
  · exact .inr ⟨if_pos hg, hfit g' hg⟩
  · exact .inl (if_neg hg)

theorem joinable_spawned (groups : List Group) (running : List ThreadId) (t : ThreadId) :
    (ServerSetup.spawned cfg groups running).joinable t =
      (decide (t.group ∈ groups) && decide (t.current < cfg.nrThreads t.group)) := by
  by_cases hg : t.group ∈ groups
  · simp [ServerSetup.joinable, ServerSetup.spawned, hg, ThreadGroup.upTo]
  · simp [ServerSetup.joinable, ServerSetup.spawned, hg]

/-- The threads of the groups that are set are all joined. -/
theorem joined_threadsOf (groups : List Group) (running : List ThreadId) :
    ((cfg.threadsOf groups).filter fun t =>
      !(ServerSetup.spawned cfg groups running).joinable t) = [] := by
  apply List.filter_eq_nil_iff.mpr
  intro t ht
  obtain ⟨g, hg, hthread⟩ := List.mem_flatMap.mp ht
  obtain ⟨i, hi, rfl⟩ := List.mem_map.mp hthread
  simp [joinable_spawned, hg, List.mem_range.mp hi]

theorem cleanedUp_of_destroyed {s s' : ServerSetup} {conns : List ConnId} {bufs : List BufId}
    (hdone : destroyServer cfg s = .done s') (h : Destroyed s conns bufs s')
    (hrunning : (s.running.filter fun t => !s.joinable t) = []) (hconns : s.freedConns = [])
    (hbufs : s.freedBufs = []) (hconns' : conns = s.conns) (hbufs' : bufs = s.bufs) :
    CleanedUp cfg s := by
  refine ⟨s', hdone, h.running.trans hrunning, ?_, ?_⟩
  · rw [h.conns, hconns, hconns', List.nil_append]
  · rw [h.bufs, hbufs, hbufs', List.nil_append]

/-- Before there are any threads. -/
theorem cleanedUp_stocked
    (hinbox : cfg.threads.compute ≤ serverMaxThreads ∧ cfg.threads.submit ≤ serverMaxThreads)
    (conns : List ConnId) (bufs : List BufId) : CleanedUp cfg (.stocked cfg conns bufs) := by
  obtain ⟨s', hdone, h⟩ := destroyServer_done (s := .stocked cfg conns bufs) (fun _ => .inl rfl)
    hinbox rfl rfl
  exact cleanedUp_of_destroyed hdone h rfl rfl rfl rfl rfl

/-- With the groups before `g`, and `i` threads of `g` itself, which nothing joins. -/
theorem cleanedUp_spawned_iff {g : Group} (hfit : Fitted cfg (.group g)) (i : Nat) :
    CleanedUp cfg (.spawned cfg g.before (cfg.threadsOf g.before ++ threadsUpTo g i)) ↔ i = 0 := by
  obtain ⟨s', hdone, h⟩ := destroyServer_done
    (groupsOk_spawned hfit.2 (cfg.threadsOf g.before ++ threadsUpTo g i)) hfit.1 rfl rfl
  constructor
  · rintro ⟨s'', hdone', hnone, -⟩
    rw [hdone, Result.done.injEq] at hdone'
    subst hdone'
    by_contra hi
    -- the first thread of `g` is still running
    have hmem : (⟨g, 0⟩ : ThreadId) ∈ s'.running := by
      rw [h.running, List.mem_filter]
      refine ⟨List.mem_append_right _ ?_, ?_⟩
      · exact List.mem_map.mpr ⟨0, List.mem_range.mpr (Nat.pos_of_ne_zero hi), rfl⟩
      · have hbefore : g ∉ g.before := by cases g <;> decide
        simp [joinable_spawned, hbefore]
    rw [hnone] at hmem
    cases hmem
  · rintro rfl
    refine cleanedUp_of_destroyed hdone h ?_ rfl rfl rfl rfl
    show ((cfg.threadsOf g.before ++ []).filter _) = []
    rw [List.append_nil]
    exact joined_threadsOf ..

/-- **A failed start-up** is cleaned up exactly when the step that fails is one of
`setup_server_prealloc`, the allocation of a thread group, or the creation of a group's first
thread. -/
theorem failed_start_cleaned_up_iff {ok : StartStep → Bool} {cfg : ServerConfig}
    {path : List Byte} {e : StartStep} {s : ServerSetup}
    (h : constructServer ok cfg path .init = .failed e s) :
    CleanedUp cfg s ↔ e.cleaned = true := by
  have hmeets := constructServer_meets ok cfg path
  rw [h] at hmeets
  obtain ⟨rfl, hfit, -⟩ := hmeets
  cases e with
  | context | queue => exact hfit.elim
  | socket | bind | epoll =>
    -- `empty_connections` is still null
    refine ⟨fun hclean => ?_, fun hclean => Bool.noConfusion hclean⟩
    obtain ⟨s', hdone, -⟩ := hclean
    rw [leftAt, destroyServer_fault (fun _ => rfl) rfl] at hdone
    cases hdone
  | connection i => exact ⟨fun _ => rfl, fun _ => cleanedUp_stocked hfit _ _⟩
  | buffer i => exact ⟨fun _ => rfl, fun _ => cleanedUp_stocked hfit _ _⟩
  | group g =>
    refine ⟨fun _ => rfl, fun _ => ?_⟩
    have hclean := (cleanedUp_spawned_iff hfit 0).mpr rfl
    have hnone : threadsUpTo g 0 = [] := rfl
    rw [hnone, List.append_nil] at hclean
    exact hclean
  | thread g i =>
    rw [leftAt, cleanedUp_spawned_iff hfit]
    simp [StartStep.cleaned]

/-- A server with two compute threads. -/
def twoComputeServer : ServerConfig where
  load := ⟨100, 128, 1000⟩
  threads := ⟨1, 1, 1, 2⟩
  alloc := ⟨1, 1⟩

/-- The second compute thread cannot be created. -/
theorem failed_start_cleaned_up_iff_thread : ∃ s,
    constructServer (fun e => e ≠ .thread .compute 1) twoComputeServer [] .init =
      .failed (.thread .compute 1) s ∧
    (CleanedUp twoComputeServer s ↔ StartStep.cleaned (.thread .compute 1) = true) := by
  have hfail : ∃ s, constructServer (fun e => e ≠ .thread .compute 1) twoComputeServer [] .init =
      .failed (.thread .compute 1) s := ⟨_, rfl⟩
  obtain ⟨s, hs⟩ := hfail
  exact ⟨s, hs, failed_start_cleaned_up_iff hs⟩

/-- A socket that cannot be bound makes `destroy_server` follow a null pointer, and a second
compute thread that cannot be created leaves the first one running. -/
theorem failed_start_not_cleaned_up :
    (∃ s, constructServer (fun e => e ≠ .bind) twoComputeServer [] .init = .failed .bind s ∧
      ¬CleanedUp twoComputeServer s) ∧
    ∃ s, constructServer (fun e => e ≠ .thread .compute 1) twoComputeServer [] .init =
      .failed (.thread .compute 1) s ∧ ¬CleanedUp twoComputeServer s := by
  constructor
  · refine ⟨_, rfl, ?_⟩
    rintro ⟨s', hdone, -⟩
    rw [destroyServer_fault (fun _ => rfl) rfl] at hdone
    cases hdone
  · have hfail : ∃ s, constructServer (fun e => e ≠ .thread .compute 1) twoComputeServer []
        .init = .failed (.thread .compute 1) s := ⟨_, rfl⟩
    obtain ⟨s, hs⟩ := hfail
    have hmeets :=
      constructServer_meets (fun e => e ≠ .thread .compute 1) twoComputeServer []
    rw [hs] at hmeets
    obtain ⟨rfl, hfit, -⟩ := hmeets
    refine ⟨_, hs, ?_⟩
    rw [leftAt, cleanedUp_spawned_iff hfit]
    decide

/-! ## The workers in the meantime -/

/-- A step of an accept worker. -/
def Action.isAccept : Action → Bool
  | .acceptTake _ | .acceptInit _ _ _ => true
  | _ => false

/-- Every object is where `setup_server_prealloc` has put it, and the workers have nothing to do. -/
structure Unaccepted (cfg : ServerConfig) (s : ServerContext) : Prop where
  conns : s.emptyConnections = List.range cfg.alloc.sessions
  bufs : s.emptyBuffers = List.range cfg.alloc.buffers
  computeInbox : ∀ i, s.computeInbox i = []
  submitterInbox : ∀ j, s.submitterInbox j = []
  interest : ∀ fd, s.kernel.interest fd = none
  io : ∀ k, s.io k = ⟨.wait, []⟩ ∨ s.io k = ⟨.exited, []⟩
  compute : ∀ i, s.compute i = .idle
  submit : ∀ j, s.submit j = .idle

theorem Unaccepted.io_pc {cfg : ServerConfig} {s : ServerContext} (h : Unaccepted cfg s) (k : Nat) :
    (s.io k).pc = .wait ∨ (s.io k).pc = .exited := by
  rcases h.io k with hk | hk
  · exact .inl (by rw [hk])
  · exact .inr (by rw [hk])

/-- The waiting of an IO worker, and the end of it. -/
theorem Unaccepted.ioUpdate {cfg : ServerConfig} {s : ServerContext} {k : Nat} {w : IoWorker}
    (h : Unaccepted cfg s) (hw : w = ⟨.wait, []⟩ ∨ w = ⟨.exited, []⟩) :
    Unaccepted cfg { s with io := Function.update s.io k w } where
  __ := h
  io k' := by
    by_cases hk : k' = k
    · subst hk
      simpa only [Function.update_self] using hw
    · simpa only [Function.update_of_ne hk] using h.io k'

theorem unaccepted_step {cfg : ServerConfig} {sha1 : Sha1} {s s' : ServerContext} {a : Action}
    (h : Unaccepted cfg s) (ha : a.isAccept = false) (hstep : step cfg sha1 s a = some s') :
    Unaccepted cfg s' := by
  have hpc := h.io_pc
  cases step_cases hstep with
  | stay => exact h
  | @ioLocal k _ _ hl =>
    cases hl with
    | fail => exact h.ioUpdate (.inr rfl)
    | dispatch hw => rcases h.io k with hk | hk <;> simp [hk] at hw
    | move hm => rcases hpc k with hk | hk <;> rw [hk] at hm <;> cases hm
  | @epollWait k batch _ _ hreg =>
    -- nothing is registered, so nothing can be reported
    have hnil : batch = [] := by
      cases batch with
      | nil => rfl
      | cons e rest => simp [Kernel.reports, h.interest] at hreg
    subst hnil
    exact h.ioUpdate (.inl rfl)
  | acceptTake | acceptRefused | accepted => cases ha
  | @ioLock k _ _ _ _ hio => rcases hpc k with hk | hk <;> simp [hk] at hio
  | @dequeue k _ _ _ _ hio | @sendPart k _ _ _ _ _ hio | @sendLast k _ _ _ _ hio
  | @recycle k _ _ _ hio | @settleKeep k _ _ _ hio | @settleDisarm k _ _ _ hio
  | @takeBuffer k _ _ _ hio | @recvData k _ _ _ hio | @deliver k _ _ hio
  | @finishRelease k _ _ hio | @finishDelegate k _ _ hio =>
    rcases hpc k with hk | hk <;> rw [hk] at hio <;> cases hio
  -- the inboxes are empty, and the workers behind them idle
  | @computeGet i _ _ _ hq =>
    rw [h.computeInbox i] at hq
    cases hq
  | @computeRun i _ _ _ hgot =>
    rw [h.compute i] at hgot
    cases hgot
  | @submitGet j _ _ _ hq =>
    rw [h.submitterInbox j] at hq
    cases hq
  | @submitRefused j _ _ hgot | @submitBack j _ _ hgot | @submitLock j _ _ hgot
  | @dispose j _ _ _ hgot | @enqueue j _ _ _ hgot | @submitRelease j _ hgot
  | @submitNext j _ hgot =>
    rw [h.submit j] at hgot
    cases hgot

/-- As long as no accept worker moves, no object does. -/
theorem unaccepted_run {cfg : ServerConfig} {sha1 : Sha1} {bufs : BufId → ServerBuffer}
    {s : ServerContext}
    (h : Transition.Reachable (step cfg sha1) (fun _ a => a.isAccept = false) (.init cfg bufs) s) :
    Unaccepted cfg s :=
  h.invariant
    ⟨rfl, rfl, fun _ => rfl, fun _ => rfl, fun _ => rfl, fun _ => .inl rfl, fun _ => rfl,
      fun _ => rfl⟩
    fun _ hs ha hstep => unaccepted_step hs ha hstep

end Piotbench.Server
