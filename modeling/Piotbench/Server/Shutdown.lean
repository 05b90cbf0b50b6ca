import Piotbench.Server.Cleanup
import Piotbench.Server.Reuse

/-!
# Stopping the server

`destroy_server` is given the context of a server that has been running, as the workers have left it
(`atShutdown`). Of the objects it finds those in the two queues of empty objects, of the
descriptors the listening socket and `epoll_fds[0]`, so whether everything is released depends on
where the objects were when the workers stopped (`releasedOnce_iff`).
-/

namespace Piotbench.Server

open Stage Transition

/-- The workers have left their loops: each stands where it looks at `stopping`, or has returned an
error before. -/
structure Stopped (s : ServerContext) : Prop where
  accept : ∀ a, s.accept a = .idle ∨ ∃ c, s.accept a = .failed c
  io : ∀ k, (s.io k).pc = .wait ∧ (s.io k).events = [] ∨ (s.io k).pc = .exited
  compute : ∀ i, s.compute i = .idle
  submit : ∀ j, s.submit j = .idle ∨ s.submit j = .exited

/-- The queue roots of a running server. -/
def ServerContext.queues (cfg : ServerConfig) (s : ServerContext) : QueueName → Option (List Nat)
  | .emptyConnections => some s.emptyConnections
  | .emptyBuffers => some s.emptyBuffers
  | .computeInbox i => if i < cfg.threads.compute then some (s.computeInbox i) else none
  | .submitterInbox i => if i < cfg.threads.submit then some (s.submitterInbox i) else none

/-- What `destroy_server` is given: the context that `create_server` has returned, with the queues
as they are now. -/
def ServerContext.atShutdown (cfg : ServerConfig) (s : ServerContext) : ServerSetup :=
  { ServerSetup.started cfg with queues := s.queues cfg }

/-- After `destroy_server` each epoll descriptor has been closed once, every object has been freed
once, and no session's descriptor is left open. -/
def ReleasedOnce (cfg : ServerConfig) (s : ServerContext) : Prop :=
  ∃ s', destroyServer cfg (s.atShutdown cfg) = .done s' ∧
    (∀ i < cfg.threads.io, s'.closed.count (.epoll i) = 1) ∧
    s'.freedConns.Perm (List.range cfg.alloc.sessions) ∧
    s'.freedBufs.Perm (List.range cfg.alloc.buffers) ∧
    ∀ fd, s.kernel.isOpen fd = true → ServerFd.session fd ∈ s'.closed

variable {cfg : ServerConfig} {s : ServerContext}

theorem groupsOk_started {path : List Byte} (h : Limits cfg path) :
    (s.atShutdown cfg).GroupsOk cfg := by
  intro g
  right
  refine ⟨if_pos ?_, h.threads g⟩
  cases g <;> decide

/-- What is closed: `epoll_fds[0]` as often as there are IO threads, and the listening socket. -/
theorem closed_eq (hio : 1 ≤ cfg.threads.io) {conns : List ConnId} {bufs : List BufId}
    {s' : ServerSetup} (h : Destroyed (s.atShutdown cfg) conns bufs s') :
    s'.closed = List.replicate cfg.threads.io (.epoll 0) ++ [.listen] := by
  have hfirst : (s.atShutdown cfg).epollFds 0 = some (.epoll 0) := if_pos hio
  rw [h.closed, hfirst, Option.toList_some, List.flatten_replicate_singleton]
  rfl

theorem releasedOnce_iff {path : List Byte} (hlimits : Limits cfg path) (hio : 1 ≤ cfg.threads.io) :
    ReleasedOnce cfg s ↔ cfg.threads.io = 1 ∧
      s.emptyConnections.Perm (List.range cfg.alloc.sessions) ∧
      s.emptyBuffers.Perm (List.range cfg.alloc.buffers) ∧ ∀ fd, s.kernel.isOpen fd = false := by
  have hmax : threadGroupMax ≤ serverMaxThreads := by decide
  -- `destroy_server` gets to its end, and what it leaves is known
  obtain ⟨s', hdone, h⟩ := destroyServer_done (groupsOk_started (s := s) hlimits)
    ⟨Nat.le_trans (hlimits.threads .compute) hmax, Nat.le_trans (hlimits.threads .submit) hmax⟩
    rfl rfl
  have hclosed := closed_eq hio h
  have hcount : ∀ i, s'.closed.count (.epoll i) = if i = 0 then cfg.threads.io else 0 := by
    intro i
    rw [hclosed, List.count_append, List.count_replicate]
    by_cases hi : i = 0
    · subst hi
      simp
    · simp [hi, Ne.symm hi]
  have hepoll : (∀ i < cfg.threads.io, s'.closed.count (.epoll i) = 1) ↔ cfg.threads.io = 1 := by
    simp only [hcount]
    constructor
    · intro hone
      simpa using hone 0 hio
    · rintro hone i hi
      rw [if_pos (by omega), hone]
  have hsession : ∀ fd, ServerFd.session fd ∉ s'.closed := by
    intro fd hmem
    rw [hclosed] at hmem
    simp at hmem
  have hopen : (∀ fd, s.kernel.isOpen fd = true → ServerFd.session fd ∈ s'.closed) ↔
      ∀ fd, s.kernel.isOpen fd = false := by
    refine forall_congr' fun fd => ?_
    simp [hsession fd]
  have hconns : s'.freedConns = s.emptyConnections := h.conns
  have hbufs : s'.freedBufs = s.emptyBuffers := h.bufs
  unfold ReleasedOnce
  rw [← hepoll, ← hconns, ← hbufs, ← hopen]
  constructor
  · rintro ⟨s'', hdone', hreleased⟩
    rw [hdone, Result.done.injEq] at hdone'
    subst hdone'
    exact hreleased
  · intro hreleased
    exact ⟨s', hdone, hreleased⟩

/-! ## Runs -/

/-- A server that `create_server` has returned, after a run, with its workers stopped. -/
structure StoppedServer (cfg : ServerConfig) (s : ServerContext) : Prop where
  created : ∃ ok path, constructServer ok cfg path .init = .done (.started cfg)
  run : ∃ sha1 bufs, Run cfg sha1 (fun _ _ => True) bufs s
  stopped : Stopped s

/-- The context that `create_server` returns. -/
theorem eq_started {ok : StartStep → Bool} {path : List Byte} {s : ServerSetup}
    (h : constructServer ok cfg path .init = .done s) : s = .started cfg ∧ Limits cfg path := by
  have hmeets := constructServer_meets ok cfg path
  rw [h] at hmeets
  exact hmeets

theorem constructServer_started {ok : StartStep → Bool} {path : List Byte}
    (h : ∃ s, constructServer ok cfg path .init = .done s) :
    constructServer ok cfg path .init = .done (.started cfg) := by
  obtain ⟨s, hs⟩ := h
  rwa [(eq_started hs).1] at hs

theorem smallServer_started :
    constructServer (fun _ => true) smallServer [] .init = .done (.started smallServer) :=
  constructServer_started ⟨_, rfl⟩

/-- A server that has not done anything yet. -/
theorem stoppedServer_init (ok : StartStep → Bool) (cfg : ServerConfig) (path : List Byte)
    (hcreated : ∃ s, constructServer ok cfg path .init = .done s) :
    StoppedServer cfg (.init cfg blankBuffers) where
  created := ⟨ok, path, constructServer_started hcreated⟩
  run := ⟨zeroSha1, blankBuffers, .refl⟩
  stopped := ⟨fun _ => .inl rfl, fun _ => .inl ⟨rfl, rfl⟩, fun _ => rfl, fun _ => .inl rfl⟩

end Piotbench.Server
