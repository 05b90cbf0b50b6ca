import Piotbench.Server.Descriptors
import Piotbench.Server.Program

/-!
# A shutdown that leaves nothing behind

`destroy_server` frees what it finds in the two queues of empty objects, so whether everything is
released depends on what is there when the workers have stopped (`shutdown_releases_iff`). In
orderly runs in which no connection is closed with a half sent response as all that is left of it,
an object that is not there is not lost: a connection object is in a session that is open, in the
hands of an accept worker that has failed, or waits for the submitter to dispose of its buffers, and
a buffer is in an inbox or belongs to an open session. So the server releases everything exactly
when it has been drained before (`clean_shutdown_iff`).
-/

namespace Piotbench.Server

open Places Transition

variable {cfg : ServerConfig} {sha1 : Sha1} {bufs : BufId → ServerBuffer} {s : ServerContext}

/-- No accept worker has failed, no buffer waits in an inbox, and every session is closed. -/
structure Drained (s : ServerContext) : Prop where
  accept : ∀ w, s.accept w = .idle
  compute : ∀ i, s.computeInbox i = []
  submit : ∀ j, s.submitterInbox j = []
  closed : ∀ c, s.InSession c → (s.conns c).closed = true

/-! ## The hands of workers that have stopped -/

theorem Stopped.computeHand (h : Stopped s) (i : Nat) : (s.compute i).hand = [] := by
  rw [h.compute i]
  rfl

theorem Stopped.submitterHand (h : Stopped s) (j : Nat) : (s.submit j).hand = [] := by
  rcases h.submit j with hpc | hpc <;> rw [hpc] <;> rfl

theorem Stopped.ioHand (h : Stopped s) (k : Nat) : (s.io k).pc.hand = [] := by
  rcases h.io k with ⟨hpc, -⟩ | hpc <;> rw [hpc] <;> rfl

/-! ## Objects and buffers of a drained server -/

/-- With every session closed, no connection has a buffer. -/
theorem Drained.conn_empty (hd : Drained s) (h : Inv cfg s) (c : ConnId) :
    s.owned (.recvbuf c) = [] ∧ s.owned (.sendbuf c) = [] ∧ s.owned (.sendQueue c) = [] := by
  by_cases hcl : (s.conns c).closed = true
  · exact ⟨if_pos hcl, if_pos hcl, h.parked.drained c hcl⟩
  · -- an object that is not closed is not in a session, and what is parked is blank
    obtain ⟨p, hp⟩ := exists_parked fun hin => hcl (hd.closed c hin)
    have hblank := h.parked.blank p c hp
    obtain ⟨hrecv, hsend⟩ := hblank.bufs (Bool.not_eq_true _ ▸ hcl)
    exact ⟨by simp [ServerContext.owned, hrecv], by simp [ServerContext.owned, hsend],
      hblank.queue⟩

/-- Nobody has yet to put an object back when there is nothing left to dispose of. -/
theorem Drained.not_owed (hd : Drained s) (h : Inv cfg s) (hstopped : Stopped s) {c : ConnId}
    (hin : s.InSession c) : ¬ Owed s c := by
  rintro (hne | ⟨j, hj⟩)
  · have hcomputing : s.computing c = [] := by
      simp [ServerContext.computing, ServerContext.computeLine, hstopped.computeHand, hd.compute]
    have hsubmitting : s.submitting c = [] := by
      simp [ServerContext.submitting, ServerContext.submitLine, hstopped.submitterHand, hd.submit]
    have hflow := (h.accounts c hin).flow
    rw [hcomputing, hsubmitting] at hflow
    exact hne hflow.symm
  · rcases hstopped.submit j with hpc | hpc <;> rw [hpc] at hj <;> cases hj

/-- The connection objects, when all of them are parked. -/
theorem parked_partition {ok : ServerContext → Action → Prop} (hok : ∀ s a, ok s a → Orderly s a)
    (h : Run cfg sha1 ok bufs s) (hparked : ∀ c < cfg.alloc.sessions, ¬ s.InSession c) :
    Partition (· ∈ List.range cfg.alloc.sessions) s.parked where
  toExclusive := (inv_of_run hok h).parked.exclusive
  covers c := by
    rw [List.mem_range]
    constructor
    · intro hc
      exact exists_parked (hparked c hc)
    · rintro ⟨p, hp⟩
      exact parked_lt hok h hp

theorem owned_partition (h : Inv cfg s) : Partition (· ∈ List.range cfg.alloc.buffers) s.owned :=
  h.owned.congr fun _ => List.mem_range.symm

/-- A drained server that has stopped has everything in its pools. -/
theorem Drained.pools (hd : Drained s)
    (h : Run cfg sha1 (fun s a => Orderly s a ∧ nothingHalfSent s a = true) bufs s)
    (hstopped : Stopped s) :
    s.emptyConnections.Perm (List.range cfg.alloc.sessions) ∧
      s.emptyBuffers.Perm (List.range cfg.alloc.buffers) := by
  have hinv := inv_of_run (fun _ _ h => h.1) h
  constructor
  · have hparked : ∀ c < cfg.alloc.sessions, ¬ s.InSession c := by
      intro c hc hin
      have howed := owed_of_run (fun _ _ => id) h hc hin (hd.closed c hin)
      exact hd.not_owed hinv hstopped hin howed
    refine (parked_partition (fun _ _ h => h.1) h hparked).gathered List.nodup_range
      (p := .emptyConnections) fun p hp => ?_
    cases p with
    | emptyConnections => exact absurd rfl hp
    | accept w => exact congrArg AcceptPc.object (hd.accept w)
  · refine (owned_partition hinv).gathered List.nodup_range (p := .emptyBuffers) fun p hp => ?_
    cases p with
    | emptyBuffers => exact absurd rfl hp
    | recvbuf c => exact (hd.conn_empty hinv c).1
    | sendbuf c => exact (hd.conn_empty hinv c).2.1
    | sendQueue c => exact (hd.conn_empty hinv c).2.2
    | computeInbox i => exact hd.compute i
    | submitterInbox j => exact hd.submit j
    | computeHand i => exact hstopped.computeHand i
    | submitterHand j => exact hstopped.submitterHand j
    | ioHand k => exact hstopped.ioHand k

/-- Nor is a descriptor of a drained server open. -/
theorem Drained.fds {ok : ServerContext → Action → Prop} (hd : Drained s)
    (hok : ∀ s a, ok s a → Orderly s a) (h : Run cfg sha1 ok bufs s) (fd : Fd) :
    s.kernel.isOpen fd = false := by
  by_contra hopen
  obtain ⟨c, -, hop | ⟨w, hpc⟩⟩ := hasFd_of_run hok h (Bool.not_eq_false _ ▸ hopen)
  · exact Bool.false_ne_true (hop.closed.symm.trans (hd.closed c hop.session))
  · rw [hd.accept w] at hpc
    cases hpc

/-- A server with everything in its pools is drained. -/
theorem drained_of_pools {ok : ServerContext → Action → Prop} (hok : ∀ s a, ok s a → Orderly s a)
    (h : Run cfg sha1 ok bufs s) (hconns : s.emptyConnections.Perm (List.range cfg.alloc.sessions))
    (hbufs : s.emptyBuffers.Perm (List.range cfg.alloc.buffers)) : Drained s := by
  have hbuffers := owned_partition (inv_of_run hok h)
  have hparked : ∀ c < cfg.alloc.sessions, ¬ s.InSession c := fun c hc hin =>
    hin.notParked .emptyConnections (hconns.mem_iff.mpr (List.mem_range.mpr hc))
  have hobjects := parked_partition hok h hparked
  refine ⟨fun w => ?_, fun i => ?_, fun j => ?_, fun c hin => ?_⟩
  · have hnone : (s.accept w).object = [] :=
      hobjects.empty_of_gathered (p := .emptyConnections) (q := .accept w) hconns (by simp)
    cases hpc : s.accept w with
    | idle => rfl
    | took c | failed c =>
      rw [hpc] at hnone
      cases hnone
  · exact hbuffers.empty_of_gathered (p := .emptyBuffers) (q := .computeInbox i) hbufs (by simp)
  · exact hbuffers.empty_of_gathered (p := .emptyBuffers) (q := .submitterInbox j) hbufs (by simp)
  · by_contra hcl
    exact hparked c (open_lt hok h (Bool.not_eq_true _ ▸ hcl)) hin

/-! ## A session, and Ctrl-C -/

/-- One session from the first to the last step: the client sends a request and disconnects, and
the submitter disposes of the buffer and puts the object back. Then the user presses Ctrl-C. -/
def drainedRun : List ServerAction :=
  [.setup ⟨.accept, 0⟩ true, .testOuter ⟨.accept, 0⟩, .testInner ⟨.accept, 0⟩,
    .testOuter ⟨.io, 0⟩, .testInner ⟨.io, 0⟩, .testOuter ⟨.submit, 0⟩, .testInner ⟨.submit, 0⟩,
    .testInner ⟨.compute, 0⟩] ++
    delegated.map .work ++
    [.sigint, .testInner ⟨.accept, 0⟩, .testOuter ⟨.accept, 0⟩, .testInner ⟨.io, 0⟩,
      .testOuter ⟨.io, 0⟩, .testInner ⟨.submit, 0⟩, .testOuter ⟨.submit, 0⟩,
      .testInner ⟨.compute, 0⟩] ++
    List.replicate 6 .main

theorem exists_drained : ∃ p,
    ProgramRun smallServer zeroSha1 (fun s a => Orderly s a ∧ nothingHalfSent s a = true)
      blankBuffers p ∧ p.main = .cleanup ∧ (p.srv.conns 0).received = 1 ∧
      p.srv.emptyConnections.Perm (List.range smallServer.alloc.sessions) ∧
      p.srv.emptyBuffers.Perm (List.range smallServer.alloc.buffers) := by
  have hrun := exists_reachable_of_run drainedRun
    (fun p => decide (p.main = .cleanup ∧ (p.srv.conns 0).received = 1 ∧
      p.srv.emptyConnections.Perm (List.range smallServer.alloc.sessions) ∧
      p.srv.emptyBuffers.Perm (List.range smallServer.alloc.buffers)))
    (by decide +kernel : (run (serverStep smallServer zeroSha1)
      (OnWork fun s a => Orderly s a ∧ nothingHalfSent s a = true)
      (.init smallServer blankBuffers) drainedRun).map _ = some true)
  obtain ⟨p, hp, hq⟩ := hrun
  exact ⟨p, hp, of_decide_eq_true hq⟩

/-! ## What is released -/

/-- **Shutdown** releases everything once exactly when there is one IO thread and the workers have
stopped with every object in its queue of empty objects and no session open. -/
theorem shutdown_releases_iff {cfg : ServerConfig} {s : ServerContext} (h : StoppedServer cfg s)
    (hio : 1 ≤ cfg.threads.io) :
    ReleasedOnce cfg s ↔ cfg.threads.io = 1 ∧
      s.emptyConnections.Perm (List.range cfg.alloc.sessions) ∧
      s.emptyBuffers.Perm (List.range cfg.alloc.buffers) ∧ ∀ fd, s.kernel.isOpen fd = false := by
  obtain ⟨ok, path, hcreated⟩ := h.created
  exact releasedOnce_iff (eq_started hcreated).2 hio

/-- The server has served a session, and the client is gone: nothing is left behind. -/
theorem shutdown_releases_iff_drained : ∃ s, StoppedServer smallServer s ∧
    (s.conns 0).received = 1 ∧ ReleasedOnce smallServer s := by
  obtain ⟨p, hp, hmain, hreceived, hconns, hbufs⟩ := exists_drained
  have hinv := programInv_of_run hp
  have hstopped : StoppedServer smallServer p.srv :=
    ⟨⟨_, _, smallServer_started⟩, ⟨_, _, (ProgramRun.srv hp).strengthen fun _ _ => trivial⟩,
      hinv.stopped (hinv.returned (.inl hmain))⟩
  have hd := drained_of_pools (fun _ _ h => h.1) (ProgramRun.srv hp) hconns hbufs
  have hfds := hd.fds (fun _ _ h => h.1) (ProgramRun.srv hp)
  exact ⟨p.srv, hstopped, hreceived,
    (shutdown_releases_iff hstopped (by decide)).mpr ⟨rfl, hconns, hbufs, hfds⟩⟩

/-- A server with two IO threads. -/
def twoIoServer : ServerConfig := { smallServer with threads := ⟨2, 1, 1, 1⟩ }

/-- With two IO threads an epoll descriptor is never closed; with one, the descriptor and the object
of a session that is open stay behind. -/
theorem shutdown_leaks :
    (StoppedServer twoIoServer (.init twoIoServer blankBuffers) ∧
      ¬ReleasedOnce twoIoServer (.init twoIoServer blankBuffers)) ∧
    ∃ s, StoppedServer smallServer s ∧ ¬ReleasedOnce smallServer s := by
  constructor
  · have hstopped : StoppedServer twoIoServer (.init twoIoServer blankBuffers) :=
      stoppedServer_init (fun _ => true) twoIoServer [] ⟨_, rfl⟩
    refine ⟨hstopped, fun hreleased => ?_⟩
    obtain ⟨ok, path, hcreated⟩ := hstopped.created
    obtain ⟨hone, -⟩ := (releasedOnce_iff (eq_started hcreated).2 (by decide)).mp hreleased
    exact absurd hone (by decide)
  · -- a session is accepted, and nothing else happens
    have hlimits : Limits smallServer [] := (eq_started smallServer_started).2
    have hrun : ∃ s, Run smallServer zeroSha1 (fun _ _ => True) blankBuffers s ∧ Stopped s ∧
        s.kernel.isOpen 5 = true := by
      refine ⟨_, .tail (a := .acceptInit 0 (some 5) true)
        (.tail (a := .acceptTake 0) .refl trivial rfl) trivial rfl, ?_, rfl⟩
      refine ⟨fun a => .inl ?_, fun _ => .inl ⟨rfl, rfl⟩, fun _ => rfl, fun _ => .inl rfl⟩
      show Function.update (Function.update (fun _ => AcceptPc.idle) 0 (.took 0)) 0 .idle a = .idle
      by_cases ha : a = 0
      · subst ha
        rfl
      · rw [Function.update_of_ne ha, Function.update_of_ne ha]
    obtain ⟨s, hs, hstopped, hopen⟩ := hrun
    refine ⟨s, ⟨⟨_, _, smallServer_started⟩, ⟨_, _, hs⟩, hstopped⟩, fun hreleased => ?_⟩
    obtain ⟨-, -, -, hclosed⟩ := (releasedOnce_iff hlimits (by decide)).mp hreleased
    rw [hclosed 5] at hopen
    cases hopen

/-! ## The end of the process -/

/-- **A drained server is released completely.** In a run of `run_server` whose worker steps are
orderly and leave nothing half sent, what `destroy_server` is given behind the joins is released
once exactly when there is one IO thread and the server is drained: no accept worker has failed, the
inboxes are empty and every session has been closed. -/
theorem clean_shutdown_iff {p : ServerProgram} {start : StartStep → Bool} {path : List Byte}
    (hcreated : ∃ s, constructServer start cfg path .init = .done s)
    (h : ProgramRun cfg sha1 (fun s a => Orderly s a ∧ nothingHalfSent s a = true) bufs p)
    (hmain : p.main = .cleanup ∨ p.main = .finished) (hio : 1 ≤ cfg.threads.io) :
    ReleasedOnce cfg p.srv ↔ cfg.threads.io = 1 ∧ Drained p.srv := by
  have hinv := programInv_of_run h
  have hstopped := hinv.stopped (hinv.returned hmain)
  obtain ⟨s, hs⟩ := hcreated
  rw [releasedOnce_iff (eq_started hs).2 hio]
  constructor
  · rintro ⟨hone, hconns, hbufs, -⟩
    exact ⟨hone, drained_of_pools (fun _ _ h => h.1) h.srv hconns hbufs⟩
  · rintro ⟨hone, hd⟩
    obtain ⟨hconns, hbufs⟩ := hd.pools h.srv hstopped
    exact ⟨hone, hconns, hbufs, hd.fds (fun _ _ h => h.1) h.srv⟩

theorem clean_shutdown_iff_drained : ∃ p,
    ProgramRun smallServer zeroSha1 (fun s a => Orderly s a ∧ nothingHalfSent s a = true)
      blankBuffers p ∧ p.main = .cleanup ∧ (p.srv.conns 0).received = 1 ∧
      ReleasedOnce smallServer p.srv := by
  obtain ⟨p, hp, hmain, hreceived, hconns, hbufs⟩ := exists_drained
  have hd := drained_of_pools (fun _ _ h => h.1) (ProgramRun.srv hp) hconns hbufs
  have hio : 1 ≤ smallServer.threads.io := by decide
  exact ⟨p, hp, hmain, hreceived,
    (clean_shutdown_iff ⟨_, smallServer_started⟩ hp (.inl hmain) hio).mpr ⟨rfl, hd⟩⟩

end Piotbench.Server
