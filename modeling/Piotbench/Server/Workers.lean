import Piotbench.Server.Registration

/-!
# What the IO workers rely on

A worker handles registered connections only, each at one place of its batch, and the pointers it
has read stay what they were until it writes them itself.
-/

namespace Piotbench.Server

open Places

variable {cfg : ServerConfig} {sha1 : Sha1} {s s' : ServerContext}

/-- **Every open session is registered.** -/
theorem sessions_step {a : Action} {c : ConnId} (h : Inv cfg s) (hs : Step cfg sha1 s a s')
    (hin : s'.InSession c) (hcl : (s'.conns c).closed = false) :
    s'.Live (s'.conns c).ioidx c := by
  rcases session_back hs hin with hold | ⟨w, fd, ok, rfl, hpc⟩
  · have hcl₀ := open_before hs hold hcl
    have hnf : ¬ Finishes s c a := fun hf => Bool.false_ne_true (hcl.symm.trans (hf.closed hs))
    have hk := keeps_step hs hold (not_released_of_open h hcl₀ hnf)
    rw [hk.ioidx]
    exact live_step h hs (h.sessions c hold hcl₀) hnf
  · obtain ⟨hfd, kern, err, hres, rfl⟩ := hs.accepted_cases hpc
    have hnone : s.kernel.interest fd = none := by
      by_contra hsome
      obtain ⟨i', hi'⟩ := Option.ne_none_iff_exists'.mp hsome
      exact Bool.false_ne_true (hfd.symm.trans (h.watched fd i' hi').isOpen)
    obtain ⟨rfl, hreg⟩ := hres.fresh (by simp [acceptedConnection]) hnone rfl (by decide)
    cases ok with
    | false =>
      exact absurd (by simp [ServerContext.parked, AcceptPc.object]) (hin.notParked (.accept w))
    | true => exact ⟨_, by simpa [acceptedConnection] using hreg⟩

/-! ## Batches -/

theorem conn_afterResponse_sublist (c : ConnId) (input : Bool) :
    (IoPc.afterResponse c input).conn.Sublist [c] := by
  cases input <;> simp [IoPc.afterResponse, IoPc.conn]

theorem conn_dispatch_sublist (c : ConnId) (events : EpollMask) :
    (IoPc.dispatch c events).conn.Sublist [c] := by
  unfold IoPc.dispatch
  repeat' split
  all_goals simp [IoPc.conn]

theorem IoMove.conn {k : Nat} {c : ConnId} {a : Action} {pc pc' : IoPc}
    (h : IoMove cfg s k c pc a pc') : pc.conn = [c] ∧ pc'.conn.Sublist [c] := by
  cases h with
  | noResponse | sendAgain | finishRefused => exact ⟨rfl, conn_afterResponse_sublist _ _⟩
  | readahead | noBuffer | missBuffer | recvAgain => exact ⟨rfl, List.nil_sublist _⟩
  | resumeResponse | sendError | resumeRequest | recvEof | recvError =>
    exact ⟨rfl, List.Sublist.refl _⟩

theorem IoLocal.conns {k : Nat} {a : Action} {w : IoWorker} (h : IoLocal cfg s k a w) :
    w.conns.Sublist (s.io k).conns := by
  cases h with
  | fail => simp [IoWorker.conns, IoPc.conn]
  | @dispatch c events rest hw =>
    rw [hw]
    exact (conn_dispatch_sublist c events).append_right _
  | move hm =>
    have hc := hm.conn
    exact (hc.1 ▸ hc.2).append_right _

theorem Kernel.reports_iff {kern : Kernel} {k : Nat} {e : Fd × EpollMask} :
    kern.reports k e = true ↔ ∃ i, kern.interest e.1 = some i ∧ i.epollFd = k := by
  unfold Kernel.reports
  cases kern.interest e.1 <;> simp

/-- The connections of a batch have the descriptors of the batch. -/
theorem deliver_fds {k : Nat} (h : Inv cfg s) : ∀ {batch : List (Fd × EpollMask)},
    batch.all (s.kernel.reports k) →
      ((s.kernel.deliver batch).map (·.1)).map (fun c => (s.conns c).fd) = batch.map (·.1)
  | [], _ => rfl
  | e :: rest, hreg => by
    rw [List.all_cons, Bool.and_eq_true] at hreg
    obtain ⟨i, hi, -⟩ := Kernel.reports_iff.mp hreg.1
    have hrest := deliver_fds h hreg.2
    simp only [Kernel.deliver] at hrest
    simp [Kernel.deliver, hi, (h.watched _ _ hi).descr, hrest]

theorem mem_deliver {k : Nat} {batch : List (Fd × EpollMask)} {c : ConnId} (h : Inv cfg s)
    (hreg : batch.all (s.kernel.reports k)) (hc : c ∈ (s.kernel.deliver batch).map (·.1)) :
    s.Live k c := by
  simp only [Kernel.deliver, List.mem_map, List.mem_filterMap, Option.map_eq_some_iff] at hc
  obtain ⟨_, ⟨e, he, i, hi, rfl⟩, rfl⟩ := hc
  obtain ⟨i', hi', rfl⟩ := Kernel.reports_iff.mp (List.all_eq_true.mp hreg e he)
  obtain rfl : i = i' := Option.some.inj (hi.symm.trans hi')
  exact (h.live_of_interest hi).1

theorem conns_update {k k' : Nat} {w : IoWorker} (h : w.conns.Sublist (s.io k).conns) :
    (Function.update s.io k w k').conns.Sublist (s.io k').conns := by
  by_cases hk : k' = k
  · subst hk
    simpa using h
  · simp [hk]

theorem conns_goto {k k' : Nat} {c : ConnId} {pc' : IoPc} (hpc : (s.io k).pc.conn = [c])
    (hpc' : pc'.conn.Sublist [c]) :
    ((s.goto k pc').io k').conns.Sublist (s.io k').conns :=
  conns_update ((hpc ▸ hpc').append_right _)

/-- After a step a worker refers to connections it referred to before, or to a new batch. -/
theorem conns_step {a : Action} {k : Nat} (hs : Step cfg sha1 s a s') :
    (s'.io k).conns.Sublist (s.io k).conns ∨
      ∃ batch, a = .epollWait k batch ∧ (batch.map (·.1)).Nodup ∧
        batch.all (s.kernel.reports k) ∧
        (s'.io k).conns = (s.kernel.deliver batch).map (·.1) := by
  cases hs with
  | ioLocal hl => exact .inl (conns_update hl.conns)
  | @epollWait k' batch hw hnd hreg =>
    by_cases hk : k = k'
    · subst hk
      exact .inr ⟨batch, rfl, hnd, hreg, by simp [IoWorker.conns, IoPc.conn]⟩
    · exact .inl (by simp [hk])
  | @ioLock k' c a pc' _ hpc =>
    left
    rcases hpc with ⟨_, hpc, rfl, _⟩ | ⟨_, hpc, rfl, _⟩ | ⟨_, hpc, rfl, _⟩ <;>
      exact conns_goto (c := c) (by rw [hpc]; rfl) (List.Sublist.refl _)
  | @sendPart k' c input b n pc' hpc _ _ hpc' =>
    left
    apply conns_goto (c := c) (by rw [hpc]; rfl)
    rcases hpc' with rfl | rfl
    · exact conn_afterResponse_sublist _ _
    · exact List.Sublist.refl _
  | @settleDisarm k' c input ok hpc _ kern err =>
    left
    apply conns_goto (c := c) (by rw [hpc]; rfl)
    cases err
    · exact List.Sublist.refl _
    · exact List.nil_sublist _
  | @recvData k' c b bytes hpc =>
    left
    apply conns_goto (c := c) (by rw [hpc]; rfl)
    split <;> exact List.Sublist.refl _
  | finishRelease hpc | finishDelegate hpc =>
    exact .inl (conns_goto (by rw [hpc]; rfl) (conn_afterResponse_sublist _ _))
  | dequeue hpc | sendLast hpc | recycle hpc | settleKeep hpc | takeBuffer hpc | deliver hpc =>
    exact .inl (conns_goto (by rw [hpc]; rfl) (List.Sublist.refl _))
  | _ => exact .inl (List.Sublist.refl _)

/-- After `finish_connection` its worker no longer refers to the connection. -/
theorem Finishes.not_mem {a : Action} {k : Nat} {c : ConnId} (h : Inv cfg s)
    (hs : Step cfg sha1 s a s') (hf : Finishes s c a) : c ∉ (s'.io k).conns := by
  obtain ⟨k', input, rfl, hpc⟩ := hf
  have hl := h.live (k := k') (c := c) (by simp [hpc, IoPc.conn])
  by_cases hk : k = k'
  · subst hk
    have honce := (h.workers k).once
    obtain rfl : input = false := h.pcOk hpc
    simp only [IoWorker.conns, hpc, IoPc.conn, List.singleton_append, List.nodup_cons] at honce
    obtain ⟨_, _, rfl⟩ := hs.finish_cases hpc
    simpa [IoWorker.conns, IoPc.afterResponse, IoPc.conn] using honce.1
  · rcases conns_step (k := k) hs with hsub | ⟨_, ha, -⟩
    · intro hc
      exact hk (h.live_unique ((h.workers k).live c (hsub.subset hc)) hl)
    · cases ha

/-! ## Pointers in use -/

/-- What a worker relies on depends on the two pointers of its connection, and on how much of the
request in progress is missing. -/
theorem PcOk.frame {pc : IoPc} (h : s.PcOk pc)
    (hconn : ∀ c ∈ pc.conn, (s'.conns c).recvbuf = (s.conns c).recvbuf ∧
      (s'.conns c).sendbuf = (s.conns c).sendbuf ∧
      ∀ b, (s.conns c).recvbuf = some b → (s'.bufs b).left = (s.bufs b).left) : s'.PcOk pc := by
  cases pc with
  | send c input b => exact (hconn c (by simp [IoPc.conn])).2.1.trans h
  | recv c b => exact (hconn c (by simp [IoPc.conn])).1.trans h
  | lockRequest c b | deliver c b =>
    obtain ⟨hr, -, hleft⟩ := hconn c (by simp [IoPc.conn])
    exact ⟨hr.trans h.1, (hleft b h.1).trans h.2⟩
  | _ => exact h

/-- **Nobody else touches the buffers in progress of a registered connection.** -/
theorem untouched_step {a : Action} {k : Nat} {c : ConnId} (h : Inv cfg s)
    (hs : Step cfg sha1 s a s') (hl : s.Live k c) (hk : a.ioWorker ≠ some k) :
    (s'.conns c).recvbuf = (s.conns c).recvbuf ∧ (s'.conns c).sendbuf = (s.conns c).sendbuf ∧
      ∀ b, (s.conns c).recvbuf = some b → (s'.bufs b).left = (s.bufs b).left := by
  have hop := h.openAt_of_live hl
  -- a connection that another worker handles
  have hother : ∀ {k' c'}, a.ioWorker = some k' → c' ∈ (s.io k').pc.conn → c ≠ c' := by
    rintro k' c' ha hc' rfl
    exact hk (ha.trans (congrArg some (h.live_unique (h.live hc') hl)))
  -- a buffer that is somewhere else
  have hbuf : ∀ {b b' p}, (s.conns c).recvbuf = some b → b' ∈ s.owned p → p ≠ .recvbuf c →
      b ≠ b' := fun hb hb' hp =>
    h.owned.ne (mem_owned_recvbuf hop.closed hb) hb' (Ne.symm hp)
  cases hs with
  | @accepted w c' fd ok hpc =>
    have hne : c ≠ c' := (hop.session.ne (mem_parked_took hpc)).symm
    simp [hne]
  | @dequeue k' c' input b' rest hpc _ hq =>
    have hne : c ≠ c' := hother rfl (by simp [hpc, IoPc.conn])
    refine ⟨by simp [hne], by simp [hne], fun b hb => ?_⟩
    have hin : b' ∈ s.owned (.sendQueue c') := by simp [ServerContext.owned, hq]
    have hbb := hbuf hb hin (by simp)
    simp [hbb]
  | @sendPart k' c' input b' n pc' hpc | @sendLast k' c' input b' n hpc =>
    have hop' := h.openAt (k := k') (c := c') (by simp [hpc, IoPc.conn])
    have hne : c ≠ c' := hother rfl (by simp [hpc, IoPc.conn])
    refine ⟨by simp [hne], by simp [hne], fun b hb => ?_⟩
    have hbb := hbuf hb (mem_owned_sendbuf hop'.closed (h.pcOk hpc)) (by simp)
    simp [hbb]
  | @takeBuffer k' c' b' rest hpc _ _ hq =>
    have hne : c ≠ c' := hother rfl (by simp [hpc, IoPc.conn])
    refine ⟨by simp [hne], by simp [hne], fun b hb => ?_⟩
    have hin : b' ∈ s.owned .emptyBuffers := by simp [ServerContext.owned, hq]
    have hbb := hbuf hb hin (by simp)
    simp [hbb]
  | @recvData k' c' b' bytes hpc =>
    have hop' := h.openAt (k := k') (c := c') (by simp [hpc, IoPc.conn])
    have hne : c ≠ c' := hother rfl (by simp [hpc, IoPc.conn])
    refine ⟨rfl, rfl, fun b hb => ?_⟩
    have hbb := hbuf hb (mem_owned_recvbuf hop'.closed (h.pcOk hpc)) (by simpa using hne.symm)
    simp [hbb]
  | @deliver k' c' b' hpc | @finishRelease k' c' input hpc | @finishDelegate k' c' input hpc =>
    have hne : c ≠ c' := hother rfl (by simp [hpc, IoPc.conn])
    simp [hne]
  | computeRun =>
    refine ⟨rfl, rfl, fun b _ => ?_⟩
    simp only [Function.update_apply]
    split
    · next hbb => rw [hbb]
    · rfl
  | ioLock | settleKeep | settleDisarm | submitLock | dispose | enqueue =>
    exact ⟨field_update (·.recvbuf) rfl, field_update (·.sendbuf) rfl, fun _ _ => rfl⟩
  | _ => exact ⟨rfl, rfl, fun _ _ => rfl⟩

/-! ## The step lemma -/

/-- An IO worker that does not act stays where it is. -/
theorem io_of_ne {a : Action} {k : Nat} (hs : Step cfg sha1 s a s') (hk : a.ioWorker ≠ some k) :
    s'.io k = s.io k := by
  cases hs with
  | @ioLocal k' a w hl =>
    have hne : k ≠ k' := fun hkk => hk (hkk ▸ hl.ioWorker)
    simp [hne]
  | @ioLock k' c a pc' _ hpc =>
    have hne : k ≠ k' := fun hkk => hk (hkk ▸ ioLock_ioWorker (ioLock_action hpc))
    simp [hne]
  | epollWait | dequeue | sendPart | sendLast | recycle | settleKeep | settleDisarm | takeBuffer
  | recvData | deliver | finishRelease | finishDelegate =>
    have hne : k ≠ _ := fun hkk => hk (congrArg some hkk.symm)
    simp [hne]
  | _ => rfl

theorem pcOk_afterResponse (c : ConnId) (input : Bool) : s.PcOk (.afterResponse c input) := by
  cases input <;> trivial

theorem pcOk_dispatch (c : ConnId) (events : EpollMask) : s.PcOk (.dispatch c events) := by
  unfold IoPc.dispatch
  repeat' split
  all_goals trivial

theorem IoLocal.pcOk {k : Nat} {a : Action} {w : IoWorker} (hl : IoLocal cfg s k a w) :
    s.PcOk w.pc := by
  cases hl with
  | fail => trivial
  | dispatch => exact pcOk_dispatch _ _
  | @move c a pc' hm =>
    generalize (s.io k).pc = pc at hm
    cases hm with
    | resumeResponse hb | resumeRequest hb => exact hb
    | noResponse | sendAgain | finishRefused => exact pcOk_afterResponse _ _
    | sendError | readahead | noBuffer | missBuffer | recvAgain | recvEof | recvError => trivial

/-- The worker that moves relies on what it has just read or written. -/
theorem pcOk_step {a : Action} {k : Nat} (h : Inv cfg s) (ho : Orderly s a)
    (hs : Step cfg sha1 s a s') (hk : a.ioWorker = some k) : s'.PcOk (s'.io k).pc := by
  cases hs with
  | stay ha => rcases ha with ⟨_, rfl⟩ | ⟨_, rfl⟩ | ⟨_, rfl⟩ <;> cases hk
  | ioLocal hl =>
    obtain rfl := Option.some.inj (hl.ioWorker.symm.trans hk)
    simp only [Function.update_self]
    exact PcOk.frame hl.pcOk fun _ _ => ⟨rfl, rfl, fun _ _ => rfl⟩
  | ioLock hlock hpc =>
    rcases hpc with ⟨input, hpc, rfl, rfl⟩ | ⟨b, hpc, rfl, rfl⟩ | ⟨input, hpc, rfl, rfl⟩ <;>
      cases hk
    · simp only [goto_io, Function.update_self]
      trivial
    · have hb := h.pcOk hpc
      simpa [ServerContext.PcOk] using hb
    · cases input with
      -- `handle_request` would be called after the teardown
      | true => exact absurd (ho.lock hpc) (by simp [hlock])
      | false => simp [ServerContext.PcOk]
  | dequeue | takeBuffer => cases hk; simp [ServerContext.PcOk]
  | sendPart _ _ _ hpc' =>
    cases hk
    simp only [goto_io, Function.update_self]
    rcases hpc' with rfl | rfl
    · exact pcOk_afterResponse _ _
    · trivial
  | settleDisarm =>
    cases hk
    simp only [goto_io, Function.update_self]
    split <;> trivial
  | recvData hpc =>
    cases hk
    have hb := h.pcOk hpc
    simp only [goto_io, Function.update_self]
    split
    · next hleft => exact ⟨hb, by simpa using hleft⟩
    · trivial
  | finishRelease | finishDelegate =>
    cases hk
    simp only [goto_io, Function.update_self]
    exact pcOk_afterResponse _ _
  | epollWait | sendLast | recycle | settleKeep | deliver =>
    cases hk
    simp only [goto_io, Function.update_self]
    trivial
  | acceptTake | acceptRefused | accepted | computeGet | computeRun | submitGet | submitRefused
  | submitBack | submitLock | dispose | enqueue | submitRelease | submitNext => cases hk

theorem workers_step {a : Action} (h : Inv cfg s) (ho : Orderly s a)
    (hs : Step cfg sha1 s a s') (k : Nat) : WorkerOk s' k where
  once := by
    rcases conns_step (k := k) hs with hsub | ⟨batch, rfl, hnd, hreg, heq⟩
    · exact hsub.nodup (h.workers k).once
    · rw [heq]
      apply List.Nodup.of_map fun c => (s.conns c).fd
      rw [deliver_fds h hreg]
      exact hnd
  live c hc := by
    have hl : s.Live k c := by
      rcases conns_step (k := k) hs with hsub | ⟨batch, rfl, hnd, hreg, heq⟩
      · exact (h.workers k).live c (hsub.subset hc)
      · exact mem_deliver h hreg (heq ▸ hc)
    exact live_step h hs hl fun hf => hf.not_mem h hs hc
  pc := by
    by_cases hk : a.ioWorker = some k
    · exact pcOk_step h ho hs hk
    · rw [io_of_ne hs hk]
      exact PcOk.frame (h.workers k).pc fun c hc => untouched_step h hs (h.live hc) hk

end Piotbench.Server
