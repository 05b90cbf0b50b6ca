import Piotbench.Server.Flight

/-!
# Registered connections and the IO workers

A connection that is open and in a session is registered with exactly one IO worker, and only that
worker handles it. So nobody else touches its `recvbuf` and `sendbuf`, and the worker may go on
with what it has read from them.
-/

namespace Piotbench.Server

open Places

variable {cfg : ServerConfig} {sha1 : Sha1} {s s' : ServerContext}

/-! ## Registrations -/

/-- Action `a` runs the body of `finish_connection` on connection `c`. -/
def Finishes (s : ServerContext) (c : ConnId) (a : Action) : Prop :=
  ∃ k input, a = .finishBody k ∧ (s.io k).pc = .teardown c input

/-- Two registered connections have different descriptors. -/
theorem Live.fd_ne {k k' : Nat} {c c' : ConnId} (hl : s.Live k c) (hl' : s.Live k' c')
    (hne : c ≠ c') : (s.conns c).fd ≠ (s.conns c').fd := by
  obtain ⟨e, he⟩ := hl
  obtain ⟨e', he'⟩ := hl'
  intro hfd
  rw [hfd, he'] at he
  cases he
  exact hne rfl

/-- A connection is registered with one worker. -/
theorem Inv.live_unique {k k' : Nat} {c : ConnId} (h : Inv cfg s) (hl : s.Live k c)
    (hl' : s.Live k' c) : k = k' :=
  (h.openAt_of_live hl).ioidx.symm.trans (h.openAt_of_live hl').ioidx

/-- Changing the mask of one registered connection leaves all of them registered. -/
theorem EpollSet.live {kern : Kernel} {k k' : Nat} {c c' : ConnId} {conn : ServerConnection}
    {new : EpollMask} {ok err : Bool} (hset : EpollSet s.kernel c' conn new ok kern err)
    (hfd : conn.fd = (s.conns c').fd) (hep : conn.epollFd = k') (hne : new ≠ 0#32)
    (hl' : s.Live k' c') (hl : s.Live k c) :
    ∃ events, kern.interest (s.conns c).fd = some ⟨k, events, c⟩ := by
  obtain ⟨e, he⟩ := hl
  by_cases hcc : c = c'
  · subst hcc
    obtain ⟨e', he'⟩ := hl'
    rw [he'] at he
    cases he
    rcases hset.interest_self (hfd ▸ he') hne with h | h
    · exact ⟨_, hfd ▸ h⟩
    · exact ⟨_, hep ▸ hfd ▸ h⟩
  · rw [hset.interest_of_ne (hfd ▸ Live.fd_ne ⟨e, he⟩ hl' hcc)]
    exact ⟨e, he⟩

/-- A submitter that has a buffer of an open connection: the connection is registered. -/
theorem Inv.live_of_locked {j : Nat} {b : BufId} {c : ConnId} (h : Inv cfg s)
    (hpc : s.submit j = .locked b c) (hcl : (s.conns c).closed = false) :
    s.Live (s.conns c).ioidx c :=
  h.sessions c (h.submitHand (congrArg SubmitPc.carried hpc)).1 hcl

theorem Live.of_interest {k : Nat} {c : ConnId} {events : EpollMask}
    (h : s'.kernel.interest (s.conns c).fd = some ⟨k, events, c⟩)
    (hfd : (s'.conns c).fd = (s.conns c).fd) : s'.Live k c := by
  refine ⟨events, ?_⟩
  rw [hfd]
  exact h

/-- **A registered connection stays registered** until `finish_connection` closes it. -/
theorem live_step {a : Action} {k : Nat} {c : ConnId} (h : Inv cfg s) (hs : Step cfg sha1 s a s')
    (hl : s.Live k c) (hnf : ¬ Finishes s c a) : s'.Live k c := by
  have hop := h.openAt_of_live hl
  cases hs with
  | @accepted w c' fd ok hpc hfd _ _ _ kern err hres =>
    -- another object, and a descriptor that was not open
    have hne : c ≠ c' := (hop.session.ne (mem_parked_took hpc)).symm
    have hfd' : (s.conns c).fd ≠ fd := by
      rintro rfl
      exact Bool.false_ne_true (hfd.symm.trans hop.isOpen)
    obtain ⟨e, he⟩ := hl
    exact ⟨e, by simpa [hne] using (hres.interest_of_ne hfd').trans he⟩
  | @settleDisarm k' c' input ok hpc _ kern err hres =>
    have hl' := h.live (k := k') (c := c') (by simp [hpc, IoPc.conn])
    have hop' := h.openAt_of_live hl'
    obtain ⟨e, he⟩ := hres.live rfl hop'.epollFd
      (ne_zero_of_has (b := epollIn) (by simp [hop'.input])) hl' hl
    exact Live.of_interest he (field_update (·.fd) rfl)
  | @enqueue j b c' ok hpc hcl kern err hres =>
    have hl' := h.live_of_locked hpc hcl
    have hop' := h.openAt_of_live hl'
    obtain ⟨e, he⟩ := hres.live rfl hop'.epollFd
      (ne_zero_of_has (b := epollIn) (by simp [hop'.input])) hl' hl
    exact Live.of_interest he (field_update (·.fd) rfl)
  | @finishRelease k' c' input hpc | @finishDelegate k' c' input hpc =>
    have hne : c ≠ c' := by
      rintro rfl
      exact hnf ⟨k', input, rfl, hpc⟩
    have hl' := h.live (k := k') (c := c') (by simp [hpc, IoPc.conn])
    obtain ⟨e, he⟩ := hl
    exact ⟨e, by simp [Kernel.close, hne, Live.fd_ne ⟨e, he⟩ hl' hne, he]⟩
  | ioLock | dequeue | sendLast | settleKeep | takeBuffer | deliver | submitLock | dispose =>
    obtain ⟨e, he⟩ := hl
    exact Live.of_interest he (field_update (·.fd) rfl)
  | _ => exact hl

theorem Finishes.closed {a : Action} {c : ConnId} (hs : Step cfg sha1 s a s')
    (hf : Finishes s c a) : (s'.conns c).closed = true := by
  obtain ⟨k, input, rfl, hpc⟩ := hf
  obtain ⟨_, _, rfl⟩ := hs.finish_cases hpc
  simp

/-- A session is closed by `finish_connection` only. -/
theorem finishes_of_closed {a : Action} {c : ConnId} (hs : Step cfg sha1 s a s')
    (hcl : (s.conns c).closed = false) (hcl' : (s'.conns c).closed = true) : Finishes s c a := by
  cases hs with
  | @finishRelease k c' input hpc | @finishDelegate k c' input hpc =>
    by_cases hcc : c = c'
    · exact ⟨k, input, rfl, hcc ▸ hpc⟩
    · simp [hcc, hcl] at hcl'
  | accepted | ioLock | dequeue | sendLast | settleKeep | settleDisarm | takeBuffer | deliver
  | submitLock | dispose | enqueue =>
    simp only [goto_conns, Function.update_apply] at hcl'
    split at hcl' <;> simp_all [acceptedConnection]
  | _ => simp [hcl] at hcl'

/-- An object is put back either by the one that closes its session, or after that. -/
theorem not_released_of_open {a : Action} {c : ConnId} (h : Inv cfg s)
    (hcl : (s.conns c).closed = false) (hnf : ¬ Finishes s c a) : ¬ Released s c a := by
  intro hrel
  cases a <;> try exact hrel
  case finishBody k =>
    obtain ⟨⟨input, hpc⟩, -⟩ := hrel
    exact hnf ⟨k, input, rfl, hpc⟩
  case submitCompare j =>
    exact Bool.false_ne_true (hcl.symm.trans (h.inFlight.compare j c hrel.1).2.1)

/-- **An open connection stays open** until `finish_connection` closes it. -/
theorem openAt_step {a : Action} {k : Nat} {c : ConnId} (h : Inv cfg s)
    (hs : Step cfg sha1 s a s') (hl : s.Live k c) (hnf : ¬ Finishes s c a) : s'.OpenAt k c := by
  have hop := h.openAt_of_live hl
  have hk := keeps_step hs hop.session (not_released_of_open h hop.closed hnf)
  have hrest : (s'.conns c).closed = false ∧ s'.kernel.isOpen (s.conns c).fd = true ∧
      (s'.conns c).epollState.has epollIn = true := by
    have hnow := And.intro hop.closed (And.intro hop.isOpen hop.input)
    cases hs with
    | @accepted w c' fd ok hpc hfd _ _ _ kern err hres =>
      have hne : c ≠ c' := (hop.session.ne (mem_parked_took hpc)).symm
      rw [hres.isOpen]
      simpa [hne, Function.update_apply, hop.isOpen] using hnow
    | settleDisarm _ _ hres | enqueue _ _ hres =>
      refine ⟨field_update_eq (·.closed) rfl hop.closed, hres.isOpen ▸ hop.isOpen, ?_⟩
      -- only the other bit of the mask changes
      simp only [goto_conns, Function.update_apply]
      split
      · next hcc => simpa [hcc] using hop.input
      · exact hop.input
    | @finishRelease k' c' input hpc | @finishDelegate k' c' input hpc =>
      have hne : c ≠ c' := by
        rintro rfl
        exact hnf ⟨k', input, rfl, hpc⟩
      have hl' := h.live (k := k') (c := c') (by simp [hpc, IoPc.conn])
      simpa [Kernel.close, hne, Live.fd_ne hl hl' hne] using hnow
    | ioLock | dequeue | sendLast | settleKeep | takeBuffer | deliver | submitLock | dispose =>
      exact ⟨field_update_eq (·.closed) rfl hop.closed, hop.isOpen,
        field_update_eq (·.epollState.has epollIn) rfl hop.input⟩
    | _ => exact hnow
  exact ⟨hrest.1, hk.session, hk.ioidx.trans hop.ioidx, hk.epollFd.trans hop.epollFd,
    hk.fd ▸ hrest.2.1, hrest.2.2⟩

theorem Finishes.interest {a : Action} {c : ConnId} (hs : Step cfg sha1 s a s')
    (hf : Finishes s c a) : s'.kernel.interest (s.conns c).fd = none := by
  obtain ⟨k, input, rfl, hpc⟩ := hf
  obtain ⟨_, _, rfl⟩ := hs.finish_cases hpc
  simp [Kernel.close]

/-- A registration of an open connection, as its worker sees it. -/
theorem Inv.live_of_interest {fd : Fd} {i : Interest} (h : Inv cfg s)
    (hi : s.kernel.interest fd = some i) : s.Live i.epollFd i.conn ∧ (s.conns i.conn).fd = fd := by
  have hr := h.watched fd i hi
  exact ⟨⟨i.events, by rw [hr.descr, hi]⟩, hr.descr⟩

/-- After a change of one mask, the registrations are the old ones up to their masks. -/
theorem EpollSet.back {kern : Kernel} {k : Nat} {c : ConnId} {conn : ServerConnection}
    {new : EpollMask} {ok err : Bool} {fd : Fd} {i : Interest} (h : Inv cfg s)
    (hset : EpollSet s.kernel c conn new ok kern err) (hfd : conn.fd = (s.conns c).fd)
    (hep : conn.epollFd = k) (hne : new ≠ 0#32) (hl : s.Live k c)
    (hi : kern.interest fd = some i) : s.Live i.epollFd i.conn ∧ (s.conns i.conn).fd = fd := by
  by_cases hfc : fd = conn.fd
  · obtain ⟨e, he⟩ := hl
    have hor := hset.interest_self (hfd ▸ he) hne
    rw [← hfc, hi] at hor
    rcases hor with hor | hor <;> cases hor
    · exact ⟨⟨e, he⟩, (hfc.trans hfd).symm⟩
    · exact ⟨hep ▸ ⟨e, he⟩, (hfc.trans hfd).symm⟩
  · rw [hset.interest_of_ne hfc] at hi
    exact h.live_of_interest hi

/-- A registration was there before, up to its mask, or `handle_accept` has just made it. -/
theorem interest_step {a : Action} {fd : Fd} {i : Interest} (h : Inv cfg s)
    (hs : Step cfg sha1 s a s') (hi : s'.kernel.interest fd = some i) :
    (s.Live i.epollFd i.conn ∧ (s.conns i.conn).fd = fd) ∨ Registered s' fd i := by
  cases hs with
  | @accepted w c fd' ok hpc hfd' _ _ _ kern err hres =>
    by_cases hff : fd = fd'
    · subst hff
      right
      -- the descriptor was not open, so the registration is the one just made
      have hnone : s.kernel.interest fd = none := by
        by_contra hsome
        obtain ⟨i', hi'⟩ := Option.ne_none_iff_exists'.mp hsome
        exact Bool.false_ne_true (hfd'.symm.trans (h.watched fd i' hi').isOpen)
      obtain ⟨rfl, hreg⟩ := hres.fresh (by simp [acceptedConnection]) hnone rfl (by decide)
      cases ok with
      | false => simp [acceptedConnection] at hreg; simp [hreg] at hi
      | true =>
        obtain rfl : _ = i := Option.some.inj (hreg.symm.trans hi)
        refine ⟨?_, ?_, inSession_self h.parked.exclusive hpc rfl rfl, ?_, ?_, ?_, ?_⟩
        · simp [acceptedConnection]
        · simp [acceptedConnection]
        · simp [acceptedConnection]
        · simp [acceptedConnection]
        · exact congrFun hres.isOpen fd |>.trans (by simp)
        · simp [EpollMask.has, epollIn]
    · left
      have hold := (hres.interest_of_ne hff).symm.trans hi
      exact h.live_of_interest hold
  | @settleDisarm k c input ok hpc _ kern err hres =>
    have hl := h.live (k := k) (c := c) (by simp [hpc, IoPc.conn])
    have hop := h.openAt_of_live hl
    exact .inl (hres.back h rfl hop.epollFd (ne_zero_of_has (b := epollIn) (by simp [hop.input]))
      hl hi)
  | @enqueue j b c ok hpc hcl kern err hres =>
    have hl := h.live_of_locked hpc hcl
    have hop := h.openAt_of_live hl
    exact .inl (hres.back h rfl hop.epollFd (ne_zero_of_has (b := epollIn) (by simp [hop.input]))
      hl hi)
  | @finishRelease k c input hpc | @finishDelegate k c input hpc =>
    have hne : fd ≠ (s.conns c).fd := by
      rintro rfl
      simp [Kernel.close] at hi
    exact .inl (h.live_of_interest (by simpa [Kernel.close, hne] using hi))
  | _ => exact .inl (h.live_of_interest hi)

/-- **One step keeps every registration an open session.** -/
theorem watched_step {a : Action} {fd : Fd} {i : Interest} (h : Inv cfg s)
    (hs : Step cfg sha1 s a s') (hi : s'.kernel.interest fd = some i) : Registered s' fd i := by
  rcases interest_step h hs hi with ⟨hl, rfl⟩ | hnew
  · have hnf : ¬ Finishes s i.conn a := fun hf => by simp [hf.interest hs] at hi
    have hop := openAt_step h hs hl hnf
    have hop' := h.openAt_of_live hl
    have hk := keeps_step hs hop'.session (not_released_of_open h hop'.closed hnf)
    exact ⟨hk.fd, hop.closed, hop.session, hop.ioidx, hop.epollFd, hk.fd ▸ hop.isOpen, hop.input⟩
  · exact hnew

end Piotbench.Server
