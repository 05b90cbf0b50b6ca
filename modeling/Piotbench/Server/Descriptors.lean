import Mathlib.Data.List.Perm.Subperm
import Piotbench.Server.Teardown

/-!
# Descriptors and objects

`handle_accept` opens a descriptor for an object it has taken from `empty_connections`, and
`finish_connection` closes it. In orderly runs nobody else has to: an open descriptor is always that
of a session that is open, or was left by an accept worker that failed to register it
(`descriptors_owned`). As those objects are among the ones that `create_server` has allocated
(`parked_lt`, `open_lt`), their number limits how many descriptors are open.
-/

namespace Piotbench.Server

open Places Transition

variable {cfg : ServerConfig} {sha1 : Sha1} {bufs : BufId → ServerBuffer}
  {s s' : ServerContext} {a : Action} {c : ConnId}

/-! ## Objects that were not allocated -/

/-- An object that `create_server` has not allocated: a number that nobody refers to. -/
structure Stranger (s : ServerContext) (c : ConnId) : Prop where
  session : s.InSession c
  closed : (s.conns c).closed = true
  counts : (s.conns c).processed = (s.conns c).received
  compare : ∀ j, s.submit j ≠ .compare c

theorem stranger_init (hc : cfg.alloc.sessions ≤ c) : Stranger (.init cfg bufs) c where
  session := by
    refine ⟨fun p hp => ?_⟩
    rw [parked_init, Function.update_apply] at hp
    split at hp
    · exact Nat.not_lt_of_le hc (List.mem_range.mp hp)
    · cases hp
  closed := decide_eq_true hc
  counts := rfl
  compare j := by
    show SubmitPc.idle ≠ .compare c
    simp

/-- No submitter has a buffer of a stranger. -/
theorem Stranger.not_locked (hst : Stranger s c) (h : Inv cfg s) (j : Nat) (b : BufId) :
    s.submit j ≠ .locked b c := by
  intro hpc
  have hin := h.submitHand (congrArg SubmitPc.carried hpc)
  have hmem : b ∈ s.submitting c := by
    rw [h.mem_submitting]
    exact ⟨⟨j, by simp [ServerContext.submitLine, hpc, SubmitPc.hand]⟩, hin.2.2⟩
  have hpos := List.length_pos_of_mem hmem
  have hflow := (h.accounts c hst.session).flow
  rw [hst.counts] at hflow
  omega

theorem Stranger.not_released (hst : Stranger s c) (h : Inv cfg s) : ¬ Released s c a := by
  intro hrel
  cases a with
  | finishBody k =>
    obtain ⟨⟨input, hpc⟩, -⟩ := hrel
    have hop := h.openAt (k := k) (c := c) (by simp [hpc, IoPc.conn])
    exact Bool.false_ne_true (hop.closed.symm.trans hst.closed)
  | submitCompare j => exact hst.compare j hrel.1
  | _ => exact hrel

theorem stranger_step (h : Inv cfg s) (hs : Step cfg sha1 s a s') (hst : Stranger s c) :
    Stranger s' c where
  session := (keeps_step hs hst.session (hst.not_released h)).session
  closed := closed_step hs hst.session hst.closed
  counts := by
    have hprocessed : processed s c a = [] := by
      rcases processed_cases s c a with hnil | ⟨j, ok, b, -, hpc, -⟩
      · exact hnil
      · exact absurd hpc (hst.not_locked h j b)
    rw [processed_step hs hst.session, received_step hs hst.session, hprocessed,
      delivered_closed h hst.closed]
    exact hst.counts
  compare j hpc := by
    rcases submitCompare_step hs hpc with ⟨hold, -⟩ | ⟨b, ok, -, hold, -⟩
    · exact hst.compare j hold
    · exact hst.not_locked h j b hold

section Runs

variable {ok : ServerContext → Action → Prop} (hok : ∀ s a, ok s a → Orderly s a)

include hok

theorem stranger_of_run (h : Run cfg sha1 ok bufs s) (hc : cfg.alloc.sessions ≤ c) :
    Stranger s c := by
  apply h.invariant (I := fun s => Stranger s c) (stranger_init hc)
  intro s a s' hr hI hsa hstep
  exact stranger_step (inv_of_run hok hr) (step_cases hstep) hI

/-- What is in `empty_connections` or in the hands of an accept worker has been allocated. -/
theorem parked_lt (h : Run cfg sha1 ok bufs s) {p : Shelf} (hc : c ∈ s.parked p) :
    c < cfg.alloc.sessions := by
  by_contra hle
  have hst := stranger_of_run hok h (Nat.not_lt.mp hle)
  exact hst.session.notParked p hc

/-- So has the object of an open session. -/
theorem open_lt (h : Run cfg sha1 ok bufs s) (hcl : (s.conns c).closed = false) :
    c < cfg.alloc.sessions := by
  by_contra hle
  have hst := stranger_of_run hok h (Nat.not_lt.mp hle)
  exact Bool.false_ne_true (hcl.symm.trans hst.closed)

end Runs

/-! ## Who has to close a descriptor -/

/-- The object of connection `c` is in a session that is not closed. -/
structure ServerContext.OpenSession (s : ServerContext) (c : ConnId) : Prop where
  session : s.InSession c
  closed : (s.conns c).closed = false

theorem ServerContext.OpenSession.live (hop : s.OpenSession c) (h : Inv cfg s) :
    s.Live (s.conns c).ioidx c :=
  h.sessions c hop.session hop.closed

theorem ServerContext.OpenSession.isOpen (hop : s.OpenSession c) (h : Inv cfg s) :
    s.kernel.isOpen (s.conns c).fd = true :=
  (h.openAt_of_live (hop.live h)).isOpen

/-- The connection that has descriptor `fd`. -/
def HasFd (s : ServerContext) (fd : Fd) (c : ConnId) : Prop :=
  (s.conns c).fd = fd ∧ (s.OpenSession c ∨ ∃ w, s.accept w = .failed c)

/-- A descriptor that is open after a step was open before, and not that of a connection that the
step closes, or `handle_accept` has just opened it. -/
theorem isOpen_back {fd : Fd} (hs : Step cfg sha1 s a s') (hopen : s'.kernel.isOpen fd = true) :
    (s.kernel.isOpen fd = true ∧ ∀ c, Finishes s c a → (s.conns c).fd ≠ fd) ∨
      ∃ w c ok, a = .acceptInit w (some fd) ok ∧ s.accept w = .took c := by
  by_cases hfin : ∃ c, Finishes s c a
  · obtain ⟨c, k, input, rfl, hpc⟩ := hfin
    left
    obtain ⟨_, _, rfl⟩ := hs.finish_cases hpc
    have hne : fd ≠ (s.conns c).fd := by
      rintro rfl
      simp [Kernel.close] at hopen
    refine ⟨by simpa [Kernel.close, hne] using hopen, ?_⟩
    rintro c' ⟨k', input', hk, hpc'⟩
    cases hk
    rw [hpc] at hpc'
    cases hpc'
    exact hne.symm
  · rw [not_exists] at hfin
    cases hs with
    | @accepted w c fd' ok hpc _ _ _ _ kern err hres =>
      by_cases hfd : fd = fd'
      · subst hfd
        exact .inr ⟨w, c, ok, rfl, hpc⟩
      · left
        refine ⟨?_, fun c hf => absurd hf (hfin c)⟩
        simpa [hres.isOpen, hfd] using hopen
    | settleDisarm _ _ hres | enqueue _ _ hres =>
      exact .inl ⟨hres.isOpen ▸ hopen, fun c hf => absurd hf (hfin c)⟩
    | finishRelease hpc | finishDelegate hpc => exact absurd ⟨_, _, rfl, hpc⟩ (hfin _)
    | _ => exact .inl ⟨hopen, fun c hf => absurd hf (hfin c)⟩

/-- An accept worker that has failed keeps what it has. -/
theorem failed_step {w : Nat} (h : Inv cfg s) (hs : Step cfg sha1 s a s')
    (hpc : s.accept w = .failed c) :
    s'.accept w = .failed c ∧ (s'.conns c).fd = (s.conns c).fd := by
  have hmem : c ∈ s.parked (.accept w) := by simp [ServerContext.parked, hpc, AcceptPc.object]
  have hw : ∀ {w' pc}, s.accept w' ≠ .failed c → Function.update s.accept w' pc w = .failed c := by
    intro w' pc hne
    rw [Function.update_of_ne, hpc]
    rintro rfl
    exact hne hpc
  cases hs with
  | acceptTake hpc' | acceptRefused hpc' => exact ⟨hw (by simp [hpc']), rfl⟩
  | @accepted w' c' fd ok hpc' =>
    have hww : Shelf.accept w ≠ .accept w' := by
      rintro hww
      cases hww
      rw [hpc] at hpc'
      cases hpc'
    have hne : c ≠ c' := h.parked.exclusive.ne hmem (mem_parked_took hpc') hww
    exact ⟨hw (by simp [hpc']), by simp [hne]⟩
  | ioLock | dequeue | sendLast | settleKeep | settleDisarm | takeBuffer | deliver | finishRelease
  | finishDelegate | submitLock | dispose | enqueue =>
    refine ⟨hpc, ?_⟩
    apply field_update (·.fd)
    rfl
  | _ => exact ⟨hpc, rfl⟩

/-- **One step leaves no open descriptor without a connection.** -/
theorem hasFd_step {fd : Fd} (h : Inv cfg s) (hs : Step cfg sha1 s a s')
    (hold : s.kernel.isOpen fd = true → ∃ c, HasFd s fd c)
    (hopen : s'.kernel.isOpen fd = true) : ∃ c, HasFd s' fd c := by
  rcases isOpen_back hs hopen with ⟨hopen', hnf⟩ | ⟨w, c, ok, rfl, hpc⟩
  · obtain ⟨c, hfd, hop | ⟨w, hpc⟩⟩ := hold hopen'
    · -- the session of the descriptor goes on, as the step does not close it
      have hfin : ¬ Finishes s c a := fun hf => hnf c hf hfd
      have hat := openAt_step h hs (hop.live h) hfin
      have hk := keeps_step hs hop.session (not_released_of_open h hop.closed hfin)
      exact ⟨c, hk.fd.trans hfd, .inl ⟨hat.session, hat.closed⟩⟩
    · obtain ⟨hpc', hfd'⟩ := failed_step h hs hpc
      exact ⟨c, hfd'.trans hfd, .inr ⟨w, hpc'⟩⟩
  · obtain ⟨-, kern, err, -, rfl⟩ := hs.accepted_cases hpc
    refine ⟨c, by simp [acceptedConnection], ?_⟩
    cases err with
    | true => exact .inr ⟨w, by simp⟩
    | false =>
      refine .inl ⟨inSession_self h.parked.exclusive hpc rfl rfl, ?_⟩
      simp [acceptedConnection]

theorem hasFd_of_run {ok : ServerContext → Action → Prop} (hok : ∀ s a, ok s a → Orderly s a)
    (h : Run cfg sha1 ok bufs s) {fd : Fd} (hopen : s.kernel.isOpen fd = true) :
    ∃ c, HasFd s fd c := by
  refine h.invariant (I := fun s => s.kernel.isOpen fd = true → ∃ c, HasFd s fd c) ?_ ?_ hopen
  · intro hinit
    cases hinit
  · intro s a s' hr hI hsa hstep
    exact hasFd_step (inv_of_run hok hr) (step_cases hstep) hI

theorem HasFd.lt {ok : ServerContext → Action → Prop} (hok : ∀ s a, ok s a → Orderly s a)
    (h : Run cfg sha1 ok bufs s) {fd : Fd} (hfd : HasFd s fd c) : c < cfg.alloc.sessions := by
  rcases hfd.2 with hop | ⟨w, hpc⟩
  · exact open_lt hok h hop.closed
  · have hmem : c ∈ s.parked (.accept w) := by simp [ServerContext.parked, hpc, AcceptPc.object]
    exact parked_lt hok h hmem

/-- **No descriptor is leaked.** In an orderly run an open descriptor is that of exactly one session
that is open, or of an object that an accept worker has in its hands after an error. At any time at
most as many descriptors are open as there are connection objects. -/
theorem descriptors_owned (h : Run cfg sha1 Orderly bufs s) :
    (∀ fd, s.kernel.isOpen fd = true →
      (∃! c, s.OpenSession c ∧ (s.conns c).fd = fd) ∨
        ∃ w c, s.accept w = .failed c ∧ (s.conns c).fd = fd) ∧
    ∀ fds : List Fd, fds.Nodup → (∀ fd ∈ fds, s.kernel.isOpen fd = true) →
      fds.length ≤ cfg.alloc.sessions := by
  have hok : ∀ s a, Orderly s a → Orderly s a := fun _ _ => id
  have hinv := inv_of_run hok h
  constructor
  · intro fd hopen
    obtain ⟨c, hfd, hop | ⟨w, hpc⟩⟩ := hasFd_of_run hok h hopen
    · refine .inl ⟨c, ⟨hop, hfd⟩, ?_⟩
      rintro c' ⟨hop', hfd'⟩
      by_contra hne
      exact Live.fd_ne (hop'.live hinv) (hop.live hinv) hne (hfd'.trans hfd.symm)
    · exact .inr ⟨w, c, hpc, hfd⟩
  · intro fds hnd hopen
    have hsub : fds ⊆ (List.range cfg.alloc.sessions).map fun c => (s.conns c).fd := by
      intro fd hmem
      obtain ⟨c, hfd⟩ := hasFd_of_run hok h (hopen fd hmem)
      exact List.mem_map.mpr ⟨c, List.mem_range.mpr (hfd.lt hok h), hfd.1⟩
    have hlen := (List.subperm_of_subset hnd hsub).length_le
    simpa using hlen

theorem descriptors_owned_connected : ∃ s, Run smallServer zeroSha1 Orderly blankBuffers s ∧
    s.kernel.isOpen 5 = true ∧ ((∃! c, s.OpenSession c ∧ (s.conns c).fd = 5) ∨
      ∃ w c, s.accept w = .failed c ∧ (s.conns c).fd = 5) := by
  have hrun := exists_reachable_of_run connect (fun s => s.kernel.isOpen 5)
    (by decide +kernel : (run (step smallServer zeroSha1) Orderly (.init smallServer blankBuffers)
      connect).map _ = some true)
  obtain ⟨s, hs, hopen⟩ := hrun
  exact ⟨s, hs, hopen, (descriptors_owned hs).1 5 hopen⟩

end Piotbench.Server
