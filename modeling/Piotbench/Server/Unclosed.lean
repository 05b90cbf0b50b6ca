import Piotbench.Server.History

/-!
# Before anything is closed

The two conditions of `Orderly` are about connections that have been torn down: that no handler
goes on with one, and that `handle_accept` gets none that still has its `sendbuf`. As long as no
call of `finish_connection` gets past its `trylock`, both hold by themselves, whatever the workers,
the network and `epoll_ctl` do (`Run.orderly`, `Trace.orderly`).
-/

namespace Piotbench.Server

open Places Transition

variable {cfg : ServerConfig} {sha1 : Sha1} {s s' : ServerContext} {a : Action}

/-- Action `a` does not get a worker past the `trylock` of `finish_connection`. -/
def staysOpen (s : ServerContext) : Action → Bool
  | .finishTrylock k =>
    match (s.io k).pc with
    | .finish c _ => (s.conns c).lock
    | _ => true
  | _ => true

/-- No connection has been closed: those that are `closed` have been so from the start, as numbers
that name no object. -/
structure Unclosed (s : ServerContext) : Prop where
  pool : ∀ c, (s.conns c).closed = true → c ∉ s.emptyConnections
  received : ∀ c, (s.conns c).closed = true → (s.conns c).received = 0
  teardown : ∀ k c input, (s.io k).pc ≠ .teardown c input
  compare : ∀ j c, s.submit j ≠ .compare c

theorem unclosed_init (cfg : ServerConfig) (bufs : BufId → ServerBuffer) :
    Unclosed (.init cfg bufs) where
  pool c hcl hin := by
    have hc : cfg.alloc.sessions ≤ c := of_decide_eq_true hcl
    exact absurd (List.mem_range.mp hin) (Nat.not_lt.mpr hc)
  received _ _ := rfl
  teardown k c input hpc := by cases hpc
  compare j c hpc := by cases hpc

theorem Unclosed.not_finishes (h : Unclosed s) (c : ConnId) : ¬ Finishes s c a := by
  rintro ⟨k, input, -, hpc⟩
  exact h.teardown k c input hpc

/-- What is closed after a step was closed before. -/
theorem Unclosed.closed_before (h : Unclosed s) (hs : Step cfg sha1 s a s') {c : ConnId}
    (hcl : (s'.conns c).closed = true) : (s.conns c).closed = true := by
  by_contra hno
  rw [Bool.not_eq_true] at hno
  exact h.not_finishes c (finishes_of_closed hs hno hcl)

/-- While nothing is closed, a step that closes nothing is orderly. -/
theorem Unclosed.orderly (h : Unclosed s) (hinv : Inv cfg s) (ha : staysOpen s a = true) :
    Orderly s a := by
  constructor
  · cases a with
    | finishTrylock k =>
      simp only [staysOpen, noCallAfterTeardown] at ha ⊢
      cases hpc : (s.io k).pc with
      | finish c input =>
        rw [hpc] at ha
        cases input with
        | true => exact ha
        | false => rfl
      | _ => rfl
    | _ => rfl
  · cases a with
    | acceptTake w =>
      simp only [cleanStart]
      cases hq : s.emptyConnections with
      | nil => rfl
      | cons c rest =>
        -- an object in the pool that is not closed has no buffers
        have hin : c ∈ s.emptyConnections := by simp [hq]
        have hopen : (s.conns c).closed = false := by
          by_contra hcl
          exact h.pool c (Bool.not_eq_false _ ▸ hcl) hin
        have hblank := hinv.parked.blank .emptyConnections c hin
        simp [(hblank.bufs hopen).2]
    | _ => rfl

/-! ## The step lemma -/

theorem afterResponse_ne_teardown (c c' : ConnId) (input input' : Bool) :
    IoPc.afterResponse c input ≠ .teardown c' input' := by
  cases input <;> simp [IoPc.afterResponse]

theorem dispatch_ne_teardown (c c' : ConnId) (events : EpollMask) (input : Bool) :
    IoPc.dispatch c events ≠ .teardown c' input := by
  unfold IoPc.dispatch
  repeat' split
  all_goals simp

theorem IoMove.ne_teardown {k : Nat} {c c' : ConnId} {input : Bool} {pc pc' : IoPc}
    (h : IoMove cfg s k c pc a pc') : pc' ≠ .teardown c' input := by
  cases h with
  | noResponse | sendAgain | finishRefused => exact afterResponse_ne_teardown _ _ _ _
  | _ => simp

theorem IoLocal.ne_teardown {k : Nat} {c : ConnId} {input : Bool} {w : IoWorker}
    (h : IoLocal cfg s k a w) : w.pc ≠ .teardown c input := by
  cases h with
  | fail => simp
  | dispatch => exact dispatch_ne_teardown _ _ _ _
  | move hm => exact hm.ne_teardown

/-- Only the `trylock` of `finish_connection` leads into the rest of its body. -/
theorem ne_teardown_step {k : Nat} {c : ConnId} {input : Bool} (hs : Step cfg sha1 s a s')
    (ha : staysOpen s a = true) (hold : (s.io k).pc ≠ .teardown c input) :
    (s'.io k).pc ≠ .teardown c input := by
  have hupdate : ∀ {k' w}, w.pc ≠ .teardown c input →
      (Function.update s.io k' w k).pc ≠ .teardown c input := by
    intro k' w hw
    by_cases hk : k = k'
    · subst hk
      rwa [Function.update_self]
    · rwa [Function.update_of_ne hk]
  cases hs with
  | ioLocal hl => exact hupdate hl.ne_teardown
  | ioLock hlock hpc =>
    rcases hpc with ⟨_, _, rfl, _⟩ | ⟨_, _, rfl, _⟩ | ⟨_, hfin, _, rfl⟩
    · exact hupdate (by simp)
    · exact hupdate (by simp)
    · simp [staysOpen, hfin, hlock] at ha
  | sendPart _ _ _ hpc' =>
    apply hupdate
    rcases hpc' with rfl | rfl
    · exact afterResponse_ne_teardown _ _ _ _
    · simp
  | @settleDisarm _ _ _ _ _ _ _ err =>
    apply hupdate
    cases err <;> simp
  | recvData =>
    apply hupdate
    dsimp only
    split <;> simp
  | finishRelease | finishDelegate => exact hupdate (afterResponse_ne_teardown _ _ _ _)
  | epollWait | dequeue | sendLast | recycle | settleKeep | takeBuffer | deliver =>
    exact hupdate (by simp)
  | _ => exact hold

/-- **One step that closes nothing leaves nothing closed.** -/
theorem unclosed_step (hinv : Inv cfg s) (h : Unclosed s) (ha : staysOpen s a = true)
    (hs : Step cfg sha1 s a s') : Unclosed s' where
  pool c hcl := by
    have hno := h.pool c (h.closed_before hs hcl)
    cases hs with
    | acceptTake _ hq =>
      intro hin
      apply hno
      rw [hq]
      exact List.mem_cons_of_mem _ hin
    | finishRelease hpc => exact absurd hpc (h.teardown _ _ _)
    | submitRelease hpc => exact absurd hpc (h.compare _ _)
    | _ => exact hno
  received c hcl := by
    have hcl₀ := h.closed_before hs hcl
    have hzero := h.received c hcl₀
    cases hs with
    | @accepted w c' fd ok =>
      have hne : c ≠ c' := by
        rintro rfl
        simp [acceptedConnection] at hcl
      simpa [hne] using hzero
    | @deliver k c' b hpc =>
      have hop := hinv.openAt (k := k) (c := c') (by simp [hpc, IoPc.conn])
      have hne : c ≠ c' := by
        rintro rfl
        exact Bool.false_ne_true (hop.closed.symm.trans hcl₀)
      simpa [hne] using hzero
    | ioLock | dequeue | sendLast | settleKeep | settleDisarm | takeBuffer | finishRelease
    | finishDelegate | submitLock | dispose | enqueue =>
      exact field_update_eq (·.received) rfl hzero
    | _ => exact hzero
  teardown k c input := ne_teardown_step hs ha (h.teardown k c input)
  compare j c hpc := by
    rcases submitCompare_step hs hpc with ⟨hold, -⟩ | ⟨b, ok, -, hhand, hcl⟩
    · exact h.compare j c hold
    · -- a buffer that is disposed of has been counted in `received`
      have hin := hinv.submitHand (congrArg SubmitPc.carried hhand)
      have hmem : b ∈ s.submitting c := by
        rw [hinv.mem_submitting]
        exact ⟨⟨j, by simp [ServerContext.submitLine, hhand, SubmitPc.hand]⟩, hin.2.2⟩
      have hpos := List.length_pos_of_mem hmem
      have hflow := (hinv.accounts c hin.1).flow
      rw [h.received c hcl] at hflow
      omega

/-! ## Runs -/

section Runs

variable {ok : ServerContext → Action → Prop} {bufs : BufId → ServerBuffer}

theorem unclosed_of_run (hok : ∀ s a, ok s a → staysOpen s a = true)
    (h : Run cfg sha1 ok bufs s) : Inv cfg s ∧ Unclosed s := by
  refine h.invariant (I := fun s => Inv cfg s ∧ Unclosed s) ?_ ?_
  · exact ⟨inv_init cfg bufs, unclosed_init cfg bufs⟩
  · intro s a s' _ hI hsa hstep
    have ha := hok s a hsa
    have horderly := hI.2.orderly hI.1 ha
    exact ⟨inv_step hI.1 horderly hstep, unclosed_step hI.1 hI.2 ha (step_cases hstep)⟩

/-- **As long as nothing is closed, every run is orderly.** -/
theorem Run.orderly (hok : ∀ s a, ok s a → staysOpen s a = true) (h : Run cfg sha1 ok bufs s) :
    Run cfg sha1 (fun s a => Orderly s a ∧ ok s a) bufs s := by
  apply h.strengthen
  intro s a hr hsa
  have hs := unclosed_of_run hok hr
  exact ⟨hs.2.orderly hs.1 (hok s a hsa), hsa⟩

theorem Trace.orderly (hok : ∀ s a, ok s a → staysOpen s a = true) {t : Traced}
    (h : Trace cfg sha1 ok bufs t) :
    Trace cfg sha1 (fun s a => Orderly s a ∧ ok s a) bufs t := by
  apply h.strengthen
  intro t a hr hsa
  have hs := unclosed_of_run hok (Trace.run hr)
  exact ⟨hs.2.orderly hs.1 (hok t.srv a hsa), hsa⟩

end Runs

end Piotbench.Server
