import Piotbench.Server.Reuse

/-!
# What the counters say, and when `EPOLLOUT` is asked for

The three counters of an open session account for its buffers (`counters_account`). So the test
`processed == sent` in `handle_response` is exact, and `EPOLLOUT` is only taken out when there is
nothing to send: as long as `epoll_ctl` succeeds, no response waits without it (`no_lost_wakeup`).
-/

namespace Piotbench.Server

open Places Transition

variable {cfg : ServerConfig} {sha1 : Sha1} {bufs : BufId → ServerBuffer}

/-! ## Counters -/

section Counters

variable {s : ServerContext} {c : ConnId}

theorem nodup_computing (h : Inv cfg s) : (s.computing c).Nodup := by
  refine List.Nodup.filter _ (List.nodup_append.mpr ⟨?_, ?_, ?_⟩)
  · exact h.owned.nodup (.computeHand (s.conns c).computeidx)
  · exact h.owned.nodup (.computeInbox (s.conns c).computeidx)
  · intro b hb b' hb'
    exact h.owned.ne (p := .computeHand (s.conns c).computeidx)
      (q := .computeInbox (s.conns c).computeidx) hb hb' (by simp)

theorem nodup_submitting (h : Inv cfg s) : (s.submitting c).Nodup := by
  refine List.Nodup.filter _ (List.nodup_append.mpr ⟨?_, ?_, ?_⟩)
  · exact h.owned.nodup (.submitterHand (s.conns c).submitidx)
  · exact h.owned.nodup (.submitterInbox (s.conns c).submitidx)
  · intro b hb b' hb'
    exact h.owned.ne (p := .submitterHand (s.conns c).submitidx)
      (q := .submitterInbox (s.conns c).submitidx) hb hb' (by simp)

/-- No buffer is at compute and at a submitter. -/
theorem computing_ne_submitting (h : Inv cfg s) {b b' : BufId} (hb : b ∈ s.computing c)
    (hb' : b' ∈ s.submitting c) : b ≠ b' := by
  obtain ⟨⟨i, hi⟩, -⟩ := h.mem_computing.mp hb
  obtain ⟨⟨j, hj⟩, -⟩ := h.mem_submitting.mp hb'
  rcases mem_computeLine.mp hi with hi | hi <;> rcases mem_submitLine.mp hj with hj | hj
  · exact h.owned.ne (p := .computeHand i) (q := .submitterHand j) hi hj (by simp)
  · exact h.owned.ne (p := .computeHand i) (q := .submitterInbox j) hi hj (by simp)
  · exact h.owned.ne (p := .computeInbox i) (q := .submitterHand j) hi hj (by simp)
  · exact h.owned.ne (p := .computeInbox i) (q := .submitterInbox j) hi hj (by simp)

/-- The buffers of connection `c` that are in or held at compute or a submitter. -/
def ServerContext.IsInFlight (s : ServerContext) (c : ConnId) (b : BufId) : Prop :=
  ((∃ i, b ∈ s.computeLine i) ∨ ∃ j, b ∈ s.submitLine j) ∧ (s.bufs b).conn = c

/-- The buffers in flight, listed once each. -/
theorem exists_inFlight (h : Inv cfg s) (c : ConnId) : ∃ l : List BufId, l.Nodup ∧
    (∀ b, b ∈ l ↔ s.IsInFlight c b) ∧
    l.length = (s.computing c).length + (s.submitting c).length := by
  refine ⟨s.computing c ++ s.submitting c, ?_, fun b => ?_, List.length_append⟩
  · exact List.nodup_append.mpr ⟨nodup_computing h, nodup_submitting h, fun b hb b' hb' =>
      computing_ne_submitting h hb hb'⟩
  · rw [List.mem_append, h.mem_computing, h.mem_submitting, ← or_and_right]
    rfl

end Counters

/-- The two equations between the counters of a connection and the places of its buffers. -/
structure Acc (s : ServerContext) (c : ConnId) : Prop where
  output : (s.conns c).processed
    = (s.conns c).sent + (s.conns c).sendQueue.length + if (s.conns c).sendbuf.isSome then 1 else 0
  flow : ∃ l : List BufId, l.Nodup ∧ (∀ b, b ∈ l ↔ s.IsInFlight c b) ∧
    (s.conns c).received = (s.conns c).processed + l.length

theorem length_sendbuf (b : Option BufId) : b.toList.length = if b.isSome then 1 else 0 := by
  cases b <;> rfl

theorem Inv.acc {s : ServerContext} {c : ConnId} (h : Inv cfg s) (hin : s.InSession c)
    (hcl : (s.conns c).closed = false) : Acc s c := by
  have ha := h.accounts c hin
  obtain ⟨l, hnd, hmem, hlen⟩ := exists_inFlight h c
  refine ⟨?_, l, hnd, hmem, ?_⟩
  · rw [ha.output hcl, length_sendbuf]
  · rw [ha.flow, hlen, Nat.add_assoc]

/-- **Counter accounting.** In every state of an orderly run, the counters of every open session
account for its buffers; `sent ≤ processed ≤ received`; and `processed` equals `sent` exactly when
nothing is queued or half sent. -/
theorem counters_account {s : ServerContext} (h : Run cfg sha1 Orderly bufs s) {c : ConnId}
    (hin : s.InSession c) (hcl : (s.conns c).closed = false) :
    Acc s c ∧ (s.conns c).sent ≤ (s.conns c).processed ∧
      (s.conns c).processed ≤ (s.conns c).received ∧
      ((s.conns c).processed = (s.conns c).sent ↔
        (s.conns c).sendQueue = [] ∧ (s.conns c).sendbuf = none) := by
  have hacc := (inv_of_run (fun _ _ => id) h).acc hin hcl
  obtain ⟨hout, l, hnd, hmem, hflow⟩ := hacc
  refine ⟨⟨hout, l, hnd, hmem, hflow⟩, by omega, by omega, ?_⟩
  cases hb : (s.conns c).sendbuf with
  | none =>
    rw [hb, Option.isSome_none, if_neg Bool.false_ne_true] at hout
    rw [and_iff_left rfl, ← List.length_eq_zero_iff]
    omega
  | some b =>
    rw [hb, Option.isSome_some, if_pos rfl] at hout
    simp only [reduceCtorEq, and_false, iff_false]
    omega

theorem counters_account_respond : ∃ s, Run smallServer zeroSha1 Orderly blankBuffers s ∧
    (s.conns 0).sendbuf = some 0 ∧ Acc s 0 := by
  obtain ⟨t, ht, hpc⟩ := exists_respond
  have hinv := inv_of_trace (fun _ _ => id) ht
  have hop := hinv.openAt (k := 0) (c := 0) (by simp [hpc, IoPc.conn])
  exact ⟨t.srv, Trace.run ht, hinv.pcOk hpc, (counters_account (Trace.run ht) hop.session
    hop.closed).1⟩

/-! ## `EPOLLOUT` -/

/-- Every call of `epoll_ctl` succeeds. -/
def ctlOk : Action → Bool
  | .acceptInit _ _ ok | .responseSettle _ ok | .submitSection _ ok => ok
  | _ => true

/-- What is registered for a connection is what it has cached, and `EPOLLOUT` is in it while
something is to be sent. -/
structure Armed (s : ServerContext) (c : ConnId) : Prop where
  mirror : s.kernel.interest (s.conns c).fd
    = some ⟨(s.conns c).epollFd, (s.conns c).epollState, c⟩
  output : (s.conns c).processed ≠ (s.conns c).sent → (s.conns c).epollState.has epollOut = true

section Step

variable {s s' : ServerContext} {a : Action} {c c' : ConnId}

theorem Armed.live (h : Armed s c) : s.Live (s.conns c).epollFd c := ⟨_, h.mirror⟩

/-- A step that changes no registration of `c` and none of what `Armed` reads. -/
theorem Armed.same (h : Armed s c)
    (hint : s'.kernel.interest (s.conns c).fd = s.kernel.interest (s.conns c).fd)
    (hfd : (s'.conns c).fd = (s.conns c).fd) (hep : (s'.conns c).epollFd = (s.conns c).epollFd)
    (hst : (s'.conns c).epollState = (s.conns c).epollState)
    (hp : (s'.conns c).processed = (s.conns c).processed)
    (hsent : (s'.conns c).sent = (s.conns c).sent) : Armed s' c := by
  constructor
  · rw [hfd, hint, hep, hst]
    exact h.mirror
  · rw [hp, hsent, hst]
    exact h.output

/-- A step on another connection. -/
theorem Armed.other (h : Armed s c)
    (hint : s'.kernel.interest (s.conns c).fd = s.kernel.interest (s.conns c).fd)
    (hconn : s'.conns c = s.conns c) : Armed s' c := by
  apply h.same hint <;> rw [hconn]

/-- Setting the mask of a registered connection keeps every other one as it was. -/
theorem EpollSet.interest_other {kern : Kernel} {conn : ServerConnection} {new : EpollMask}
    {ok err : Bool} {k k' : Nat} (hset : EpollSet s.kernel c' conn new ok kern err)
    (hfd : conn.fd = (s.conns c').fd) (hl : s.Live k c) (hl' : s.Live k' c') (hne : c ≠ c') :
    kern.interest (s.conns c).fd = s.kernel.interest (s.conns c).fd :=
  hset.interest_of_ne (hfd ▸ Live.fd_ne hl hl' hne)

/-- **One step keeps an open session armed.** -/
theorem armed_step (h : Inv cfg s) (hs : Step cfg sha1 s a s') (hctl : ctlOk a = true)
    (hin : s.InSession c) (hcl : (s'.conns c).closed = false) (hold : Armed s c) :
    Armed s' c := by
  have hcl₀ := open_before hs hin hcl
  have hop := h.openAt_of_live hold.live
  cases hs with
  | @accepted w c' fd ok hpc hfd _ _ _ kern err hres =>
    -- the kernel hands out a descriptor that is not open, so not the one of `c`
    have hne : c ≠ c' := (hin.ne (mem_parked_took hpc)).symm
    have hfd' : (s.conns c).fd ≠ fd := by
      rintro rfl
      exact Bool.false_ne_true (hfd.symm.trans hop.isOpen)
    exact hold.other (hres.interest_of_ne hfd') (by simp [hne])
  | @sendLast k c' input b n hpc =>
    by_cases hcc : c = c'
    · subst hcc
      -- there was something to send, so `EPOLLOUT` is in already
      have hb : (s.conns c).sendbuf = some b := h.pcOk hpc
      have hout := (h.accounts c hin).output hcl₀
      simp only [hb, Option.toList_some, List.length_singleton] at hout
      have harmed := hold.output (by omega)
      constructor
      · simpa using hold.mirror
      · simpa using fun _ => harmed
    · exact hold.other rfl (by simp [hcc])
  | @settleDisarm k c' input ok hpc heq kern err hres =>
    by_cases hcc : c = c'
    · subst hcc
      obtain rfl : ok = true := hctl
      have hnew := hres.mirror hop.isOpen hold.mirror (ne_zero_of_has hop.input)
        (ne_zero_of_has (b := epollIn) (by simp [hop.input]))
      constructor
      · simpa using hnew.1
      · -- it is taken out only when there is nothing to send
        simp [heq]
    · have hl' := h.live (k := k) (c := c') (by simp [hpc, IoPc.conn])
      exact hold.other (hres.interest_other rfl hold.live hl' hcc) (by simp [hcc])
  | @enqueue j b c' ok hpc hcl' kern err hres =>
    by_cases hcc : c = c'
    · subst hcc
      obtain rfl : ok = true := hctl
      have hnew := hres.mirror hop.isOpen hold.mirror (ne_zero_of_has hop.input)
        (ne_zero_of_has (b := epollIn) (by simp [hop.input]))
      constructor
      · simpa using hnew.1
      · intro _
        simp
    · have hl' := h.live_of_locked hpc hcl'
      exact hold.other (hres.interest_other rfl hold.live hl' hcc) (by simp [hcc])
  | @dispose j b c' ok hpc hcl' =>
    have hcc : c ≠ c' := by
      rintro rfl
      exact Bool.false_ne_true (hcl₀.symm.trans hcl')
    exact hold.other rfl (by simp [hcc])
  | @finishRelease k c' input hpc | @finishDelegate k c' input hpc =>
    have hcc : c ≠ c' := by
      rintro rfl
      simp at hcl
    have hl' := h.live (k := k) (c := c') (by simp [hpc, IoPc.conn])
    have hfd := Live.fd_ne hold.live hl' hcc
    exact hold.other (by simp [Kernel.close, hfd]) (by simp [hcc])
  | ioLock | dequeue | settleKeep | takeBuffer | deliver | submitLock =>
    exact hold.same rfl (field_update (·.fd) rfl) (field_update (·.epollFd) rfl)
      (field_update (·.epollState) rfl) (field_update (·.processed) rfl)
      (field_update (·.sent) rfl)
  | _ => exact hold.same rfl rfl rfl rfl rfl rfl

/-- A session that `handle_accept` has just begun is armed. -/
theorem armed_fresh (h : Inv cfg s) (hs : Step cfg sha1 s a s') (hctl : ctlOk a = true)
    (hnew : ¬ s.InSession c) (hin' : s'.InSession c) : Armed s' c := by
  rcases session_back hs hin' with hold | ⟨w, fd, ok, rfl, hpc⟩
  · exact absurd hold hnew
  · obtain ⟨hfd, kern, err, hres, rfl⟩ := hs.accepted_cases hpc
    have hnone : s.kernel.interest fd = none := by
      cases hi : s.kernel.interest fd with
      | none => rfl
      | some i => exact absurd (h.watched fd i hi).isOpen (by simp [hfd])
    obtain rfl : ok = true := hctl
    have hreg := hres.fresh (by simp [acceptedConnection]) hnone rfl (by decide)
    constructor
    · simpa [acceptedConnection] using hreg.2
    · simp [acceptedConnection]

end Step

/-- **Every open session is armed** in every orderly run in which `epoll_ctl` succeeds. -/
theorem armed_of_run {s : ServerContext}
    (h : Run cfg sha1 (fun s a => Orderly s a ∧ ctlOk a = true) bufs s) {c : ConnId}
    (hin : s.InSession c) (hcl : (s.conns c).closed = false) : Armed s c := by
  have hall : ∀ s a, Orderly s a ∧ ctlOk a = true → Orderly s a := fun _ _ => And.left
  refine h.invariant (I := fun s => ∀ c, s.InSession c → (s.conns c).closed = false → Armed s c)
    ?_ ?_ c hin hcl
  · intro c hin hcl
    have hlive := (inv_init cfg bufs).sessions c hin hcl
    obtain ⟨_, hi⟩ := hlive
    cases hi
  · intro s a s' hr hI hok hstep c hin' hcl
    have hs := step_cases hstep
    have hinv := inv_of_run hall hr
    by_cases hin : s.InSession c
    · exact armed_step hinv hs hok.2 hin hcl (hI c hin (open_before hs hin hcl))
    · exact armed_fresh hinv hs hok.2 hin hin'

/-- **No lost wake-up.** With every `epoll_ctl` succeeding, the kernel's mask of an open session is
the cached one and contains `EPOLLIN`; and a session with `processed` and `sent` different, or with
a response in its send queue or in `sendbuf`, has `EPOLLOUT` in it. The sections under the lock are
single steps, so every state is one in which the lock is free or the section has not begun. -/
theorem no_lost_wakeup {s : ServerContext}
    (h : Run cfg sha1 (fun s a => Orderly s a ∧ ctlOk a = true) bufs s) {c : ConnId}
    (hin : s.InSession c) (hcl : (s.conns c).closed = false) :
    s.kernel.interest (s.conns c).fd
        = some ⟨(s.conns c).epollFd, (s.conns c).epollState, c⟩ ∧
      (s.conns c).epollState.has epollIn = true ∧
      ((s.conns c).processed ≠ (s.conns c).sent →
        (s.conns c).epollState.has epollOut = true) ∧
      ((s.conns c).sendQueue ≠ [] ∨ (s.conns c).sendbuf ≠ none →
        (s.conns c).epollState.has epollOut = true) := by
  have hall : ∀ s a, Orderly s a ∧ ctlOk a = true → Orderly s a := fun _ _ => And.left
  have harmed := armed_of_run h hin hcl
  have hinv := inv_of_run hall h
  refine ⟨harmed.mirror, (hinv.openAt_of_live harmed.live).input, harmed.output, ?_⟩
  intro hwait
  apply harmed.output
  have hout := (hinv.acc hin hcl).output
  rcases hwait with hq | hb
  · have := List.length_pos_iff.mpr hq
    omega
  · rw [if_pos (Option.isSome_iff_ne_none.mpr hb)] at hout
    omega

theorem no_lost_wakeup_respond : ∃ s,
    Run smallServer zeroSha1 (fun s a => Orderly s a ∧ ctlOk a = true) blankBuffers s ∧
    (s.conns 0).sendbuf = some 0 ∧ (s.conns 0).epollState.has epollOut = true := by
  have hall : ∀ s a, Orderly s a ∧ ctlOk a = true → Orderly s a := fun _ _ => And.left
  have hrun := exists_reachable_of_run respond (fun t => decide ((t.srv.io 0).pc = .send 0 false 0))
    (by decide +kernel : (run (tstep smallServer zeroSha1)
      (fun t a => Orderly t.srv a ∧ ctlOk a = true)
      (.init smallServer blankBuffers) respond).map _ = some true)
  obtain ⟨t, ht, hp⟩ := hrun
  have hpc := of_decide_eq_true hp
  have hs : Run smallServer zeroSha1 (fun s a => Orderly s a ∧ ctlOk a = true) blankBuffers t.srv :=
    Trace.run ht
  have hinv := inv_of_run hall hs
  have hop := hinv.openAt (k := 0) (c := 0) (by simp [hpc, IoPc.conn])
  have hb : (t.srv.conns 0).sendbuf = some 0 := hinv.pcOk hpc
  exact ⟨t.srv, hs, hb, (no_lost_wakeup hs hop.session hop.closed).2.2.2 (.inr (by simp [hb]))⟩

end Piotbench.Server
