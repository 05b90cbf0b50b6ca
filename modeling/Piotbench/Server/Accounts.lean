import Piotbench.Server.Workers

/-!
# The counters of a session

A request goes through compute and through the submitter in one buffer. Three kinds of step count:
`handle_request` counts a request `received` when it hands it to compute, the submitter counts it
`processed` when it has the lock, and `handle_response` counts it `sent`. What enters and leaves
each stage is the same buffer, so the counters and the stages agree.
-/

namespace Piotbench.Server

open Places

variable {cfg : ServerConfig} {sha1 : Sha1} {s s' : ServerContext}

/-! ## From stage to stage -/

/-- The buffer of connection `c` that action `a` hands to compute. -/
def delivered (s : ServerContext) (c : ConnId) : Action → List BufId
  | .requestDeliver k =>
    match (s.io k).pc with
    | .deliver c' b => if c' = c then [b] else []
    | _ => []
  | _ => []

/-- The buffer of connection `c` that action `a` takes from compute to the submitter. -/
def computed (s : ServerContext) (c : ConnId) : Action → List BufId
  | .computeRun i _ => (s.compute i).hand.filter fun b => (s.bufs b).conn = c
  | _ => []

/-- The buffer of connection `c` that the submitter has done with after action `a`. -/
def processed (s : ServerContext) (c : ConnId) : Action → List BufId
  | .submitSection j _ =>
    match s.submit j with
    | .locked b c' => if c' = c then [b] else []
    | _ => []
  | _ => []

theorem delivered_cases (s : ServerContext) (c : ConnId) (a : Action) :
    delivered s c a = [] ∨
      ∃ k b, a = .requestDeliver k ∧ (s.io k).pc = .deliver c b ∧ delivered s c a = [b] := by
  unfold delivered
  split
  · next k =>
    split
    · next c' b hpc =>
      by_cases hcc : c' = c
      · exact .inr ⟨k, b, rfl, hcc ▸ hpc, if_pos hcc⟩
      · exact .inl (if_neg hcc)
    · exact .inl rfl
  · exact .inl rfl

theorem processed_cases (s : ServerContext) (c : ConnId) (a : Action) :
    processed s c a = [] ∨
      ∃ j ok b, a = .submitSection j ok ∧ s.submit j = .locked b c ∧ processed s c a = [b] := by
  unfold processed
  split
  · next j ok =>
    split
    · next b c' hpc =>
      by_cases hcc : c' = c
      · exact .inr ⟨j, ok, b, rfl, hcc ▸ hpc, if_pos hcc⟩
      · exact .inl (if_neg hcc)
    · exact .inl rfl
  · exact .inl rfl

theorem IoMove.quiet {k : Nat} {c c' : ConnId} {a : Action} {pc pc' : IoPc}
    (h : IoMove cfg s k c pc a pc') :
    delivered s c' a = [] ∧ computed s c' a = [] ∧ processed s c' a = [] := by
  cases h <;> exact ⟨rfl, rfl, rfl⟩

theorem ioLock_quiet {k : Nat} {c : ConnId} {a : Action}
    (h : a = .responseLock k ∨ a = .requestLock k ∨ a = .finishTrylock k) :
    delivered s c a = [] ∧ computed s c a = [] ∧ processed s c a = [] := by
  rcases h with rfl | rfl | rfl <;> exact ⟨rfl, rfl, rfl⟩

theorem IoLocal.quiet {k : Nat} {c : ConnId} {a : Action} {w : IoWorker}
    (h : IoLocal cfg s k a w) :
    delivered s c a = [] ∧ computed s c a = [] ∧ processed s c a = [] := by
  cases h with
  | fail | dispatch => exact ⟨rfl, rfl, rfl⟩
  | move hm => exact hm.quiet

/-- The line of a session at compute, read in the state before. -/
theorem computing_of_line {c : ConnId} {q : List BufId} (hk : Keeps s s' c)
    (hline : s'.computeLine (s.conns c).computeidx = q)
    (hconn : ∀ b ∈ q, (s'.bufs b).conn = (s.bufs b).conn) :
    s'.computing c = q.filter fun b => (s.bufs b).conn = c := by
  unfold ServerContext.computing
  rw [hk.computeidx, hline]
  exact List.filter_congr fun b hb => by rw [hconn b hb]

theorem submitting_of_line {c : ConnId} {q : List BufId} (hk : Keeps s s' c)
    (hline : s'.submitLine (s.conns c).submitidx = q)
    (hconn : ∀ b ∈ q, (s'.bufs b).conn = (s.bufs b).conn) :
    s'.submitting c = q.filter fun b => (s.bufs b).conn = c := by
  unfold ServerContext.submitting
  rw [hk.submitidx, hline]
  exact List.filter_congr fun b hb => by rw [hconn b hb]

/-- **Compute is a queue**: what `handle_request` delivers arrives at the end, and what is computed
leaves at the front. -/
theorem computing_step {a : Action} {c : ConnId} (h : Inv cfg s) (hs : Step cfg sha1 s a s')
    (hk : Keeps s s' c) :
    computed s c a ++ s'.computing c = s.computing c ++ delivered s c a := by
  have hconn : ∀ b ∈ s.computeLine (s.conns c).computeidx,
      (s'.bufs b).conn = (s.bufs b).conn :=
    fun b hb => conn_step h hs (h.computeLine_not_empty hb)
  have hsame : s'.computeLine (s.conns c).computeidx = s.computeLine (s.conns c).computeidx →
      s'.computing c = s.computing c := fun hline => computing_of_line hk hline hconn
  cases hs with
  | stay ha =>
    rcases ha with ⟨_, rfl⟩ | ⟨_, rfl⟩ | ⟨_, rfl⟩ <;> simp [computed, delivered]
  | ioLocal hl =>
    rw [hsame rfl, hl.quiet.1, hl.quiet.2.1]
    simp
  | ioLock _ hio =>
    have hquiet := ioLock_quiet (s := s) (c := c) (ioLock_action hio)
    rw [hsame rfl, hquiet.1, hquiet.2.1]
    simp
  | @deliver k c' b hpc =>
    -- the buffer goes to the end of a line, and belongs to the connection it was received on
    have hop := h.openAt (k := k) (c := c') (by simp [hpc, IoPc.conn])
    have hb : (s.bufs b).conn = c' := h.inFlight.recvbuf c' b hop.closed (h.pcOk hpc).1
    rw [computing_of_line hk rfl fun _ _ => rfl]
    by_cases hi : (s.conns c).computeidx = (s.conns c').computeidx
    · by_cases hcc : c' = c <;>
        simp [computed, delivered, hpc, ServerContext.computing, ServerContext.computeLine, hi, hb,
          hcc]
    · have hcc : c' ≠ c := fun hcc => hi (by rw [hcc])
      simp [computed, delivered, hpc, ServerContext.computing, ServerContext.computeLine, hi, hcc]
  | @computeGet i b rest hpc hq =>
    -- a hand and the inbox behind it are one line
    rw [hsame]
    · simp [computed, delivered]
    · simp only [ServerContext.computeLine, Function.update_apply]
      split
      · next hi => simp [hi, hpc, hq, ComputePc.hand]
      · rfl
  | @computeRun i b clock msg hpc hmsg =>
    -- the buffer in hand is the first of its line, which is the connection's or another
    have hb := (h.inFlight.compute i b (by
      simp [ServerContext.computeLine, hpc, ComputePc.hand])).2
    by_cases hi : (s.conns c).computeidx = i
    · have hline : s.computeLine i = b :: s.computeInbox i := by
        simp [ServerContext.computeLine, hpc, ComputePc.hand]
      rw [computing_of_line hk (q := s.computeInbox i)
        (by simp [ServerContext.computeLine, hi, ComputePc.hand])
        fun b' hb' => hconn b' (by rw [hi, hline]; exact List.mem_cons_of_mem _ hb')]
      simp [computed, delivered, hpc, ServerContext.computing, hi, hline, ComputePc.hand,
        ← List.filter_append]
    · have hcc : (s.bufs b).conn ≠ c := by
        rintro rfl
        exact hi hb
      rw [hsame (by simp [ServerContext.computeLine, hi])]
      simp [computed, delivered, hpc, hcc, ComputePc.hand]
  | _ => rw [hsame rfl]; simp [computed, delivered]

/-- The buffer in a submitter's hand is the first of its line, and may be another connection's. -/
theorem submitting_pop {c c' : ConnId} {j : Nat} {b : BufId} {pc : SubmitPc} (h : Inv cfg s)
    (hk : Keeps s s' c) (hpc : s.submit j = .locked b c') (hbufs : s'.bufs = s.bufs)
    (hinbox : s'.submitterInbox = s.submitterInbox)
    (hsubmit : s'.submit = Function.update s.submit j pc) (hhand : pc.hand = []) :
    (if c' = c then [b] else []) ++ s'.submitting c = s.submitting c := by
  have hb := h.submitHand (congrArg SubmitPc.carried hpc)
  rw [submitting_of_line hk rfl fun _ _ => by rw [hbufs]]
  unfold ServerContext.submitting ServerContext.submitLine
  rw [hinbox, hsubmit]
  by_cases hj : (s.conns c).submitidx = j
  · have hline : (s.submit j).hand = [b] := by rw [hpc, SubmitPc.hand]
    by_cases hcc : c' = c <;> simp [hj, hline, hhand, hb.2.2, hcc]
  · have hcc : c' ≠ c := fun hcc => hj (hcc ▸ hb.2.1)
    simp [hj, hcc]

/-- **A submitter's line is a queue**, except that after a refused `trylock` the buffer is put at
the end again. -/
theorem submitting_step {a : Action} {c : ConnId} (h : Inv cfg s) (hs : Step cfg sha1 s a s')
    (hk : Keeps s s' c) :
    processed s c a ++ s'.submitting c = s.submitting c ++ computed s c a ∨
      ∃ j b rest, a = .submitPutBack j ∧ s.submit j = .refused b c ∧
        s.submitting c = b :: rest ∧ s'.submitting c = rest ++ [b] := by
  have hconn : ∀ b ∈ s.submitLine (s.conns c).submitidx, (s'.bufs b).conn = (s.bufs b).conn :=
    fun b hb => conn_step h hs (h.submitLine_not_empty hb)
  have hsame : s'.submitLine (s.conns c).submitidx = s.submitLine (s.conns c).submitidx →
      s'.submitting c = s.submitting c := fun hline => submitting_of_line hk hline hconn
  cases hs with
  | stay ha =>
    left
    rcases ha with ⟨_, rfl⟩ | ⟨_, rfl⟩ | ⟨_, rfl⟩ <;> simp [processed, computed]
  | ioLocal hl =>
    left
    rw [hsame rfl, hl.quiet.2.1, hl.quiet.2.2]
    simp
  | ioLock _ hio =>
    left
    have hquiet := ioLock_quiet (s := s) (c := c) (ioLock_action hio)
    rw [hsame rfl, hquiet.2.1, hquiet.2.2]
    simp
  | @computeRun i b clock msg hpc hmsg =>
    left
    rw [submitting_of_line hk rfl ?_]
    · by_cases hj : (s.conns c).submitidx = (s.conns (s.bufs b).conn).submitidx
      · simp [processed, computed, hpc, ServerContext.submitting, ServerContext.submitLine, hj,
          ComputePc.hand]
      · have hcc : (s.bufs b).conn ≠ c := fun hcc => hj (by rw [hcc])
        simp [processed, computed, hpc, ServerContext.submitting, ServerContext.submitLine, hj,
          ComputePc.hand, hcc]
    · intro b' _
      simp only [Function.update_apply]
      split <;> simp_all
  | @submitGet j b rest hpc hq =>
    left
    rw [hsame]
    · simp [processed, computed]
    · simp only [ServerContext.submitLine, Function.update_apply]
      split
      · next hj => simp [hj, hpc, hq, SubmitPc.hand]
      · rfl
  | @submitBack j b c' hpc =>
    have hb := h.submitHand (congrArg SubmitPc.carried hpc)
    have hline : s.submitLine j = b :: s.submitterInbox j := by
      simp [ServerContext.submitLine, hpc, SubmitPc.hand]
    by_cases hcc : c' = c
    · -- the buffer is overtaken by the others of its connection
      subst hcc
      right
      refine ⟨j, b, (s.submitterInbox j).filter fun b => (s.bufs b).conn = c', rfl, hpc, ?_, ?_⟩
      · simp [ServerContext.submitting, hb.2.1, hline, hb.2.2]
      · rw [submitting_of_line hk rfl fun _ _ => rfl]
        simp [ServerContext.submitLine, hb.2.1, SubmitPc.hand, hb.2.2]
    · left
      rw [submitting_of_line hk rfl fun _ _ => rfl]
      by_cases hj : (s.conns c).submitidx = j
      · simp [processed, computed, ServerContext.submitting, ServerContext.submitLine, hj, hpc,
          SubmitPc.hand, hb.2.2, hcc]
      · simp [processed, computed, ServerContext.submitting, ServerContext.submitLine, hj]
  | submitRefused hpc | submitLock hpc =>
    left
    rw [hsame]
    · simp [processed, computed]
    · exact congrArg (· ++ _) (submitHand_update (by rw [hpc]; rfl) _)
  | dispose hpc =>
    -- the first of the line is counted, whether its connection is closed or open
    left
    rw [← submitting_pop h hk hpc rfl rfl rfl rfl]
    simp [processed, computed, hpc]
  | @enqueue j b c' ok hpc _ kern err =>
    left
    rw [← submitting_pop h hk hpc rfl rfl rfl (by cases err <;> rfl)]
    simp [processed, computed, hpc]
  | submitRelease hpc | submitNext hpc =>
    left
    rw [hsame]
    · simp [processed, computed]
    · exact congrArg (· ++ _) (submitHand_update (by rw [hpc]; rfl) _)
  | _ =>
    left
    rw [hsame rfl]
    simp [processed, computed]

theorem submitting_perm {a : Action} {c : ConnId} (h : Inv cfg s) (hs : Step cfg sha1 s a s')
    (hk : Keeps s s' c) :
    (processed s c a ++ s'.submitting c).Perm (s.submitting c ++ computed s c a) := by
  rcases submitting_step h hs hk with heq | ⟨j, b, rest, rfl, _, hold, hnew⟩
  · exact .of_eq heq
  · simp [hold, hnew, processed, computed]

/-! ## The counters -/

theorem received_step {a : Action} {c : ConnId} (hs : Step cfg sha1 s a s')
    (hin : s.InSession c) :
    (s'.conns c).received = (s.conns c).received + (delivered s c a).length := by
  cases hs with
  | stay ha => rcases ha with ⟨_, rfl⟩ | ⟨_, rfl⟩ | ⟨_, rfl⟩ <;> rfl
  | ioLocal hl => simp [hl.quiet.1]
  | ioLock _ hio =>
    rw [(ioLock_quiet (ioLock_action hio)).1]
    apply field_update (·.received)
    rfl
  | @accepted w c' fd ok hpc =>
    have hne : c ≠ c' := (hin.ne (mem_parked_took hpc)).symm
    simp [delivered, hne]
  | @deliver k c' b hpc =>
    by_cases hcc : c = c'
    · simp [delivered, hpc, hcc]
    · simp [delivered, hpc, hcc, Ne.symm hcc]
  | dequeue | sendLast | settleKeep | settleDisarm | takeBuffer
  | finishRelease | finishDelegate | submitLock | dispose | enqueue =>
    apply field_update (·.received)
    rfl
  | _ => rfl

theorem processed_step {a : Action} {c : ConnId} (hs : Step cfg sha1 s a s')
    (hin : s.InSession c) :
    (s'.conns c).processed = (s.conns c).processed + (processed s c a).length := by
  cases hs with
  | stay ha => rcases ha with ⟨_, rfl⟩ | ⟨_, rfl⟩ | ⟨_, rfl⟩ <;> rfl
  | ioLocal hl => simp [hl.quiet.2.2]
  | ioLock _ hio =>
    rw [(ioLock_quiet (ioLock_action hio)).2.2]
    apply field_update (·.processed)
    rfl
  | @accepted w c' fd ok hpc =>
    have hne : c ≠ c' := (hin.ne (mem_parked_took hpc)).symm
    simp [processed, hne]
  | @dispose j b c' ok hpc | @enqueue j b c' ok hpc =>
    by_cases hcc : c = c'
    · simp [processed, hpc, hcc]
    · simp [processed, hpc, hcc, Ne.symm hcc]
  | dequeue | sendLast | settleKeep | settleDisarm | takeBuffer | deliver
  | finishRelease | finishDelegate | submitLock =>
    apply field_update (·.processed)
    rfl
  | _ => rfl

/-- A step from an open connection keeps `processed` the number of responses sent or waiting. -/
theorem output_step {a : Action} {c : ConnId} (h : Inv cfg s) (hs : Step cfg sha1 s a s')
    (hin : s.InSession c) (hcl : (s'.conns c).closed = false) :
    (s'.conns c).processed = (s'.conns c).sent + (s'.conns c).sendQueue.length
      + (s'.conns c).sendbuf.toList.length := by
  have hcl₀ := open_before hs hin hcl
  have hout := (h.accounts c hin).output hcl₀
  cases hs with
  | @accepted w c' fd ok hpc =>
    have hne : c ≠ c' := (hin.ne (mem_parked_took hpc)).symm
    simpa [hne] using hout
  | @sendLast k c' input b n hpc =>
    have hb : (s.conns c').sendbuf = some b := h.pcOk hpc
    simp only [goto_conns, Function.update_apply]
    split
    · next hcc =>
      subst hcc
      simp [hb] at hout ⊢
      omega
    · exact hout
  | dequeue | enqueue =>
    simp only [goto_conns, Function.update_apply]
    split
    · next hcc =>
      subst hcc
      simp_all
      omega
    · exact hout
  | dispose | finishRelease | finishDelegate =>
    -- the connection that the step is about is closed, so not this one
    simp only [goto_conns, Function.update_apply] at hcl ⊢
    split <;> simp_all
  | ioLock | settleKeep | settleDisarm | takeBuffer | deliver | submitLock =>
    simp only [goto_conns, Function.update_apply]
    split
    · next hcc => exact hcc ▸ hout
    · exact hout
  | _ => exact hout

/-! ## The step lemma -/

/-- No buffer at compute belongs to an object that is not in a session. -/
theorem parked_computing {c : ConnId} (h : Inv cfg s) (hnot : ¬ s.InSession c)
    (hline : ∀ i, s'.computeLine i = s.computeLine i) (hbufs : s'.bufs = s.bufs) :
    s'.computing c = [] := by
  simp only [ServerContext.computing, hline, hbufs, List.filter_eq_nil_iff, decide_eq_true_eq]
  intro b hb hc
  exact hnot (hc ▸ (h.inFlight.compute _ b hb).1)

/-- No buffer at a submitter belongs to an object that is not in a session. -/
theorem parked_submitting {c : ConnId} (h : Inv cfg s) (hnot : ¬ s.InSession c)
    (hline : ∀ j, s'.submitLine j = s.submitLine j) (hbufs : s'.bufs = s.bufs) :
    s'.submitting c = [] := by
  simp only [ServerContext.submitting, hline, hbufs, List.filter_eq_nil_iff, decide_eq_true_eq]
  intro b hb hc
  exact hnot (hc ▸ (h.inFlight.submit _ b hb).1)

theorem Accounts.fresh {c : ConnId} (hcomp : s.computing c = []) (hsub : s.submitting c = [])
    (hzero : (s.conns c).received = 0 ∧ (s.conns c).processed = 0 ∧ (s.conns c).sent = 0)
    (hempty : (s.conns c).sendQueue = [] ∧ (s.conns c).sendbuf = none) : Accounts s c where
  flow := by simp [hcomp, hsub, hzero]
  output _ := by simp [hzero, hempty]

/-- A session that `handle_accept` has just begun starts from zero. -/
theorem accounts_fresh {c : ConnId} (h : Inv cfg s) {w : Nat} {fd : Fd} {ok : Bool}
    (hpc : s.accept w = .took c) (hs : Step cfg sha1 s (.acceptInit w (some fd) ok) s') :
    Accounts s' c := by
  obtain ⟨-, kern, err, -, rfl⟩ := hs.accepted_cases hpc
  have hnot : ¬ s.InSession c := fun hin => hin.notParked _ (mem_parked_took hpc)
  refine .fresh (parked_computing h hnot (fun _ => rfl) rfl)
    (parked_submitting h hnot (fun _ => rfl) rfl) ?_ ?_
  · simp [acceptedConnection]
  · simp [acceptedConnection, h.parked.fresh w c hpc]

/-- **One step keeps the accounts of every session.** -/
theorem accounts_step {a : Action} {c : ConnId} (h : Inv cfg s) (hs : Step cfg sha1 s a s')
    (hin : s'.InSession c) : Accounts s' c := by
  rcases session_back hs hin with hold | ⟨w, fd, ok, rfl, hpc⟩
  · have hrel : ¬ Released s c a := fun hrel => hrel.not_inSession hs hin
    have hk := keeps_step hs hold hrel
    refine ⟨?_, output_step h hs hold⟩
    have hflow := (h.accounts c hold).flow
    have hcomp := congrArg List.length (computing_step h hs hk)
    have hsubm := (submitting_perm h hs hk).length_eq
    rw [received_step hs hold, processed_step hs hold]
    simp only [List.length_append] at hcomp hsubm
    omega
  · exact accounts_fresh h hpc hs

end Piotbench.Server
