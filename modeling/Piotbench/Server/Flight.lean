import Piotbench.Server.Pool

/-!
# Buffers at compute and at the submitters

A buffer that travels from `handle_request` to the send queue carries its connection in
`buff->conn`. This module shows that the connection is still in a session when the buffer arrives,
and that the workers it waits for are that session's own.
-/

namespace Piotbench.Server

open Places

variable {cfg : ServerConfig} {sha1 : Sha1} {s s' : ServerContext}

/-! ## The tag of a buffer -/

theorem mem_computeLine {i : Nat} {b : BufId} :
    b ∈ s.computeLine i ↔ b ∈ s.owned (.computeHand i) ∨ b ∈ s.owned (.computeInbox i) :=
  List.mem_append

theorem mem_submitLine {j : Nat} {b : BufId} :
    b ∈ s.submitLine j ↔ b ∈ s.owned (.submitterHand j) ∨ b ∈ s.owned (.submitterInbox j) :=
  List.mem_append

/-- A buffer at compute is not in the pool. -/
theorem Inv.computeLine_not_empty {i : Nat} {b : BufId} (h : Inv cfg s)
    (hb : b ∈ s.computeLine i) : b ∉ s.emptyBuffers := by
  intro he
  rcases mem_computeLine.mp hb with hb | hb <;>
    cases h.owned.unique hb (q := .emptyBuffers) he

/-- A buffer at a submitter is not in the pool. -/
theorem Inv.submitLine_not_empty {j : Nat} {b : BufId} (h : Inv cfg s)
    (hb : b ∈ s.submitLine j) : b ∉ s.emptyBuffers := by
  intro he
  rcases mem_submitLine.mp hb with hb | hb <;>
    cases h.owned.unique hb (q := .emptyBuffers) he

theorem Inv.queue_not_empty {c : ConnId} {b : BufId} (h : Inv cfg s)
    (hb : b ∈ (s.conns c).sendQueue) : b ∉ s.emptyBuffers := by
  intro he
  cases h.owned.unique (p := .sendQueue c) hb (q := .emptyBuffers) he

theorem Inv.recvbuf_not_empty {c : ConnId} {b : BufId} (h : Inv cfg s)
    (hcl : (s.conns c).closed = false) (hb : (s.conns c).recvbuf = some b) :
    b ∉ s.emptyBuffers := by
  intro he
  cases h.owned.unique (mem_owned_recvbuf hcl hb) (q := .emptyBuffers) he

/-- **A buffer keeps its connection** until it is back in the pool. -/
theorem conn_step {a : Action} {b : BufId} (h : Inv cfg s) (hs : Step cfg sha1 s a s')
    (hb : b ∉ s.emptyBuffers) : (s'.bufs b).conn = (s.bufs b).conn := by
  cases hs with
  | @dequeue k c input b' rest hpc _ hq =>
    by_cases hbb : b = b'
    · subst hbb
      simp [h.inFlight.queue c b (by simp [hq])]
    · simp [hbb]
  | @takeBuffer k c b' rest hpc _ _ hq =>
    have hbb : b ≠ b' := by
      rintro rfl
      exact hb (by simp [hq])
    simp [hbb]
  | @sendPart k c input b' | @sendLast k c input b' | @recvData k c b' | @computeRun i b' =>
    by_cases hbb : b = b'
    · subst hbb
      simp
    · simp [hbb]
  | _ => rfl

/-! ## What arrives where -/

/-- Only `handle_request` adds to a compute worker's line. -/
theorem mem_computeLine_step {a : Action} {i : Nat} {b : BufId}
    (hs : Step cfg sha1 s a s') (hb : b ∈ s'.computeLine i) :
    b ∈ s.computeLine i ∨
      ∃ k c, a = .requestDeliver k ∧ (s.io k).pc = .deliver c b ∧
        i = (s.conns c).computeidx := by
  cases hs with
  | @deliver k c b' hpc =>
    simp only [ServerContext.computeLine, goto_compute, goto_computeInbox,
      Function.update_apply] at hb ⊢
    grind
  | @computeGet i' b' rest hpc hq =>
    simp only [ServerContext.computeLine, Function.update_apply] at hb ⊢
    grind [ComputePc.hand]
  | @computeRun i' b' clock msg hpc =>
    simp only [ServerContext.computeLine, Function.update_apply] at hb ⊢
    grind [ComputePc.hand]
  | _ => exact .inl hb

/-- Only a compute worker adds to a submitter's line. -/
theorem mem_submitLine_step {a : Action} {j : Nat} {b : BufId}
    (hs : Step cfg sha1 s a s') (hb : b ∈ s'.submitLine j) :
    b ∈ s.submitLine j ∨
      ∃ i clock, a = .computeRun i clock ∧ s.compute i = .got b ∧
        j = (s.conns (s.bufs b).conn).submitidx := by
  cases hs with
  | @computeRun i b' clock msg hpc =>
    simp only [ServerContext.submitLine, Function.update_apply] at hb ⊢
    grind
  | submitGet | submitRefused | submitBack | submitLock | dispose | enqueue | submitRelease
  | submitNext =>
    simp only [ServerContext.submitLine, Function.update_apply] at hb ⊢
    grind [SubmitPc.hand]
  | _ => exact .inl hb

/-- Only a submitter adds to a send queue. -/
theorem mem_sendQueue_step {a : Action} {c : ConnId} {b : BufId} (hs : Step cfg sha1 s a s')
    (hb : b ∈ (s'.conns c).sendQueue) :
    b ∈ (s.conns c).sendQueue ∨ ∃ j, s.submit j = .locked b c := by
  cases hs with
  | accepted | ioLock | dequeue | sendLast | settleKeep | settleDisarm | takeBuffer | deliver
  | finishRelease | finishDelegate | submitLock | dispose | enqueue =>
    simp only [goto_conns, Function.update_apply] at hb
    grind [acceptedConnection]
  | _ => exact .inl hb

/-- Only `handle_request` sets `recvbuf`. -/
theorem recvbuf_step {a : Action} {c : ConnId} {b : BufId} (hs : Step cfg sha1 s a s')
    (hcl : (s'.conns c).closed = false) (hb : (s'.conns c).recvbuf = some b) :
    ((s.conns c).closed = false ∧ (s.conns c).recvbuf = some b) ∨ (s'.bufs b).conn = c := by
  cases hs with
  | accepted | ioLock | dequeue | sendLast | settleKeep | settleDisarm | takeBuffer | deliver
  | finishRelease | finishDelegate | submitLock | dispose | enqueue =>
    simp only [goto_conns, goto_bufs, Function.update_apply] at hb hcl ⊢
    grind [acceptedConnection]
  | _ => exact .inl ⟨hcl, hb⟩

/-- What a submitter holds it held before, or it has just taken it from its inbox. -/
theorem submitHand_step {a : Action} {j : Nat} {b : BufId} {c : ConnId}
    (hs : Step cfg sha1 s a s') (hpc : (s'.submit j).carried = some (b, c)) :
    (s.submit j).carried = some (b, c) ∨ b ∈ s.submitterInbox j ∧ (s.bufs b).conn = c := by
  cases hs with
  | submitGet | submitRefused | submitBack | submitLock | dispose | enqueue | submitRelease
  | submitNext =>
    simp only [Function.update_apply] at hpc
    grind [SubmitPc.carried]
  | _ => exact .inl hpc

theorem IoMove.not_submitCompare {k : Nat} {c : ConnId} {a : Action} {pc pc' : IoPc}
    (h : IoMove cfg s k c pc a pc') (j : Nat) : a ≠ .submitCompare j := by
  cases h <;> simp

theorem IoLocal.not_submitCompare {k : Nat} {a : Action} {w : IoWorker}
    (h : IoLocal cfg s k a w) (j : Nat) : a ≠ .submitCompare j := by
  cases h with
  | fail | dispatch => simp
  | move hm => exact hm.not_submitCompare j

/-- A submitter compares the counters of a connection for which it has just disposed of a
buffer. -/
theorem submitCompare_step {a : Action} {j : Nat} {c : ConnId}
    (hs : Step cfg sha1 s a s') (hpc : s'.submit j = .compare c) :
    (s.submit j = .compare c ∧ a ≠ .submitCompare j) ∨
      ∃ b ok, a = .submitSection j ok ∧ s.submit j = .locked b c ∧
        (s.conns c).closed = true := by
  cases hs with
  | @dispose j' b' c' ok hpc' hcl =>
    by_cases hj : j = j'
    · subst hj
      simp only [Function.update_self, SubmitPc.compare.injEq] at hpc
      subst hpc
      exact .inr ⟨b', ok, rfl, hpc', hcl⟩
    · simp only [Function.update_of_ne hj] at hpc
      exact .inl ⟨hpc, by simp⟩
  | submitGet | submitRefused | submitBack | submitLock | enqueue | submitRelease | submitNext =>
    simp only [Function.update_apply] at hpc
    grind
  | stay ha => exact .inl ⟨hpc, by rintro rfl; simp at ha⟩
  | ioLocal hl => exact .inl ⟨hpc, hl.not_submitCompare j⟩
  | ioLock _ hio =>
    refine .inl ⟨hpc, ?_⟩
    rintro rfl
    simp at hio
  | _ => exact .inl ⟨hpc, by simp⟩

/-! ## Connections without buffers on the way -/

theorem Inv.mem_computing {c : ConnId} {b : BufId} (h : Inv cfg s) :
    b ∈ s.computing c ↔ (∃ i, b ∈ s.computeLine i) ∧ (s.bufs b).conn = c := by
  simp only [ServerContext.computing, List.mem_filter, decide_eq_true_eq]
  constructor
  · rintro ⟨hb, hc⟩
    exact ⟨⟨_, hb⟩, hc⟩
  · rintro ⟨⟨i, hb⟩, rfl⟩
    exact ⟨(h.inFlight.compute i b hb).2 ▸ hb, rfl⟩

theorem Inv.mem_submitting {c : ConnId} {b : BufId} (h : Inv cfg s) :
    b ∈ s.submitting c ↔ (∃ j, b ∈ s.submitLine j) ∧ (s.bufs b).conn = c := by
  simp only [ServerContext.submitting, List.mem_filter, decide_eq_true_eq]
  constructor
  · rintro ⟨hb, hc⟩
    exact ⟨⟨_, hb⟩, hc⟩
  · rintro ⟨⟨j, hb⟩, rfl⟩
    exact ⟨(h.inFlight.submit j b hb).2 ▸ hb, rfl⟩

/-- **An object is put back only when none of its buffers is on the way.** -/
theorem released_empty {a : Action} {c : ConnId} (h : Inv cfg s) (hrel : Released s c a) :
    s.computing c = [] ∧ s.submitting c = [] := by
  have hzero : (s.computing c).length = 0 ∧ (s.submitting c).length = 0 := by
    cases a <;> try exact hrel.elim
    case finishBody k =>
      obtain ⟨⟨input, hpc⟩, heq⟩ := hrel
      have hop := h.openAt (k := k) (c := c) (by simp [hpc, IoPc.conn])
      obtain ⟨hflow, hout⟩ := h.accounts c hop.session
      have hout := hout hop.closed
      omega
    case submitCompare j =>
      obtain ⟨hpc, heq⟩ := hrel
      have hflow := (h.accounts c (h.inFlight.compare j c hpc).1).flow
      omega
  exact ⟨List.length_eq_zero_iff.mp hzero.1, List.length_eq_zero_iff.mp hzero.2⟩

theorem not_released_of_compute {a : Action} {i : Nat} {b : BufId} (h : Inv cfg s)
    (hb : b ∈ s.computeLine i) : ¬ Released s (s.bufs b).conn a := by
  intro hrel
  have hin := h.mem_computing.mpr ⟨⟨i, hb⟩, rfl⟩
  simp [(released_empty h hrel).1] at hin

theorem not_released_of_submit {a : Action} {j : Nat} {b : BufId} (h : Inv cfg s)
    (hb : b ∈ s.submitLine j) : ¬ Released s (s.bufs b).conn a := by
  intro hrel
  have hin := h.mem_submitting.mpr ⟨⟨j, hb⟩, rfl⟩
  simp [(released_empty h hrel).2] at hin

/-! ## The step lemma -/

/-- A session that is closed stays closed. -/
theorem closed_step {a : Action} {c : ConnId} (hs : Step cfg sha1 s a s') (hin : s.InSession c)
    (hcl : (s.conns c).closed = true) : (s'.conns c).closed = true := by
  cases hs with
  | @accepted w c' fd ok hpc =>
    have hne : c ≠ c' := (hin.ne (mem_parked_took hpc)).symm
    simpa [hne] using hcl
  | finishRelease | finishDelegate =>
    simp only [goto_conns, Function.update_apply]
    split
    · rfl
    · exact hcl
  | ioLock | dequeue | sendLast | settleKeep | settleDisarm | takeBuffer | deliver | submitLock
  | dispose | enqueue =>
    exact field_update_eq (·.closed) rfl hcl
  | _ => exact hcl

/-- A session that is open after a step was open before. -/
theorem open_before {a : Action} {c : ConnId} (hs : Step cfg sha1 s a s') (hin : s.InSession c)
    (hcl : (s'.conns c).closed = false) : (s.conns c).closed = false := by
  by_contra hno
  exact Bool.false_ne_true (hcl.symm.trans (closed_step hs hin (Bool.not_eq_false _ ▸ hno)))

/-- **One step keeps every buffer on the way to its own session.** -/
theorem inFlight_step {a : Action} (h : Inv cfg s) (hs : Step cfg sha1 s a s') : InFlight s' where
  compute i b hb := by
    rcases mem_computeLine_step hs hb with hold | ⟨k, c, rfl, hpc, rfl⟩
    · have hin := h.inFlight.compute i b hold
      have hk := keeps_step hs hin.1 (not_released_of_compute h hold)
      rw [conn_step h hs (h.computeLine_not_empty hold)]
      exact ⟨hk.session, hk.computeidx.trans hin.2⟩
    · -- handed over by `handle_request`
      have hop := h.openAt (k := k) (c := c) (by simp [hpc, IoPc.conn])
      have hb : (s.conns c).recvbuf = some b ∧ (s.bufs b).left = 0 := h.pcOk hpc
      have hk := keeps_step hs hop.session (by simp [Released])
      rw [conn_step h hs (h.recvbuf_not_empty hop.closed hb.1),
        h.inFlight.recvbuf c b hop.closed hb.1]
      exact ⟨hk.session, hk.computeidx⟩
  submit j b hb := by
    rcases mem_submitLine_step hs hb with hold | ⟨i, clock, rfl, hpc, rfl⟩
    · have hin := h.inFlight.submit j b hold
      have hk := keeps_step hs hin.1 (not_released_of_submit h hold)
      rw [conn_step h hs (h.submitLine_not_empty hold)]
      exact ⟨hk.session, hk.submitidx.trans hin.2⟩
    · have hline : b ∈ s.computeLine i := by simp [ServerContext.computeLine, hpc, ComputePc.hand]
      have hin := h.inFlight.compute i b hline
      have hk := keeps_step hs hin.1 (by simp [Released])
      rw [conn_step h hs (h.computeLine_not_empty hline)]
      exact ⟨hk.session, hk.submitidx⟩
  hand j b c hpc := by
    rcases submitHand_step hs hpc with hold | ⟨hb, hc⟩
    · have hline : b ∈ s.submitLine j := by
        simp [ServerContext.submitLine, SubmitPc.hand_of_carried hold]
      rw [conn_step h hs (h.submitLine_not_empty hline)]
      exact h.inFlight.hand j b c hold
    · have hline : b ∈ s.submitLine j := List.mem_append_right _ hb
      rw [conn_step h hs (h.submitLine_not_empty hline)]
      exact hc
  compare j c hpc := by
    rcases submitCompare_step hs hpc with ⟨hold, hne⟩ | ⟨b, ok, rfl, hold, hcl⟩
    · obtain ⟨hin, hcl, hidx⟩ := h.inFlight.compare j c hold
      -- the object is not given back by anybody else: its submitter is the one of its index
      have hrel : ¬ Released s c a := by
        intro hrel
        cases a <;> try exact hrel
        case finishBody k =>
          obtain ⟨⟨input, hpc⟩, -⟩ := hrel
          have hop := h.openAt (k := k) (c := c) (by simp [hpc, IoPc.conn])
          exact Bool.false_ne_true (hop.closed.symm.trans hcl)
        case submitCompare j' =>
          have hidx' := (h.inFlight.compare j' c hrel.1).2.2
          exact hne (by rw [← hidx, ← hidx'])
      have hk := keeps_step hs hin hrel
      exact ⟨hk.session, closed_step hs hin hcl, hk.submitidx.trans hidx⟩
    · obtain ⟨hin, hidx, -⟩ := h.submitHand (congrArg SubmitPc.carried hold)
      have hk := keeps_step hs hin (by simp [Released])
      exact ⟨hk.session, closed_step hs hin hcl, hk.submitidx.trans hidx⟩
  queue c b hb := by
    rcases mem_sendQueue_step hs hb with hold | ⟨j, hold⟩
    · rw [conn_step h hs (h.queue_not_empty hold)]
      exact h.inFlight.queue c b hold
    · have hline : b ∈ s.submitLine j := by simp [ServerContext.submitLine, hold, SubmitPc.hand]
      rw [conn_step h hs (h.submitLine_not_empty hline)]
      exact h.inFlight.hand j b c (congrArg SubmitPc.carried hold)
  recvbuf c b hcl hb := by
    rcases recvbuf_step hs hcl hb with ⟨hcl, hold⟩ | hc
    · rw [conn_step h hs (h.recvbuf_not_empty hcl hold)]
      exact h.inFlight.recvbuf c b hcl hold
    · exact hc

end Piotbench.Server
