import Piotbench.Client.Worker

/-!
# What the client counts

`written` and `read` are the bytes of a connection that the client has sent and received, as its
counters and the two `left` fields tell them. Every step transfers what it counts
(`clientStep_transfers`), no request is created beyond the total, and the connection is closed only
when every response has been received (`ClientOk`).
-/

namespace Piotbench.Client

open Server

/-! ## What the worker keeps to -/

/-- The part of a message of `size` bytes that has been transferred. -/
def MessageBuffer.done (buff : MessageBuffer) (size : Nat) : Nat :=
  if buff.left = 0 then 0 else size - buff.left

/-- The bytes sent, in whole requests and the one in progress. -/
def ClientWorker.written (cl : ClientWorker) : Nat :=
  sizeofRequest * cl.conn.status.sent + cl.conn.sendbuf.done sizeofRequest

/-- The bytes received, in whole responses and the one in progress. -/
def ClientWorker.read (cl : ClientWorker) : Nat :=
  sizeofResponse * cl.conn.status.received + cl.conn.recvbuf.done sizeofResponse

/-- What the worker relies on where it stands: a request is only created when one is left to be
sent. -/
def ClientWorker.PcOk (cl : ClientWorker) : Prop :=
  match cl.pc with
  | .output _ => cl.conn.status.sent < cl.conn.status.total
  | .send _ => 0 < cl.conn.sendbuf.left
  | .recv => 0 < cl.conn.recvbuf.left
  | .wait | .afterOutput _ | .input | .afterInput => True

structure ClientOk (cl : ClientWorker) : Prop where
  sendLeft : cl.conn.sendbuf.left ≤ sizeofRequest
  recvLeft : cl.conn.recvbuf.left ≤ sizeofResponse
  sent_le : cl.conn.status.sent ≤ cl.conn.status.total
  /-- A request in progress is not beyond the total. -/
  busy : 0 < cl.conn.sendbuf.left → cl.conn.status.sent < cl.conn.status.total
  pc : cl.PcOk
  /-- `EPOLLOUT` is registered as long as there is something to be sent, and no longer. -/
  armed : (∀ input, cl.pc ≠ .afterOutput input) → cl.interest.has epollOut = true →
    cl.conn.status.sent < cl.conn.status.total
  closed : cl.conn.closed = true →
    cl.pc = .wait ∧ cl.conn.status.received = cl.conn.status.total

/-! ## One step -/

section Step

variable {cl cl' : ClientWorker}

theorem done_of_busy {buff : MessageBuffer} {size : Nat} (h : 0 < buff.left) :
    buff.done size = size - buff.left := by
  simp [MessageBuffer.done, Nat.ne_of_gt h]

theorem done_of_idle {buff : MessageBuffer} {size : Nat} (h : buff.left = 0) :
    buff.done size = 0 := by
  simp [MessageBuffer.done, h]

theorem done_le (buff : MessageBuffer) (size : Nat) (hpos : 0 < size) : buff.done size < size := by
  unfold MessageBuffer.done
  split <;> omega

/-- What the kernel reports it was asked for. -/
theorem reports_out {events : EpollMask} (h : cl.reports events = true)
    (hout : events.has epollOut = true) : cl.interest.has epollOut = true := by
  simp only [ClientWorker.reports, Bool.and_eq_true, beq_iff_eq] at h
  have hbit := congrArg (BitVec.getLsbD · 2) h.2
  rw [has_epollOut] at hout ⊢
  simpa [hout, epollErr, epollHup] using hbit

/-- Nothing is reported for a connection that is closed. -/
theorem reports_open {events : EpollMask} (h : cl.reports events = true) :
    cl.conn.closed = false := by
  simp only [ClientWorker.reports, Bool.and_eq_true, Bool.not_eq_true'] at h
  exact h.1

/-- After a step `written` has grown by `out` bytes and `read` by `inn`. -/
structure Transfers (cl cl' : ClientWorker) (out inn : Nat) : Prop where
  ok : ClientOk cl'
  written : cl'.written = cl.written + out
  read : cl'.read = cl.read + inn

/-- Moving on without touching the connection. -/
theorem Transfers.goto (h : ClientOk cl) {pc : ClientPc} {stopping : Bool}
    (hpc : { cl with pc := pc, stopping := stopping }.PcOk)
    (harmed : (∀ input, pc ≠ .afterOutput input) → ∀ input, cl.pc ≠ .afterOutput input)
    (hcl : cl.conn.closed = true → pc = .wait) :
    Transfers cl { cl with pc := pc, stopping := stopping } 0 0 :=
  ⟨⟨h.sendLeft, h.recvLeft, h.sent_le, h.busy, hpc, fun hne => h.armed (harmed hne),
    fun hc => ⟨hcl hc, (h.closed hc).2⟩⟩, rfl, rfl⟩

theorem handleEvent_transfers (h : ClientOk cl) (hpc : cl.pc = .wait) {events : EpollMask}
    {clockOk : Bool} (hstep : handleEvent cl events clockOk = some cl') :
    Transfers cl cl' 0 0 := by
  unfold handleEvent at hstep
  split at hstep
  · next hrep =>
    have hopen := reports_open hrep
    split at hstep
    · next hout =>
      have hlt := h.armed (by simp [hpc]) (reports_out hrep hout)
      split at hstep
      · cases hstep
        exact .goto h trivial (by simp [hpc]) (by simp)
      · cases hstep
        exact .goto h hlt (by simp [hpc]) (by simp [hopen])
    · cases hstep
      refine .goto h ?_ (by simp [hpc]) (by simp [hopen])
      cases events.has epollIn <;> exact trivial
  · cases hstep

/-- In the middle of handling an event the connection is open. -/
theorem ClientOk.opened (h : ClientOk cl) (hpc : cl.pc ≠ .wait) : cl.conn.closed = false := by
  by_contra hno
  exact hpc (h.closed (Bool.not_eq_false _ ▸ hno)).1

/-- What an open connection has to keep. -/
theorem ClientOk.of_open (hopen : cl.conn.closed = false)
    (hsend : cl.conn.sendbuf.left ≤ sizeofRequest) (hrecv : cl.conn.recvbuf.left ≤ sizeofResponse)
    (hle : cl.conn.status.sent ≤ cl.conn.status.total)
    (hbusy : 0 < cl.conn.sendbuf.left → cl.conn.status.sent < cl.conn.status.total)
    (hpc : cl.PcOk)
    (harmed : (∀ input, cl.pc ≠ .afterOutput input) → cl.interest.has epollOut = true →
      cl.conn.status.sent < cl.conn.status.total) : ClientOk cl := by
  refine ⟨hsend, hrecv, hle, hbusy, hpc, harmed, ?_⟩
  intro hclosed
  exact absurd (hopen.symm.trans hclosed) Bool.false_ne_true

theorem handleOutputTop_transfers (h : ClientOk cl) {input : Bool} (hpc : cl.pc = .output input) :
    Transfers cl (handleOutputTop cl input) 0 0 := by
  have hopen := h.opened (by simp [hpc])
  have hlt : cl.conn.status.sent < cl.conn.status.total := by
    simpa [ClientWorker.PcOk, hpc] using h.pc
  by_cases hidle : cl.conn.sendbuf.left = 0
  · cases hstop : cl.stopping with
    | true =>
      -- the total comes down to what has been sent, between two requests
      simp only [handleOutputTop, hidle, hstop, if_true]
      refine ⟨.of_open hopen h.sendLeft h.recvLeft (Nat.le_refl _) ?_ trivial ?_, rfl, rfl⟩
      · intro hbusy
        exact absurd hidle (Nat.ne_of_gt hbusy)
      · intro hne
        exact absurd rfl (hne input)
    | false =>
      simp only [handleOutputTop, hidle, hstop, if_true, Bool.false_eq_true, if_false]
      refine ⟨.of_open hopen (Nat.le_refl _) h.recvLeft h.sent_le (fun _ => hlt) ?_
        (fun _ _ => hlt), ?_, rfl⟩
      · show 0 < sizeofRequest
        decide
      · simp [ClientWorker.written, MessageBuffer.done, hidle]
  · have hpos : 0 < cl.conn.sendbuf.left := Nat.pos_of_ne_zero hidle
    simp only [handleOutputTop, hidle, if_false]
    exact .goto h hpos (by simp [hpc]) (by simp [hopen])

theorem handleOutputSend_transfers (h : ClientOk cl) {input : Bool} (hpc : cl.pc = .send input)
    {res : SendResult} (hstep : handleOutputSend cl input res = some cl') :
    Transfers cl cl' (bytesOut cl (.send res)).length 0 := by
  have hopen := h.opened (by simp [hpc])
  have hbusy : 0 < cl.conn.sendbuf.left := by simpa [ClientWorker.PcOk, hpc] using h.pc
  have hlt := h.busy hbusy
  cases res with
  | eagain =>
    cases hstep
    exact .goto h trivial (by simp [hpc]) (by simp [hopen])
  | error =>
    cases hstep
    exact .goto h trivial (by simp [hpc]) (by simp)
  | sent n =>
    simp only [handleOutputSend] at hstep
    split at hstep
    · next hn =>
      have hwritten : cl.written = sizeofRequest * cl.conn.status.sent
          + (sizeofRequest - cl.conn.sendbuf.left) := by
        rw [ClientWorker.written, done_of_busy hbusy]
      have hsize := h.sendLeft
      split at hstep
      · next hdone =>
        -- the request is complete
        cases hstep
        refine ⟨.of_open hopen ?_ h.recvLeft hlt ?_ ?_ ?_, ?_, rfl⟩
        · simp only [hdone]
          omega
        · intro hleft
          simp [hdone] at hleft
        · by_cases hlast : cl.conn.status.sent + 1 = cl.conn.status.total
          · simp [ClientWorker.PcOk, hlast]
          · simpa [ClientWorker.PcOk, hlast] using Nat.lt_of_le_of_ne hlt hlast
        · intro hne _
          by_cases hlast : cl.conn.status.sent + 1 = cl.conn.status.total
          · exact absurd (if_pos hlast) (hne input)
          · exact Nat.lt_of_le_of_ne hlt hlast
        · rw [hwritten, ClientWorker.written, done_of_idle hdone]
          simp only [bytesOut, Bytes.length_slice, Nat.mul_add]
          omega
      · next hmore =>
        cases hstep
        refine ⟨.of_open hopen ?_ h.recvLeft h.sent_le (fun _ => hlt) hlt (fun _ _ => hlt), ?_, rfl⟩
        · exact Nat.le_trans (Nat.sub_le _ _) hsize
        · rw [hwritten, ClientWorker.written, done_of_busy (Nat.pos_of_ne_zero hmore)]
          simp only [bytesOut, Bytes.length_slice]
          omega
    · cases hstep

theorem pcOk_afterEvent (input : Bool) (hpc : cl.pc = .afterEvent input) : cl.PcOk := by
  cases input <;> simp [ClientWorker.PcOk, hpc, ClientPc.afterEvent]

theorem handleAfterOutput_transfers (h : ClientOk cl) {input : Bool}
    (hpc : cl.pc = .afterOutput input) (ok : Bool) :
    Transfers cl (handleAfterOutput cl input ok) 0 0 := by
  have hopen := h.opened (by simp [hpc])
  by_cases hlast : cl.conn.status.sent = cl.conn.status.total
  · -- whether `epoll_ctl` fails or not, `EPOLLOUT` is no longer registered
    have hin : ¬ epollIn.has epollOut = true := by decide
    have hnone : ¬ (0 : EpollMask).has epollOut = true := by decide
    have hne : epollIn ≠ 0#32 := by decide
    cases ok with
    | true =>
      simp only [handleAfterOutput, epollSetConn, hlast, hne, if_true, if_false,
        Bool.false_eq_true]
      refine ⟨.of_open hopen h.sendLeft h.recvLeft h.sent_le h.busy (pcOk_afterEvent input rfl) ?_,
        rfl, rfl⟩
      intro _ hout
      exact absurd hout hin
    | false =>
      simp only [handleAfterOutput, epollSetConn, hlast, hne, if_true, if_false,
        Bool.false_eq_true]
      refine ⟨.of_open hopen h.sendLeft h.recvLeft h.sent_le h.busy trivial ?_, rfl, rfl⟩
      intro _ hout
      exact absurd hout hnone
  · simp only [handleAfterOutput, hlast, if_false]
    refine ⟨.of_open hopen h.sendLeft h.recvLeft h.sent_le h.busy (pcOk_afterEvent input rfl) ?_,
      rfl, rfl⟩
    intro _ _
    exact Nat.lt_of_le_of_ne h.sent_le hlast

theorem handleInputTop_transfers (h : ClientOk cl) (hpc : cl.pc = .input) :
    Transfers cl (handleInputTop cl) 0 0 := by
  have hopen := h.opened (by simp [hpc])
  by_cases hidle : cl.conn.recvbuf.left = 0
  · by_cases hlast : cl.conn.status.received = cl.conn.status.total
    · simp only [handleInputTop, hidle, hlast, if_true]
      exact .goto h trivial (by simp [hpc]) (by simp [hopen])
    · simp only [handleInputTop, hidle, hlast, if_true, if_false]
      refine ⟨.of_open hopen h.sendLeft (Nat.le_refl _) h.sent_le h.busy ?_
        (fun _ => h.armed (by simp [hpc])), rfl, ?_⟩
      · show 0 < sizeofResponse
        decide
      · simp [ClientWorker.read, MessageBuffer.done, hidle]
  · have hpos : 0 < cl.conn.recvbuf.left := Nat.pos_of_ne_zero hidle
    simp only [handleInputTop, hidle, if_false]
    exact .goto h hpos (by simp [hpc]) (by simp [hopen])

theorem handleInputRecv_transfers (h : ClientOk cl) (hpc : cl.pc = .recv) {res : RecvResult}
    (hstep : handleInputRecv cl res = some cl') :
    Transfers cl cl' 0 (bytesIn (.recv res)).length := by
  have hopen := h.opened (by simp [hpc])
  have hbusy : 0 < cl.conn.recvbuf.left := by simpa [ClientWorker.PcOk, hpc] using h.pc
  cases res with
  | eagain | eof =>
    cases hstep
    exact .goto h trivial (by simp [hpc]) (by simp [hopen])
  | error =>
    cases hstep
    exact .goto h trivial (by simp [hpc]) (by simp)
  | data bytes =>
    simp only [handleInputRecv] at hstep
    split at hstep
    · next hn =>
      cases hstep
      have hread : cl.read = sizeofResponse * cl.conn.status.received
          + (sizeofResponse - cl.conn.recvbuf.left) := by
        rw [ClientWorker.read, done_of_busy hbusy]
      have hsize := h.recvLeft
      refine ⟨.of_open hopen h.sendLeft ?_ h.sent_le h.busy trivial
        (fun _ => h.armed (by simp [hpc])), rfl, ?_⟩
      · exact Nat.le_trans (Nat.sub_le _ _) hsize
      · rw [hread, ClientWorker.read]
        -- with its last byte a response is no longer in progress, but counted
        by_cases hdone : cl.conn.recvbuf.left - bytes.length = 0
        · rw [done_of_idle hdone]
          simp only [hdone, if_true, bytesIn, Nat.mul_add]
          omega
        · rw [done_of_busy (Nat.pos_of_ne_zero hdone)]
          simp only [hdone, if_false, bytesIn]
          omega
    · cases hstep

theorem handleAfterInput_transfers (h : ClientOk cl) (hpc : cl.pc = .afterInput) (clockOk : Bool) :
    Transfers cl (handleAfterInput cl clockOk) 0 0 := by
  by_cases hlast : cl.conn.status.received = cl.conn.status.total
  · cases clockOk with
    | true =>
      have hnone : ¬ (0 : EpollMask).has epollOut = true := by decide
      simp only [handleAfterInput, epollSetConn, hlast, if_true]
      exact ⟨⟨h.sendLeft, h.recvLeft, h.sent_le, h.busy, trivial,
        fun _ hout => absurd hout hnone, fun _ => ⟨rfl, hlast⟩⟩, rfl, rfl⟩
    | false =>
      simp only [handleAfterInput, hlast, if_true, Bool.false_eq_true, if_false]
      exact .goto h trivial (by simp [hpc]) (by simp)
  · simp only [handleAfterInput, hlast, if_false]
    exact .goto h trivial (by simp [hpc]) (by simp)

/-- **One step of the client**: what it transfers is what it counts. -/
theorem clientStep_transfers (h : ClientOk cl) {a : ClientAction}
    (hstep : clientStep cl a = some cl') :
    Transfers cl cl' (bytesOut cl a).length (bytesIn a).length := by
  cases client_cases hstep with
  | stop => exact .goto h h.pc (fun hne => hne) fun hc => (h.closed hc).1
  | event hpc hevent => exact handleEvent_transfers h hpc hevent
  | outputTop hpc => exact handleOutputTop_transfers h hpc
  | send hpc hsend => exact handleOutputSend_transfers h hpc hsend
  | @afterOutput input ok hpc => exact handleAfterOutput_transfers h hpc ok
  | inputTop hpc => exact handleInputTop_transfers h hpc
  | recv hpc hrecv => exact handleInputRecv_transfers h hpc hrecv
  | @afterInput clockOk hpc => exact handleAfterInput_transfers h hpc clockOk

end Step

theorem clientOk_init {nrRequests : Nat} (h : 1 ≤ nrRequests) :
    ClientOk (.init nrRequests) where
  sendLeft := Nat.zero_le _
  recvLeft := Nat.zero_le _
  sent_le := Nat.zero_le _
  busy hbusy := absurd hbusy (Nat.lt_irrefl 0)
  pc := trivial
  armed _ _ := h
  closed hc := absurd hc Bool.false_ne_true

end Piotbench.Client
