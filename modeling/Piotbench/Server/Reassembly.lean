import Piotbench.Server.Answering

/-!
# Requests out of a byte stream

However `Z_recv` cuts the stream of a session, and wherever `handle_request` stops, the requests put
on the compute inbox are the blocks of 1024 bytes that the stream consists of, and `recvbuf` holds
what is left over. A call of `handle_request` goes round its loop at most once more than it has
received bytes.
-/

namespace Piotbench.Server

open Transition

variable {cfg : ServerConfig} {sha1 : Sha1} {bufs : BufId → ServerBuffer} {s s' : ServerContext}
  {a : Action} {c : ConnId} {k : Nat} {b : BufId}

/-- Between the `Z_recv` that completes a request of `c` and the `queue_put` of its buffer. -/
def IoPc.completing (c : ConnId) : IoPc → Prop
  | .lockRequest c' _ | .deliver c' _ => c' = c
  | _ => False

theorem IoMove.not_completing {c' : ConnId} {pc pc' : IoPc} (h : IoMove cfg s k c' pc a pc') :
    ¬pc.completing c := by
  cases h <;> exact id

/-- A worker that has completed a request goes on to put its buffer on the compute inbox. -/
theorem completing_step (hs : Step cfg sha1 s a s') (hpc : (s.io k).pc.completing c) :
    (s'.io k).pc.completing c ∨ ∃ b, delivered s c a = [b] := by
  by_cases ha : a.ioWorker = some k
  · cases hs with
    | ioLocal hl =>
      cases hl.ioWorker.symm.trans ha
      cases hl with
      | fail hw | dispatch hw => simp [hw, IoPc.completing] at hpc
      | move hm => exact absurd hpc hm.not_completing
    | epollWait hw | dequeue hw | sendPart hw | sendLast hw | recycle hw | settleKeep hw
    | settleDisarm hw | takeBuffer hw | recvData hw | finishRelease hw | finishDelegate hw =>
      cases ha
      simp [hw, IoPc.completing] at hpc
    | ioLock _ hio =>
      cases (ioLock_ioWorker (ioLock_action hio)).symm.trans ha
      -- the lock of `handle_response`, of `handle_request` and of `finish_connection`
      rcases hio with ⟨_, hw, rfl, -⟩ | ⟨_, hw, rfl, -⟩ | ⟨_, hw, rfl, -⟩
      · simp [hw, IoPc.completing] at hpc
      · left
        simpa [hw, IoPc.completing] using hpc
      · simp [hw, IoPc.completing] at hpc
    | @deliver _ c' b hw =>
      cases ha
      obtain rfl : c' = c := by simpa [hw, IoPc.completing] using hpc
      exact .inr ⟨b, by simp [delivered, hw]⟩
    | stay hq => rcases hq with ⟨_, rfl⟩ | ⟨_, rfl⟩ | ⟨_, rfl⟩ <;> cases ha
    | _ => cases ha
  · left
    rwa [io_of_ne hs ha]

/-- `recvbuf` holds a complete request only while a worker is about to put it on. -/
def Incomplete (s : ServerContext) (c : ConnId) : Prop :=
  ∀ b, (s.conns c).recvbuf = some b → 0 < (s.bufs b).left ∨ ∃ k, (s.io k).pc.completing c

/-- The `Z_recv` that completes a request sends the worker on to put it. -/
theorem recvData_completing {bytes : List Byte}
    (hs : Step cfg sha1 s (.requestRecv k (.data bytes)) s') (hpc : (s.io k).pc = .recv c b) :
    0 < (s'.bufs b).left ∨ (s'.io k).pc.completing c := by
  cases hs with
  | stay ha => simp at ha
  | @ioLocal k' a w hl =>
    cases hl with
    | move hm =>
      generalize (s.io k').pc = pc at hm
      cases hm
  | ioLock _ hio => simp at hio
  | @recvData k' c' b' bytes hw =>
    obtain ⟨rfl, rfl⟩ := IoPc.recv.inj (hpc.symm.trans hw)
    by_cases hleft : (s.bufs b).left - bytes.length = 0
    · right
      simp [hleft, IoPc.completing]
    · left
      simpa using Nat.pos_of_ne_zero hleft

theorem incomplete_step {t t' : Traced} (h : OpenStep cfg sha1 c t a t')
    (hold : Incomplete t.srv c) : Incomplete t'.srv c := by
  intro b hb
  cases input_cases h.inv h.step h.session h.opened' with
  | quiet _ hdel hrecv hbuf =>
    rw [hrecv] at hb
    rw [hbuf b hb]
    rcases hold b hb with hleft | ⟨k, hk⟩
    · exact .inl hleft
    · -- its buffer is not put on in this step, so the worker is still about to
      rcases completing_step h.step hk with hk | ⟨b', hb'⟩
      · exact .inr ⟨k, hk⟩
      · rw [hdel] at hb'
        cases hb'
  | take _ _ _ hrecv' hbuf =>
    cases hrecv'.symm.trans hb
    left
    rw [hbuf.1]
    decide
  | data _ hdel hrecv hrecv' =>
    cases hrecv'.symm.trans hb
    rcases bufs_recvbuf h.inv h.step h.opened hrecv with heq | ⟨k, bytes, ha, hpc⟩
    · rcases hold b hrecv with hleft | ⟨k, hk⟩
      · exact .inl (heq ▸ hleft)
      · rcases completing_step h.step hk with hk | ⟨b', hb'⟩
        · exact .inr ⟨k, hk⟩
        · rw [hdel] at hb'
          cases hb'
    · have hstep := h.step
      rw [ha] at hstep
      exact (recvData_completing hstep hpc).imp_right fun hk => ⟨k, hk⟩
  | deliver _ _ _ hrecv' =>
    cases hrecv'.symm.trans hb

/-! ## The loop of `handle_request` -/

/-- Inside `handle_request` on `c`. -/
def IoPc.inRequest (c : ConnId) : IoPc → Prop
  | .request c' | .recv c' _ | .lockRequest c' _ | .deliver c' _ => c' = c
  | _ => False

/-- IO worker `k` begins another turn of the loop in `handle_request`. -/
def requestTurn (k : Nat) (_ : ServerContext) (a : Action) : Nat :=
  if a = .requestTop k ∨ a = .requestMiss k then 1 else 0

/-- A turn that is due, until `Z_recv` is asked again. -/
def IoPc.turnDue : IoPc → Nat
  | .request _ | .lockRequest _ _ | .deliver _ _ => 1
  | _ => 0

theorem requestTurn_other (ha : a.ioWorker ≠ some k) : requestTurn k s a = 0 := by
  apply if_neg
  rintro (rfl | rfl) <;> exact ha rfl

theorem requestTurn_move {c' : ConnId} {pc pc' : IoPc} (h : IoMove cfg s k c' pc a pc')
    (hin : pc.inRequest c) : requestTurn k s a + pc'.turnDue ≤ pc.turnDue := by
  cases h with
  | resumeRequest | readahead | noBuffer | missBuffer => simp [requestTurn, IoPc.turnDue]
  | recvAgain | recvEof | recvError => simp [requestTurn, IoPc.turnDue]
  | _ => cases hin

/-- A turn that does not return from `handle_request` has received something. -/
theorem requestTurn_step (hs : Step cfg sha1 s a s') (hin : (s.io k).pc.inRequest c) :
    requestTurn k s a + (s'.io k).pc.turnDue
      ≤ (s.io k).pc.turnDue + (bytesIn s c a).length := by
  by_cases ha : a.ioWorker = some k
  · cases hs with
    | ioLocal hl =>
      cases hl.ioWorker.symm.trans ha
      cases hl with
      | fail hw | dispatch hw => simp [hw, IoPc.inRequest] at hin
      | move hm =>
        have hmove := requestTurn_move hm hin
        simp only [Function.update_self]
        omega
    | epollWait hw | dequeue hw | sendPart hw | sendLast hw | recycle hw | settleKeep hw
    | settleDisarm hw | finishRelease hw | finishDelegate hw =>
      cases ha
      simp [hw, IoPc.inRequest] at hin
    | ioLock _ hio =>
      cases (ioLock_ioWorker (ioLock_action hio)).symm.trans ha
      rcases hio with ⟨_, hw, rfl, -⟩ | ⟨_, hw, rfl, rfl⟩ | ⟨_, hw, rfl, -⟩
      · simp [hw, IoPc.inRequest] at hin
      · simp [requestTurn, hw, IoPc.turnDue]
      · simp [hw, IoPc.inRequest] at hin
    | takeBuffer hw | deliver hw =>
      cases ha
      simp [requestTurn, hw, IoPc.turnDue]
    | @recvData _ c' b bytes hw hopen hpos =>
      cases ha
      obtain rfl : c' = c := by simpa [hw, IoPc.inRequest] using hin
      -- the turn that becomes due is paid for with the bytes received
      have hdue : (if (s.bufs b).left - bytes.length = 0 then IoPc.lockRequest c' b
          else .request c').turnDue ≤ 1 := by
        split <;> exact Nat.le_refl 1
      simp only [requestTurn, goto_io, Function.update_self, hw, bytesIn, if_true]
      simp only [reduceCtorEq, or_self, if_false]
      omega
    | stay hq => rcases hq with ⟨_, rfl⟩ | ⟨_, rfl⟩ | ⟨_, rfl⟩ <;> cases ha
    | _ => cases ha
  · rw [io_of_ne hs ha, requestTurn_other ha, Nat.zero_add]
    exact Nat.le_add_right _ _

/-- A worker inside `handle_request` has a next step, unless it waits for the lock. -/
theorem request_enabled (h : Inv cfg s) (hpc : (s.io k).pc.inRequest c)
    (hlock : (s.conns c).lock = false) :
    ∃ a s', a.ioWorker = some k ∧ step cfg sha1 s a = some s' := by
  unfold IoPc.inRequest at hpc
  split at hpc
  · next hw => exact ⟨.requestTop k, _, rfl, by
      simp only [step, hw]
      rfl⟩
  · next c' b hw =>
    have hop := h.openAt (k := k) (c := c') (by simp [hw, IoPc.conn])
    exact ⟨.requestRecv k .eagain, _, rfl, by
      simp only [step, hw, handleRequestRecv, hop.isOpen, if_true]
      rfl⟩
  · next hw =>
    subst hpc
    exact ⟨.requestLock k, _, rfl, by
      simp only [step, hw, ioLock, hlock]
      rfl⟩
  · next hw => exact ⟨.requestDeliver k, _, rfl, by
      simp only [step, hw]
      rfl⟩
  · cases hpc

theorem turnDue_le (pc : IoPc) : pc.turnDue ≤ 1 := by
  cases pc <;> simp [IoPc.turnDue]

/-- **The loop ends**: a stretch of a run that `k` spends inside one call of `handle_request` has at
most one turn more than it has bytes received. -/
theorem requestTurns_le {l : List (ServerContext × Action)}
    (h : Path (step cfg sha1) (fun s _ => (s.io k).pc.inRequest c) s l s') :
    total (requestTurn k) l ≤ total (fun s a => (bytesIn s c a).length) l + 1 := by
  have hpot := h.potential (fun s => (s.io k).pc.turnDue) (requestTurn k)
    (fun s a => (bytesIn s c a).length) (fun _ => trivial)
    (fun _ hin hs => requestTurn_step (step_cases hs) hin)
    (.refl : Reachable (step cfg sha1) (fun _ _ => True) s s)
  have hdue := turnDue_le (s.io k).pc
  omega

/-! ## Reassembly -/

theorem incomplete_of_trace {ok : ServerContext → Action → Prop} (hok : ∀ s a, ok s a → Orderly s a)
    {t : Traced} (h : Trace cfg sha1 ok bufs t) (hin : t.srv.InSession c)
    (hcl : (t.srv.conns c).closed = false) : Incomplete t.srv c := by
  apply open_invariant (P := fun t c => Incomplete t.srv c) hok _ _ h hin hcl
  · intro t c n _ _ _ hbuf b hb
    cases hbuf.symm.trans hb
  · exact fun t a t' c hs _ hold => incomplete_step hs hold

theorem Intake.ptr_eq {t : Traced} (h : Intake t c) (hb : (t.srv.conns c).recvbuf = some b) :
    (t.srv.bufs b).ptr = (t.srv.incoming c).length ∧
      (t.srv.bufs b).left = sizeofRequest - (t.srv.incoming c).length := by
  have hplace := h.place b hb
  rw [incoming_busy hb, Bytes.length_slice]
  omega

/-- **Reassembly.** In an open session of an orderly run the bytes received are the requests put on
the compute inbox, one after another, and the bytes in `recvbuf`, behind which `ptr` and `left`
stand. The requests are the complete blocks of 1024 bytes; only between the `Z_recv` that completes
a request and the `queue_put` of its buffer is the last block still in `recvbuf`. A call of
`handle_request` has at most one turn more than it receives bytes, and has a next step unless it
waits for the lock. -/
theorem requests_reassembled {t : Traced} (h : Trace cfg sha1 Orderly bufs t)
    (hin : t.srv.InSession c) (hcl : (t.srv.conns c).closed = false) :
    (t.hist c).rx = (t.hist c).requests.flatten ++ t.srv.incoming c ∧
      ((∀ k, ¬(t.srv.io k).pc.completing c) →
        (t.hist c).requests = Bytes.blocks sizeofRequest (t.hist c).rx ∧
          (t.srv.incoming c).length < sizeofRequest) ∧
      (∀ k, (t.srv.io k).pc.completing c →
        (t.hist c).requests ++ [t.srv.incoming c] = Bytes.blocks sizeofRequest (t.hist c).rx) ∧
      (∀ b, (t.srv.conns c).recvbuf = some b →
        (t.srv.bufs b).ptr = (t.srv.incoming c).length ∧
          (t.srv.bufs b).left = sizeofRequest - (t.srv.incoming c).length) ∧
      ((t.srv.conns c).recvbuf = none → t.srv.incoming c = []) ∧
      (∀ k l s', Path (step cfg sha1) (fun s _ => (s.io k).pc.inRequest c) t.srv l s' →
        total (requestTurn k) l ≤ total (fun s a => (bytesIn s c a).length) l + 1) ∧
      ∀ k, (t.srv.io k).pc.inRequest c → (t.srv.conns c).lock = false →
        ∃ a s', a.ioWorker = some k ∧ step cfg sha1 t.srv a = some s' := by
  have hinv := inv_of_trace (fun _ _ => id) h
  have hintake := (counted_of_trace (fun _ _ => id) h hin hcl).intake
  have hincomplete := incomplete_of_trace (fun _ _ => id) h hin hcl
  refine ⟨hintake.rx, ?_, ?_, fun b hb => hintake.ptr_eq hb, incoming_idle,
    fun k l s' hl => requestTurns_le hl, fun k hk hlock => request_enabled hinv hk hlock⟩
  · intro hnone
    have hlt : (t.srv.incoming c).length < sizeofRequest := by
      cases hb : (t.srv.conns c).recvbuf with
      | none =>
        rw [incoming_idle hb]
        decide
      | some b =>
        have hplace := hintake.place b hb
        rcases hincomplete b hb with hleft | ⟨k, hk⟩
        · rw [incoming_busy hb, Bytes.length_slice]
          omega
        · exact absurd hk (hnone k)
    refine ⟨?_, hlt⟩
    rw [hintake.rx, Bytes.blocks_flatten _ _ hlt hintake.framed]
  · intro k hk
    obtain ⟨b, hb, hleft⟩ : ∃ b, (t.srv.conns c).recvbuf = some b ∧ (t.srv.bufs b).left = 0 := by
      have hpc := (hinv.workers k).pc
      unfold IoPc.completing at hk
      split at hk
      · next c' b hw =>
        subst hk
        exact ⟨b, by simpa [hw, ServerContext.PcOk] using hpc⟩
      · next c' b hw =>
        subst hk
        exact ⟨b, by simpa [hw, ServerContext.PcOk] using hpc⟩
      · cases hk
    have hfull : (t.srv.incoming c).length = sizeofRequest := by
      have hplace := hintake.place b hb
      rw [incoming_busy hb, Bytes.length_slice]
      omega
    have hcut := Bytes.blocks_flatten (n := sizeofRequest) []
      ((t.hist c).requests ++ [t.srv.incoming c]) (by decide)
      (by simpa [or_imp, forall_and, hfull] using hintake.framed)
    rw [hintake.rx, ← hcut]
    simp

/-- A request arrives in three pieces, and one byte of the next behind the last of them. -/
def pieces : List Action :=
  connect ++ [.requestTop 0, .requestRecv 0 (.data (List.replicate 1000 1)), .requestTop 0,
    .requestRecv 0 .eagain, .epollWait 0 [(5, epollIn)], .event 0, .requestTop 0,
    .requestRecv 0 (.data (List.replicate 23 2)), .requestTop 0, .requestRecv 0 (.data [3]),
    .requestLock 0, .requestDeliver 0, .requestTop 0, .requestRecv 0 (.data [4])]

theorem requests_reassembled_pieces : ∃ t, Trace smallServer zeroSha1 Orderly blankBuffers t ∧
    (t.hist 0).rx.length = 1025 ∧ (t.hist 0).requests.length = 1 ∧
    (t.hist 0).rx = (t.hist 0).requests.flatten ++ t.srv.incoming 0 := by
  have hrun := exists_reachable_of_run pieces
    (fun t => decide ((t.srv.io 0).pc = .request 0 ∧ (t.hist 0).rx.length = 1025 ∧
      (t.hist 0).requests.length = 1))
    (by decide +kernel : (run (tstep smallServer zeroSha1) (fun t a => Orderly t.srv a)
      (.init smallServer blankBuffers) pieces).map _ = some true)
  obtain ⟨t, ht, hp⟩ := hrun
  obtain ⟨hpc, hrx, hreq⟩ := of_decide_eq_true hp
  have hop := (inv_of_trace (fun _ _ => id) ht).openAt (k := 0) (c := 0) (by simp [hpc, IoPc.conn])
  exact ⟨t, ht, hrx, hreq, (requests_reassembled ht hop.session hop.closed).1⟩

end Piotbench.Server
