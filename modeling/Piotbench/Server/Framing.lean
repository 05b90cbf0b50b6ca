import Piotbench.Server.Readahead
import Piotbench.Server.Reassembly

/-!
# A byte stream out of responses

The other end of `Reassembly`: the responses that the submitter puts on the send queue leave as one
stream, in that order, however `Z_send` cuts it. The record of the server is extended by the
responses as they were when they were put on the queue.

What is still to be sent is conserved (`toSend_step`): it shrinks by the bytes sent and grows by the
responses queued. Every turn of the loop in `handle_response` that does not return sends something,
so a call ends.
-/

namespace Piotbench.Server

open Transition

variable {cfg : ServerConfig} {sha1 : Sha1} {bufs : BufId → ServerBuffer} {s s' : ServerContext}
  {a : Action} {c : ConnId} {k : Nat} {b : BufId}

/-! ## What is still to be sent -/

/-- The bytes of a connection that wait in `sendbuf` and the send queue. -/
def ServerContext.toSend (s : ServerContext) (c : ConnId) : Nat :=
  (match (s.conns c).sendbuf with
    | none => 0
    | some b => (s.bufs b).left) + sizeofResponse * (s.conns c).sendQueue.length

/-- **Nothing is sent twice, and nothing is dropped**: what waits shrinks by what is sent and grows
by what is queued. -/
theorem toSend_step (h : Inv cfg s) (hs : Step cfg sha1 s a s') (hin : s.InSession c)
    (hcl : (s'.conns c).closed = false) :
    (bytesOut s c a).length + s'.toSend c
      = s.toSend c + sizeofResponse * (processed s c a).length := by
  have hline := congrArg List.length (sending_step h hs hin hcl)
  simp only [List.length_append] at hline
  cases output_cases h hs hin hcl with
  | quiet hbytes hans hsend hbuf =>
    rw [hans, hsend] at hline
    simp only [List.length_nil] at hline
    have hq : (s'.conns c).sendQueue.length
        = (s.conns c).sendQueue.length + (processed s c a).length := by
      omega
    unfold ServerContext.toSend
    rw [hsend, hbytes, hq, Nat.mul_add]
    cases hb : (s.conns c).sendbuf with
    | none => simp
    | some b => simp [hbuf b hb, Nat.add_assoc]
  | take hbytes hans hsend hsend' hbuf =>
    rw [hans, hsend, hsend'] at hline
    simp only [List.length_nil, Option.toList_none, Option.toList_some, List.length_singleton]
      at hline
    simp only [ServerContext.toSend, hsend, hsend', hbytes, hbuf.1, List.length_nil]
    have hq : (s.conns c).sendQueue.length + (processed s c a).length
        = (s'.conns c).sendQueue.length + 1 := by
      omega
    have hmul := congrArg (sizeofResponse * ·) hq
    simp only [Nat.mul_add, Nat.mul_one] at hmul
    omega
  | part hbytes hans hsend hsend' hn hbuf =>
    rw [hans, hsend, hsend'] at hline
    have hq : (s'.conns c).sendQueue.length
        = (s.conns c).sendQueue.length + (processed s c a).length := by
      simp only [List.length_nil] at hline
      omega
    have hleft := congrArg ServerBuffer.left hbuf
    simp only at hleft
    simp only [ServerContext.toSend, hsend, hsend', hbytes, hleft, Bytes.length_slice, hq,
      Nat.mul_add]
    omega
  | last hbytes hans hsend hsend' =>
    rw [hans, hsend, hsend'] at hline
    have hq : (s'.conns c).sendQueue.length
        = (s.conns c).sendQueue.length + (processed s c a).length := by
      simp only [List.length_singleton, Option.toList_none, Option.toList_some,
        List.length_nil] at hline
      omega
    simp only [ServerContext.toSend, hsend, hsend', hbytes, Bytes.length_slice, hq, Nat.mul_add]
    omega

/-! ## The loop of `handle_response` -/

/-- Inside `handle_response` on `c`. -/
def IoPc.inResponse (c : ConnId) : IoPc → Prop
  | .response c' _ | .send c' _ _ | .recycle c' _ _ | .lockResponse c' _ | .settle c' _ => c' = c
  | _ => False

/-- IO worker `k` begins another turn of the loop in `handle_response`. -/
def responseTurn (k : Nat) (_ : ServerContext) (a : Action) : Nat :=
  if a = .responseTop k then 1 else 0

/-- A turn that is due, until `Z_send` is called again. -/
def IoPc.responseDue : IoPc → Nat
  | .response _ _ | .recycle _ _ _ | .lockResponse _ _ | .settle _ _ => 1
  | _ => 0

theorem responseTurn_other (ha : a.ioWorker ≠ some k) : responseTurn k s a = 0 := by
  apply if_neg
  rintro rfl
  exact ha rfl

theorem responseDue_afterResponse (c : ConnId) (input : Bool) :
    (IoPc.afterResponse c input).responseDue = 0 := by
  cases input <;> rfl

theorem responseTurn_move {c' : ConnId} {pc pc' : IoPc} (h : IoMove cfg s k c' pc a pc')
    (hin : pc.inResponse c) : responseTurn k s a + pc'.responseDue ≤ pc.responseDue := by
  cases h with
  | resumeResponse | sendError => simp [responseTurn, IoPc.responseDue]
  | noResponse | sendAgain =>
    rw [responseDue_afterResponse]
    simp [responseTurn, IoPc.responseDue]
  | _ => cases hin

/-- `handle_response` goes round its loop in the middle of a response only after a full chunk. -/
theorem sendPart_continues {input : Bool} (input' : Bool) {n : Nat}
    (hstep : step cfg sha1 s (.responseSend k (.sent n)) = some s')
    (hpc : (s.io k).pc = .send c input b) (hpc' : (s'.io k).pc = .response c input') :
    min (s.bufs b).left cfg.load.maxIoSize ≤ n := by
  simp only [step, hpc, handleResponseSend] at hstep
  split at hstep
  · split at hstep
    · cases hstep
      cases input <;> simp [IoPc.afterResponse] at hpc'
    · next hfull => exact Nat.le_of_not_lt hfull
  · cases hstep

/-- A turn that does not return from `handle_response` has sent something. -/
theorem responseTurn_step (h : Inv cfg s) (hio : 0 < cfg.load.maxIoSize)
    (hleft : ∀ b, (s.conns c).sendbuf = some b → 0 < (s.bufs b).left)
    (hstep : step cfg sha1 s a = some s') (hin : (s.io k).pc.inResponse c) :
    responseTurn k s a + (s'.io k).pc.responseDue
      ≤ (s.io k).pc.responseDue + (bytesOut s c a).length := by
  have hs := step_cases hstep
  by_cases ha : a.ioWorker = some k
  · cases hs with
    | ioLocal hl =>
      cases hl.ioWorker.symm.trans ha
      cases hl with
      | fail hw | dispatch hw => simp [hw, IoPc.inResponse] at hin
      | move hm =>
        have hmove := responseTurn_move hm hin
        simp only [Function.update_self]
        omega
    | epollWait hw | takeBuffer hw | recvData hw | deliver hw | finishRelease hw
    | finishDelegate hw =>
      cases ha
      simp [hw, IoPc.inResponse] at hin
    | ioLock _ hlock =>
      cases (ioLock_ioWorker (ioLock_action hlock)).symm.trans ha
      rcases hlock with ⟨_, hw, rfl, rfl⟩ | ⟨_, hw, rfl, -⟩ | ⟨_, hw, rfl, -⟩
      · simp [responseTurn, hw, IoPc.responseDue]
      · simp [hw, IoPc.inResponse] at hin
      · simp [hw, IoPc.inResponse] at hin
    | dequeue hw | recycle hw | settleKeep hw =>
      cases ha
      simp [responseTurn, hw, IoPc.responseDue]
    | @settleDisarm _ c' input ok hw _ kern err =>
      cases ha
      cases err <;> simp [responseTurn, hw, IoPc.responseDue]
    | @sendPart _ c' input b n pc' hw _ _ hpc' =>
      cases ha
      obtain rfl : c' = c := by simpa [hw, IoPc.inResponse] using hin
      have hpos := hleft b (h.pcOk hw)
      -- a short send returns, and a full chunk has at least one byte
      rcases hpc' with rfl | rfl
      · simp [responseTurn, responseDue_afterResponse]
      · have hfull := sendPart_continues input hstep hw (by simp)
        have hn : 1 ≤ n := by omega
        simpa [responseTurn, hw, IoPc.responseDue, bytesOut] using hn
    | @sendLast _ c' input b n hw _ hn =>
      cases ha
      obtain rfl : c' = c := by simpa [hw, IoPc.inResponse] using hin
      have hpos := hleft b (h.pcOk hw)
      have hn' : 1 ≤ n := by omega
      simpa [responseTurn, hw, IoPc.responseDue, bytesOut] using hn'
    | stay hq => rcases hq with ⟨_, rfl⟩ | ⟨_, rfl⟩ | ⟨_, rfl⟩ <;> cases ha
    | _ => cases ha
  · rw [io_of_ne hs ha, responseTurn_other ha, Nat.zero_add]
    exact Nat.le_add_right _ _

/-- A worker inside `handle_response` has a next step, unless it waits for the lock. -/
theorem response_enabled (h : Inv cfg s) (hpc : (s.io k).pc.inResponse c)
    (hlock : (s.conns c).lock = false) :
    ∃ a s', a.ioWorker = some k ∧ step cfg sha1 s a = some s' := by
  unfold IoPc.inResponse at hpc
  split at hpc
  · next hw =>
    exact ⟨.responseTop k, _, rfl, by
      simp only [step, hw]
      rfl⟩
  · next c' input b hw =>
    have hop := h.openAt (k := k) (c := c') (by simp [hw, IoPc.conn])
    exact ⟨.responseSend k .eagain, _, rfl, by
      simp only [step, hw, handleResponseSend, hop.isOpen, if_true]
      rfl⟩
  · next hw =>
    exact ⟨.responseRecycle k, _, rfl, by
      simp only [step, hw]
      rfl⟩
  · next hw =>
    subst hpc
    exact ⟨.responseLock k, _, rfl, by
      simp only [step, hw, ioLock, hlock]
      rfl⟩
  · next hw =>
    exact ⟨.responseSettle k true, _, rfl, by
      simp only [step, hw]
      rfl⟩
  · cases hpc

/-- A worker inside `handle_response` has its connection open before and after each step. -/
theorem inResponse_open (h : Inv cfg s) (hs : Step cfg sha1 s a s')
    (hin : (s.io k).pc.inResponse c) :
    s.InSession c ∧ (s'.conns c).closed = false := by
  have hc : c ∈ (s.io k).pc.conn := by
    unfold IoPc.inResponse at hin
    split at hin <;> simp_all [IoPc.conn]
  have hl := h.live hc
  have hop := h.openAt hc
  refine ⟨hop.session, ?_⟩
  have hnf : ¬Finishes s c a := by
    rintro ⟨k', input, rfl, hpc⟩
    obtain rfl := h.live_unique hl (h.live (k := k') (c := c) (by simp [hpc, IoPc.conn]))
    simp [hpc, IoPc.inResponse] at hin
  exact (openAt_step h hs hl hnf).closed

theorem halfSent_of_run (h : Run cfg sha1 Orderly bufs s) (hin : s.InSession c)
    (hcl : (s.conns c).closed = false) (hb : (s.conns c).sendbuf = some b) :
    HalfSent (s.bufs b) := by
  obtain ⟨t, ht, rfl⟩ := h.trace
  exact (counted_of_trace (fun _ _ => id) ht hin hcl).emitted.sendbuf b hb

theorem responseDue_le (pc : IoPc) : pc.responseDue ≤ 1 := by
  cases pc <;> simp [IoPc.responseDue]

/-- **The loop ends**: a stretch of an orderly run that `k` spends inside one call of
`handle_response` has at most one turn more than there were bytes to send when it began, or came to
be queued in the course of it. -/
theorem responseTurns_le (hio : 0 < cfg.load.maxIoSize) {l : List (ServerContext × Action)}
    (hrun : Run cfg sha1 Orderly bufs s)
    (h : Path (step cfg sha1) (fun s a => Orderly s a ∧ (s.io k).pc.inResponse c) s l s') :
    total (responseTurn k) l
      ≤ s.toSend c + sizeofResponse * total (fun s a => (processed s c a).length) l + 1 := by
  have hturns := h.potential (fun s => (s.io k).pc.responseDue) (responseTurn k)
    (fun s a => (bytesOut s c a).length) And.left (fun {s a s'} hr hok hstep => by
      have hinv := inv_of_run (fun _ _ => id) hr
      have hopen := inResponse_open hinv (step_cases hstep) hok.2
      have hcl := open_before (step_cases hstep) hopen.1 hopen.2
      exact responseTurn_step hinv hio
        (fun b hb => (halfSent_of_run hr hopen.1 hcl hb).left) hstep hok.2) hrun
  have hbytes := h.potential (fun s => s.toSend c) (fun s a => (bytesOut s c a).length)
    (fun s a => sizeofResponse * (processed s c a).length) And.left
    (fun {s a s'} hr hok hstep => by
      have hinv := inv_of_run (fun _ _ => id) hr
      have hopen := inResponse_open hinv (step_cases hstep) hok.2
      exact Nat.le_of_eq (toSend_step hinv (step_cases hstep) hopen.1 hopen.2)) hrun
  rw [total_mul] at hbytes
  have hdue := responseDue_le (s.io k).pc
  omega

/-! ## The responses in the order in which they were queued -/

/-- A traced server, with the responses that the submitter has put on the send queue of each
connection since `handle_accept` last handed it out. -/
structure Placed where
  tr : Traced
  placed : ConnId → List (List Byte)

def Placed.init (cfg : ServerConfig) (bufs : BufId → ServerBuffer) : Placed where
  tr := .init cfg bufs
  placed := fun _ => []

/-- The buffers that the submitter puts on the send queue. -/
def queued (s : ServerContext) (c : ConnId) (a : Action) : List BufId :=
  if (s.conns c).closed then [] else processed s c a

/-- The record after action `a`, from the state before it. -/
def Placed.record (p : Placed) (a : Action) (c : ConnId) : List (List Byte) :=
  if begins p.tr.srv c a then []
  else p.placed c ++ (queued p.tr.srv c a).map fun b => responseBytes (p.tr.srv.bufs b).msg

def pstep (cfg : ServerConfig) (sha1 : Sha1) (p : Placed) (a : Action) : Option Placed :=
  (tstep cfg sha1 p.tr a).map fun t' => ⟨t', p.record a⟩

/-- The orderly runs of the server with both records. -/
abbrev PlacedRun (cfg : ServerConfig) (sha1 : Sha1) (bufs : BufId → ServerBuffer) : Placed → Prop :=
  Reachable (pstep cfg sha1) (fun p a => Orderly p.tr.srv a) (.init cfg bufs)

variable {p p' : Placed}

theorem PlacedRun.trace (h : PlacedRun cfg sha1 bufs p) : Trace cfg sha1 Orderly bufs p.tr := by
  apply h.project Placed.tr
  intro _ a _ hok hs
  obtain ⟨t', ht, rfl⟩ := Option.map_eq_some_iff.mp hs
  exact .inr ⟨a, hok, ht⟩

/-- The responses behind the first `sent` are in `sendbuf` and the send queue. -/
structure Framed (p : Placed) (c : ConnId) : Prop where
  sent : (p.tr.srv.conns c).sent ≤ (p.placed c).length
  waiting : (p.placed c).drop (p.tr.srv.conns c).sent
    = ((p.tr.srv.conns c).sendbuf.toList ++ (p.tr.srv.conns c).sendQueue).map fun b =>
        responseBytes (p.tr.srv.bufs b).msg
  wire : (p.tr.hist c).wire
    = ((p.placed c).take (p.tr.srv.conns c).sent).flatten ++ p.tr.srv.outgoing c
  length : ∀ r ∈ p.placed c, r.length = sizeofResponse

/-- What the submitter has done with was in its hand. -/
theorem mem_submitting_of_processed (h : Inv cfg s) (hb : b ∈ processed s c a) :
    b ∈ s.submitting c := by
  rcases processed_cases s c a with hnil | ⟨j, ok, b', -, hpc, heq⟩
  · simp [hnil] at hb
  · obtain rfl : b = b' := by simpa [heq] using hb
    have hhand : b ∈ (s.submit j).hand := by simp [hpc, SubmitPc.hand]
    have hconn := (h.submitHand (congrArg SubmitPc.carried hpc)).2.2
    exact h.mem_submitting.mpr ⟨⟨j, List.mem_append_left _ hhand⟩, hconn⟩

theorem framed_step (h : OpenStep cfg sha1 c p.tr a p'.tr) (hplaced : p'.placed = p.record a)
    (hemitted : Emitted p.tr c) (hold : Framed p c) : Framed p' c := by
  have hnew : p'.placed c = p.placed c ++
      (processed p.tr.srv c a).map fun b => responseBytes (p.tr.srv.bufs b).msg := by
    simp [hplaced, Placed.record, not_begins h.session, queued, h.opened]
  have hsent := sent_step h.step h.session h.opened'
  have hline := sending_step h.inv h.step h.session h.opened'
  have hwire : (p'.tr.hist c).wire = (p.tr.hist c).wire ++ bytesOut p.tr.srv c a := by
    simp [h.record]
  have hlen := congrArg List.length hold.waiting
  have hlen' := congrArg List.length hline
  simp only [List.length_drop, List.length_map, List.length_append] at hlen hlen'
  have hle := hold.sent
  constructor
  · rw [hsent, hnew, List.length_append, List.length_map]
    omega
  · -- the responses leave `sendbuf` and the queue at the front, and arrive at the back
    have hdrop : (p'.placed c).drop (p'.tr.srv.conns c).sent
        = ((p'.tr.srv.conns c).sendbuf.toList ++ (p'.tr.srv.conns c).sendQueue).map fun b =>
          responseBytes (p.tr.srv.bufs b).msg := by
      rw [hsent, hnew, ← List.drop_drop, List.drop_append_of_le_length hle, hold.waiting,
        ← List.map_append, ← hline, List.map_append, List.drop_left' (List.length_map _)]
    rw [hdrop]
    apply List.map_congr_left
    intro b hb
    have hmem : b ∈ answered p.tr.srv c a ++
        ((p'.tr.srv.conns c).sendbuf.toList ++ (p'.tr.srv.conns c).sendQueue) :=
      List.mem_append_right _ hb
    rw [hline, List.mem_append] at hmem
    have hplace : b ∈ (p.tr.srv.conns c).sendbuf.toList ++ (p.tr.srv.conns c).sendQueue
        ++ p.tr.srv.submitting c :=
      List.mem_append.mpr (hmem.imp_right (mem_submitting_of_processed h.inv))
    rw [msg_step h.inv h.step h.opened hplace]
  · rcases (outgoing_step h hemitted.sendbuf).2 with ⟨hans, hout⟩ | ⟨b, hans, hb, hlast, hout⟩
    · rw [hwire, hold.wire, hout, hsent, hans, hnew, List.length_nil, Nat.add_zero,
        List.take_append_of_le_length hle, List.append_assoc]
    · -- the response that is now complete is the first that was waiting
      have hfront : (p.placed c).drop (p.tr.srv.conns c).sent
          = responseBytes (p.tr.srv.bufs b).msg ::
            (p.tr.srv.conns c).sendQueue.map fun b => responseBytes (p.tr.srv.bufs b).msg := by
        rw [hold.waiting, hb]
        rfl
      have hroom : (p.tr.srv.conns c).sent + 1 ≤ (p.placed c).length := by
        have := congrArg List.length hfront
        simp only [List.length_drop, List.length_cons] at this
        omega
      rw [hwire, hold.wire, hout, hsent, hans, hnew, List.length_singleton,
        List.take_append_of_le_length hroom, List.take_add, hfront, List.append_assoc, hlast]
      simp
  · intro r hr
    rw [hnew, List.mem_append, List.mem_map] at hr
    rcases hr with hr | ⟨b, -, rfl⟩
    · exact hold.length r hr
    · exact Bytes.length_slice _ _ _

/-- A session that `handle_accept` has just begun has nothing queued and nothing sent. -/
theorem framed_fresh (h : Inv cfg p.tr.srv) (h' : Inv cfg p'.tr.srv)
    (hs : Step cfg sha1 p.tr.srv a p'.tr.srv) (hhist : p'.tr.hist = p.tr.record a)
    (hplaced : p'.placed = p.record a) (hnew : ¬p.tr.srv.InSession c)
    (hin' : p'.tr.srv.InSession c) (hcl : (p'.tr.srv.conns c).closed = false) : Framed p' c := by
  obtain ⟨hstart, hpipe, hrecv, -⟩ := ledger_fresh h hs hhist hnew hin'
  obtain ⟨w, fd, ok, rfl, hpc⟩ := (session_back hs hin').resolve_left hnew
  have hout := h'.outstanding hin' hcl
  have hsent : (p'.tr.srv.conns c).sent = 0 := by omega
  simp only [ServerContext.pipeline, List.append_eq_nil_iff, Option.toList_eq_nil_iff] at hpipe
  obtain ⟨⟨⟨hsend, hqueue⟩, -⟩, -⟩ := hpipe
  have hnone : p'.placed c = [] := by simp [hplaced, Placed.record, begins, hpc]
  constructor
  · simp [hsent]
  · simp [hnone, hsend, hqueue]
  · simp [hstart, SessionHistory.start, hnone, outgoing_idle hsend]
  · simp [hnone]

theorem framed_of_run (h : PlacedRun cfg sha1 bufs p) (hin : p.tr.srv.InSession c)
    (hcl : (p.tr.srv.conns c).closed = false) : Framed p c := by
  refine h.invariant (I := fun p => ∀ c, p.tr.srv.InSession c →
    (p.tr.srv.conns c).closed = false → Framed p c) ?_ ?_ c hin hcl
  · intro c _ _
    constructor
    · exact Nat.zero_le _
    · rfl
    · rfl
    · exact fun r hr => absurd hr List.not_mem_nil
  · intro p a p' hr hI hok hpstep c hin' hcl
    obtain ⟨t', htstep, rfl⟩ := Option.map_eq_some_iff.mp hpstep
    obtain ⟨hsrv, hhist, horigin⟩ := tstep_eq htstep
    have htrace := PlacedRun.trace hr
    have hinv := inv_of_trace (fun _ _ => id) htrace
    have hinv' := inv_of_trace (fun _ _ => id) (htrace.tail hok htstep)
    have hs := step_cases hsrv
    by_cases hin : p.tr.srv.InSession c
    · have hcl₀ := open_before hs hin hcl
      exact framed_step ⟨hinv, hs, hhist, horigin, hin, hin', hcl⟩ rfl
        (counted_of_trace (fun _ _ => id) htrace hin hcl₀).emitted (hI c hin hcl₀)
    · exact framed_fresh hinv hinv' hs hhist rfl hin hin' hcl

/-- What is out of the response in `sendbuf` is as much of it as `left` says. -/
theorem Emitted.outgoing_eq {t : Traced} (h : Emitted t c) (hb : (t.srv.conns c).sendbuf = some b) :
    t.srv.outgoing c
      = (responseBytes (t.srv.bufs b).msg).take (sizeofResponse - (t.srv.bufs b).left) := by
  obtain ⟨-, hptr, hplace⟩ := h.sendbuf b hb
  have hsplit : sizeofResponse
      = ((t.srv.bufs b).ptr - resOffset) + (t.srv.bufs b).left := by omega
  have hout : sizeofResponse - (t.srv.bufs b).left = (t.srv.bufs b).ptr - resOffset := by omega
  rw [outgoing_busy hb, hout, responseBytes, hsplit, Bytes.slice_add,
    List.take_left' (Bytes.length_slice _ _ _)]

/-- **Framing.** In an open session of an orderly run the bytes that `Z_send` has taken are the
first `sent` of the responses put on the send queue, one after another and 24 bytes each, and then
as much of the response in `sendbuf`, which is the next one, as `left` says. With `max_io_size` at
least 1, a call of `handle_response` has at most one turn more than there were bytes to send when it
began or came to be queued in the course of it, and has a next step unless it waits for the lock. -/
theorem responses_framed (hio : 1 ≤ cfg.load.maxIoSize) (h : PlacedRun cfg sha1 bufs p)
    (hin : p.tr.srv.InSession c) (hcl : (p.tr.srv.conns c).closed = false) :
    (p.tr.hist c).wire
        = ((p.placed c).take (p.tr.srv.conns c).sent).flatten ++ p.tr.srv.outgoing c ∧
      (p.tr.srv.conns c).sent ≤ (p.placed c).length ∧
      (∀ r ∈ p.placed c, r.length = sizeofResponse) ∧
      (∀ b, (p.tr.srv.conns c).sendbuf = some b →
        (p.placed c)[(p.tr.srv.conns c).sent]? = some (responseBytes (p.tr.srv.bufs b).msg) ∧
          p.tr.srv.outgoing c = (responseBytes (p.tr.srv.bufs b).msg).take
            (sizeofResponse - (p.tr.srv.bufs b).left)) ∧
      ((p.tr.srv.conns c).sendbuf = none → p.tr.srv.outgoing c = []) ∧
      (∀ k l s', Path (step cfg sha1) (fun s a => Orderly s a ∧ (s.io k).pc.inResponse c)
          p.tr.srv l s' →
        total (responseTurn k) l ≤ p.tr.srv.toSend c
          + sizeofResponse * total (fun s a => (processed s c a).length) l + 1) ∧
      ∀ k, (p.tr.srv.io k).pc.inResponse c → (p.tr.srv.conns c).lock = false →
        ∃ a s', a.ioWorker = some k ∧ step cfg sha1 p.tr.srv a = some s' := by
  have htrace := PlacedRun.trace h
  have hframed := framed_of_run h hin hcl
  have hemitted := (counted_of_trace (fun _ _ => id) htrace hin hcl).emitted
  refine ⟨hframed.wire, hframed.sent, hframed.length, fun b hb => ⟨?_, hemitted.outgoing_eq hb⟩,
    outgoing_idle, fun k l s' hl => responseTurns_le hio (Trace.run htrace) hl,
    fun k hk hlock => response_enabled (inv_of_trace (fun _ _ => id) htrace) hk hlock⟩
  have hfront := congrArg List.head? hframed.waiting
  simpa [hb] using hfront

/-- Of the first of two responses 10 bytes are sent, then the rest. -/
theorem responses_framed_answerRun : 1 ≤ smallServer.load.maxIoSize ∧
    ∃ p, PlacedRun smallServer zeroSha1 blankBuffers p ∧
      (p.placed 0).length = 1 ∧ (p.tr.srv.conns 0).sent = 1 ∧ (p.tr.hist 0).wire.length = 24 ∧
      (p.tr.hist 0).wire
        = ((p.placed 0).take (p.tr.srv.conns 0).sent).flatten ++ p.tr.srv.outgoing 0 := by
  have hrun := exists_reachable_of_run answerRun
    (fun p => decide ((p.tr.srv.io 0).pc = .recycle 0 false 0 ∧ (p.placed 0).length = 1 ∧
      (p.tr.srv.conns 0).sent = 1 ∧ (p.tr.hist 0).wire.length = 24))
    (by decide +kernel : (run (pstep smallServer zeroSha1) (fun p a => Orderly p.tr.srv a)
      (.init smallServer blankBuffers) answerRun).map _ = some true)
  obtain ⟨p, hp, hend⟩ := hrun
  obtain ⟨hpc, hplaced, hsent, hwire⟩ := of_decide_eq_true hend
  have hop := (inv_of_trace (fun _ _ => id) (PlacedRun.trace hp)).openAt (k := 0) (c := 0)
    (by simp [hpc, IoPc.conn])
  exact ⟨by decide, p, hp, hplaced, hsent, hwire,
    (responses_framed (by decide) hp hop.session hop.closed).1⟩

end Piotbench.Server
