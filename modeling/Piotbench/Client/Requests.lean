import Piotbench.Client.Counts
import Piotbench.Lib.Transition

/-!
# The requests on the wire

One connection with all the bytes that went over it, and a peer that answers complete requests
only. `sending_cases` says what a step can do to the sending half of the connection; from it
follow what is on the wire (`DialogueOk`), and that a connection that has sent its total stays as
it is (`clientStep_settled`).
-/

namespace Piotbench.Client

open Server Transition

/-! ## Requests -/

/-- `struct request_t` as the client fills it: nothing writes to `data` after `calloc`. -/
def request (id : Nat) : List Byte := idBytes id ++ List.replicate requestLength 0

/-- The requests with ids 0, 1, 2, …, the first `k` of them. An id is an `unsigned int`. -/
def requests (k : Nat) : List Byte :=
  ((List.range k).map fun id => request (id % UInt32.size)).flatten

@[simp] theorem length_idBytes (sent : Nat) : (idBytes sent).length = sizeofId := by
  simp [idBytes]

@[simp] theorem length_request (id : Nat) : (request id).length = sizeofRequest := by
  simp [request, sizeofRequest]

/-- The id's bytes are those of the counter modulo `2 ^ 32`. -/
theorem idBytes_mod (sent : Nat) : idBytes (sent % UInt32.size) = idBytes sent := by
  apply List.map_congr_left
  intro i hi
  have hi : i < 4 := List.mem_range.mp hi
  have hsize : UInt32.size = 4294967296 := rfl
  apply UInt8.toNat_inj.mp
  simp only [UInt8.toNat_ofNat', Nat.shiftRight_eq_div_pow, hsize]
  match i, hi with
  | 0, _ | 1, _ | 2, _ | 3, _ => omega

theorem requests_succ (k : Nat) : requests (k + 1) = requests k ++ request k := by
  have hmod : request (k % UInt32.size) = request k := by
    rw [request, idBytes_mod, request]
  simp only [requests, List.range_succ, List.map_append, List.flatten_append, List.map_cons,
    List.map_nil, List.flatten_cons, List.flatten_nil, List.append_nil, hmod]

/-! ## What a step does to the sending half -/

/-- What a step can do to `sendbuf`, `sent` and `total`. -/
inductive Sending (cl : ClientWorker) (a : ClientAction) (cl' : ClientWorker) : Prop
  | keep : cl'.conn.sendbuf = cl.conn.sendbuf → cl'.conn.status.sent = cl.conn.status.sent →
      cl'.conn.status.total = cl.conn.status.total → bytesOut cl a = [] → Sending cl a cl'
  /-- The next request is created. -/
  | create (input : Bool) : cl.pc = .output input → cl.conn.sendbuf.left = 0 →
      cl'.conn.sendbuf =
        ⟨Bytes.blit cl.conn.sendbuf.msg 0 (idBytes cl.conn.status.sent), sizeofRequest⟩ →
      cl'.conn.status.sent = cl.conn.status.sent →
      cl'.conn.status.total = cl.conn.status.total → bytesOut cl a = [] → Sending cl a cl'
  /-- The client is asked to stop, and what it has sent becomes the total. -/
  | settle (input : Bool) : cl.pc = .output input → cl.conn.sendbuf.left = 0 →
      cl'.conn.sendbuf = cl.conn.sendbuf → cl'.conn.status.sent = cl.conn.status.sent →
      cl'.conn.status.total = cl.conn.status.sent → bytesOut cl a = [] → Sending cl a cl'
  | send (input : Bool) (written : Nat) : cl.pc = .send input → written ≤ cl.conn.sendbuf.left →
      cl'.conn.sendbuf = ⟨cl.conn.sendbuf.msg, cl.conn.sendbuf.left - written⟩ →
      cl'.conn.status.sent =
        (if cl.conn.sendbuf.left - written = 0 then cl.conn.status.sent + 1
          else cl.conn.status.sent) →
      cl'.conn.status.total = cl.conn.status.total →
      bytesOut cl a =
        Bytes.slice cl.conn.sendbuf.msg (sizeofRequest - cl.conn.sendbuf.left) written →
      Sending cl a cl'

section Step

variable {cl cl' : ClientWorker} {a : ClientAction}

theorem handleOutputTop_sending {input : Bool} (hpc : cl.pc = .output input) :
    Sending cl .outputTop (handleOutputTop cl input) := by
  by_cases hidle : cl.conn.sendbuf.left = 0
  · cases hstop : cl.stopping with
    | true =>
      simp only [handleOutputTop, hidle, hstop, if_true]
      exact .settle input hpc hidle rfl rfl rfl rfl
    | false =>
      simp only [handleOutputTop, hidle, hstop, if_true, Bool.false_eq_true, if_false]
      exact .create input hpc hidle rfl rfl rfl rfl
  · simp only [handleOutputTop, hidle, if_false]
    exact .keep rfl rfl rfl rfl

theorem handleOutputSend_sending {input : Bool} (hpc : cl.pc = .send input) {res : SendResult}
    (hstep : handleOutputSend cl input res = some cl') : Sending cl (.send res) cl' := by
  cases res with
  | eagain | error =>
    cases hstep
    exact .keep rfl rfl rfl rfl
  | sent n =>
    simp only [handleOutputSend] at hstep
    split at hstep
    · next hn =>
      split at hstep
      · next hdone =>
        cases hstep
        exact .send input n hpc hn rfl (if_pos hdone).symm rfl rfl
      · next hmore =>
        cases hstep
        exact .send input n hpc hn rfl (if_neg hmore).symm rfl rfl
    · cases hstep

theorem handleAfterOutput_conn (cl : ClientWorker) (input ok : Bool) :
    (handleAfterOutput cl input ok).conn = cl.conn := by
  unfold handleAfterOutput epollSetConn
  split
  · split
    · rfl
    · split <;> rfl
  · rfl

theorem handleAfterInput_status (cl : ClientWorker) (clockOk : Bool) :
    (handleAfterInput cl clockOk).conn.sendbuf = cl.conn.sendbuf ∧
      (handleAfterInput cl clockOk).conn.status = cl.conn.status := by
  unfold handleAfterInput
  split
  · split <;> exact ⟨rfl, rfl⟩
  · exact ⟨rfl, rfl⟩

theorem handleEvent_conn {events : EpollMask} {clockOk : Bool}
    (hstep : handleEvent cl events clockOk = some cl') : cl'.conn = cl.conn := by
  unfold handleEvent at hstep
  split at hstep
  · split at hstep
    · split at hstep <;> cases hstep <;> rfl
    · cases hstep
      rfl
  · cases hstep

/-- `stopping` and the descriptor are as they were. -/
structure SameFlags (cl cl' : ClientWorker) : Prop where
  stopping : cl'.stopping = cl.stopping
  closed : cl'.conn.closed = cl.conn.closed

theorem handleEvent_flags {events : EpollMask} {clockOk : Bool}
    (hstep : handleEvent cl events clockOk = some cl') : SameFlags cl cl' := by
  unfold handleEvent at hstep
  split at hstep
  · split at hstep
    · split at hstep <;> cases hstep <;> exact ⟨rfl, rfl⟩
    · cases hstep
      exact ⟨rfl, rfl⟩
  · cases hstep

theorem handleOutputTop_flags (cl : ClientWorker) (input : Bool) :
    SameFlags cl (handleOutputTop cl input) := by
  simp only [handleOutputTop]
  split
  · split <;> exact ⟨rfl, rfl⟩
  · exact ⟨rfl, rfl⟩

theorem handleOutputSend_flags {input : Bool} {res : SendResult}
    (hstep : handleOutputSend cl input res = some cl') : SameFlags cl cl' := by
  cases res with
  | eagain | error =>
    cases hstep
    exact ⟨rfl, rfl⟩
  | sent n =>
    simp only [handleOutputSend] at hstep
    split at hstep
    · split at hstep <;> cases hstep <;> exact ⟨rfl, rfl⟩
    · cases hstep

theorem handleAfterOutput_flags (cl : ClientWorker) (input ok : Bool) :
    SameFlags cl (handleAfterOutput cl input ok) := by
  refine ⟨?_, by rw [handleAfterOutput_conn]⟩
  simp only [handleAfterOutput, epollSetConn]
  split
  · split
    · rfl
    · split <;> rfl
  · rfl

theorem handleInputTop_flags (cl : ClientWorker) : SameFlags cl (handleInputTop cl) := by
  simp only [handleInputTop]
  split
  · split <;> exact ⟨rfl, rfl⟩
  · exact ⟨rfl, rfl⟩

theorem handleInputRecv_flags {res : RecvResult} (hstep : handleInputRecv cl res = some cl') :
    SameFlags cl cl' := by
  cases res with
  | eagain | eof | error =>
    cases hstep
    exact ⟨rfl, rfl⟩
  | data bytes =>
    simp only [handleInputRecv] at hstep
    split at hstep
    · cases hstep
      exact ⟨rfl, rfl⟩
    · cases hstep

theorem handleInputTop_sending : Sending cl .inputTop (handleInputTop cl) := by
  simp only [handleInputTop]
  split
  · split <;> exact .keep rfl rfl rfl rfl
  · exact .keep rfl rfl rfl rfl

theorem handleInputRecv_sending {res : RecvResult} (hstep : handleInputRecv cl res = some cl') :
    Sending cl (.recv res) cl' := by
  cases res with
  | eagain | eof | error =>
    cases hstep
    exact .keep rfl rfl rfl rfl
  | data bytes =>
    simp only [handleInputRecv] at hstep
    split at hstep
    · cases hstep
      exact .keep rfl rfl rfl rfl
    · cases hstep

/-- **What a step does to the sending half.** -/
theorem sending_cases (hstep : clientStep cl a = some cl') : Sending cl a cl' := by
  cases client_cases hstep with
  | stop => exact .keep rfl rfl rfl rfl
  | event hpc hevent =>
    have hconn := handleEvent_conn hevent
    exact .keep (by rw [hconn]) (by rw [hconn]) (by rw [hconn]) rfl
  | outputTop hpc => exact handleOutputTop_sending hpc
  | send hpc hsend => exact handleOutputSend_sending hpc hsend
  | @afterOutput input ok hpc =>
    have hconn := handleAfterOutput_conn cl input ok
    exact .keep (by rw [hconn]) (by rw [hconn]) (by rw [hconn]) rfl
  | inputTop hpc => exact handleInputTop_sending
  | recv hpc hrecv => exact handleInputRecv_sending hrecv
  | @afterInput clockOk hpc =>
    obtain ⟨hbuf, hstatus⟩ := handleAfterInput_status cl clockOk
    exact .keep hbuf (by rw [hstatus]) (by rw [hstatus]) rfl

/-- A connection that has sent its total keeps both numbers, and sends nothing any more. -/
theorem clientStep_settled (h : ClientOk cl) (hstep : clientStep cl a = some cl')
    (hlast : cl.conn.status.sent = cl.conn.status.total) :
    cl'.conn.status.sent = cl.conn.status.sent ∧
      cl'.conn.status.total = cl.conn.status.total ∧ bytesOut cl a = [] := by
  cases sending_cases hstep with
  | keep hbuf hsent htotal hout => exact ⟨hsent, htotal, hout⟩
  | create input hpc | settle input hpc =>
    -- the loop is only entered, and gone through again, with requests left to be sent
    have hlt : cl.conn.status.sent < cl.conn.status.total := by
      simpa [ClientWorker.PcOk, hpc] using h.pc
    exact absurd hlast (Nat.ne_of_lt hlt)
  | send input written hpc =>
    have hbusy : 0 < cl.conn.sendbuf.left := by simpa [ClientWorker.PcOk, hpc] using h.pc
    exact absurd hlast (Nat.ne_of_lt (h.busy hbusy))

end Step

/-! ## A connection and its peer -/

/-- One connection, with all the bytes sent and all the bytes received on it. -/
structure Dialogue where
  cl : ClientWorker
  wire : List Byte
  heard : List Byte

def Dialogue.init (nrRequests : Nat) : Dialogue := ⟨.init nrRequests, [], []⟩

def Dialogue.step (d : Dialogue) (a : ClientAction) : Option Dialogue :=
  (clientStep d.cl a).map fun cl => ⟨cl, d.wire ++ bytesOut d.cl a, d.heard ++ bytesIn a⟩

/-- The peer has sent no more than one response for every complete request on the wire. -/
def answered (wire heard : List Byte) : Prop :=
  heard.length ≤ sizeofResponse * (wire.length / sizeofRequest)

instance (wire heard : List Byte) : Decidable (answered wire heard) :=
  inferInstanceAs (Decidable (_ ≤ _))

/-- The step receives nothing that the peer may not have sent. -/
def Dialogue.PeerOk (d : Dialogue) (a : ClientAction) : Prop :=
  answered d.wire (d.heard ++ bytesIn a)

/-- What is on the wire: the complete requests, and as much of the next as has been sent. -/
structure DialogueOk (nrRequests : Nat) (d : Dialogue) : Prop where
  ok : ClientOk d.cl
  read : d.heard.length = d.cl.read
  peer : answered d.wire d.heard
  data : Bytes.slice d.cl.conn.sendbuf.msg sizeofId requestLength = List.replicate requestLength 0
  /-- The request in progress has the number of those before it for its id. -/
  id : 0 < d.cl.conn.sendbuf.left →
    Bytes.slice d.cl.conn.sendbuf.msg 0 sizeofId = idBytes d.cl.conn.status.sent
  wire : d.wire = requests d.cl.conn.status.sent ++
    Bytes.slice d.cl.conn.sendbuf.msg 0 (d.cl.conn.sendbuf.done sizeofRequest)
  total : d.cl.conn.status.total = nrRequests ∨
    d.cl.conn.status.total = d.cl.conn.status.sent ∧ d.cl.conn.sendbuf.left = 0

theorem dialogueOk_init {nrRequests : Nat} (h : 1 ≤ nrRequests) :
    DialogueOk nrRequests (.init nrRequests) where
  ok := clientOk_init h
  read := rfl
  peer := Nat.zero_le _
  data := List.map_const' ..|>.trans (by simp)
  id hbusy := absurd hbusy (Nat.lt_irrefl 0)
  wire := rfl
  total := .inl rfl

/-- A complete request in the buffer. -/
theorem DialogueOk.complete {nrRequests : Nat} {d : Dialogue} (h : DialogueOk nrRequests d)
    (hbusy : 0 < d.cl.conn.sendbuf.left) :
    Bytes.slice d.cl.conn.sendbuf.msg 0 sizeofRequest = request d.cl.conn.status.sent := by
  rw [sizeofRequest, Bytes.slice_add, h.id hbusy, Nat.zero_add, h.data, request]

/-- `n` more bytes of the request in the buffer, which may be its last. -/
theorem DialogueOk.wire_append {nrRequests n : Nat} {d : Dialogue} (h : DialogueOk nrRequests d)
    (hbusy : 0 < d.cl.conn.sendbuf.left) (hn : n ≤ d.cl.conn.sendbuf.left) :
    d.wire ++ Bytes.slice d.cl.conn.sendbuf.msg (sizeofRequest - d.cl.conn.sendbuf.left) n =
      if d.cl.conn.sendbuf.left - n = 0 then requests (d.cl.conn.status.sent + 1)
      else requests d.cl.conn.status.sent ++
        Bytes.slice d.cl.conn.sendbuf.msg 0 (sizeofRequest - (d.cl.conn.sendbuf.left - n)) := by
  have hsize := h.ok.sendLeft
  have hjoin := Bytes.slice_add d.cl.conn.sendbuf.msg 0 (sizeofRequest - d.cl.conn.sendbuf.left) n
  rw [Nat.zero_add] at hjoin
  rw [h.wire, done_of_busy hbusy, List.append_assoc, ← hjoin]
  split
  · next hdone =>
    rw [requests_succ, ← h.complete hbusy]
    congr 2
    omega
  · congr 2
    omega

/-- **One step**: what `send` takes continues what is on the wire. -/
theorem dialogueOk_step {nrRequests : Nat} {d d' : Dialogue} {a : ClientAction}
    (h : DialogueOk nrRequests d) (hpeer : d.PeerOk a) (hstep : d.step a = some d') :
    DialogueOk nrRequests d' := by
  obtain ⟨cl', hcl, rfl⟩ := Option.map_eq_some_iff.mp hstep
  have htransfers := clientStep_transfers h.ok hcl
  have hread : (d.heard ++ bytesIn a).length = cl'.read := by
    rw [List.length_append, h.read, htransfers.read]
  have hanswered : answered (d.wire ++ bytesOut d.cl a) (d.heard ++ bytesIn a) := by
    apply Nat.le_trans hpeer
    apply Nat.mul_le_mul_left
    apply Nat.div_le_div_right
    simp
  cases sending_cases hcl with
  | keep hbuf hsent htotal hout =>
    refine ⟨htransfers.ok, hread, hanswered, ?_, ?_, ?_, ?_⟩
    · simpa only [hbuf] using h.data
    · simpa only [hbuf, hsent] using h.id
    · simpa only [hbuf, hsent, hout, List.append_nil] using h.wire
    · simpa only [hbuf, hsent, htotal] using h.total
  | create input hpc hidle hbuf hsent htotal hout =>
    refine ⟨htransfers.ok, hread, hanswered, ?_, ?_, ?_, ?_⟩
    · have habove := Bytes.slice_blit_above d.cl.conn.sendbuf.msg (n := requestLength)
        (idBytes d.cl.conn.status.sent) (Nat.le_of_eq (by rw [length_idBytes, Nat.zero_add]))
      simp only [hbuf]
      exact habove.trans h.data
    · intro _
      rw [hbuf, hsent]
      simpa using Bytes.slice_blit_self d.cl.conn.sendbuf.msg 0 (idBytes d.cl.conn.status.sent)
    · -- a request of which nothing has been sent
      have hwire := h.wire
      rw [done_of_idle hidle] at hwire
      rw [hbuf, hsent, hout, List.append_nil, hwire]
      simp [MessageBuffer.done]
    · -- the total has not come down yet, since a request is left to be sent
      have hlt : d.cl.conn.status.sent < d.cl.conn.status.total := by
        simpa [ClientWorker.PcOk, hpc] using h.ok.pc
      rcases h.total with htot | ⟨htot, _⟩
      · exact .inl (htotal.trans htot)
      · omega
  | settle input hpc hidle hbuf hsent htotal hout =>
    refine ⟨htransfers.ok, hread, hanswered, ?_, ?_, ?_, ?_⟩
    · simpa only [hbuf] using h.data
    · simpa only [hbuf, hsent] using h.id
    · simpa only [hbuf, hsent, hout, List.append_nil] using h.wire
    · exact .inr ⟨by rw [htotal, hsent], by rw [hbuf, hidle]⟩
  | send input n hpc hn hbuf hsent htotal hout =>
    have hbusy : 0 < d.cl.conn.sendbuf.left := by simpa [ClientWorker.PcOk, hpc] using h.ok.pc
    have hlt := h.ok.busy hbusy
    have hmore := h.wire_append hbusy hn
    rw [← hout] at hmore
    have htot : d.cl.conn.status.total = nrRequests := by
      rcases h.total with htot | ⟨htot, _⟩
      · exact htot
      · omega
    refine ⟨htransfers.ok, hread, hanswered, ?_, ?_, ?_, ?_⟩
    · simpa only [hbuf] using h.data
    · intro hleft
      rw [hbuf] at hleft ⊢
      rw [hsent, if_neg (Nat.ne_of_gt hleft)]
      exact h.id hbusy
    · split at hmore
      · next hdone =>
        rw [hsent, if_pos hdone, hbuf, done_of_idle hdone, Bytes.slice_zero, List.append_nil]
        exact hmore
      · next hpart =>
        rw [hsent, if_neg hpart, hbuf, done_of_busy (Nat.pos_of_ne_zero hpart)]
        exact hmore
    · exact .inl (htotal.trans htot)

/-! ## What holds in every state -/

section Ok

variable {nrRequests : Nat} {d : Dialogue}

theorem DialogueOk.length_wire (h : DialogueOk nrRequests d) : d.wire.length = d.cl.written := by
  have hlen : ∀ k, (requests k).length = sizeofRequest * k := by
    intro k
    induction k with
    | zero => rfl
    | succ k ih => rw [requests_succ, List.length_append, ih, length_request, Nat.mul_succ]
  rw [h.wire, List.length_append, hlen, Bytes.length_slice, ClientWorker.written]

/-- `sent` counts the complete requests on the wire. -/
theorem DialogueOk.sent (h : DialogueOk nrRequests d) :
    d.cl.conn.status.sent = d.wire.length / sizeofRequest := by
  have hpos : 0 < sizeofRequest := by decide
  have hdone := done_le d.cl.conn.sendbuf sizeofRequest hpos
  rw [h.length_wire, ClientWorker.written, Nat.mul_add_div hpos, Nat.div_eq_of_lt hdone,
    Nat.add_zero]

/-- `received` counts the complete responses read. -/
theorem DialogueOk.received (h : DialogueOk nrRequests d) :
    d.cl.conn.status.received = d.heard.length / sizeofResponse := by
  have hpos : 0 < sizeofResponse := by decide
  have hdone := done_le d.cl.conn.recvbuf sizeofResponse hpos
  rw [h.read, ClientWorker.read, Nat.mul_add_div hpos, Nat.div_eq_of_lt hdone, Nat.add_zero]

/-- There are no more responses than requests. -/
theorem DialogueOk.received_le (h : DialogueOk nrRequests d) :
    d.cl.conn.status.received ≤ d.cl.conn.status.sent := by
  rw [h.received, h.sent]
  apply Nat.div_le_of_le_mul
  exact h.peer

/-- The wire carries a prefix of the requests. -/
theorem DialogueOk.onWire (h : DialogueOk nrRequests d) :
    d.wire <+: requests (d.cl.conn.status.sent + 1) := by
  rw [h.wire, requests_succ]
  apply (List.prefix_append_right_inj _).mpr
  by_cases hbusy : 0 < d.cl.conn.sendbuf.left
  · -- what has been sent of the request in the buffer
    rw [done_of_busy hbusy, ← h.complete hbusy]
    refine ⟨Bytes.slice d.cl.conn.sendbuf.msg (sizeofRequest - d.cl.conn.sendbuf.left)
      d.cl.conn.sendbuf.left, ?_⟩
    have hjoin := Bytes.slice_add d.cl.conn.sendbuf.msg 0
      (sizeofRequest - d.cl.conn.sendbuf.left) d.cl.conn.sendbuf.left
    rw [Nat.zero_add, Nat.sub_add_cancel h.ok.sendLeft] at hjoin
    exact hjoin.symm
  · rw [done_of_idle (Nat.eq_zero_of_not_pos hbusy)]
    exact List.nil_prefix

/-- When everything has been answered nothing is left to be sent. -/
theorem DialogueOk.finished (h : DialogueOk nrRequests d)
    (hlast : d.cl.conn.status.total ≤ d.cl.conn.status.received) :
    d.cl.conn.status.sent = d.cl.conn.status.received ∧
      d.cl.conn.status.received = d.cl.conn.status.total ∧ d.cl.conn.sendbuf.left = 0 := by
  have hreceived := h.received_le
  have hsent := h.ok.sent_le
  refine ⟨by omega, by omega, Nat.eq_zero_of_not_pos fun hbusy => ?_⟩
  have hlt := h.ok.busy hbusy
  omega

end Ok

end Piotbench.Client
