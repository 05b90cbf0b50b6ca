import Piotbench.Link.Progress
import Piotbench.Server.Reassembly
import Piotbench.Server.Wakeup

/-!
# A session in which everybody waits is finished

Client and server both wait in `epoll_wait`, and between the IO worker, the compute worker and the
submitter a request changes hands through queues. `Idle` is the state in which none of the four has
anything to do for a session: no queue holds anything for them, and `epoll` reports neither side of
the socket. In a run in which every `epoll_ctl` succeeds that only happens when the client has
received the response to every request it wanted to send (`idle_finished`).
-/

namespace Piotbench.Link

open Server Client Transition

variable {cfg : ServerConfig} {sha1 : Sha1} {c : ConnId} {n : Nat} {l l' : LinkState}
  {bufs : BufId → ServerBuffer} {nrRequests : Nat}

/-! ## The client's registration -/

/-- An open connection is registered for input, and for output as long as a request is to be
sent. -/
structure ClientArmed (cl : ClientWorker) : Prop where
  input : cl.conn.closed = false → cl.interest.has epollIn = true
  output : cl.conn.closed = false → cl.conn.status.sent ≠ cl.conn.status.total →
    cl.interest.has epollOut = true

/-- Every call of `epoll_set_conn` succeeds. -/
def clientCtlOk : ClientAction → Bool
  | .afterOutput ok => ok
  | _ => true

section Client

variable {cl cl' : ClientWorker} {a : ClientAction}

theorem registered_bits :
    (epollIn ||| epollOut).has epollIn = true ∧ (epollIn ||| epollOut).has epollOut = true := by
  decide

theorem clientArmed_init : ClientArmed (.init nrRequests) where
  input _ := registered_bits.1
  output _ _ := registered_bits.2

/-- A step that leaves the registration as it is. -/
theorem ClientArmed.same (h : ClientArmed cl) (hclosed : cl'.conn.closed = cl.conn.closed)
    (hinterest : cl'.interest = cl.interest)
    (hleft : cl'.conn.status.sent ≠ cl'.conn.status.total →
      cl.conn.status.sent ≠ cl.conn.status.total) : ClientArmed cl' where
  input hopen := by
    rw [hinterest]
    exact h.input (hclosed.symm.trans hopen)
  output hopen hne := by
    rw [hinterest]
    exact h.output (hclosed.symm.trans hopen) (hleft hne)

theorem handleEvent_armed (h : ClientArmed cl) {events : EpollMask} {clockOk : Bool}
    (hstep : handleEvent cl events clockOk = some cl') : ClientArmed cl' := by
  unfold handleEvent at hstep
  split at hstep
  · split at hstep
    · split at hstep <;> cases hstep <;> exact h.same rfl rfl id
    · cases hstep
      exact h.same rfl rfl id
  · cases hstep

theorem handleOutputTop_armed (h : ClientArmed cl) (input : Bool) :
    ClientArmed (handleOutputTop cl input) := by
  unfold handleOutputTop
  dsimp only
  split
  · split
    · -- with `stopping` set nothing more is to be sent
      exact h.same rfl rfl fun hne => absurd rfl hne
    · exact h.same rfl rfl id
  · exact h.same rfl rfl id

theorem handleOutputSend_armed (hok : ClientOk cl) (h : ClientArmed cl) {input : Bool}
    {res : SendResult} (hpc : cl.pc = .send input)
    (hstep : handleOutputSend cl input res = some cl') : ClientArmed cl' := by
  have hbusy : 0 < cl.conn.sendbuf.left := by simpa [ClientWorker.PcOk, hpc] using hok.pc
  have hlt := hok.busy hbusy
  unfold handleOutputSend at hstep
  dsimp only at hstep
  split at hstep
  · cases hstep
    exact h.same rfl rfl id
  · cases hstep
    exact h.same rfl rfl id
  · split at hstep
    · split at hstep <;> cases hstep <;> exact h.same rfl rfl fun _ => Nat.ne_of_lt hlt
    · cases hstep

theorem handleInputTop_armed (h : ClientArmed cl) : ClientArmed (handleInputTop cl) := by
  unfold handleInputTop
  dsimp only
  split
  · split <;> exact h.same rfl rfl id
  · exact h.same rfl rfl id

theorem handleInputRecv_armed (h : ClientArmed cl) {res : RecvResult}
    (hstep : handleInputRecv cl res = some cl') : ClientArmed cl' := by
  unfold handleInputRecv at hstep
  dsimp only at hstep
  split at hstep
  · cases hstep
    exact h.same rfl rfl id
  · cases hstep
    exact h.same rfl rfl id
  · cases hstep
    exact h.same rfl rfl id
  · split at hstep
    · cases hstep
      exact h.same rfl rfl id
    · cases hstep

theorem clientArmed_step (hok : ClientOk cl) (h : ClientArmed cl) (hctl : clientCtlOk a = true)
    (hstep : Client.clientStep cl a = some cl') : ClientArmed cl' := by
  cases client_cases hstep with
  | stop => exact h.same rfl rfl id
  | event hpc hevent => exact handleEvent_armed h hevent
  | outputTop hpc => exact handleOutputTop_armed h _
  | send hpc hsend => exact handleOutputSend_armed hok h hpc hsend
  | @afterOutput input ok hpc =>
    obtain rfl : ok = true := hctl
    unfold handleAfterOutput
    split
    · next hall =>
      -- everything is sent, and `EPOLLIN` alone is registered
      refine ⟨fun _ => ?_, fun _ hne => absurd hall hne⟩
      show epollIn.has epollIn = true
      decide
    · exact h.same rfl rfl id
  | inputTop hpc => exact handleInputTop_armed h
  | recv hpc hrecv => exact handleInputRecv_armed h hrecv
  | afterInput hpc =>
    unfold handleAfterInput
    split
    · split
      · exact ⟨nofun, nofun⟩
      · exact h.same rfl rfl id
    · exact h.same rfl rfl id

end Client

/-! ## The runs -/

/-- The server's steps are orderly, and every `epoll_ctl` succeeds at both ends. -/
def healthyLink (l : LinkState) : LinkAction → Prop
  | .server a => Orderly l.srv.srv a ∧ ctlOk a = true
  | .client a => clientCtlOk a = true

instance : ∀ (l : LinkState) (a : LinkAction), Decidable (healthyLink l a)
  | l, .server a => inferInstanceAs (Decidable (Orderly l.srv.srv a ∧ ctlOk a = true))
  | _, .client a => inferInstanceAs (Decidable (clientCtlOk a = true))

/-- The runs in which nothing fails. -/
abbrev HealthyRun (cfg : ServerConfig) (sha1 : Sha1) (c : ConnId) (n : Nat)
    (bufs : BufId → ServerBuffer) (nrRequests : Nat) : LinkState → Prop :=
  Reachable (linkStep cfg sha1 c n) healthyLink (.init cfg bufs nrRequests)

theorem HealthyRun.link (h : HealthyRun cfg sha1 c n bufs nrRequests l) :
    LinkRun cfg sha1 c n bufs nrRequests l := by
  apply Reachable.strengthen _ h
  intro l a _ hok
  cases a with
  | server a => exact hok.1
  | client a => exact trivial

theorem HealthyRun.server (h : HealthyRun cfg sha1 c n bufs nrRequests l) :
    Run cfg sha1 (fun s a => Orderly s a ∧ ctlOk a = true) bufs l.srv.srv := by
  apply h.project fun l => l.srv.srv
  intro l a l' hok hstep
  cases a with
  | server a => exact .inr ⟨a, hok, (tstep_eq (serverStep_cases hstep).1).1⟩
  | client a => exact .inl (congrArg Traced.srv (clientStep_cases hstep).2.1)

theorem clientArmed_of_run (hpos : 1 ≤ nrRequests) (h : HealthyRun cfg sha1 c n bufs nrRequests l) :
    ClientArmed l.client := by
  refine h.invariant (I := fun l => ClientArmed l.client) clientArmed_init ?_
  intro l a l' hr harmed hok hstep
  cases a with
  | server a =>
    rw [(serverStep_cases hstep).2.1]
    exact harmed
  | client a =>
    have hclient := (conserved_of_run hpos (HealthyRun.link hr)).client
    exact clientArmed_step hclient harmed hok (clientStep_cases hstep).1

/-! ## Idleness -/

/-- Nobody has anything to do for the session: the client, the IO worker, the compute worker and the
submitter of connection `c` wait; the queues of the latter two are empty; and `epoll` has nothing to
report at either end, where a socket can always be written to and can be read from while there are
bytes in its channel. -/
structure Idle (l : LinkState) (c : ConnId) : Prop where
  client : l.client.pc = .wait
  clientOut : l.client.interest.has epollOut = false
  clientIn : l.client.interest.has epollIn = true → l.down = []
  io : (l.srv.srv.io (l.srv.srv.conns c).epollFd).pc = .wait
  ioReady : ∀ i, l.srv.srv.kernel.interest (l.srv.srv.conns c).fd = some i →
    i.events.has epollOut = false ∧ (i.events.has epollIn = true → l.up = [])
  compute : l.srv.srv.compute (l.srv.srv.conns c).computeidx = .idle
  computeInbox : l.srv.srv.computeInbox (l.srv.srv.conns c).computeidx = []
  submit : l.srv.srv.submit (l.srv.srv.conns c).submitidx = .idle
  submitterInbox : l.srv.srv.submitterInbox (l.srv.srv.conns c).submitidx = []

theorem Idle.computing (h : Idle l c) : l.srv.srv.computing c = [] := by
  simp [ServerContext.computing, ServerContext.computeLine, h.compute, h.computeInbox,
    ComputePc.hand]

theorem Idle.submitting (h : Idle l c) : l.srv.srv.submitting c = [] := by
  simp [ServerContext.submitting, ServerContext.submitLine, h.submit, h.submitterInbox,
    SubmitPc.hand]

/-- The server has nothing left: every request that it has received completely is answered. -/
theorem Idle.server (h : Idle l c) (hrun : HealthyRun cfg sha1 c n bufs nrRequests l)
    (hin : l.srv.srv.InSession c) (hcl : (l.srv.srv.conns c).closed = false) :
    l.up = [] ∧ (l.srv.srv.conns c).sendbuf = none ∧
      (l.srv.srv.conns c).sent = (l.srv.srv.conns c).received := by
  obtain ⟨hmirror, hinput, -, hwaiting⟩ := no_lost_wakeup hrun.server hin hcl
  obtain ⟨hout, hup⟩ := h.ioReady _ hmirror
  -- a response that waits would have `EPOLLOUT` in the mask
  have hnone : (l.srv.srv.conns c).sendQueue = [] ∧ (l.srv.srv.conns c).sendbuf = none := by
    by_contra hsome
    have harmed := hwaiting (not_and_or.mp hsome)
    exact Bool.false_ne_true (hout.symm.trans harmed)
  have hacc := (inv_of_trace (fun _ _ => id) hrun.link.trace).accounts c hin
  have hflow := hacc.flow
  have houtput := hacc.output hcl
  simp only [h.computing, h.submitting, hnone.1, hnone.2, List.length_nil, Option.toList_none]
    at hflow houtput
  exact ⟨hup hinput, hnone.2, by omega⟩

/-- What is in `recvbuf` is less than a request. -/
theorem Idle.incoming_lt (h : Idle l c) (hrun : HealthyRun cfg sha1 c n bufs nrRequests l)
    (hin : l.srv.srv.InSession c) (hcl : (l.srv.srv.conns c).closed = false) :
    (l.srv.srv.incoming c).length < sizeofRequest := by
  have htrace := hrun.link.trace
  have hinv := inv_of_trace (fun _ _ => id) htrace
  have hintake := (counted_of_trace (fun _ _ => id) htrace hin hcl).intake
  cases hb : (l.srv.srv.conns c).recvbuf with
  | none =>
    rw [incoming_idle hb]
    exact Nat.zero_lt_succ _
  | some b =>
    obtain ⟨-, hleft⟩ := hintake.ptr_eq hb
    rcases incomplete_of_trace (fun _ _ => id) htrace hin hcl b hb with hmore | ⟨k, hk⟩
    · omega
    · -- the worker that has completed it is the one of the connection, and that one waits
      have hconn : c ∈ (l.srv.srv.io k).pc.conn := by
        unfold IoPc.completing at hk
        split at hk
        · next heq => simp [heq, IoPc.conn, hk]
        · next heq => simp [heq, IoPc.conn, hk]
        · cases hk
      have hwait := h.io
      rw [(hinv.openAt hconn).epollFd] at hwait
      rw [hwait] at hk
      cases hk

/-- **Nobody waits for ever.** In every run of a client and the server in which the server's steps
are orderly and no `epoll_ctl` fails, an open session in which everybody waits is finished: the
client has sent all its requests and has received the response to each, all six counters are equal,
and both channels are empty. -/
theorem idle_finished (hpos : 1 ≤ nrRequests) (h : HealthyRun cfg sha1 c n bufs nrRequests l)
    (hsession : (l.srv.hist c).session = n) (hin : l.srv.srv.InSession c)
    (hcl : (l.srv.srv.conns c).closed = false) (hidle : Idle l c) : Finished l c := by
  have hcons := conserved_of_run hpos h.link
  apply finished_of_run hpos h.link hsession hin hcl
  cases hclosed : l.client.conn.closed with
  | true => exact (hcons.client.closed hclosed).2
  | false =>
    have harmed := clientArmed_of_run hpos h
    have hdone : l.client.conn.status.sent = l.client.conn.status.total := by
      by_contra hne
      exact Bool.false_ne_true (hidle.clientOut.symm.trans (harmed.output hclosed hne))
    have hempty := hidle.clientIn (harmed.input hclosed)
    obtain ⟨hupEmpty, hsendbuf, hsent⟩ := hidle.server h hin hcl
    have hpart := hidle.incoming_lt h hin hcl
    obtain ⟨hrx, hwire, -⟩ := counted_bytes h.link.trace hin hcl
    have hup := hcons.up (Nat.le_of_eq hsession)
    have hdown := hcons.down (Nat.le_of_eq hsession)
    simp only [rx, hsession, if_true, hupEmpty, List.length_nil] at hup
    simp only [wire, hsession, if_true, hempty, List.length_nil] at hdown
    -- no request is half sent, so the server has received them all
    have hidle : l.client.conn.sendbuf.left = 0 := by
      by_contra hbusy
      have hlt := hcons.client.busy (Nat.pos_of_ne_zero hbusy)
      omega
    have hpartDown := done_le l.client.conn.recvbuf sizeofResponse (by decide)
    simp only [ClientWorker.written, done_of_idle hidle, sizeofRequest_eq] at hup hrx hpart
    simp only [ClientWorker.read, outgoing_idle hsendbuf, List.length_nil, sizeofResponse_eq]
      at hdown hwire hpartDown
    omega

/-- The client has read both responses and closed, and the server does not know yet. -/
def answeredRun : List LinkAction :=
  askTwo.map .client ++ serveTwo.map .server ++ hangUp.map .client

/-- The interest registered for session 0 is in input alone. -/
def inputOnly (s : ServerContext) : Bool :=
  match s.kernel.interest (s.conns 0).fd with
  | some i => i.epollFd = 0 ∧ i.conn = 0 ∧ i.events = epollIn
  | none => false

theorem idle_finished_twoRequests : ∃ l, HealthyRun smallServer zeroSha1 0 1 blankBuffers 2 l ∧
    l.client.conn.status.received = 2 ∧ Idle l 0 ∧ Finished l 0 := by
  have hrun := exists_reachable_of_run answeredRun
    (fun l => decide (inputOnly l.srv.srv = true ∧ (l.srv.hist 0).session = 1 ∧
      l.client.conn.status.received = 2 ∧
      (l.client.pc = .wait ∧ l.client.interest = 0 ∧ l.up = []) ∧
      (l.srv.srv.io (l.srv.srv.conns 0).epollFd).pc = .wait ∧
      (l.srv.srv.compute (l.srv.srv.conns 0).computeidx = .idle ∧
        l.srv.srv.computeInbox (l.srv.srv.conns 0).computeidx = []) ∧
      l.srv.srv.submit (l.srv.srv.conns 0).submitidx = .idle ∧
        l.srv.srv.submitterInbox (l.srv.srv.conns 0).submitidx = []))
    (by decide +kernel : (run (linkStep smallServer zeroSha1 0 1) healthyLink
      (.init smallServer blankBuffers 2) answeredRun).map _ = some true)
  obtain ⟨l, hl, hp⟩ := hrun
  obtain ⟨hinput, hsession, hreceived, ⟨hpc, hinterest, hup⟩, hio, ⟨hcompute, hinbox⟩, hsubmit,
    hinbox'⟩ := of_decide_eq_true hp
  unfold inputOnly at hinput
  split at hinput
  · next i hi =>
    obtain ⟨hfd, hconn, hevents⟩ := of_decide_eq_true hinput
    have hlive : l.srv.srv.Live 0 0 := by
      obtain ⟨epollFd, events, conn⟩ := i
      obtain rfl : epollFd = 0 := hfd
      obtain rfl : conn = 0 := hconn
      exact ⟨events, hi⟩
    have hinv := inv_of_trace (fun _ _ => id) (HealthyRun.link hl).trace
    have hop := hinv.openAt_of_live hlive
    have hidle : Idle l 0 := by
      refine ⟨hpc, ?_, ?_, hio, fun j hj => ?_, hcompute, hinbox, hsubmit, hinbox'⟩
      · rw [hinterest]
        decide
      · intro hin
        rw [hinterest] at hin
        exact absurd hin (by decide)
      · cases hi.symm.trans hj
        rw [hevents]
        exact ⟨by decide, fun _ => hup⟩
    exact ⟨l, hl, hreceived, hidle,
      idle_finished (by decide) hl hsession hop.session hop.closed hidle⟩
  · cases hinput

end Piotbench.Link
