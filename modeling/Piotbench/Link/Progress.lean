import Mathlib.Algebra.BigOperators.Group.List.Defs
import Mathlib.Algebra.Group.Nat.Defs
import Piotbench.Client.Requests
import Piotbench.Link.System
import Piotbench.Server.Order

/-!
# Client and server agree on progress

The channels lose nothing: what one side has written is what the other has read and what is still
in the channel (`Conserved`). A request has 1024 bytes and a response 24, so the whole messages
counted at one end are at most those counted at the other, wherever the streams have been cut.
-/

namespace Piotbench.Link

open Server Client Transition

variable {cfg : ServerConfig} {sha1 : Sha1} {c : ConnId} {n : Nat} {l l' : LinkState}
  {bufs : BufId → ServerBuffer} {nrRequests : Nat}

/-! ## The channels -/

/-- The bytes that session `n` of connection `c` has received. -/
def rx (t : Traced) (c : ConnId) (n : Nat) : List Byte :=
  if (t.hist c).session = n then (t.hist c).rx else []

/-- The bytes that session `n` of connection `c` has sent. -/
def wire (t : Traced) (c : ConnId) (n : Nat) : List Byte :=
  if (t.hist c).session = n then (t.hist c).wire else []

/-- What was written is what was read and what is on the way, until session `n` is over. -/
structure Conserved (c : ConnId) (n : Nat) (l : LinkState) : Prop where
  client : ClientOk l.client
  up : (l.srv.hist c).session ≤ n →
    l.client.written = (rx l.srv c n).length + l.up.length
  down : (l.srv.hist c).session ≤ n →
    (wire l.srv c n).length = l.client.read + l.down.length

/-- What a step of the server does to the record of a session and its number. -/
theorem session_step {t t' : Traced} {a : Action} (h : tstep cfg sha1 t a = some t') (c : ConnId) :
    (t'.hist c = .start ((t.hist c).session + 1)) ∨
      (t'.hist c).session = (t.hist c).session ∧
        (t'.hist c).rx = (t.hist c).rx ++ Server.bytesIn t.srv c a ∧
        (t'.hist c).wire = (t.hist c).wire ++ Server.bytesOut t.srv c a := by
  rw [(tstep_eq h).2.1]
  unfold Traced.record
  split
  · exact .inl rfl
  · exact .inr ⟨rfl, rfl, rfl⟩

theorem conserved_server {a : Action} (h : Conserved c n l)
    (hstep : serverStep cfg sha1 c n l a = some l') : Conserved c n l' := by
  obtain ⟨ht, hclient, hchan⟩ := serverStep_cases hstep
  refine ⟨hclient ▸ h.client, fun hle => ?_, fun hle => ?_⟩
  · rcases session_step ht c with hnew | ⟨hsame, hrx, -⟩
    · -- session `n` has not begun before, and has received nothing yet
      rw [hnew] at hle
      have hlt : (l.srv.hist c).session < n := hle
      have hold := h.up (Nat.le_of_lt hlt)
      obtain ⟨hup, -⟩ : l'.up = l.up ∧ l'.down = l.down := by
        rcases hchan with ⟨heq, -⟩ | ⟨-, hup, hdown⟩
        · omega
        · exact ⟨hup, hdown⟩
      simpa [rx, hnew, hup, hclient, SessionHistory.start, Nat.ne_of_lt hlt] using hold
    · -- what the channel loses the session has received
      have hold := h.up (hsame ▸ hle)
      rcases hchan with ⟨heq, hup, -⟩ | ⟨hne, hup, -⟩
      · simp only [rx, heq, hup, if_true, List.length_append] at hold
        simp only [rx, hsame, heq, hrx, hclient, if_true, List.length_append]
        omega
      · simpa [rx, hsame, hne, hup, hclient] using hold
  · rcases session_step ht c with hnew | ⟨hsame, -, hwire⟩
    · rw [hnew] at hle
      have hlt : (l.srv.hist c).session < n := hle
      have hold := h.down (Nat.le_of_lt hlt)
      obtain ⟨-, hdown⟩ : l'.up = l.up ∧ l'.down = l.down := by
        rcases hchan with ⟨heq, -⟩ | ⟨-, hup, hdown⟩
        · omega
        · exact ⟨hup, hdown⟩
      simpa [wire, hnew, hdown, hclient, SessionHistory.start, Nat.ne_of_lt hlt] using hold
    · have hold := h.down (hsame ▸ hle)
      rcases hchan with ⟨heq, -, hdown⟩ | ⟨hne, -, hdown⟩
      · simp only [wire, heq, if_true] at hold
        simp only [wire, hsame, heq, hwire, hdown, hclient, if_true, List.length_append]
        omega
      · simpa [wire, hsame, hne, hdown, hclient] using hold

theorem conserved_client {a : ClientAction} (h : Conserved c n l)
    (hstep : clientStep l a = some l') : Conserved c n l' := by
  obtain ⟨hcl, hsrv, hup, hdown⟩ := clientStep_cases hstep
  have htr := clientStep_transfers h.client hcl
  refine ⟨htr.ok, fun hle => ?_, fun hle => ?_⟩
  · rw [hsrv] at hle ⊢
    have hold := h.up hle
    rw [htr.written, hup, List.length_append]
    omega
  · rw [hsrv] at hle ⊢
    have hold := h.down hle
    rw [hdown, List.length_append] at hold
    rw [htr.read]
    omega

/-- **The channels lose nothing** in every run. -/
theorem conserved_of_run (hpos : 1 ≤ nrRequests)
    (h : LinkRun cfg sha1 c n bufs nrRequests l) : Conserved c n l := by
  refine h.invariant (I := Conserved c n) ?_ ?_
  · have hrx : rx (LinkState.init cfg bufs nrRequests).srv c n = [] := by
      unfold rx
      split <;> rfl
    have hwire : wire (LinkState.init cfg bufs nrRequests).srv c n = [] := by
      unfold wire
      split <;> rfl
    refine ⟨clientOk_init hpos, fun _ => ?_, fun _ => ?_⟩
    · rw [hrx]
      rfl
    · rw [hwire]
      rfl
  · intro l a l' _ hI _ hstep
    cases a with
    | server a => exact conserved_server hI hstep
    | client a => exact conserved_client hI hstep

/-! ## Progress -/

/-- As many requests have been answered as `sent` says. -/
theorem length_answers {t : Traced} (hinv : Inv cfg t.srv) (hin : t.srv.InSession c)
    (hcl : (t.srv.conns c).closed = false) (hstaged : Staged t c) :
    (t.hist c).answers.length = (t.srv.conns c).sent := by
  have hacc := hinv.accounts c hin
  have hout := hacc.output hcl
  have hflow := hacc.flow
  have hlen := hstaged.stages.length_eq
  simp only [answeredOrWaiting, received, ServerContext.pipeline, List.length_append,
    List.length_map, List.length_range, hstaged.count] at hlen
  omega

/-- The bytes of an open session, counted in messages. -/
theorem counted_bytes {t : Traced} (h : Trace cfg sha1 Orderly bufs t) (hin : t.srv.InSession c)
    (hcl : (t.srv.conns c).closed = false) :
    (t.hist c).rx.length
        = sizeofRequest * (t.srv.conns c).received + (t.srv.incoming c).length ∧
      (t.hist c).wire.length
        = sizeofResponse * (t.srv.conns c).sent + (t.srv.outgoing c).length ∧
      (t.srv.outgoing c).length < sizeofResponse := by
  have hcounted := counted_of_trace (fun _ _ => id) h hin hcl
  have hframes : (t.hist c).requests.flatten.length
      = sizeofRequest * (t.hist c).requests.length := by
    rw [List.length_flatten, List.sum_eq_card_nsmul _ sizeofRequest]
    · rw [List.length_map, Nat.nsmul_eq_mul, Nat.mul_comm]
    · intro len hlen
      obtain ⟨r, hr, rfl⟩ := List.mem_map.mp hlen
      exact hcounted.intake.framed r hr
  refine ⟨?_, ?_, hcounted.emitted.outgoing_lt⟩
  · rw [hcounted.intake.rx, List.length_append, hframes, hcounted.staged.count]
  · rw [hcounted.emitted.length, length_answers (inv_of_trace (fun _ _ => id) h) hin hcl
      hcounted.staged]

/-- The six counters, the client's at the ends and the server's in between. -/
structure Chain (l : LinkState) (c : ConnId) : Prop where
  client_received : l.client.conn.status.received ≤ (l.srv.srv.conns c).sent
  sent : (l.srv.srv.conns c).sent ≤ (l.srv.srv.conns c).processed
  processed : (l.srv.srv.conns c).processed ≤ (l.srv.srv.conns c).received
  received : (l.srv.srv.conns c).received ≤ l.client.conn.status.sent
  client_sent : l.client.conn.status.sent ≤ l.client.conn.status.total

theorem chain_of_run (hpos : 1 ≤ nrRequests) (h : LinkRun cfg sha1 c n bufs nrRequests l)
    (hsession : (l.srv.hist c).session = n) (hin : l.srv.srv.InSession c)
    (hcl : (l.srv.srv.conns c).closed = false) : Chain l c := by
  have hcons := conserved_of_run hpos h
  have hinv := inv_of_trace (fun _ _ => id) h.trace
  have hacc := hinv.accounts c hin
  have hout := hacc.output hcl
  have hflow := hacc.flow
  obtain ⟨hrx, hwire, hpart⟩ := counted_bytes h.trace hin hcl
  have hup := hcons.up (Nat.le_of_eq hsession)
  have hdown := hcons.down (Nat.le_of_eq hsession)
  simp only [rx, hsession, if_true] at hup
  simp only [wire, hsession, if_true] at hdown
  have hdone := done_le l.client.conn.sendbuf sizeofRequest (by decide)
  simp only [ClientWorker.written, sizeofRequest_eq] at hup hrx hdone
  simp only [ClientWorker.read, sizeofResponse_eq] at hdown hwire hpart
  exact ⟨by omega, by omega, by omega, by omega, hcons.client.sent_le⟩

/-- All is done: the counters are equal and the channels empty. -/
structure Finished (l : LinkState) (c : ConnId) : Prop where
  client_received : l.client.conn.status.received = l.client.conn.status.total
  client_sent : l.client.conn.status.sent = l.client.conn.status.total
  received : (l.srv.srv.conns c).received = l.client.conn.status.total
  processed : (l.srv.srv.conns c).processed = l.client.conn.status.total
  sent : (l.srv.srv.conns c).sent = l.client.conn.status.total
  up : l.up = []
  down : l.down = []

theorem finished_of_run (hpos : 1 ≤ nrRequests) (h : LinkRun cfg sha1 c n bufs nrRequests l)
    (hsession : (l.srv.hist c).session = n) (hin : l.srv.srv.InSession c)
    (hcl : (l.srv.srv.conns c).closed = false)
    (hdone : l.client.conn.status.received = l.client.conn.status.total) : Finished l c := by
  obtain ⟨h₁, h₂, h₃, h₄, h₅⟩ := chain_of_run hpos h hsession hin hcl
  have hcons := conserved_of_run hpos h
  have hinv := inv_of_trace (fun _ _ => id) h.trace
  have hout := (hinv.accounts c hin).output hcl
  obtain ⟨hrx, hwire, -⟩ := counted_bytes h.trace hin hcl
  have hup := hcons.up (Nat.le_of_eq hsession)
  have hdown := hcons.down (Nat.le_of_eq hsession)
  simp only [rx, hsession, if_true] at hup
  simp only [wire, hsession, if_true] at hdown
  -- no request and no response is half transferred
  have hidle : l.client.conn.sendbuf.left = 0 := by
    by_contra hbusy
    have hlt := hcons.client.busy (Nat.pos_of_ne_zero hbusy)
    omega
  have hnone : (l.srv.srv.conns c).sendbuf = none := by
    cases hb : (l.srv.srv.conns c).sendbuf with
    | none => rfl
    | some b =>
      simp only [hb, Option.toList_some, List.length_singleton] at hout
      omega
  simp only [ClientWorker.written, done_of_idle hidle, sizeofRequest_eq] at hup hrx
  simp only [ClientWorker.read, outgoing_idle hnone, List.length_nil, sizeofResponse_eq]
    at hdown hwire
  refine ⟨hdone, by omega, by omega, by omega, by omega, ?_, ?_⟩
  · exact List.length_eq_zero_iff.mp (by omega)
  · exact List.length_eq_zero_iff.mp (by omega)

/-- With all received requests sent, `finish_connection` releases the connection. -/
theorem finishBody_release {s : ServerContext} (k : Nat) (input : Bool)
    (h : (s.conns c).sent + (s.conns c).sendQueue.length = (s.conns c).received) :
    (finishBody s k c input).emptyConnections = s.emptyConnections ++ [c] := by
  simp [finishBody, h, queuePut]

/-- **Client and server agree on progress.** While the server's session is open, no counter is
ahead of the next one up the chain. When the client finds that it has received all responses, all
six counters are equal and both channels are empty; and `finish_connection`, once it is past its
`trylock`, then releases the connection and does not leave it to the submitter. -/
theorem progress_agrees (hpos : 1 ≤ nrRequests) (h : LinkRun cfg sha1 c n bufs nrRequests l)
    (hsession : (l.srv.hist c).session = n) (hin : l.srv.srv.InSession c)
    (hcl : (l.srv.srv.conns c).closed = false) :
    Chain l c ∧
      (l.client.conn.closed = true →
        l.client.conn.status.received = l.client.conn.status.total) ∧
      (l.client.conn.status.received = l.client.conn.status.total →
        Finished l c ∧
          ∀ k input, (l.srv.srv.io k).pc = .teardown c input →
            step cfg sha1 l.srv.srv (.finishBody k) = some (finishBody l.srv.srv k c input) ∧
              (finishBody l.srv.srv k c input).emptyConnections
                = l.srv.srv.emptyConnections ++ [c]) := by
  have hinv := inv_of_trace (fun _ _ => id) h.trace
  refine ⟨chain_of_run hpos h hsession hin hcl,
    fun hc => ((conserved_of_run hpos h).client.closed hc).2, fun hdone => ?_⟩
  have hfin := finished_of_run hpos h hsession hin hcl hdone
  refine ⟨hfin, fun k input hpc => ⟨by simp [step, hpc], finishBody_release k input ?_⟩⟩
  have hout := (hinv.accounts c hin).output hcl
  have hsent := hfin.sent
  have hprocessed := hfin.processed
  have hreceived := hfin.received
  omega

/-- The client sends two requests, the first one in two pieces. -/
def askTwo : List ClientAction :=
  [.event epollOut true, .outputTop, .send (.sent 1000), .outputTop, .send (.sent 24),
    .outputTop, .send (.sent sizeofRequest), .afterOutput true]

/-- The server receives request `i`. -/
def receive (i : Nat) : List Action :=
  [.requestTop 0, .requestRecv 0 (.data (request i)), .requestLock 0, .requestDeliver 0]

/-- The server answers both. When the submitter comes with the first response, the lock is taken
for the second request. -/
def serveTwo : List Action :=
  connect ++ receive 0 ++ computeOne ++ (receive 1).take 3 ++
    [.submitGet 0, .submitTrylock 0, .submitPutBack 0, .requestDeliver 0, .requestTop 0] ++
    computeOne ++ submitAndSend ++ submitAndSend

/-- The client receives both responses and closes. -/
def hangUp : List ClientAction :=
  [.event epollIn true, .inputTop, .recv (.data (idBytes 0 ++ List.replicate shaDigestLength 0)),
    .inputTop, .recv (.data (idBytes 1 ++ List.replicate shaDigestLength 0)), .inputTop,
    .afterInput true]

/-- The server reads end of stream. -/
def readEof : List Action :=
  [.epollWait 0 [(5, epollIn)], .event 0, .requestTop 0, .requestRecv 0 .eof, .finishTrylock 0]

def twoRequests : List LinkAction :=
  askTwo.map .client ++ serveTwo.map .server ++ hangUp.map .client ++ readEof.map .server

theorem progress_agrees_twoRequests : ∃ l,
    LinkRun smallServer zeroSha1 0 1 blankBuffers 2 l ∧ l.client.conn.closed = true ∧
    Finished l 0 ∧
    ∃ s', step smallServer zeroSha1 l.srv.srv (.finishBody 0) = some s' ∧
      s'.emptyConnections = l.srv.srv.emptyConnections ++ [0] := by
  have hrun := exists_reachable_of_run twoRequests
    (fun l => decide ((l.srv.srv.io 0).pc = .teardown 0 false ∧ (l.srv.hist 0).session = 1 ∧
      l.client.conn.closed = true))
    (by decide +kernel : (run (linkStep smallServer zeroSha1 0 1) orderlyLink
      (.init smallServer blankBuffers 2) twoRequests).map _ = some true)
  obtain ⟨l, hl, hp⟩ := hrun
  obtain ⟨hpc, hsession, hclosed⟩ := of_decide_eq_true hp
  have hl' : LinkRun smallServer zeroSha1 0 1 blankBuffers 2 l := hl
  have hop := (inv_of_trace (fun _ _ => id) hl'.trace).openAt (k := 0) (c := 0)
    (by simp [hpc, IoPc.conn])
  obtain ⟨-, hdone, hfin⟩ := progress_agrees (by decide) hl' hsession hop.session hop.closed
  obtain ⟨hfinished, hrelease⟩ := hfin (hdone hclosed)
  exact ⟨l, hl', hclosed, hfinished, _, hrelease 0 false hpc⟩

end Piotbench.Link
