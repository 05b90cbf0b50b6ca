import Piotbench.Server.Pipeline

/-!
# Sessions one after another on one object

In an orderly run every buffer has one place (`buffers_owned`), and `handle_response` only sends
buffers that were filled in the same session (`send_own_request`).

Without the condition both fail. `handle_accept` clears `recvbuf` and leaves `sendbuf` alone, and
`finish_connection` hands the buffers back and leaves both pointers. When a session is closed with a
response half sent, the submitter may put the object back later, and the next session on it goes on
sending the old response from a buffer that is in `empty_buffers` (`staleRun`).
-/

namespace Piotbench.Server

open Places Transition

variable {cfg : ServerConfig} {sha1 : Sha1} {bufs : BufId → ServerBuffer}

/-! ## Every request is in one place of its session -/

/-- The requests a session has received are the ones it has answered and the ones in its
pipeline. -/
structure Staged (t : Traced) (c : ConnId) : Prop where
  count : (t.hist c).requests.length = (t.srv.conns c).received
  stages : (answeredOrWaiting t c).Perm (received t c)

theorem staged_step {t t' : Traced} {a : Action} {c : ConnId} (h : OpenStep cfg sha1 c t a t')
    (hold : Staged t c) : Staged t' c := by
  constructor
  · rw [received_step h.step h.session, ← hold.count, h.record]
    simp
  · rw [h.received]
    rcases h.answeredOrWaiting with heq | ⟨-, hperm⟩
    · rw [heq]
      exact hold.stages.append_right _
    · exact hperm.trans (hold.stages.append_right _)

theorem Staged.fresh {t : Traced} {c : ConnId} {n : Nat} (hnew : t.hist c = .start n)
    (hpipe : t.srv.pipeline c = []) (hrecv : (t.srv.conns c).received = 0) : Staged t c := by
  constructor
  · rw [hnew, hrecv]
    rfl
  · simp [answeredOrWaiting, received, hnew, hpipe, SessionHistory.start]

/-- The invariant of the server in every state of a trace. -/
theorem inv_of_trace {ok : ServerContext → Action → Prop} (hok : ∀ s a, ok s a → Orderly s a)
    {t : Traced} (h : Trace cfg sha1 ok bufs t) : Inv cfg t.srv :=
  inv_of_run hok (Trace.run h)

/-- **Invariants of open sessions**: what holds of a session that `handle_accept` has just begun,
and survives every step in the course of it, holds of every open session. -/
theorem open_invariant {ok : ServerContext → Action → Prop} (hok : ∀ s a, ok s a → Orderly s a)
    {P : Traced → ConnId → Prop}
    (hfresh : ∀ t c n, t.hist c = .start n → t.srv.pipeline c = [] →
      (t.srv.conns c).received = 0 → (t.srv.conns c).recvbuf = none → P t c)
    (hstep : ∀ t a t' c, OpenStep cfg sha1 c t a t' → ok t.srv a → P t c → P t' c)
    {t : Traced} (h : Trace cfg sha1 ok bufs t) {c : ConnId} (hin : t.srv.InSession c)
    (hcl : (t.srv.conns c).closed = false) : P t c := by
  refine h.invariant (I := fun t => ∀ c, t.srv.InSession c → (t.srv.conns c).closed = false →
    P t c) ?_ ?_ c hin hcl
  · exact fun c _ _ => hfresh _ c 0 rfl rfl rfl rfl
  · intro t a t' hr hI hsa htstep c hin' hcl
    obtain ⟨hsrv, hhist, horigin⟩ := tstep_eq htstep
    have hs := step_cases hsrv
    have hinv := inv_of_trace hok hr
    by_cases hin : t.srv.InSession c
    · exact hstep t a t' c ⟨hinv, hs, hhist, horigin, hin, hin', hcl⟩ hsa
        (hI c hin (open_before hs hin hcl))
    · obtain ⟨hnew, hpipe, hrecv, hbuf⟩ := ledger_fresh hinv hs hhist hin hin'
      exact hfresh t' c _ hnew hpipe hrecv hbuf

/-- **Every open session accounts for its requests** in every orderly run. -/
theorem staged_of_trace {ok : ServerContext → Action → Prop} (hok : ∀ s a, ok s a → Orderly s a)
    {t : Traced} (h : Trace cfg sha1 ok bufs t) {c : ConnId} (hin : t.srv.InSession c)
    (hcl : (t.srv.conns c).closed = false) : Staged t c := by
  refine open_invariant (P := Staged) hok ?_ ?_ h hin hcl
  · intro t c n hnew hpipe hrecv _
    exact .fresh hnew hpipe hrecv
  · intro t a t' c hs _ hI
    exact staged_step hs hI

/-! ## Orderly runs -/

/-- The buffer an IO worker works on, and the place it has it from. -/
def IoPc.uses : IoPc → List (Place × BufId)
  | .send c _ b => [(.sendbuf c, b)]
  | .recv c b | .lockRequest c b | .deliver c b => [(.recvbuf c, b)]
  | .wait | .response _ _ | .recycle _ _ _ | .lockResponse _ _ | .settle _ _ | .request _
  | .finish _ _ | .teardown _ _ | .exited => []

/-! ## A response left over

A small server: one worker of each kind, one connection object, four buffers. -/

def smallServer : ServerConfig where
  load := { computeDur := 0, maxIoSize := 1024, readahead := 1 }
  threads := { io := 1, accept := 1, submit := 1, compute := 1 }
  alloc := { sessions := 1, buffers := 4 }

def blankBuffers : BufId → ServerBuffer := fun _ => ⟨fun _ => 0, 0, 0, 0⟩

def zeroSha1 : Sha1 := fun _ => List.Vector.replicate shaDigestLength 0

/-- `handle_request` receives one request in one piece. -/
def receiveOne : List Action :=
  [.requestTop 0, .requestRecv 0 (.data (List.replicate sizeofRequest 0)), .requestLock 0,
    .requestDeliver 0]

/-- Compute and submitter take one buffer each through their rounds. -/
def processOne : List Action :=
  [.computeGet 0, .computeRun 0 [some 0, some 0], .submitGet 0, .submitTrylock 0,
    .submitSection 0 true]

/-- A client connects and the first event is input. -/
def connect : List Action :=
  [.acceptTake 0, .acceptInit 0 (some 5) true, .epollWait 0 [(5, epollIn)], .event 0]

/-- Two requests arrive, and the first response becomes ready and goes out. -/
def respond : List Action :=
  connect ++ receiveOne ++ receiveOne ++ [.requestTop 0] ++ processOne ++
    [.epollWait 0 [(5, epollOut)], .event 0, .responseTop 0]

/-- Of the first response 10 bytes are sent, then the peer resets the connection. The submitter
disposes of the second buffer and puts the object back. The next session on the object receives a
request and begins to respond. -/
def staleRun : List Action :=
  respond ++ [.responseSend 0 (.sent 10), .epollWait 0 [(5, epollErr)], .event 0,
    .finishTrylock 0, .finishBody 0] ++ processOne ++ [.submitCompare 0] ++ connect ++
    receiveOne ++ [.requestTop 0, .requestRecv 0 .eagain] ++ processOne ++
    [.epollWait 0 [(5, epollOut)], .event 0, .responseTop 0]

/-- The second session on the object is about to send the other 14 bytes of buffer 0, which carries
a request of the first session and is also in `empty_buffers`. -/
theorem exists_stale : ∃ t, Trace smallServer zeroSha1 (fun _ _ => True) blankBuffers t ∧
    ((t.srv.io 0).pc = .send 0 false 0 ∧ (t.srv.bufs 0).left = 14 ∧ (t.hist 0).session = 2 ∧
      t.origin 0 = some ⟨0, 1, 0⟩ ∧ 0 ∈ t.srv.emptyBuffers ∧
      (t.srv.conns 0).sendbuf = some 0 ∧ (t.srv.conns 0).closed = false) := by
  have hrun := exists_reachable_of_run staleRun
    (fun t => decide ((t.srv.io 0).pc = .send 0 false 0 ∧ (t.srv.bufs 0).left = 14 ∧
      (t.hist 0).session = 2 ∧ t.origin 0 = some ⟨0, 1, 0⟩ ∧ 0 ∈ t.srv.emptyBuffers ∧
      (t.srv.conns 0).sendbuf = some 0 ∧ (t.srv.conns 0).closed = false))
    (by decide +kernel : (run (tstep smallServer zeroSha1) (fun _ _ => True)
      (.init smallServer blankBuffers) staleRun).map _ = some true)
  simpa using hrun

/-- The same start as in `staleRun` is orderly: the first response is about to be sent. -/
theorem exists_respond : ∃ t, Trace smallServer zeroSha1 Orderly blankBuffers t ∧
    (t.srv.io 0).pc = .send 0 false 0 := by
  have hrun := exists_reachable_of_run respond (fun t => decide ((t.srv.io 0).pc = .send 0 false 0))
    (by decide +kernel : (run (tstep smallServer zeroSha1) (fun t a => Orderly t.srv a)
      (.init smallServer blankBuffers) respond).map _ = some true)
  simpa using hrun

/-! ## Session isolation -/

/-- **Session isolation.** In an orderly run, what `handle_response` passes to `Z_send` on a
connection comes from a buffer whose request was completely received in the same session. -/
theorem send_own_request {t : Traced} (h : Trace cfg sha1 Orderly bufs t) {k : Nat} {c : ConnId}
    {input : Bool} {b : BufId} (hpc : (t.srv.io k).pc = .send c input b) :
    ∃ i < (t.hist c).requests.length, t.origin b = some ⟨c, (t.hist c).session, i⟩ := by
  have hinv := inv_of_trace (fun _ _ => id) h
  have hop := hinv.openAt (k := k) (c := c) (by simp [hpc, IoPc.conn])
  have hb : (t.srv.conns c).sendbuf = some b := hinv.pcOk hpc
  have hst := staged_of_trace (fun _ _ => id) h hop.session hop.closed
  have hmem : t.origin b ∈ received t c := by
    refine hst.stages.subset (List.mem_append_right _ (List.mem_map_of_mem ?_))
    simp [ServerContext.pipeline, hb]
  obtain ⟨i, hi, heq⟩ := List.mem_map.mp hmem
  exact ⟨i, List.mem_range.mp hi, heq.symm⟩

theorem send_own_request_respond : ∃ t, Trace smallServer zeroSha1 Orderly blankBuffers t ∧
    (t.srv.io 0).pc = .send 0 false 0 ∧
    ∃ i < (t.hist 0).requests.length, t.origin 0 = some ⟨0, (t.hist 0).session, i⟩ := by
  obtain ⟨t, ht, hpc⟩ := exists_respond
  exact ⟨t, ht, hpc, send_own_request ht hpc⟩

/-- **Without the condition**, `handle_response` sends bytes of an earlier session's response. -/
theorem send_stale_response : ¬ ∀ t, Trace smallServer zeroSha1 (fun _ _ => True) blankBuffers t →
    ∀ k c input b, (t.srv.io k).pc = .send c input b → 0 < (t.srv.bufs b).left →
      ∃ i < (t.hist c).requests.length, t.origin b = some ⟨c, (t.hist c).session, i⟩ := by
  intro hall
  obtain ⟨t, ht, hpc, hleft, hsession, horigin, -⟩ := exists_stale
  obtain ⟨i, -, hi⟩ := hall t ht 0 0 false 0 hpc (by omega)
  rw [horigin, hsession] at hi
  cases hi

/-! ## Buffer ownership -/

/-- **Buffer ownership.** In an orderly run every buffer is at exactly one place and there only
once, and an IO worker only uses a buffer from the place that owns it. -/
theorem buffers_owned {s : ServerContext} (h : Run cfg sha1 Orderly bufs s) :
    (∀ b < cfg.alloc.buffers, ∃! p, b ∈ s.owned p) ∧ (∀ p, (s.owned p).Nodup) ∧
      ∀ k, ∀ u ∈ (s.io k).pc.uses, u.2 ∈ s.owned u.1 := by
  have hinv := inv_of_run (fun _ _ => id) h
  refine ⟨fun b hb => hinv.owned.existsUnique hb, hinv.owned.nodup, fun k u hu => ?_⟩
  have hop : ∀ c ∈ (s.io k).pc.conn, (s.conns c).closed = false := fun c hc =>
    (hinv.openAt hc).closed
  have hok := (hinv.workers k).pc
  cases hpc : (s.io k).pc with
  | send c input b =>
    rw [hpc] at hu hop hok
    obtain rfl := List.mem_singleton.mp hu
    exact mem_owned_sendbuf (hop c List.mem_cons_self) hok
  | recv c b =>
    rw [hpc] at hu hop hok
    obtain rfl := List.mem_singleton.mp hu
    exact mem_owned_recvbuf (hop c List.mem_cons_self) hok
  | lockRequest c b | deliver c b =>
    rw [hpc] at hu hop hok
    obtain rfl := List.mem_singleton.mp hu
    exact mem_owned_recvbuf (hop c List.mem_cons_self) hok.1
  | _ =>
    rw [hpc] at hu
    cases hu

theorem buffers_owned_respond : ∃ s, Run smallServer zeroSha1 Orderly blankBuffers s ∧
    (s.io 0).pc = .send 0 false 0 ∧ (∀ b < 4, ∃! p, b ∈ s.owned p) ∧
    (∀ p, (s.owned p).Nodup) ∧ ∀ k, ∀ u ∈ (s.io k).pc.uses, u.2 ∈ s.owned u.1 := by
  obtain ⟨t, ht, hpc⟩ := exists_respond
  exact ⟨t.srv, Trace.run ht, hpc, buffers_owned (Trace.run ht)⟩

/-- **Without the condition**, a buffer is in `empty_buffers` and in the `sendbuf` that an IO
worker is sending from. -/
theorem buffer_owned_twice :
    ¬ ∀ s, Run smallServer zeroSha1 (fun _ _ => True) blankBuffers s →
      ∀ b < smallServer.alloc.buffers, ∃! p, b ∈ s.owned p := by
  intro hall
  obtain ⟨t, ht, -, -, -, -, hempty, hsend, hcl⟩ := exists_stale
  obtain ⟨p, -, hp⟩ := hall t.srv (Trace.run ht) 0 (by decide)
  have h₁ := hp .emptyBuffers hempty
  have h₂ := hp (.sendbuf 0) (mem_owned_sendbuf hcl hsend)
  simp [← h₂] at h₁

end Piotbench.Server
