import Piotbench.Server.Answering

/-!
# The order of the responses

Every stage of a session is a queue, and a session has one compute worker and one submitter. The
only thing that changes the order is the submitter's `trylock`: when it is refused, the response
goes back to the end of the inbox, behind the others of its session that wait there by then, also
those that have come since the `trylock`. As long as none is waiting (`noOvertaking`), responses are
sent in the order of the requests. The server does not promise more: a response carries the id of
its request.
-/

namespace Piotbench.Server

open Places Transition

variable {cfg : ServerConfig} {sha1 : Sha1} {bufs : BufId → ServerBuffer}

/-- Whenever the submitter puts a response of connection `c` back after a refused `trylock`, no
other response of `c` is waiting at the submitter. -/
def noOvertaking (c : ConnId) (s : ServerContext) : Action → Bool
  | .submitPutBack j =>
    match s.submit j with
    | .refused _ c' => decide (c' = c → (s.submitting c).length ≤ 1)
    | _ => true
  | _ => true

section Step

variable {t t' : Traced} {a : Action} {c : ConnId}

/-- Without overtaking, what is answered or waiting stays in the order in which it came. -/
theorem OpenStep.in_order (h : OpenStep cfg sha1 c t a t') (hno : noOvertaking c t.srv a = true)
    (hold : Server.answeredOrWaiting t c = Server.received t c) :
    Server.answeredOrWaiting t' c = Server.received t' c := by
  rw [h.received, ← hold]
  rcases h.answeredOrWaiting with heq | ⟨⟨j, b, rfl, hpc, hmany⟩, -⟩
  · exact heq
  · have hfew : (t.srv.submitting c).length ≤ 1 := by
      simpa [noOvertaking, hpc] using hno
    omega

/-- A step that receives or answers a request of a connection is in the course of an open
session. -/
theorem quiet_or_open {s s' : ServerContext} (h : Inv cfg s) (hs : Step cfg sha1 s a s')
    (c : ConnId) : (answered s c a = [] ∧ delivered s c a = []) ∨
      s.InSession c ∧ s'.InSession c ∧ (s'.conns c).closed = false := by
  have hopen : ∀ k, a.ioWorker = some k → (∀ k', a ≠ .finishBody k') → c ∈ (s.io k).pc.conn →
      s.InSession c ∧ s'.InSession c ∧ (s'.conns c).closed = false := by
    intro k _ hnot hc
    have hop' := openAt_step h hs (h.live hc) fun ⟨k', _, ha, _⟩ => hnot k' ha
    exact ⟨(h.openAt hc).session, hop'.session, hop'.closed⟩
  cases a <;> try exact .inl ⟨rfl, rfl⟩
  case requestDeliver k =>
    rcases delivered_cases s c (.requestDeliver k) with hdel | ⟨k', b, hk, hpc, -⟩
    · exact .inl ⟨rfl, hdel⟩
    · cases hk
      exact .inr (hopen k rfl (by simp) (by simp [hpc, IoPc.conn]))
  case responseSend k res =>
    cases hpc : (s.io k).pc with
    | send c' input b =>
      by_cases hcc : c' = c
      · exact .inr (hopen k rfl (by simp) (by simp [hpc, hcc, IoPc.conn]))
      · refine .inl ⟨?_, rfl⟩
        cases res <;> simp [answered, hpc, hcc]
    | _ =>
      refine .inl ⟨?_, rfl⟩
      cases res <;> simp [answered, hpc]

end Step

/-- **Requests are answered in order** as long as no response is overtaken, whatever becomes of the
session. -/
theorem answers_prefix {t : Traced} {c : ConnId}
    (h : Trace cfg sha1 (fun s a => Orderly s a ∧ noOvertaking c s a = true) bufs t) :
    (t.hist c).answers <+: received t c := by
  have hall : ∀ s a, Orderly s a ∧ noOvertaking c s a = true → Orderly s a := fun _ _ => And.left
  refine (h.invariant (I := fun t => (t.hist c).answers <+: received t c ∧
    (t.srv.InSession c → (t.srv.conns c).closed = false →
      answeredOrWaiting t c = received t c)) ?_ ?_).1
  · refine ⟨?_, fun _ _ => rfl⟩
    exact List.nil_prefix
  · intro t a t' hr ⟨hpre, hI⟩ ⟨hok, hno⟩ htstep
    obtain ⟨hsrv, hhist, horigin⟩ := tstep_eq htstep
    have hs := step_cases hsrv
    have hinv := inv_of_trace hall hr
    have horder : t'.srv.InSession c → (t'.srv.conns c).closed = false →
        answeredOrWaiting t' c = received t' c := by
      intro hin' hcl
      by_cases hin : t.srv.InSession c
      · exact OpenStep.in_order ⟨hinv, hs, hhist, horigin, hin, hin', hcl⟩ hno
          (hI hin (open_before hs hin hcl))
      · obtain ⟨hnew, hpipe, -, -⟩ := ledger_fresh hinv hs hhist hin hin'
        simp [answeredOrWaiting, received, hnew, hpipe, SessionHistory.start]
    refine ⟨?_, horder⟩
    rcases quiet_or_open hinv hs c with ⟨hans, hdel⟩ | ⟨-, hin', hcl⟩
    · unfold received at hpre ⊢
      rw [hhist]
      cases hb : begins t.srv c a with
      | true => simp [Traced.record, hb, SessionHistory.start]
      | false => simpa [Traced.record, hb, hans, hdel] using hpre
    · exact horder hin' hcl ▸ List.prefix_append _ _

/-- **Responses keep request order.** When no response is overtaken at the submitter, the k-th
response that is sent completely answers the k-th request received. -/
theorem responses_in_order {t : Traced} {c : ConnId}
    (h : Trace cfg sha1 (fun s a => Orderly s a ∧ noOvertaking c s a = true) bufs t) :
    (t.hist c).answers.length ≤ (t.hist c).requests.length ∧
      ∀ k < (t.hist c).answers.length,
        (t.hist c).answers[k]? = some (some ⟨c, (t.hist c).session, k⟩) := by
  have hpre := answers_prefix h
  have hlen : (t.hist c).answers.length ≤ (t.hist c).requests.length := by
    simpa [received] using hpre.length_le
  refine ⟨hlen, fun k hk => ?_⟩
  have hk' : k < (t.hist c).requests.length := by omega
  rw [List.getElem?_eq_getElem hk, hpre.getElem hk]
  simp [received]

/-- A server that reads three requests ahead. -/
def eagerServer : ServerConfig :=
  { smallServer with load := { smallServer.load with readahead := 2 } }

/-- Compute takes one request through its round. -/
def computeOne : List Action := [.computeGet 0, .computeRun 0 [some 0, some 0]]

/-- The submitter takes one response through the section under the lock, and it is sent. -/
def submitAndSend : List Action :=
  [.submitGet 0, .submitTrylock 0, .submitSection 0 true, .epollWait 0 [(5, epollOut)], .event 0,
    .responseTop 0, .responseSend 0 (.sent sizeofResponse), .responseRecycle 0, .responseLock 0,
    .responseSettle 0 true, .responseTop 0]

/-- The first response is the only one at the submitter when the lock is refused to it and it goes
back. -/
def keepRun : List Action :=
  connect ++ receiveOne ++ receiveOne ++ computeOne ++ receiveOne.take 3 ++
    [.submitGet 0, .submitTrylock 0, .submitPutBack 0, .requestDeliver 0, .requestTop 0] ++
    computeOne ++ submitAndSend ++ submitAndSend

theorem responses_in_order_keep : ∃ t,
    Trace eagerServer zeroSha1 (fun s a => Orderly s a ∧ noOvertaking 0 s a = true) blankBuffers t ∧
    (t.hist 0).answers.length = 2 ∧
    ∀ k < 2, (t.hist 0).answers[k]? = some (some ⟨0, (t.hist 0).session, k⟩) := by
  have hrun := exists_reachable_of_run keepRun (fun t => decide ((t.hist 0).answers.length = 2))
    (by decide +kernel : (run (tstep eagerServer zeroSha1)
      (fun t a => Orderly t.srv a ∧ noOvertaking 0 t.srv a = true)
      (.init eagerServer blankBuffers) keepRun).map _ = some true)
  obtain ⟨t, ht, hp⟩ := hrun
  have hlen := of_decide_eq_true hp
  exact ⟨t, ht, hlen, hlen ▸ (responses_in_order ht).2⟩

/-! ## Overtaking -/

/-- The second response comes to the submitter between the `trylock` that is refused to the first
one and its `queue_put`. -/
def overtakeRun : List Action :=
  connect ++ receiveOne ++ receiveOne ++ computeOne ++ receiveOne.take 3 ++
    [.submitGet 0, .submitTrylock 0] ++ computeOne ++
    [.submitPutBack 0, .requestDeliver 0, .requestTop 0] ++ submitAndSend ++ submitAndSend

/-- **A refused `trylock` changes the order**: the second request is answered first. -/
theorem responses_out_of_order :
    ¬ ∀ t, Trace eagerServer zeroSha1 Orderly blankBuffers t →
      ∀ k < (t.hist 0).answers.length,
        (t.hist 0).answers[k]? = some (some ⟨0, (t.hist 0).session, k⟩) := by
  intro hall
  have hrun := exists_reachable_of_run overtakeRun
    (fun t => decide ((t.hist 0).answers = [some ⟨0, 1, 1⟩, some ⟨0, 1, 0⟩]))
    (by decide +kernel : (run (tstep eagerServer zeroSha1) (fun t a => Orderly t.srv a)
      (.init eagerServer blankBuffers) overtakeRun).map _ = some true)
  obtain ⟨t, ht, hp⟩ := hrun
  have hanswers := of_decide_eq_true hp
  have hfirst := hall t ht 0 (by simp [hanswers])
  simp [hanswers] at hfirst

end Piotbench.Server
