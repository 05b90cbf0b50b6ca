import Piotbench.Server.Reuse

/-!
# The end of a session

`finish_connection` closes the socket and then decides who puts the object back: itself, when
everything received has been sent, or the submitter, when it disposes of the last buffer on the
way. In orderly runs the socket is closed once and never used again (`torn_down_once`), and the
object is put back at most once and not before its last buffer is disposed of
(`released_at_most_once`).

Both decisions look at `sent` without the response in `sendbuf`. If that is the only thing left of
a session, neither of the two puts the object back (`leaked_object`). Everywhere else one of them
does (`closed_released`).
-/

namespace Piotbench.Server

open Places Transition

variable {cfg : ServerConfig} {sha1 : Sha1} {bufs : BufId → ServerBuffer}
  {s s' : ServerContext} {a : Action} {c : ConnId}

/-! ## Calls on the descriptor -/

/-- A call on a connection's descriptor comes from a worker that is handling the connection, and
the only call that closes it is the body of `finish_connection`. -/
theorem calls_cases (s : ServerContext) (c : ConnId) (a : Action) :
    calls s c a = [] ∨ (∃ k, c ∈ (s.io k).pc.conn) ∧
      (calls s c a = [.recv] ∨ calls s c a = [.send] ∨
        calls s c a = [.close] ∧ Finishes s c a) := by
  unfold calls
  split
  · next k res =>
    split
    · next c' b hpc =>
      by_cases hcc : c' = c
      · exact .inr ⟨⟨k, by simp [hpc, hcc, IoPc.conn]⟩, .inl (if_pos hcc)⟩
      · exact .inl (if_neg hcc)
    · exact .inl rfl
  · next k res =>
    split
    · next c' input b hpc =>
      by_cases hcc : c' = c
      · exact .inr ⟨⟨k, by simp [hpc, hcc, IoPc.conn]⟩, .inr (.inl (if_pos hcc))⟩
      · exact .inl (if_neg hcc)
    · exact .inl rfl
  · next k =>
    split
    · next c' input hpc =>
      by_cases hcc : c' = c
      · exact .inr ⟨⟨k, by simp [hpc, hcc, IoPc.conn]⟩,
          .inr (.inr ⟨if_pos hcc, k, input, rfl, hcc ▸ hpc⟩)⟩
      · exact .inl (if_neg hcc)
    · exact .inl rfl
  · exact .inl rfl

theorem putBack_cases (s : ServerContext) (c : ConnId) (a : Action) :
    putBack s c a = 0 ∨ putBack s c a = 1 ∧ Released s c a := by
  cases a with
  | finishBody k =>
    cases hpc : (s.io k).pc <;> simp [putBack, hpc]
    next c' input =>
      by_cases hcc : c' = c
      · subst hcc
        by_cases heq : (s.conns c').sent + (s.conns c').sendQueue.length = (s.conns c').received
        · exact .inr ⟨⟨rfl, heq⟩, ⟨input, hpc⟩, heq⟩
        · exact .inl fun _ => heq
      · exact .inl fun h => absurd h hcc
  | submitCompare j =>
    by_cases hpc : s.submit j = .compare c ∧ (s.conns c).processed = (s.conns c).received
    · exact .inr ⟨if_pos hpc, hpc⟩
    · exact .inl (if_neg hpc)
  | _ => exact .inl rfl

/-- An object is put back from a session. -/
theorem Released.inSession (hrel : Released s c a) (h : Inv cfg s) : s.InSession c := by
  cases a <;> try exact hrel.elim
  case finishBody k =>
    obtain ⟨⟨input, hpc⟩, -⟩ := hrel
    exact (h.openAt (k := k) (c := c) (by simp [hpc, IoPc.conn])).session
  case submitCompare j => exact (h.inFlight.compare j c hrel.1).1

/-! ## What the record of a session says about its end -/

/-- Nothing is called on the descriptor after it is closed. -/
def TornDownOnce (calls : List Call) : Prop :=
  ∀ pre post, calls = pre ++ .close :: post → post = []

theorem TornDownOnce.of_not_mem {calls : List Call} (h : .close ∉ calls) : TornDownOnce calls := by
  rintro pre post rfl
  simp at h

theorem TornDownOnce.close {calls : List Call} (h : .close ∉ calls) :
    TornDownOnce (calls ++ [.close]) := by
  intro pre post heq
  rcases List.eq_nil_or_concat post with hnil | ⟨init, last, rfl⟩
  · exact hnil
  · rw [List.concat_eq_append, ← List.cons_append, ← List.append_assoc] at heq
    have hpre := (List.append_inj_left' heq rfl)
    exact absurd (by simp [hpre]) h

structure Ledger (t : Traced) (c : ConnId) : Prop where
  once : TornDownOnce (t.hist c).calls
  opened : t.srv.InSession c → (t.srv.conns c).closed = false → .close ∉ (t.hist c).calls
  kept : t.srv.InSession c → (t.hist c).releases = 0
  releases : (t.hist c).releases ≤ 1

theorem Ledger.start {t : Traced} {n : Nat} (h : t.hist c = .start n) : Ledger t c := by
  refine ⟨?_, fun _ _ => ?_, fun _ => ?_, ?_⟩ <;> rw [h]
  · exact .of_not_mem List.not_mem_nil
  · exact List.not_mem_nil
  · rfl
  · exact Nat.zero_le _

theorem ledger_step {t t' : Traced} (h : Inv cfg t.srv) (hstep : tstep cfg sha1 t a = some t')
    (hold : Ledger t c) : Ledger t' c := by
  obtain ⟨hsrv, hhist, -⟩ := tstep_eq hstep
  have hs := step_cases hsrv
  by_cases hbegin : begins t.srv c a = true
  · exact .start (n := (t.hist c).session + 1) (by rw [hhist]; simp [Traced.record, hbegin])
  · have hcalls : (t'.hist c).calls = (t.hist c).calls ++ calls t.srv c a := by
      rw [hhist]; simp [Traced.record, hbegin]
    have hreleases : (t'.hist c).releases = (t.hist c).releases + putBack t.srv c a := by
      rw [hhist]; simp [Traced.record, hbegin]
    have hback : t'.srv.InSession c → t.srv.InSession c := by
      intro hin'
      rcases session_back hs hin' with hin | ⟨w, fd, ok, rfl, hpc⟩
      · exact hin
      · simp [begins, hpc] at hbegin
    have hclosed : (∃ k, c ∈ (t.srv.io k).pc.conn) → .close ∉ (t.hist c).calls := by
      rintro ⟨k, hk⟩
      have hop := h.openAt hk
      exact hold.opened hop.session hop.closed
    -- a call on the descriptor finds no `close` before it, and a release is the first one
    refine ⟨?_, ?_, ?_, ?_⟩
    · rw [hcalls]
      rcases calls_cases t.srv c a with hnil | ⟨hk, hrecv | hsend | ⟨hclose, -⟩⟩
      · simpa [hnil] using hold.once
      · exact .of_not_mem (by simp [hrecv, hclosed hk])
      · exact .of_not_mem (by simp [hsend, hclosed hk])
      · exact hclose ▸ .close (hclosed hk)
    · intro hin' hcl'
      have hin := hback hin'
      have hno := hold.opened hin (open_before hs hin hcl')
      rw [hcalls]
      rcases calls_cases t.srv c a with hnil | ⟨-, hrecv | hsend | ⟨-, hf⟩⟩
      · simpa [hnil] using hno
      · simpa [hrecv] using hno
      · simpa [hsend] using hno
      · exact absurd (hcl'.symm.trans (hf.closed hs)) Bool.false_ne_true
    · intro hin'
      rw [hreleases, hold.kept (hback hin')]
      rcases putBack_cases t.srv c a with hzero | ⟨-, hrel⟩
      · rw [hzero]
      · exact absurd hin' (hrel.not_inSession hs)
    · rw [hreleases]
      rcases putBack_cases t.srv c a with hzero | ⟨hone, hrel⟩
      · simpa [hzero] using hold.releases
      · simp [hone, hold.kept (hrel.inSession h)]

theorem ledger_of_trace {ok : ServerContext → Action → Prop} (hok : ∀ s a, ok s a → Orderly s a)
    {t : Traced} (h : Trace cfg sha1 ok bufs t) (c : ConnId) : Ledger t c :=
  h.invariant (I := fun t => Ledger t c) (.start (n := 0) rfl)
    fun hr hI _ hstep => ledger_step (inv_of_trace hok hr) hstep hI

/-! ## Who puts the object back -/

/-- `finish_connection` does not close a connection of which a half sent response is all that is
left. -/
def nothingHalfSent (s : ServerContext) : Action → Bool
  | .finishBody k =>
    match (s.io k).pc with
    | .teardown c _ =>
      (s.conns c).sendbuf.isNone || (s.conns c).received != (s.conns c).processed
    | _ => true
  | _ => true

/-- Somebody has yet to put the object of a closed session back: a submitter that will dispose of
one of its buffers, or that has just done so. -/
def Owed (s : ServerContext) (c : ConnId) : Prop :=
  (s.conns c).processed ≠ (s.conns c).received ∨ ∃ j, s.submit j = .compare c

/-- A comparison that is due is due until it is made. -/
theorem compare_stays {j : Nat} (hs : Step cfg sha1 s a s') (hpc : s.submit j = .compare c) :
    s'.submit j = .compare c ∨ a = .submitCompare j := by
  cases hs with
  | submitGet | submitRefused | submitBack | submitLock | dispose | enqueue | submitRelease
  | submitNext =>
    simp only [Function.update_apply]
    grind
  | _ => exact .inl hpc

/-- A disposal is followed by a comparison. -/
theorem compare_of_dispose {j : Nat} {ok : Bool} {b : BufId}
    (hs : Step cfg sha1 s (.submitSection j ok) s') (hpc : s.submit j = .locked b c)
    (hcl : (s.conns c).closed = true) : s'.submit j = .compare c := by
  cases hs with
  | stay ha => simp at ha
  | ioLocal hl => exact absurd hl.ioWorker (by simp [Action.ioWorker])
  | ioLock _ hio => simp at hio
  | dispose hpc' =>
    rw [hpc] at hpc'
    cases hpc'
    simp
  | enqueue hpc' hcl' =>
    rw [hpc] at hpc'
    cases hpc'
    simp [hcl] at hcl'

/-- Nothing is received on a connection that is closed. -/
theorem delivered_closed (h : Inv cfg s) (hcl : (s.conns c).closed = true) :
    delivered s c a = [] := by
  rcases delivered_cases s c a with hnil | ⟨k, b, -, hpc, -⟩
  · exact hnil
  · have hop := h.openAt (k := k) (c := c) (by simp [hpc, IoPc.conn])
    exact absurd (hop.closed.symm.trans hcl) Bool.false_ne_true

/-- One step keeps the duty to put the object back with somebody. -/
theorem owed_step (h : Inv cfg s) (hs : Step cfg sha1 s a s') (hnh : nothingHalfSent s a = true)
    (hold : s.InSession c → (s.conns c).closed = true → Owed s c) (hin' : s'.InSession c)
    (hcl' : (s'.conns c).closed = true) : Owed s' c := by
  rcases session_back hs hin' with hin | ⟨w, fd, ok, rfl, hpc⟩
  · by_cases hcl : (s.conns c).closed = true
    · -- closed before: only `processed` moves, and the last to move it compares
      have hrecv := received_step hs hin
      have hproc := processed_step hs hin
      rw [delivered_closed h hcl, List.length_nil, Nat.add_zero] at hrecv
      rcases processed_cases s c a with hp | ⟨j, ok, b, rfl, hpc, -⟩
      · rw [hp, List.length_nil, Nat.add_zero] at hproc
        rcases hold hin hcl with hne | ⟨j, hj⟩
        · exact .inl (by rwa [hproc, hrecv])
        · rcases compare_stays hs hj with hj' | rfl
          · exact .inr ⟨j, hj'⟩
          · left
            intro heq
            exact Released.not_inSession (c := c) (a := .submitCompare j)
              ⟨hj, by rwa [hproc, hrecv] at heq⟩ hs hin'
      · exact .inr ⟨j, compare_of_dispose hs hpc hcl⟩
    · -- closed by this step, which has not released the object itself
      rw [Bool.not_eq_true] at hcl
      obtain ⟨k, input, rfl, hpc⟩ := finishes_of_closed hs hcl hcl'
      have hout := (h.accounts c hin).output hcl
      have hne : (s.conns c).sent + (s.conns c).sendQueue.length ≠ (s.conns c).received :=
        fun heq => Released.not_inSession (c := c) (a := .finishBody k) ⟨⟨input, hpc⟩, heq⟩ hs hin'
      left
      obtain ⟨_, _, rfl⟩ := hs.finish_cases hpc
      simp only [nothingHalfSent, hpc, Bool.or_eq_true, Option.isNone_iff_eq_none, bne_iff_ne] at hnh
      simp only [goto_conns, Function.update_self]
      rcases hnh with hnone | hdiff
      · rw [hnone, Option.toList_none, List.length_nil] at hout
        omega
      · exact Ne.symm hdiff
  · obtain ⟨-, _, _, -, rfl⟩ := hs.accepted_cases hpc
    simp [acceptedConnection] at hcl'

theorem owed_of_run {ok : ServerContext → Action → Prop}
    (hok : ∀ s a, ok s a → Orderly s a ∧ nothingHalfSent s a = true)
    (h : Run cfg sha1 ok bufs s) (hc : c < cfg.alloc.sessions) (hin : s.InSession c)
    (hcl : (s.conns c).closed = true) : Owed s c := by
  refine h.invariant (I := fun s => s.InSession c → (s.conns c).closed = true → Owed s c)
    ?_ ?_ hin hcl
  · intro hin
    exact absurd (List.mem_range.mpr hc) (hin.notParked .emptyConnections)
  · intro s a s' hr hI hsa hstep hin' hcl'
    have hinv := inv_of_run (fun s a h => (hok s a h).1) hr
    exact owed_step hinv (step_cases hstep) (hok _ _ hsa).2 hI hin' hcl'

/-! ## Teardown happens once -/

/-- **At most one teardown for each session.** In an orderly run `Z_close` is called at most once
on the descriptor of a session, and neither `Z_recv` nor `Z_send` is called on it afterwards. -/
theorem torn_down_once {t : Traced} (h : Trace cfg sha1 Orderly bufs t) (c : ConnId) :
    (t.hist c).calls.count .close ≤ 1 ∧
      ∀ pre post, (t.hist c).calls = pre ++ .close :: post → .recv ∉ post ∧ .send ∉ post := by
  have hl := (ledger_of_trace (fun _ _ => id) h c).once
  constructor
  · by_cases hmem : .close ∈ (t.hist c).calls
    · obtain ⟨pre, post, hsplit, hpre⟩ := List.eq_append_cons_of_mem hmem
      rw [hsplit, hl pre post hsplit, List.count_append, List.count_eq_zero_of_not_mem hpre]
      simp
    · rw [List.count_eq_zero_of_not_mem hmem]
      exact Nat.zero_le _
  · intro pre post hsplit
    rw [hl pre post hsplit]
    simp

/-- The client disconnects with one request at compute: the submitter puts the object back. -/
def delegated : List Action :=
  connect ++ receiveOne ++ [.requestTop 0, .requestRecv 0 .eof, .finishTrylock 0, .finishBody 0] ++
    processOne ++ [.submitCompare 0]

theorem exists_delegated : ∃ t, Trace smallServer zeroSha1 Orderly blankBuffers t ∧
    (t.hist 0).calls = [.recv, .recv, .close] ∧ (t.hist 0).releases = 1 ∧
      t.srv.emptyConnections = [0] := by
  have hrun := exists_reachable_of_run delegated
    (fun t => decide ((t.hist 0).calls = [.recv, .recv, .close] ∧ (t.hist 0).releases = 1 ∧
      t.srv.emptyConnections = [0]))
    (by decide +kernel : (run (tstep smallServer zeroSha1) (fun t a => Orderly t.srv a)
      (.init smallServer blankBuffers) delegated).map _ = some true)
  simpa using hrun

theorem torn_down_once_delegated : ∃ t, Trace smallServer zeroSha1 Orderly blankBuffers t ∧
    .close ∈ (t.hist 0).calls ∧ (t.hist 0).calls.count .close ≤ 1 ∧
    ∀ pre post, (t.hist 0).calls = pre ++ .close :: post → .recv ∉ post ∧ .send ∉ post := by
  obtain ⟨t, ht, hcalls, -⟩ := exists_delegated
  exact ⟨t, ht, by simp [hcalls], torn_down_once ht 0⟩

/-- An event is both output and input; `Z_send` fails. `handle_response` tears the connection down
and returns 0, so the worker calls `handle_request`, whose `Z_recv` fails on the closed descriptor
and tears it down again. -/
def doubleTeardown : List Action :=
  connect ++ receiveOne ++ [.requestTop 0, .requestRecv 0 .eagain] ++ processOne ++
    [.epollWait 0 [(5, epollOut ||| epollIn)], .event 0, .responseTop 0, .responseSend 0 .error,
      .finishTrylock 0, .finishBody 0, .requestTop 0, .requestRecv 0 .error, .finishTrylock 0,
      .finishBody 0]

/-- **Without the condition**, a session is torn down twice, with a `Z_recv` in between. -/
theorem torn_down_twice : ¬ ∀ t, Trace smallServer zeroSha1 (fun _ _ => True) blankBuffers t →
    (t.hist 0).calls.count .close ≤ 1 ∧
      ∀ pre post, (t.hist 0).calls = pre ++ .close :: post → .recv ∉ post ∧ .send ∉ post := by
  intro hall
  have hrun := exists_reachable_of_run doubleTeardown
    (fun t => decide ((t.hist 0).calls = [.recv, .recv, .send, .close, .recv, .close]))
    (by decide +kernel : (run (tstep smallServer zeroSha1) (fun _ _ => True)
      (.init smallServer blankBuffers) doubleTeardown).map _ = some true)
  obtain ⟨t, ht, hcalls⟩ := hrun
  have hcount := (hall t ht).1
  rw [of_decide_eq_true hcalls] at hcount
  exact absurd hcount (by decide)

/-! ## The object is put back once, and not too early -/

/-- **At most one release.** In an orderly run the object is put back at most once for each
session, and while it is in `empty_connections` no buffer at compute or at a submitter belongs to
it and its send queue is empty. -/
theorem released_at_most_once {t : Traced} (h : Trace cfg sha1 Orderly bufs t) (c : ConnId) :
    (t.hist c).releases ≤ 1 ∧
      (c ∈ t.srv.emptyConnections →
        (∀ i, ∀ b ∈ t.srv.computeLine i, (t.srv.bufs b).conn ≠ c) ∧
        (∀ j, ∀ b ∈ t.srv.submitLine j, (t.srv.bufs b).conn ≠ c) ∧
        (t.srv.conns c).sendQueue = []) := by
  have hinv := inv_of_trace (fun _ _ => id) h
  refine ⟨(ledger_of_trace (fun _ _ => id) h c).releases, fun hc => ⟨?_, ?_, ?_⟩⟩
  · rintro i b hb rfl
    exact (hinv.inFlight.compute i b hb).1.notParked .emptyConnections hc
  · rintro j b hb rfl
    exact (hinv.inFlight.submit j b hb).1.notParked .emptyConnections hc
  · exact (hinv.parked.blank .emptyConnections c hc).queue

theorem released_at_most_once_delegated :
    ∃ t, Trace smallServer zeroSha1 Orderly blankBuffers t ∧ (t.hist 0).releases = 1 ∧
      0 ∈ t.srv.emptyConnections ∧ (t.hist 0).releases ≤ 1 ∧
      (0 ∈ t.srv.emptyConnections →
        (∀ i, ∀ b ∈ t.srv.computeLine i, (t.srv.bufs b).conn ≠ 0) ∧
        (∀ j, ∀ b ∈ t.srv.submitLine j, (t.srv.bufs b).conn ≠ 0) ∧
        (t.srv.conns 0).sendQueue = []) := by
  obtain ⟨t, ht, -, hreleases, hempty⟩ := exists_delegated
  exact ⟨t, ht, hreleases, by simp [hempty], released_at_most_once ht 0⟩

/-! ## The object is put back in the end -/

/-- **No object is leaked.** In an orderly run in which no connection is closed with a half sent
response as all that is left of it, a closed connection with no buffer at compute or at its
submitter and no comparison due is in `empty_connections`, unless `handle_accept` has taken it from
there. -/
theorem closed_released
    (h : Run cfg sha1 (fun s a => Orderly s a ∧ nothingHalfSent s a = true) bufs s)
    (hc : c < cfg.alloc.sessions) (hcl : (s.conns c).closed = true)
    (hcompute : s.computing c = []) (hsubmit : s.submitting c = [])
    (hcompare : s.submit (s.conns c).submitidx ≠ .compare c) :
    c ∈ s.emptyConnections ∨ ∃ w, c ∈ (s.accept w).object := by
  by_contra hnot
  obtain ⟨hempty, haccept⟩ := not_or.mp hnot
  have hin : s.InSession c := by
    refine ⟨fun p => ?_⟩
    cases p with
    | emptyConnections => exact hempty
    | accept w => exact not_exists.mp haccept w
  have hinv := inv_of_run (fun _ _ h => h.1) h
  rcases owed_of_run (fun _ _ => id) h hc hin hcl with hne | ⟨j, hj⟩
  · have hflow := (hinv.accounts c hin).flow
    rw [hcompute, hsubmit] at hflow
    exact hne hflow.symm
  · obtain rfl := (hinv.inFlight.compare j c hj).2.2
    exact hcompare hj

theorem closed_released_delegated : ∃ s,
    Run smallServer zeroSha1 (fun s a => Orderly s a ∧ nothingHalfSent s a = true) blankBuffers s ∧
      (s.conns 0).closed = true ∧ (0 ∈ s.emptyConnections ∨ ∃ w, 0 ∈ (s.accept w).object) := by
  have hrun := exists_reachable_of_run delegated
    (fun s => decide ((s.conns 0).closed = true ∧ s.computing 0 = [] ∧ s.submitting 0 = [] ∧
      s.submit (s.conns 0).submitidx ≠ .compare 0))
    (by decide +kernel : (run (step smallServer zeroSha1)
      (fun s a => Orderly s a ∧ nothingHalfSent s a = true) (.init smallServer blankBuffers)
      delegated).map _ = some true)
  obtain ⟨s, hs, hp⟩ := hrun
  obtain ⟨hcl, hcompute, hsubmit, hcompare⟩ := of_decide_eq_true hp
  exact ⟨s, hs, hcl, closed_released hs (by decide) hcl hcompute hsubmit hcompare⟩

/-- The peer resets the connection when 10 bytes of its only response are sent. -/
def halfSent : List Action :=
  connect ++ receiveOne ++ [.requestTop 0, .requestRecv 0 .eagain] ++ processOne ++
    [.epollWait 0 [(5, epollOut)], .event 0, .responseTop 0, .responseSend 0 (.sent 10),
      .epollWait 0 [(5, epollErr)], .event 0, .finishTrylock 0, .finishBody 0]

/-- **Without the last condition**, the object is lost: nothing is left that could put it back. -/
theorem leaked_object : ¬ ∀ s, Run smallServer zeroSha1 Orderly blankBuffers s →
    (s.conns 0).closed = true → s.computing 0 = [] → s.submitting 0 = [] →
      s.submit (s.conns 0).submitidx ≠ .compare 0 → (s.io 0).pc = .wait →
      s.accept 0 = .idle → 0 ∈ s.emptyConnections := by
  intro hall
  have hrun := exists_reachable_of_run halfSent
    (fun s => decide ((s.conns 0).closed = true ∧ s.computing 0 = [] ∧ s.submitting 0 = [] ∧
      s.submit (s.conns 0).submitidx ≠ .compare 0 ∧ (s.io 0).pc = .wait ∧ s.accept 0 = .idle ∧
      0 ∉ s.emptyConnections))
    (by decide +kernel : (run (step smallServer zeroSha1) Orderly
      (.init smallServer blankBuffers) halfSent).map _ = some true)
  obtain ⟨s, hs, hp⟩ := hrun
  obtain ⟨hcl, hcompute, hsubmit, hcompare, hio, haccept, hnot⟩ := of_decide_eq_true hp
  exact hnot (hall s hs hcl hcompute hsubmit hcompare hio haccept)

end Piotbench.Server
