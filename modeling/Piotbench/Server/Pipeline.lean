import Piotbench.Server.History

/-!
# The pipeline of a session

A request and its response travel in one buffer through compute, the submitter, the send queue and
`sendbuf`. The buffers on that way, the oldest first, are the session's pipeline: `handle_request`
puts a buffer in at one end and `handle_response` takes it out at the other. In between nothing is
lost and nothing is doubled, and only a refused `trylock` of the submitter changes the order.
-/

namespace Piotbench.Server

open Places Transition

variable {cfg : ServerConfig} {sha1 : Sha1} {s s' : ServerContext}

/-- The buffers between `handle_request` and `handle_response`, in the order in which they will be
sent. -/
def ServerContext.pipeline (s : ServerContext) (c : ConnId) : List BufId :=
  (s.conns c).sendbuf.toList ++ (s.conns c).sendQueue ++ s.submitting c ++ s.computing c

theorem IoMove.answered {k : Nat} {c c' : ConnId} {a : Action} {pc pc' : IoPc}
    (h : IoMove cfg s k c pc a pc') : answered s c' a = [] := by
  cases h <;> rfl

theorem IoLocal.answered {k : Nat} {c : ConnId} {a : Action} {w : IoWorker}
    (h : IoLocal cfg s k a w) : answered s c a = [] := by
  cases h with
  | fail | dispatch => rfl
  | move hm => exact hm.answered

/-- **Output is a queue**: what the submitter queues is sent after all that is queued already. -/
theorem sending_step {a : Action} {c : ConnId} (h : Inv cfg s) (hs : Step cfg sha1 s a s')
    (hin : s.InSession c) (hcl : (s'.conns c).closed = false) :
    answered s c a ++ ((s'.conns c).sendbuf.toList ++ (s'.conns c).sendQueue)
      = (s.conns c).sendbuf.toList ++ (s.conns c).sendQueue ++ processed s c a := by
  have hcl₀ := open_before hs hin hcl
  cases hs with
  | stay ha => rcases ha with ⟨_, rfl⟩ | ⟨_, rfl⟩ | ⟨_, rfl⟩ <;> simp [answered, processed]
  | ioLocal hl => simp [hl.answered, hl.quiet.2.2]
  | @ioLock k c' a pc' _ hio =>
    have hquiet : answered s c a = [] ∧ processed s c a = [] := by
      rcases ioLock_action hio with rfl | rfl | rfl <;> exact ⟨rfl, rfl⟩
    rw [hquiet.1, hquiet.2, List.append_nil]
    apply field_update fun conn => conn.sendbuf.toList ++ conn.sendQueue
    rfl
  | @accepted w c' fd ok hpc =>
    have hne : c ≠ c' := (hin.ne (mem_parked_took hpc)).symm
    simp [answered, processed, hne]
  | @dequeue k c' input b rest hpc hb hq =>
    simp only [answered, processed, goto_conns, Function.update_apply]
    split
    · next hcc => simp [hcc, hb, hq]
    · simp
  | @sendPart k c' input b n pc' hpc _ hn _ hpart =>
    have hne : n ≠ (s.bufs b).left := by omega
    simp [answered, processed, hpc, hne]
  | @sendLast k c' input b n hpc _ hn =>
    have hb : (s.conns c').sendbuf = some b := h.pcOk hpc
    by_cases hcc : c = c'
    · simp [answered, processed, hpc, hn, hcc, hb]
    · simp [answered, processed, hpc, hcc, Ne.symm hcc]
  | @enqueue j b c' ok hpc =>
    by_cases hcc : c = c'
    · simp [answered, processed, hpc, hcc]
    · simp [answered, processed, hpc, hcc, Ne.symm hcc]
  | @dispose j b c' ok hpc hcl' =>
    -- the response of a closed connection is dropped, and `c` is open
    have hcc : c ≠ c' := by
      rintro rfl
      exact Bool.false_ne_true (hcl₀.symm.trans hcl')
    simp [answered, processed, hpc, hcc, Ne.symm hcc]
  | @finishRelease k c' input hpc | @finishDelegate k c' input hpc =>
    have hcc : c ≠ c' := by
      rintro rfl
      simp at hcl
    simp [answered, processed, hcc]
  | settleKeep | settleDisarm | takeBuffer | deliver | submitLock =>
    simp only [answered, processed, List.nil_append, List.append_nil]
    apply field_update fun conn => conn.sendbuf.toList ++ conn.sendQueue
    rfl
  | _ => simp [answered, processed]

/-- **The pipeline is a queue**, except that a buffer that goes back to the end of the submitter's
inbox is overtaken by the others of its session there. -/
theorem pipeline_step {a : Action} {c : ConnId} (h : Inv cfg s) (hs : Step cfg sha1 s a s')
    (hin : s.InSession c) (hin' : s'.InSession c) (hcl : (s'.conns c).closed = false) :
    answered s c a ++ s'.pipeline c = s.pipeline c ++ delivered s c a ∨
      (∃ j b, a = .submitPutBack j ∧ s.submit j = .refused b c ∧
        1 < (s.submitting c).length) ∧
      (answered s c a ++ s'.pipeline c).Perm (s.pipeline c ++ delivered s c a) := by
  have hk := keeps_step hs hin fun hrel => hrel.not_inSession hs hin'
  have hcomp := computing_step h hs hk
  have hsend := sending_step h hs hin hcl
  -- with the submitter's part in order, the stages join end to end
  have hjoin : ∀ {line}, s'.submitting c = line →
      processed s c a ++ line = s.submitting c ++ computed s c a →
      answered s c a ++ s'.pipeline c = s.pipeline c ++ delivered s c a := by
    rintro _ rfl hsub
    calc answered s c a ++ s'.pipeline c
        = (answered s c a ++ ((s'.conns c).sendbuf.toList ++ (s'.conns c).sendQueue))
            ++ s'.submitting c ++ s'.computing c := by
          simp only [ServerContext.pipeline, List.append_assoc]
      _ = (s.conns c).sendbuf.toList ++ (s.conns c).sendQueue
            ++ (processed s c a ++ s'.submitting c) ++ s'.computing c := by
          rw [hsend]
          simp only [List.append_assoc]
      _ = (s.conns c).sendbuf.toList ++ (s.conns c).sendQueue ++ s.submitting c
            ++ (computed s c a ++ s'.computing c) := by
          rw [hsub]
          simp only [List.append_assoc]
      _ = s.pipeline c ++ delivered s c a := by
          rw [hcomp]
          simp only [ServerContext.pipeline, List.append_assoc]
  rcases submitting_step h hs hk with hsub | ⟨j, b, rest, rfl, hpc, hold, hnew⟩
  · exact .inl (hjoin rfl hsub)
  · cases rest with
    | nil => exact .inl (hjoin hnew (by simp [processed, computed, hold]))
    | cons b' rest =>
      refine .inr ⟨⟨j, b, rfl, hpc, by simp [hold]⟩, ?_⟩
      simp only [answered, processed, computed, delivered, List.nil_append, List.append_nil]
        at hcomp hsend ⊢
      simp only [ServerContext.pipeline, hcomp, hsend, hold, hnew]
      refine List.Perm.append_right _ (List.Perm.append_left _ ?_)
      exact List.perm_append_singleton b (b' :: rest)

/-! ## Requests in the pipeline -/

/-- A buffer in the pipeline of an open connection is not one that is being received into. -/
theorem Inv.pipeline_place {c : ConnId} {b : BufId} (h : Inv cfg s)
    (hcl : (s.conns c).closed = false) (hb : b ∈ s.pipeline c) :
    ∃ p, b ∈ s.owned p ∧ p ≠ .emptyBuffers ∧ ∀ c', p ≠ .recvbuf c' := by
  simp only [ServerContext.pipeline, List.mem_append, Option.mem_toList] at hb
  rcases hb with ((hb | hb) | hb) | hb
  · exact ⟨.sendbuf c, mem_owned_sendbuf hcl hb, by simp, by simp⟩
  · exact ⟨.sendQueue c, hb, by simp, by simp⟩
  · obtain ⟨⟨j, hj⟩, -⟩ := h.mem_submitting.mp hb
    rcases mem_submitLine.mp hj with hj | hj
    · exact ⟨.submitterHand j, hj, by simp, by simp⟩
    · exact ⟨.submitterInbox j, hj, by simp, by simp⟩
  · obtain ⟨⟨i, hi⟩, -⟩ := h.mem_computing.mp hb
    rcases mem_computeLine.mp hi with hi | hi
    · exact ⟨.computeHand i, hi, by simp, by simp⟩
    · exact ⟨.computeInbox i, hi, by simp, by simp⟩

/-- What `handle_request` receives into is not in a pipeline. -/
theorem Inv.recvbuf_not_pipeline {c c' : ConnId} {b : BufId} (h : Inv cfg s)
    (hcl : (s.conns c).closed = false) (hb : (s.conns c).recvbuf = some b)
    (hcl' : (s.conns c').closed = false) : b ∉ s.pipeline c' := by
  intro hin
  obtain ⟨p, hp, -, hne⟩ := h.pipeline_place hcl' hin
  exact hne c (h.owned.unique hp (mem_owned_recvbuf hcl hb))

/-- A buffer in a pipeline keeps its label. -/
theorem label_pipeline {t : Traced} {a : Action} {c : ConnId} {b : BufId} (h : Inv cfg t.srv)
    (hcl : (t.srv.conns c).closed = false) (hb : b ∈ t.srv.pipeline c) :
    t.label a b = t.origin b := by
  unfold Traced.label
  split
  · next k =>
    split
    · next c' b' hpc =>
      have hop := h.openAt (k := k) (c := c') (by simp [hpc, IoPc.conn])
      have hne : b' ≠ b := by
        rintro rfl
        exact h.recvbuf_not_pipeline hop.closed (h.pcOk hpc).1 hcl hb
      rw [if_neg hne]
    · rfl
  · rfl

/-- The label of a buffer that `handle_request` delivers. -/
theorem label_delivered (t : Traced) (a : Action) (c : ConnId) :
    (delivered t.srv c a).map (t.label a)
      = (delivered t.srv c a).map fun _ =>
          some ⟨c, (t.hist c).session, (t.hist c).requests.length⟩ := by
  apply List.map_congr_left
  intro b hb
  cases a <;> try exact absurd hb List.not_mem_nil
  next k =>
    simp only [delivered, Traced.label] at hb ⊢
    split at hb
    · next c' b' hpc =>
      split at hb
      · next hcc =>
        obtain rfl := List.mem_singleton.mp hb
        subst hcc
        grind
      · cases hb
    · cases hb

/-- The requests that a session has received, in order. -/
def received (t : Traced) (c : ConnId) : List (Option Origin) :=
  (List.range (t.hist c).requests.length).map fun i => some ⟨c, (t.hist c).session, i⟩

/-- The requests that have been answered, and those in the pipeline. -/
def answeredOrWaiting (t : Traced) (c : ConnId) : List (Option Origin) :=
  (t.hist c).answers ++ (t.srv.pipeline c).map t.origin

theorem label_answered (t : Traced) (a : Action) (c : ConnId) :
    (answered t.srv c a).map (t.label a) = (answered t.srv c a).map t.origin := by
  cases a <;> rfl

/-- A connection that is in a session is not handed out. -/
theorem not_begins {a : Action} {c : ConnId} (hin : s.InSession c) : begins s c a = false := by
  unfold begins
  split
  · next w fd ok =>
    exact decide_eq_false fun hpc => hin.notParked _ (mem_parked_took hpc)
  · rfl

/-- A step of the traced server in the course of an open session of connection `c`. -/
structure OpenStep (cfg : ServerConfig) (sha1 : Sha1) (c : ConnId) (t : Traced) (a : Action)
    (t' : Traced) : Prop where
  inv : Inv cfg t.srv
  step : Step cfg sha1 t.srv a t'.srv
  hist : t'.hist = t.record a
  origin : t'.origin = t.label a
  session : t.srv.InSession c
  session' : t'.srv.InSession c
  opened' : (t'.srv.conns c).closed = false

section Step

variable {t t' : Traced} {a : Action} {c : ConnId}

theorem OpenStep.opened (h : OpenStep cfg sha1 c t a t') : (t.srv.conns c).closed = false :=
  open_before h.step h.session h.opened'

theorem OpenStep.record (h : OpenStep cfg sha1 c t a t') :
    t'.hist c = { t.hist c with
      calls := (t.hist c).calls ++ calls t.srv c a
      rx := (t.hist c).rx ++ bytesIn t.srv c a
      requests := (t.hist c).requests ++
        (delivered t.srv c a).map fun b => requestBytes (t.srv.bufs b).msg
      wire := (t.hist c).wire ++ bytesOut t.srv c a
      answers := (t.hist c).answers ++ (answered t.srv c a).map t.origin
      releases := (t.hist c).releases + putBack t.srv c a } := by
  rw [h.hist]
  simp [Traced.record, not_begins h.session]

/-- A step of an open session receives the request it delivers. -/
theorem OpenStep.received (h : OpenStep cfg sha1 c t a t') :
    received t' c = received t c ++ (delivered t.srv c a).map fun _ =>
      some ⟨c, (t.hist c).session, (t.hist c).requests.length⟩ := by
  simp only [Server.received, h.record]
  rcases delivered_cases t.srv c a with hd | ⟨k, b, -, -, hd⟩
  · simp [hd]
  · simp [hd, List.range_succ]

/-- What is answered or waiting grows by the request that is delivered, and stays in order unless
the submitter lets a response be overtaken. -/
theorem OpenStep.answeredOrWaiting (h : OpenStep cfg sha1 c t a t') :
    answeredOrWaiting t' c = answeredOrWaiting t c ++ (delivered t.srv c a).map (fun _ =>
        some ⟨c, (t.hist c).session, (t.hist c).requests.length⟩) ∨
      (∃ j b, a = .submitPutBack j ∧ t.srv.submit j = .refused b c ∧
        1 < (t.srv.submitting c).length) ∧
      (answeredOrWaiting t' c).Perm (answeredOrWaiting t c ++ (delivered t.srv c a).map (fun _ =>
        some ⟨c, (t.hist c).session, (t.hist c).requests.length⟩)) := by
  have hleft : Server.answeredOrWaiting t' c
      = (t.hist c).answers ++ (answered t.srv c a ++ t'.srv.pipeline c).map (t.label a) := by
    simp only [Server.answeredOrWaiting, h.record, h.origin, List.map_append, label_answered,
      List.append_assoc]
  have hright : (t.hist c).answers ++ (t.srv.pipeline c ++ delivered t.srv c a).map (t.label a)
      = Server.answeredOrWaiting t c ++ (delivered t.srv c a).map fun _ =>
          some ⟨c, (t.hist c).session, (t.hist c).requests.length⟩ := by
    simp only [Server.answeredOrWaiting, List.map_append, label_delivered, List.append_assoc]
    rw [List.map_congr_left fun b hb => label_pipeline h.inv h.opened hb]
  rw [← hright, hleft]
  rcases pipeline_step h.inv h.step h.session h.session' h.opened' with heq | ⟨hover, hperm⟩
  · exact .inl (by rw [heq])
  · exact .inr ⟨hover, (hperm.map _).append_left _⟩

/-- What is in the pipeline was there before the step, or has just been delivered. -/
theorem OpenStep.mem_pipeline (h : OpenStep cfg sha1 c t a t') {b : BufId}
    (hb : b ∈ t'.srv.pipeline c) : b ∈ t.srv.pipeline c ∨ b ∈ delivered t.srv c a := by
  have hperm : (answered t.srv c a ++ t'.srv.pipeline c).Perm
      (t.srv.pipeline c ++ delivered t.srv c a) := by
    rcases pipeline_step h.inv h.step h.session h.session' h.opened' with heq | ⟨-, hperm⟩
    · exact .of_eq heq
    · exact hperm
  exact List.mem_append.mp (hperm.subset (List.mem_append_right _ hb))

/-- A session that `handle_accept` has just begun has nothing received and nothing waiting. -/
theorem ledger_fresh (h : Inv cfg t.srv) (hs : Step cfg sha1 t.srv a t'.srv)
    (hhist : t'.hist = t.record a) (hnew : ¬ t.srv.InSession c) (hin' : t'.srv.InSession c) :
    t'.hist c = .start ((t.hist c).session + 1) ∧ t'.srv.pipeline c = [] ∧
      (t'.srv.conns c).received = 0 ∧ (t'.srv.conns c).recvbuf = none := by
  rcases session_back hs hin' with hold | ⟨w, fd, ok, rfl, hpc⟩
  · exact absurd hold hnew
  · refine ⟨?_, ?_⟩
    · rw [hhist]
      simp [Traced.record, begins, hpc]
    · obtain ⟨-, kern, err, -, hsrv⟩ := hs.accepted_cases hpc
      have hcomp : t'.srv.computing c = [] :=
        parked_computing h hnew (fun _ => by rw [hsrv]; rfl) (by rw [hsrv])
      have hsub : t'.srv.submitting c = [] :=
        parked_submitting h hnew (fun _ => by rw [hsrv]; rfl) (by rw [hsrv])
      have hconn : t'.srv.conns c
          = { acceptedConnection cfg t.srv.next fd (t.srv.conns c) with epollState := epollIn } := by
        simp [hsrv]
      simp [ServerContext.pipeline, hcomp, hsub, hconn, acceptedConnection,
        h.parked.fresh w c hpc]

end Step

end Piotbench.Server
