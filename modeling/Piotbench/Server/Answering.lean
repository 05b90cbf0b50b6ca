import Piotbench.Server.Ends
import Piotbench.Server.Reuse

/-!
# Every request is answered once, with its own answer

The bytes of an open session: what `Z_recv` has returned is the requests received, one after
another, and a piece of the next (`Intake`); what `Z_send` has taken is the responses to the
requests answered, and a piece of the next (`Emitted`, `Wire`). In between the request stays in its
buffer, and behind compute the response beside it is the right one (`Carried`).
-/

namespace Piotbench.Server

open Places Transition

variable {cfg : ServerConfig} {sha1 : Sha1} {bufs : BufId → ServerBuffer}

/-- The request with this origin, of the session that `h` is about. -/
def SessionHistory.requestOf (h : SessionHistory) : Option Origin → List Byte
  | some o => h.requests.getD o.index []
  | none => []

/-- The part of the next request that has come in. -/
def ServerContext.incoming (s : ServerContext) (c : ConnId) : List Byte :=
  match (s.conns c).recvbuf with
  | none => []
  | some b => Bytes.slice (s.bufs b).msg 0 (s.bufs b).ptr

/-- The part of the response in `sendbuf` that has gone out. -/
def ServerContext.outgoing (s : ServerContext) (c : ConnId) : List Byte :=
  match (s.conns c).sendbuf with
  | none => []
  | some b => Bytes.slice (s.bufs b).msg resOffset ((s.bufs b).ptr - resOffset)

section Idle

variable {s : ServerContext} {c : ConnId} {b : BufId}

theorem incoming_idle (h : (s.conns c).recvbuf = none) : s.incoming c = [] := by
  simp [ServerContext.incoming, h]

theorem incoming_busy (h : (s.conns c).recvbuf = some b) :
    s.incoming c = Bytes.slice (s.bufs b).msg 0 (s.bufs b).ptr := by
  simp [ServerContext.incoming, h]

theorem outgoing_idle (h : (s.conns c).sendbuf = none) : s.outgoing c = [] := by
  simp [ServerContext.outgoing, h]

theorem outgoing_busy (h : (s.conns c).sendbuf = some b) :
    s.outgoing c = Bytes.slice (s.bufs b).msg resOffset ((s.bufs b).ptr - resOffset) := by
  simp [ServerContext.outgoing, h]

end Idle

/-! ## The input end -/

structure Intake (t : Traced) (c : ConnId) : Prop where
  framed : ∀ r ∈ (t.hist c).requests, r.length = sizeofRequest
  place : ∀ b, (t.srv.conns c).recvbuf = some b →
    (t.srv.bufs b).ptr + (t.srv.bufs b).left = sizeofRequest
  rx : (t.hist c).rx = (t.hist c).requests.flatten ++ t.srv.incoming c

theorem intake_step {t t' : Traced} {a : Action} {c : ConnId} (h : OpenStep cfg sha1 c t a t')
    (hold : Intake t c) : Intake t' c := by
  have hrecord := h.record
  cases input_cases h.inv h.step h.session h.opened' with
  | quiet hbytes hdel hrecv hbuf =>
    have hinc : t'.srv.incoming c = t.srv.incoming c := by
      unfold ServerContext.incoming
      rw [hrecv]
      cases hb : (t.srv.conns c).recvbuf with
      | none => rfl
      | some b => simp [hbuf b hb]
    constructor
    · simpa [hrecord, hdel] using hold.framed
    · intro b hb
      rw [hrecv] at hb
      rw [hbuf b hb]
      exact hold.place b hb
    · rw [hinc]
      simpa [hrecord, hdel, hbytes] using hold.rx
  | @take b hbytes hdel hrecv hrecv' hbuf =>
    constructor
    · simpa [hrecord, hdel] using hold.framed
    · intro b' hb'
      cases hrecv'.symm.trans hb'
      simp [hbuf]
    · rw [incoming_busy hrecv', hbuf.2]
      simpa [hrecord, hdel, hbytes, incoming_idle hrecv] using hold.rx
  | @data b bytes hbytes hdel hrecv hrecv' hlen hbuf =>
    have hplace := hold.place b hrecv
    constructor
    · simpa [hrecord, hdel] using hold.framed
    · intro b' hb'
      cases hrecv'.symm.trans hb'
      simp only [hbuf]
      omega
    · have hinc : t'.srv.incoming c = t.srv.incoming c ++ bytes := by
        rw [incoming_busy hrecv', incoming_busy hrecv, hbuf]
        simpa using Bytes.slice_blit_append (t.srv.bufs b).msg 0 (t.srv.bufs b).ptr bytes
      rw [hinc]
      simp [hrecord, hdel, hbytes, hold.rx]
  | @deliver b hbytes hdel hrecv hrecv' hleft =>
    have hptr : (t.srv.bufs b).ptr = sizeofRequest := by
      have := hold.place b hrecv
      omega
    have hreq : t.srv.incoming c = requestBytes (t.srv.bufs b).msg := by
      rw [incoming_busy hrecv, hptr, requestBytes]
    constructor
    · intro r hr
      simp only [hrecord, hdel, List.map_cons, List.map_nil, List.mem_append, List.mem_singleton]
        at hr
      rcases hr with hr | hr
      · exact hold.framed r hr
      · rw [hr, length_requestBytes]
    · intro b' hb'
      cases hrecv'.symm.trans hb'
    · simp [hrecord, hdel, hbytes, hold.rx, hreq, incoming_idle hrecv']

/-! ## On the way -/

structure Carried (sha1 : Sha1) (t : Traced) (c : ConnId) : Prop where
  /-- The request is in the buffer that is labelled with it. -/
  request : ∀ b ∈ t.srv.pipeline c,
    (t.hist c).requestOf (t.origin b) = requestBytes (t.srv.bufs b).msg
  /-- Behind compute, the response is there too. -/
  response : ∀ b ∈ (t.srv.conns c).sendbuf.toList ++ (t.srv.conns c).sendQueue
      ++ t.srv.submitting c,
    responseBytes (t.srv.bufs b).msg = response sha1 (requestBytes (t.srv.bufs b).msg)

section Step

variable {t t' : Traced} {a : Action} {c : ConnId}

/-- What has an origin among the requests received keeps its request. -/
theorem OpenStep.requestOf (h : OpenStep cfg sha1 c t a t') {o : Option Origin}
    (ho : o ∈ Server.received t c) : (t'.hist c).requestOf o = (t.hist c).requestOf o := by
  obtain ⟨i, hi, rfl⟩ := List.mem_map.mp ho
  have hlt : i < (t.hist c).requests.length := List.mem_range.mp hi
  simp [SessionHistory.requestOf, h.record, List.getElem?_append_left, hlt]

theorem Staged.mem_received (h : Staged t c) {o : Option Origin}
    (ho : o ∈ Server.answeredOrWaiting t c) : o ∈ Server.received t c :=
  h.stages.subset ho

theorem Staged.origin (h : Staged t c) {b : BufId} (hb : b ∈ t.srv.pipeline c) :
    t.origin b ∈ Server.received t c :=
  h.mem_received (List.mem_append_right _ (List.mem_map_of_mem hb))

/-- The request of the buffer that `handle_request` delivers. -/
theorem OpenStep.requestOf_delivered (h : OpenStep cfg sha1 c t a t') {b : BufId}
    (hb : b ∈ delivered t.srv c a) :
    (t'.hist c).requestOf (t'.origin b) = requestBytes (t.srv.bufs b).msg := by
  rcases delivered_cases t.srv c a with hnil | ⟨k, b', rfl, hpc, hdel⟩
  · simp [hnil] at hb
  · obtain rfl : b = b' := by simpa [hdel] using hb
    have horigin : t'.origin b = some ⟨c, (t.hist c).session, (t.hist c).requests.length⟩ := by
      simp [h.origin, Traced.label, hpc]
    simp [horigin, SessionHistory.requestOf, h.record, hdel]

/-- A delivery writes no buffer. -/
theorem OpenStep.bufs_delivered (h : OpenStep cfg sha1 c t a t') {b : BufId}
    (hb : b ∈ delivered t.srv c a) : t'.srv.bufs = t.srv.bufs := by
  rcases delivered_cases t.srv c a with hnil | ⟨k, b', rfl, hpc, -⟩
  · simp [hnil] at hb
  · have hs := h.step
    generalize t'.srv = s' at hs
    cases hs with
    | stay ha => simp at ha
    | ioLocal hl =>
      have hnot : delivered t.srv c (.requestDeliver k) = [] := hl.quiet.1
      simp [delivered, hpc] at hnot
    | ioLock _ hio => simp at hio
    | deliver => rfl

/-- What is behind compute was there before the step, or has just been computed. -/
theorem OpenStep.mem_behind (h : OpenStep cfg sha1 c t a t') {b : BufId}
    (hb : b ∈ (t'.srv.conns c).sendbuf.toList ++ (t'.srv.conns c).sendQueue
      ++ t'.srv.submitting c) :
    b ∈ (t.srv.conns c).sendbuf.toList ++ (t.srv.conns c).sendQueue ++ t.srv.submitting c ∨
      b ∈ computed t.srv c a := by
  have hk := keeps_step h.step h.session fun hrel => hrel.not_inSession h.step h.session'
  have hsend := sending_step h.inv h.step h.session h.opened'
  have hsub := submitting_perm h.inv h.step hk
  have hmem : b ∈ processed t.srv c a ++ t'.srv.submitting c →
      b ∈ t.srv.submitting c ∨ b ∈ computed t.srv c a := fun hb =>
    List.mem_append.mp (hsub.subset hb)
  rcases List.mem_append.mp hb with hb | hb
  · have hb' := hsend ▸ List.mem_append_right (answered t.srv c a) hb
    rcases List.mem_append.mp hb' with hb' | hb'
    · exact .inl (List.mem_append_left _ hb')
    · exact (hmem (List.mem_append_left _ hb')).imp_left (List.mem_append_right _)
  · exact (hmem (List.mem_append_right _ hb)).imp_left (List.mem_append_right _)

theorem carried_step (h : OpenStep cfg sha1 c t a t') (hclock : clockOk a = true)
    (hstaged : Staged t c) (hold : Carried sha1 t c) : Carried sha1 t' c := by
  constructor
  · intro b hb
    rcases h.mem_pipeline hb with hb | hb
    · rw [requestBytes_step h.inv h.step hclock h.opened hb, h.origin,
        label_pipeline h.inv h.opened hb, h.requestOf (hstaged.origin hb)]
      exact hold.request b hb
    · rw [h.requestOf_delivered hb, h.bufs_delivered hb]
  · intro b hb
    rcases h.mem_behind hb with hb | hb
    · rw [requestBytes, responseBytes, msg_step h.inv h.step h.opened hb]
      exact hold.response b hb
    · exact computed_ok h.step hclock hb

/-! ## The output end -/

/-- A response of which a part is sent, and not all of it. -/
structure HalfSent (buff : ServerBuffer) : Prop where
  left : 0 < buff.left
  ptr : resOffset ≤ buff.ptr
  place : buff.ptr + buff.left = resOffset + sizeofResponse

/-- How a step moves the output: the bytes sent continue what is out of the response in
`sendbuf`, or complete it. -/
theorem outgoing_step (h : OpenStep cfg sha1 c t a t')
    (hold : ∀ b, (t.srv.conns c).sendbuf = some b → HalfSent (t.srv.bufs b)) :
    (∀ b, (t'.srv.conns c).sendbuf = some b → HalfSent (t'.srv.bufs b)) ∧
      (answered t.srv c a = [] ∧
          t'.srv.outgoing c = t.srv.outgoing c ++ bytesOut t.srv c a ∨
        ∃ b, answered t.srv c a = [b] ∧ (t.srv.conns c).sendbuf = some b ∧
          t.srv.outgoing c ++ bytesOut t.srv c a = responseBytes (t.srv.bufs b).msg ∧
          t'.srv.outgoing c = []) := by
  cases output_cases h.inv h.step h.session h.opened' with
  | quiet hbytes hans hsend hbuf =>
    refine ⟨fun b hb => ?_, .inl ⟨hans, ?_⟩⟩
    · rw [hsend] at hb
      rw [hbuf b hb]
      exact hold b hb
    · unfold ServerContext.outgoing
      rw [hsend, hbytes, List.append_nil]
      cases hb : (t.srv.conns c).sendbuf with
      | none => rfl
      | some b => simp [hbuf b hb]
  | take hbytes hans hsend hsend' hbuf =>
    refine ⟨fun b' hb' => ?_, .inl ⟨hans, ?_⟩⟩
    · cases hsend'.symm.trans hb'
      refine ⟨?_, Nat.le_of_eq hbuf.2.symm, ?_⟩
      · rw [hbuf.1]
        decide
      · rw [hbuf.1, hbuf.2]
    · rw [outgoing_busy hsend', outgoing_idle hsend, hbytes, hbuf.2]
      simp
  | @part b n hbytes hans hsend hsend' hn hbuf =>
    obtain ⟨-, hptr, hplace⟩ := hold b hsend
    refine ⟨fun b' hb' => ?_, .inl ⟨hans, ?_⟩⟩
    · cases hsend'.symm.trans hb'
      constructor <;> simp only [hbuf] <;> omega
    · have hmore : (t.srv.bufs b).ptr + n - resOffset
          = ((t.srv.bufs b).ptr - resOffset) + n := by omega
      have hmid : resOffset + ((t.srv.bufs b).ptr - resOffset) = (t.srv.bufs b).ptr := by omega
      rw [outgoing_busy hsend', outgoing_busy hsend, hbytes, hbuf]
      simp only [hmore, Bytes.slice_add, hmid]
  | @last b hbytes hans hsend hsend' =>
    obtain ⟨-, hptr, hplace⟩ := hold b hsend
    have hmid : resOffset + ((t.srv.bufs b).ptr - resOffset) = (t.srv.bufs b).ptr := by omega
    have hlen : ((t.srv.bufs b).ptr - resOffset) + (t.srv.bufs b).left = sizeofResponse := by
      omega
    refine ⟨fun b' hb' => ?_, .inr ⟨b, hans, hsend, ?_, outgoing_idle hsend'⟩⟩
    · cases hsend'.symm.trans hb'
    · rw [outgoing_busy hsend, hbytes, responseBytes, ← hlen, Bytes.slice_add, hmid]

/-- The bytes sent, counted in responses. -/
structure Emitted (t : Traced) (c : ConnId) : Prop where
  sendbuf : ∀ b, (t.srv.conns c).sendbuf = some b → HalfSent (t.srv.bufs b)
  length : (t.hist c).wire.length
    = sizeofResponse * (t.hist c).answers.length + (t.srv.outgoing c).length

theorem emitted_step (h : OpenStep cfg sha1 c t a t') (hold : Emitted t c) : Emitted t' c := by
  obtain ⟨hbuf, hmove⟩ := outgoing_step h hold.sendbuf
  refine ⟨hbuf, ?_⟩
  rcases hmove with ⟨hans, hout⟩ | ⟨b, hans, -, hlast, hout⟩
  · simp only [h.record, hans, hout, hold.length, List.length_append, List.map_nil,
      List.append_nil]
    omega
  · have hlen := congrArg List.length hlast
    simp only [responseBytes, Bytes.length_slice, List.length_append] at hlen
    simp only [h.record, hans, hout, hold.length, List.length_append, List.length_map,
      List.length_singleton, List.length_nil]
    rw [Nat.mul_add]
    omega

/-- What has been sent in answer to the requests answered before the step. -/
theorem OpenStep.responses (h : OpenStep cfg sha1 c t a t') (hstaged : Staged t c) :
    (t.hist c).answers.map (fun o => response sha1 ((t'.hist c).requestOf o))
      = (t.hist c).answers.map fun o => response sha1 ((t.hist c).requestOf o) := by
  apply List.map_congr_left
  intro o ho
  rw [h.requestOf (hstaged.mem_received (List.mem_append_left _ ho))]

/-- The bytes sent are the responses to the requests answered, and what is out of the next. -/
def Wire (sha1 : Sha1) (t : Traced) (c : ConnId) : Prop :=
  (t.hist c).wire =
    ((t.hist c).answers.map fun o => response sha1 ((t.hist c).requestOf o)).flatten
      ++ t.srv.outgoing c

theorem wire_step (h : OpenStep cfg sha1 c t a t') (hstaged : Staged t c) (hemitted : Emitted t c)
    (hcarried : Carried sha1 t c) (hold : Wire sha1 t c) : Wire sha1 t' c := by
  have hanswers : (t'.hist c).answers = (t.hist c).answers ++ (answered t.srv c a).map t.origin := by
    simp [h.record]
  have hwire : (t'.hist c).wire = (t.hist c).wire ++ bytesOut t.srv c a := by simp [h.record]
  unfold Wire at hold ⊢
  rcases (outgoing_step h hemitted.sendbuf).2 with ⟨hans, hout⟩ | ⟨b, hans, hb, hlast, hout⟩
  · rw [hanswers, hans, List.map_nil, List.append_nil, h.responses hstaged, hwire, hold,
      hout, List.append_assoc]
  · have hmem : b ∈ (t.srv.conns c).sendbuf.toList ++ (t.srv.conns c).sendQueue
        ++ t.srv.submitting c := by simp [hb]
    have hpipe : b ∈ t.srv.pipeline c := List.mem_append_left _ hmem
    have hresponse : t.srv.outgoing c ++ bytesOut t.srv c a
        = response sha1 ((t'.hist c).requestOf (t.origin b)) := by
      rw [hlast, hcarried.response b hmem, h.requestOf (hstaged.origin hpipe),
        hcarried.request b hpipe]
    rw [hanswers, hans, List.map_append, List.flatten_append, h.responses hstaged, hout, hwire,
      hold, List.append_assoc, hresponse]
    simp

end Step

/-! ## What is known of every open session -/

/-- Where the requests of a session are, and how many bytes have come in and gone out. -/
structure Counted (t : Traced) (c : ConnId) : Prop where
  staged : Staged t c
  intake : Intake t c
  emitted : Emitted t c

section Fresh

variable {t : Traced} {c : ConnId} {n : Nat}

theorem Counted.fresh (hnew : t.hist c = .start n) (hpipe : t.srv.pipeline c = [])
    (hrecv : (t.srv.conns c).received = 0) (hbuf : (t.srv.conns c).recvbuf = none) :
    Counted t c := by
  have hsend : (t.srv.conns c).sendbuf = none := by
    simp only [ServerContext.pipeline, List.append_eq_nil_iff] at hpipe
    simpa using hpipe.1.1.1
  constructor
  · exact .fresh hnew hpipe hrecv
  · constructor <;> simp [hnew, SessionHistory.start, hbuf, incoming_idle hbuf]
  · refine ⟨fun b hb => (by cases hsend.symm.trans hb), ?_⟩
    simp [hnew, SessionHistory.start, outgoing_idle hsend]

theorem Carried.fresh (hpipe : t.srv.pipeline c = []) : Carried sha1 t c := by
  have hbehind : (t.srv.conns c).sendbuf.toList ++ (t.srv.conns c).sendQueue
      ++ t.srv.submitting c = [] :=
    (List.append_eq_nil_iff.mp hpipe).1
  constructor
  · simp [hpipe]
  · simp [hbehind]

theorem Wire.fresh (hnew : t.hist c = .start n) (hpipe : t.srv.pipeline c = []) :
    Wire sha1 t c := by
  have hsend : (t.srv.conns c).sendbuf = none := by
    simp only [ServerContext.pipeline, List.append_eq_nil_iff] at hpipe
    simpa using hpipe.1.1.1
  simp [Wire, hnew, SessionHistory.start, outgoing_idle hsend]

end Fresh

/-- **Every open session is counted** in every orderly run. -/
theorem counted_of_trace {ok : ServerContext → Action → Prop} (hok : ∀ s a, ok s a → Orderly s a)
    {t : Traced} (h : Trace cfg sha1 ok bufs t) {c : ConnId} (hin : t.srv.InSession c)
    (hcl : (t.srv.conns c).closed = false) : Counted t c := by
  refine open_invariant (P := Counted) hok ?_ ?_ h hin hcl
  · intro t c n hnew hpipe hrecv hbuf
    exact .fresh hnew hpipe hrecv hbuf
  · intro t a t' c hs _ hold
    exact ⟨staged_step hs hold.staged, intake_step hs hold.intake, emitted_step hs hold.emitted⟩

/-- The transcript of a session: its bytes, and the requests and responses on the way. -/
structure Transcript (sha1 : Sha1) (t : Traced) (c : ConnId) : Prop where
  counted : Counted t c
  carried : Carried sha1 t c
  wire : Wire sha1 t c

/-- **Every open session keeps its transcript** in every orderly run whose clock answers. -/
theorem transcript_of_trace {t : Traced}
    (h : Trace cfg sha1 (fun s a => Orderly s a ∧ clockOk a = true) bufs t) {c : ConnId}
    (hin : t.srv.InSession c) (hcl : (t.srv.conns c).closed = false) : Transcript sha1 t c := by
  refine open_invariant (P := Transcript sha1) (fun _ _ => And.left) ?_ ?_ h hin hcl
  · intro t c n hnew hpipe hrecv hbuf
    exact ⟨.fresh hnew hpipe hrecv hbuf, .fresh hpipe, .fresh hnew hpipe⟩
  · intro t a t' c hs hok ⟨hcounted, hcarried, hwire⟩
    exact ⟨⟨staged_step hs hcounted.staged, intake_step hs hcounted.intake,
        emitted_step hs hcounted.emitted⟩, carried_step hs hok.2 hcounted.staged hcarried,
      wire_step hs hcounted.staged hcounted.emitted hcarried hwire⟩

/-- Less than a whole response is out of the one in `sendbuf`. -/
theorem Emitted.outgoing_lt {t : Traced} {c : ConnId} (h : Emitted t c) :
    (t.srv.outgoing c).length < sizeofResponse := by
  cases hb : (t.srv.conns c).sendbuf with
  | none =>
    rw [outgoing_idle hb]
    decide
  | some b =>
    obtain ⟨hleft, hptr, hplace⟩ := h.sendbuf b hb
    rw [outgoing_busy hb, Bytes.length_slice]
    omega

/-- At most one request is in `recvbuf`. -/
theorem Intake.incoming_le {t : Traced} {c : ConnId} (h : Intake t c) :
    (t.srv.incoming c).length ≤ sizeofRequest := by
  cases hb : (t.srv.conns c).recvbuf with
  | none => simp [incoming_idle hb]
  | some b =>
    have hplace := h.place b hb
    rw [incoming_busy hb, Bytes.length_slice]
    omega

theorem nodup_received (t : Traced) (c : ConnId) : (received t c).Nodup :=
  List.nodup_range.map fun i j hij => by simpa using hij

/-- **Exactly-once answering.** In an open session the requests received, each one an instance of
its own, are the ones whose responses have been sent completely, and the ones in `sendbuf`, in the
send queue, at the submitter and at compute. The bytes sent are the responses to the former, each
with the id of its request and the digest of its data, and a piece of the next. With nothing on the
way, every request has been answered exactly once. -/
theorem answered_exactly_once {t : Traced}
    (h : Trace cfg sha1 (fun s a => Orderly s a ∧ clockOk a = true) bufs t) {c : ConnId}
    (hin : t.srv.InSession c) (hcl : (t.srv.conns c).closed = false) :
    ((t.hist c).answers ++ ((t.srv.conns c).sendbuf.toList ++ (t.srv.conns c).sendQueue
        ++ t.srv.submitting c ++ t.srv.computing c).map t.origin).Perm (received t c) ∧
      (received t c).Nodup ∧
      (t.hist c).requests.length = (t.srv.conns c).received ∧
      (∀ r ∈ (t.hist c).requests, r.length = sizeofRequest) ∧
      (∃ rest, (t.hist c).rx = (t.hist c).requests.flatten ++ rest ∧
        rest.length ≤ sizeofRequest) ∧
      (∃ rest, (t.hist c).wire =
          ((t.hist c).answers.map fun o => response sha1 ((t.hist c).requestOf o)).flatten ++ rest ∧
        rest.length < sizeofResponse) ∧
      ((t.srv.conns c).sendbuf = none → (t.srv.conns c).sendQueue = [] →
        t.srv.submitting c = [] → t.srv.computing c = [] →
        (t.hist c).answers.Perm (received t c)) := by
  obtain ⟨⟨hstaged, hintake, hemitted⟩, -, hwire⟩ := transcript_of_trace h hin hcl
  refine ⟨hstaged.stages, nodup_received t c, hstaged.count, hintake.framed,
    ⟨_, hintake.rx, hintake.incoming_le⟩, ⟨_, hwire, hemitted.outgoing_lt⟩, ?_⟩
  intro hsend hqueue hsub hcomp
  simpa [answeredOrWaiting, ServerContext.pipeline, hsend, hqueue, hsub, hcomp]
    using hstaged.stages

/-- The first response of `respond` goes out in two pieces. -/
def answerRun : List Action :=
  respond ++ [.responseSend 0 (.sent 10), .epollWait 0 [(5, epollOut)], .event 0, .responseTop 0,
    .responseSend 0 (.sent 14)]

theorem exists_answered : ∃ t,
    Trace smallServer zeroSha1 (fun s a => Orderly s a ∧ clockOk a = true) blankBuffers t ∧
    ((t.srv.io 0).pc = .recycle 0 false 0 ∧ (t.hist 0).answers = [some ⟨0, 1, 0⟩]) := by
  have hrun := exists_reachable_of_run answerRun
    (fun t => decide ((t.srv.io 0).pc = .recycle 0 false 0 ∧
      (t.hist 0).answers = [some ⟨0, 1, 0⟩]))
    (by decide +kernel : (run (tstep smallServer zeroSha1)
      (fun t a => Orderly t.srv a ∧ clockOk a = true)
      (.init smallServer blankBuffers) answerRun).map _ = some true)
  simpa using hrun

theorem answered_exactly_once_respond : ∃ t,
    Trace smallServer zeroSha1 (fun s a => Orderly s a ∧ clockOk a = true) blankBuffers t ∧
    (t.hist 0).answers = [some ⟨0, 1, 0⟩] ∧
    ((t.hist 0).answers ++ ((t.srv.conns 0).sendbuf.toList ++ (t.srv.conns 0).sendQueue
        ++ t.srv.submitting 0 ++ t.srv.computing 0).map t.origin).Perm (received t 0) := by
  obtain ⟨t, ht, hpc, hanswers⟩ := exists_answered
  have hinv := inv_of_trace (fun _ _ => And.left) ht
  have hop := hinv.openAt (k := 0) (c := 0) (by simp [hpc, IoPc.conn])
  exact ⟨t, ht, hanswers, (answered_exactly_once ht hop.session hop.closed).1⟩

end Piotbench.Server
