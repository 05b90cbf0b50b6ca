import Piotbench.Server.Reuse

/-!
# No access behind a message

A buffer holds one `struct message_t`. `handle_request` lets `Z_recv` write `left` bytes at `ptr` at
most, and `handle_response` lets `Z_send` read as many; `compute_request` writes the response. In
every orderly run all this stays inside the message (`transfers_in_bounds`): wherever a transfer
stops, what a worker finds in `left` and `ptr` when it goes on has been set for this transfer.
-/

namespace Piotbench.Server

open Transition

variable {cfg : ServerConfig} {sha1 : Sha1} {bufs : BufId → ServerBuffer}
  {s s' : ServerContext} {a : Action}

/-- `sizeof (struct message_t)`. -/
def sizeofMessage : Nat := sizeofRequest + sizeofResponse

/-- What is left of the transfer of a buffer is inside its message. -/
def ServerBuffer.InBounds (b : ServerBuffer) : Prop := b.ptr + b.left ≤ sizeofMessage

/-- The buffer that an IO worker passes to `Z_recv` or `Z_send`. -/
def IoPc.transfers : IoPc → Option BufId
  | .send _ _ b | .recv _ b => some b
  | .wait | .response _ _ | .recycle _ _ _ | .lockResponse _ _ | .settle _ _ | .request _
  | .lockRequest _ _ | .deliver _ _ | .finish _ _ | .teardown _ _ | .exited => none

/-- A worker transfers the buffer, or would go on to when it comes back to its connection. -/
inductive ServerContext.InTransfer (s : ServerContext) (b : BufId) : Prop
  | worker {k : Nat} (hpc : (s.io k).pc.transfers = some b)
  | recvbuf {c : ConnId} (hb : (s.conns c).recvbuf = some b)
  | sendbuf {c : ConnId} (hb : (s.conns c).sendbuf = some b)

/-! ## `ptr` and `left` -/

/-- A part of a transfer moves its end nowhere. -/
theorem ServerBuffer.InBounds.advance {b : ServerBuffer} {n : Nat} (h : b.InBounds)
    (hn : n ≤ b.left) : b.ptr + n + (b.left - n) ≤ sizeofMessage := by
  unfold ServerBuffer.InBounds at h
  omega

/-- `handle_request` takes a new buffer. -/
theorem request_inBounds (msg : Nat → Byte) (c : ConnId) :
    ServerBuffer.InBounds ⟨msg, c, sizeofRequest, 0⟩ := by
  show 0 + sizeofRequest ≤ sizeofRequest + sizeofResponse
  omega

/-- `handle_response` takes the next response. -/
theorem response_inBounds (msg : Nat → Byte) (c : ConnId) :
    ServerBuffer.InBounds ⟨msg, c, sizeofResponse, resOffset⟩ :=
  Nat.le_refl sizeofMessage

theorem inBounds_update {b b' : BufId} {buff : ServerBuffer} (hb : (s.bufs b).InBounds)
    (hbuff : (s.bufs b').InBounds → buff.InBounds) :
    (Function.update s.bufs b' buff b).InBounds := by
  by_cases hbb : b = b'
  · subst hbb
    rw [Function.update_self]
    exact hbuff hb
  · rwa [Function.update_of_ne hbb]

/-- **One step takes no buffer out of bounds.** -/
theorem inBounds_step {b : BufId} (hs : Step cfg sha1 s a s') (hb : (s.bufs b).InBounds) :
    (s'.bufs b).InBounds := by
  cases hs with
  | dequeue => exact inBounds_update hb fun _ => response_inBounds _ _
  | takeBuffer => exact inBounds_update hb fun _ => request_inBounds _ _
  | sendPart _ _ hn => exact inBounds_update hb fun h => h.advance hn
  | sendLast _ _ hn => exact inBounds_update hb fun h => h.advance (Nat.le_of_eq hn)
  | recvData _ _ _ hlen => exact inBounds_update hb fun h => h.advance hlen
  | computeRun => exact inBounds_update hb id
  | _ => exact hb

@[simp] theorem transfers_afterResponse (c : ConnId) (input : Bool) :
    (IoPc.afterResponse c input).transfers = none := by
  cases input <;> rfl

@[simp] theorem transfers_dispatch (c : ConnId) (events : EpollMask) :
    (IoPc.dispatch c events).transfers = none := by
  unfold IoPc.dispatch
  repeat' split
  all_goals rfl

/-- A worker that begins a transfer goes on with the buffer of its connection. -/
theorem IoLocal.transfers {k : Nat} {w : IoWorker} {b : BufId} (h : IoLocal cfg s k a w)
    (hpc : w.pc.transfers = some b) : s.InTransfer b := by
  cases h with
  | fail => cases hpc
  | dispatch => simp at hpc
  | move hm =>
    generalize (s.io k).pc = pc at hm
    cases hm with
    | resumeResponse hb =>
      cases hpc
      exact .sendbuf hb
    | resumeRequest hb =>
      cases hpc
      exact .recvbuf hb
    | noResponse | sendAgain | finishRefused => simp at hpc
    | _ => cases hpc

/-- A connection has had its `recvbuf` before the step, or gets it from `empty_buffers`. -/
theorem recvbuf_back {c : ConnId} {b : BufId} (hs : Step cfg sha1 s a s')
    (hb : (s'.conns c).recvbuf = some b) :
    (s.conns c).recvbuf = some b ∨ (s'.bufs b).InBounds := by
  cases hs with
  | @accepted w c' | @deliver k c' =>
    left
    by_cases hcc : c = c'
    · subst hcc
      simp [acceptedConnection] at hb
    · simpa [hcc] using hb
  | @takeBuffer k c' b' =>
    by_cases hcc : c = c'
    · subst hcc
      right
      simp only [goto_conns, Function.update_self, Option.some.injEq] at hb
      subst hb
      simp only [goto_bufs, Function.update_self]
      exact request_inBounds _ _
    · left
      simpa [hcc] using hb
  | ioLock | dequeue | sendLast | settleKeep | settleDisarm | finishRelease | finishDelegate
  | submitLock | dispose | enqueue =>
    left
    rw [← hb]
    symm
    apply field_update (·.recvbuf)
    rfl
  | _ => exact .inl hb

/-- A connection has had its `sendbuf` before the step, or gets it from its send queue. -/
theorem sendbuf_back {c : ConnId} {b : BufId} (hs : Step cfg sha1 s a s')
    (hb : (s'.conns c).sendbuf = some b) :
    (s.conns c).sendbuf = some b ∨ (s'.bufs b).InBounds := by
  cases hs with
  | @sendLast k c' =>
    left
    by_cases hcc : c = c'
    · subst hcc
      simp at hb
    · simpa [hcc] using hb
  | @dequeue k c' input b' =>
    by_cases hcc : c = c'
    · subst hcc
      right
      simp only [goto_conns, Function.update_self, Option.some.injEq] at hb
      subst hb
      simp only [goto_bufs, Function.update_self]
      exact response_inBounds _ _
    · left
      simpa [hcc] using hb
  | ioLock | accepted | deliver | takeBuffer | settleKeep | settleDisarm | finishRelease
  | finishDelegate | submitLock | dispose | enqueue =>
    left
    rw [← hb]
    symm
    apply field_update (·.sendbuf)
    rfl
  | _ => exact .inl hb

/-- A worker has had its buffer before the step, or has it from a connection. -/
theorem transfers_back {k : Nat} {b : BufId} (hs : Step cfg sha1 s a s')
    (hpc : (s'.io k).pc.transfers = some b) : s.InTransfer b ∨ (s'.bufs b).InBounds := by
  -- a worker that ends up without a buffer is not the one meant
  have hother : ∀ {k' w}, (Function.update s.io k' w k).pc.transfers = some b →
      w.pc.transfers = none → s.InTransfer b := by
    intro k' w hpc hw
    by_cases hk : k = k'
    · subst hk
      rw [Function.update_self, hw] at hpc
      cases hpc
    · rw [Function.update_of_ne hk] at hpc
      exact .worker hpc
  cases hs with
  | @ioLocal k' a w hl =>
    left
    by_cases hk : k = k'
    · subst hk
      simp only [Function.update_self] at hpc
      exact hl.transfers hpc
    · simp only [Function.update_of_ne hk] at hpc
      exact .worker hpc
  | @dequeue k' c input b' | @takeBuffer k' c b' =>
    by_cases hk : k = k'
    · subst hk
      right
      simp only [goto_io, Function.update_self, IoPc.transfers, Option.some.injEq] at hpc
      subst hpc
      simp only [goto_bufs, Function.update_self]
      first | exact response_inBounds _ _ | exact request_inBounds _ _
    · left
      simp only [goto_io, Function.update_of_ne hk] at hpc
      exact .worker hpc
  | ioLock _ hio =>
    left
    rcases hio with ⟨_, _, rfl, _⟩ | ⟨_, _, rfl, _⟩ | ⟨_, _, rfl, _⟩ <;> exact hother hpc rfl
  | sendPart _ _ _ hpc' =>
    left
    rcases hpc' with rfl | rfl
    · exact hother hpc (transfers_afterResponse _ _)
    · exact hother hpc rfl
  | @settleDisarm _ _ _ _ _ _ _ err =>
    left
    cases err <;> exact hother hpc rfl
  | recvData =>
    left
    apply hother hpc
    dsimp only
    split <;> rfl
  | finishRelease | finishDelegate => exact .inl (hother hpc (transfers_afterResponse _ _))
  | epollWait | sendLast | recycle | settleKeep | deliver => exact .inl (hother hpc rfl)
  | _ => exact .inl (.worker hpc)

/-- **One step leaves every transfer in bounds.** -/
theorem inTransfer_step (hs : Step cfg sha1 s a s')
    (hold : ∀ b, s.InTransfer b → (s.bufs b).InBounds) {b : BufId} (hb : s'.InTransfer b) :
    (s'.bufs b).InBounds := by
  have hback : s.InTransfer b ∨ (s'.bufs b).InBounds := by
    cases hb with
    | worker hpc => exact transfers_back hs hpc
    | recvbuf hb => exact (recvbuf_back hs hb).imp_left .recvbuf
    | sendbuf hb => exact (sendbuf_back hs hb).imp_left .sendbuf
  rcases hback with htransfer | hnew
  · exact inBounds_step hs (hold b htransfer)
  · exact hnew

/-! ## What is written -/

/-- `compute_request` writes the response and nothing else. -/
theorem computeLoop_behind {nsec : Nat} {start : UInt64} {clock : List (Option UInt64)}
    {msg msg' : Nat → Byte} {i : Nat} (hi : sizeofMessage ≤ i)
    (h : computeLoop sha1 nsec start clock msg = some msg') : msg' i = msg i := by
  have hsha : ∀ msg, writeSha sha1 msg i = msg i := by
    intro msg
    apply Bytes.blit_outside
    right
    rw [List.Vector.toList_length]
    exact hi
  have hid : ∀ msg : Nat → Byte, writeId msg i = msg i := by
    intro msg
    apply Bytes.blit_outside
    right
    rw [Bytes.length_slice]
    simp only [sizeofMessage, sizeofResponse] at hi
    simp only [resOffset]
    omega
  induction clock generalizing msg with
  | nil => cases h
  | cons now clock ih =>
    cases now with
    | none =>
      cases h
      exact hsha msg
    | some cur =>
      simp only [computeLoop] at h
      split at h
      · cases h
        exact (hid _).trans (hsha msg)
      · exact (ih h).trans (hsha msg)

theorem computeRequest_behind {nsec : Nat} {clock : List (Option UInt64)} {msg msg' : Nat → Byte}
    {i : Nat} (hi : sizeofMessage ≤ i) (h : computeRequest sha1 nsec clock msg = some msg') :
    msg' i = msg i := by
  cases clock with
  | nil => cases h
  | cons start clock =>
    cases start with
    | none =>
      cases h
      rfl
    | some start => exact computeLoop_behind hi h

/-- Behind its message a buffer is what it was, when the message is all that is written. -/
theorem msg_update {b b' : BufId} {buff : ServerBuffer} {i : Nat}
    (h : buff.msg i = (s.bufs b').msg i) :
    (Function.update s.bufs b' buff b).msg i = (s.bufs b).msg i := by
  by_cases hbb : b = b'
  · subst hbb
    rwa [Function.update_self]
  · rw [Function.update_of_ne hbb]

/-- **One step writes nothing behind a message.** -/
theorem behind_step (hs : Step cfg sha1 s a s')
    (hold : ∀ b, s.InTransfer b → (s.bufs b).InBounds) {i : Nat} (hi : sizeofMessage ≤ i)
    (b : BufId) : (s'.bufs b).msg i = (s.bufs b).msg i := by
  cases hs with
  | @recvData k c b' bytes hpc _ _ hlen =>
    have hin : (s.bufs b').InBounds := hold b' (.worker (k := k) (by rw [hpc]; rfl))
    unfold ServerBuffer.InBounds at hin
    refine msg_update (Bytes.blit_outside _ (.inr ?_))
    omega
  | computeRun _ hmsg => exact msg_update (computeRequest_behind hi hmsg)
  | dequeue | takeBuffer | sendPart | sendLast => exact msg_update rfl
  | _ => rfl

/-! ## Runs -/

theorem inTransfer_of_run (h : Run cfg sha1 Orderly bufs s) {b : BufId} (hb : s.InTransfer b) :
    (s.bufs b).InBounds := by
  refine h.invariant (I := fun s => ∀ b, s.InTransfer b → (s.bufs b).InBounds) ?_ ?_ b hb
  · rintro b (hpc | hb | hb)
    · cases hpc
    · cases hb
    · cases hb
  · intro s a s' _ hI _ hstep b hb
    exact inTransfer_step (step_cases hstep) hI hb

/-- **No access behind a message.** In every orderly run of the server, whatever `Z_recv`, `Z_send`
and `epoll_ctl` do, what a worker may still receive into or send from its buffer lies inside the
message; and no buffer has been written to behind its message. -/
theorem transfers_in_bounds (h : Run cfg sha1 Orderly bufs s) :
    (∀ k b, (s.io k).pc.transfers = some b →
      (s.bufs b).ptr + (s.bufs b).left ≤ sizeofMessage) ∧
    ∀ b i, sizeofMessage ≤ i → (s.bufs b).msg i = (bufs b).msg i := by
  constructor
  · intro k b hpc
    exact inTransfer_of_run h (.worker hpc)
  · intro b i hi
    apply h.invariant (I := fun s => (s.bufs b).msg i = (bufs b).msg i) rfl
    intro s a s' hr hI _ hstep
    exact (behind_step (step_cases hstep) (fun _ => inTransfer_of_run hr) hi b).trans hI

/-- A request comes in two parts, and a worker is about to receive the second one. -/
def partRun : List Action :=
  connect ++ [.requestTop 0, .requestRecv 0 (.data (List.replicate 1000 1)), .requestTop 0]

theorem transfers_in_bounds_part : ∃ s, Run smallServer zeroSha1 Orderly blankBuffers s ∧
    (s.io 0).pc.transfers = some 0 ∧ (s.bufs 0).ptr = 1000 ∧
    (s.bufs 0).ptr + (s.bufs 0).left ≤ sizeofMessage := by
  have hrun := exists_reachable_of_run partRun
    (fun s => decide ((s.io 0).pc.transfers = some 0 ∧ (s.bufs 0).ptr = 1000))
    (by decide +kernel : (run (step smallServer zeroSha1) Orderly
      (.init smallServer blankBuffers) partRun).map _ = some true)
  obtain ⟨s, hs, hq⟩ := hrun
  obtain ⟨htransfers, hptr⟩ := of_decide_eq_true hq
  exact ⟨s, hs, htransfers, hptr, (transfers_in_bounds hs).1 0 0 htransfers⟩

end Piotbench.Server
