import Piotbench.Server.Digest
import Piotbench.Server.Pipeline

/-!
# The two ends of a connection

A buffer is written at the two ends of its connection and at compute, and nowhere else. What a step
does at the input end, where requests come together, is one of four things (`InputStep`), and so it
is at the output end (`OutputStep`).
-/

namespace Piotbench.Server

open Places

variable {cfg : ServerConfig} {sha1 : Sha1}

/-- Every call of `clock_gettime` succeeds. -/
def clockOk : Action → Bool
  | .computeRun _ clock => clock.all Option.isSome
  | _ => true

/-! ## Who writes a buffer -/

section Buffers

variable {s s' : ServerContext} {a : Action} {c : ConnId} {b : BufId}

/-- A buffer changes when it is put in progress, when bytes go in or out, and at compute. -/
theorem bufs_step (hs : Step cfg sha1 s a s') (b : BufId) :
    s'.bufs b = s.bufs b ∨ b ∈ s.emptyBuffers ∨
      (∃ k c input, (s.io k).pc = .response c input ∧ b ∈ (s.conns c).sendQueue ∧
        (s'.bufs b).msg = (s.bufs b).msg) ∨
      (∃ k c input n, a = .responseSend k (.sent n) ∧ (s.io k).pc = .send c input b ∧
        (s'.bufs b).msg = (s.bufs b).msg) ∨
      (∃ k c bytes, a = .requestRecv k (.data bytes) ∧ (s.io k).pc = .recv c b) ∨
      ∃ i clock msg, a = .computeRun i clock ∧ s.compute i = .got b ∧
        computeRequest sha1 cfg.load.computeDur clock (s.bufs b).msg = some msg ∧
        s'.bufs b = { s.bufs b with msg := msg } := by
  cases hs with
  | @dequeue k c input b' rest hpc _ hq =>
    by_cases hbb : b = b'
    · subst hbb
      exact .inr (.inr (.inl ⟨k, c, input, hpc, by simp [hq], by simp⟩))
    · exact .inl (by simp [hbb])
  | @sendPart k c input b' n pc' hpc | @sendLast k c input b' n hpc =>
    by_cases hbb : b = b'
    · subst hbb
      exact .inr (.inr (.inr (.inl ⟨k, c, input, n, rfl, hpc, by simp⟩)))
    · exact .inl (by simp [hbb])
  | @takeBuffer k c b' rest hpc _ _ hq =>
    by_cases hbb : b = b'
    · subst hbb
      exact .inr (.inl (by simp [hq]))
    · exact .inl (by simp [hbb])
  | @recvData k c b' bytes hpc =>
    by_cases hbb : b = b'
    · subst hbb
      exact .inr (.inr (.inr (.inr (.inl ⟨k, c, bytes, rfl, hpc⟩))))
    · exact .inl (by simp [hbb])
  | @computeRun i b' clock msg hpc hmsg =>
    by_cases hbb : b = b'
    · subst hbb
      exact .inr (.inr (.inr (.inr (.inr ⟨i, clock, msg, rfl, hpc, hmsg, by simp⟩))))
    · exact .inl (by simp [hbb])
  | _ => exact .inl rfl

/-- Behind compute nobody writes a message. -/
theorem msg_step (h : Inv cfg s) (hs : Step cfg sha1 s a s') (hcl : (s.conns c).closed = false)
    (hb : b ∈ (s.conns c).sendbuf.toList ++ (s.conns c).sendQueue ++ s.submitting c) :
    (s'.bufs b).msg = (s.bufs b).msg := by
  have hplace : ∃ p, b ∈ s.owned p ∧ p ≠ .emptyBuffers ∧ (∀ c', p ≠ .recvbuf c') ∧
      ∀ i, p ≠ .computeHand i := by
    simp only [List.mem_append, Option.mem_toList] at hb
    rcases hb with (hb | hb) | hb
    · exact ⟨.sendbuf c, mem_owned_sendbuf hcl hb, by simp, by simp, by simp⟩
    · exact ⟨.sendQueue c, hb, by simp, by simp, by simp⟩
    · obtain ⟨⟨j, hj⟩, -⟩ := h.mem_submitting.mp hb
      rcases mem_submitLine.mp hj with hj | hj
      · exact ⟨.submitterHand j, hj, by simp, by simp, by simp⟩
      · exact ⟨.submitterInbox j, hj, by simp, by simp, by simp⟩
  obtain ⟨p, hp, hempty, hrecv, hcompute⟩ := hplace
  rcases bufs_step hs b with heq | hin | ⟨_, _, _, _, _, hmsg⟩ | ⟨_, _, _, _, _, _, hmsg⟩ |
    ⟨k, c', _, _, hpc⟩ | ⟨i, _, _, _, hpc, _, _⟩
  · rw [heq]
  · exact absurd (h.owned.unique hp (q := .emptyBuffers) hin) hempty
  · exact hmsg
  · exact hmsg
  · have hop := h.openAt (k := k) (c := c') (by simp [hpc, IoPc.conn])
    exact absurd (h.owned.unique hp (mem_owned_recvbuf hop.closed (h.pcOk hpc))) (hrecv c')
  · have hin : b ∈ s.owned (.computeHand i) := by simp [ServerContext.owned, hpc, ComputePc.hand]
    exact absurd (h.owned.unique hp hin) (hcompute i)

/-- A request stays in its buffer all the way. -/
theorem requestBytes_step (h : Inv cfg s) (hs : Step cfg sha1 s a s') (hclock : clockOk a = true)
    (hcl : (s.conns c).closed = false) (hb : b ∈ s.pipeline c) :
    requestBytes (s'.bufs b).msg = requestBytes (s.bufs b).msg := by
  obtain ⟨p, hp, hempty, hrecv⟩ := h.pipeline_place hcl hb
  rcases bufs_step hs b with heq | hin | ⟨_, _, _, _, _, hmsg⟩ | ⟨_, _, _, _, _, _, hmsg⟩ |
    ⟨k, c', _, _, hpc⟩ | ⟨i, clock, msg, rfl, _, hrun, heq⟩
  · rw [heq]
  · exact absurd (h.owned.unique hp (q := .emptyBuffers) hin) hempty
  · rw [hmsg]
  · rw [hmsg]
  · have hop := h.openAt (k := k) (c := c') (by simp [hpc, IoPc.conn])
    exact absurd (h.owned.unique hp (mem_owned_recvbuf hop.closed (h.pcOk hpc))) (hrecv c')
  · rw [heq]
    exact (computeRequest_spec hclock hrun).1

/-- What arrives at the submitter comes from compute and has its response in it. -/
theorem computed_ok (hs : Step cfg sha1 s a s') (hclock : clockOk a = true)
    (hb : b ∈ computed s c a) :
    responseBytes (s'.bufs b).msg = response sha1 (requestBytes (s'.bufs b).msg) := by
  cases a <;> try exact absurd hb List.not_mem_nil
  case computeRun i clock =>
    cases hs with
    | stay ha => simp at ha
    | ioLocal hl => exact absurd hl.ioWorker (by simp [Action.ioWorker])
    | ioLock _ hio => simp at hio
    | computeRun hpc hmsg =>
      simp only [computed, hpc, ComputePc.hand, List.mem_filter, List.mem_singleton] at hb
      obtain ⟨rfl, -⟩ := hb
      have hspec := computeRequest_spec hclock hmsg
      simp [hspec.1, hspec.2]

/-- Only `Z_recv` on its own connection writes the buffer in `recvbuf`. -/
theorem bufs_recvbuf (h : Inv cfg s) (hs : Step cfg sha1 s a s')
    (hcl : (s.conns c).closed = false) (hb : (s.conns c).recvbuf = some b) :
    s'.bufs b = s.bufs b ∨
      ∃ k bytes, a = .requestRecv k (.data bytes) ∧ (s.io k).pc = .recv c b := by
  have hp := mem_owned_recvbuf hcl hb
  rcases bufs_step hs b with heq | hin | ⟨_, c', _, _, hin, _⟩ | ⟨k, c', _, _, _, hpc, _⟩ |
    ⟨k, c', bytes, rfl, hpc⟩ | ⟨i, _, _, _, hpc, _, _⟩
  · exact .inl heq
  · cases h.owned.unique hp (q := .emptyBuffers) hin
  · cases h.owned.unique hp (q := .sendQueue c') hin
  · have hop := h.openAt (k := k) (c := c') (by simp [hpc, IoPc.conn])
    cases h.owned.unique hp (mem_owned_sendbuf hop.closed (h.pcOk hpc))
  · have hop := h.openAt (k := k) (c := c') (by simp [hpc, IoPc.conn])
    cases h.owned.unique hp (mem_owned_recvbuf hop.closed (h.pcOk hpc))
    exact .inr ⟨k, bytes, rfl, hpc⟩
  · cases h.owned.unique hp (q := .computeHand i)
      (by simp [ServerContext.owned, hpc, ComputePc.hand])

/-- Only `Z_send` on its own connection moves through the buffer in `sendbuf`. -/
theorem bufs_sendbuf (h : Inv cfg s) (hs : Step cfg sha1 s a s')
    (hcl : (s.conns c).closed = false) (hb : (s.conns c).sendbuf = some b) :
    s'.bufs b = s.bufs b ∨
      ∃ k input n, a = .responseSend k (.sent n) ∧ (s.io k).pc = .send c input b := by
  have hp := mem_owned_sendbuf hcl hb
  rcases bufs_step hs b with heq | hin | ⟨_, c', _, _, hin, _⟩ | ⟨k, c', input, n, rfl, hpc, _⟩ |
    ⟨k, c', _, _, hpc⟩ | ⟨i, _, _, _, hpc, _, _⟩
  · exact .inl heq
  · cases h.owned.unique hp (q := .emptyBuffers) hin
  · cases h.owned.unique hp (q := .sendQueue c') hin
  · have hop := h.openAt (k := k) (c := c') (by simp [hpc, IoPc.conn])
    cases h.owned.unique hp (mem_owned_sendbuf hop.closed (h.pcOk hpc))
    exact .inr ⟨k, input, n, rfl, hpc⟩
  · have hop := h.openAt (k := k) (c := c') (by simp [hpc, IoPc.conn])
    cases h.owned.unique hp (mem_owned_recvbuf hop.closed (h.pcOk hpc))
  · cases h.owned.unique hp (q := .computeHand i)
      (by simp [ServerContext.owned, hpc, ComputePc.hand])

/-! ## The two ends of a connection -/

/-- What a step does at the input end of an open connection. -/
inductive InputStep (s s' : ServerContext) (c : ConnId) (a : Action) : Prop
  | quiet (hbytes : bytesIn s c a = []) (hdel : delivered s c a = [])
      (hrecv : (s'.conns c).recvbuf = (s.conns c).recvbuf)
      (hbuf : ∀ b, (s.conns c).recvbuf = some b → s'.bufs b = s.bufs b)
  | take {b : BufId} (hbytes : bytesIn s c a = []) (hdel : delivered s c a = [])
      (hrecv : (s.conns c).recvbuf = none) (hrecv' : (s'.conns c).recvbuf = some b)
      (hbuf : (s'.bufs b).left = sizeofRequest ∧ (s'.bufs b).ptr = 0)
  | data {b : BufId} {bytes : List Byte} (hbytes : bytesIn s c a = bytes)
      (hdel : delivered s c a = []) (hrecv : (s.conns c).recvbuf = some b)
      (hrecv' : (s'.conns c).recvbuf = some b) (hlen : bytes.length ≤ (s.bufs b).left)
      (hbuf : s'.bufs b =
        { s.bufs b with
          msg := Bytes.blit (s.bufs b).msg (s.bufs b).ptr bytes
          left := (s.bufs b).left - bytes.length
          ptr := (s.bufs b).ptr + bytes.length })
  | deliver {b : BufId} (hbytes : bytesIn s c a = []) (hdel : delivered s c a = [b])
      (hrecv : (s.conns c).recvbuf = some b) (hrecv' : (s'.conns c).recvbuf = none)
      (hleft : (s.bufs b).left = 0)

/-- What a step does at the output end of an open connection. -/
inductive OutputStep (s s' : ServerContext) (c : ConnId) (a : Action) : Prop
  | quiet (hbytes : bytesOut s c a = []) (hans : answered s c a = [])
      (hsend : (s'.conns c).sendbuf = (s.conns c).sendbuf)
      (hbuf : ∀ b, (s.conns c).sendbuf = some b → s'.bufs b = s.bufs b)
  | take {b : BufId} (hbytes : bytesOut s c a = []) (hans : answered s c a = [])
      (hsend : (s.conns c).sendbuf = none) (hsend' : (s'.conns c).sendbuf = some b)
      (hbuf : (s'.bufs b).left = sizeofResponse ∧ (s'.bufs b).ptr = resOffset)
  | part {b : BufId} {n : Nat}
      (hbytes : bytesOut s c a = Bytes.slice (s.bufs b).msg (s.bufs b).ptr n)
      (hans : answered s c a = []) (hsend : (s.conns c).sendbuf = some b)
      (hsend' : (s'.conns c).sendbuf = some b) (hn : n < (s.bufs b).left)
      (hbuf : s'.bufs b =
        { s.bufs b with left := (s.bufs b).left - n, ptr := (s.bufs b).ptr + n })
  | last {b : BufId}
      (hbytes : bytesOut s c a = Bytes.slice (s.bufs b).msg (s.bufs b).ptr (s.bufs b).left)
      (hans : answered s c a = [b]) (hsend : (s.conns c).sendbuf = some b)
      (hsend' : (s'.conns c).sendbuf = none)

theorem IoMove.noBytes {k : Nat} {c c' : ConnId} {a : Action} {pc pc' : IoPc}
    (h : IoMove cfg s k c pc a pc') : bytesIn s c' a = [] ∧ bytesOut s c' a = [] := by
  cases h <;> exact ⟨rfl, rfl⟩

theorem IoLocal.noBytes {k : Nat} {c : ConnId} {a : Action} {w : IoWorker}
    (h : IoLocal cfg s k a w) : bytesIn s c a = [] ∧ bytesOut s c a = [] := by
  cases h with
  | fail | dispatch => exact ⟨rfl, rfl⟩
  | move hm => exact hm.noBytes

theorem input_cases (h : Inv cfg s) (hs : Step cfg sha1 s a s') (hin : s.InSession c)
    (hcl : (s'.conns c).closed = false) : InputStep s s' c a := by
  have hcl₀ := open_before hs hin hcl
  have hbuf : (∀ k bytes, a ≠ .requestRecv k (.data bytes)) → ∀ b,
      (s.conns c).recvbuf = some b → s'.bufs b = s.bufs b := by
    intro hno b hb
    rcases bufs_recvbuf h hs hcl₀ hb with heq | ⟨k, bytes, ha, -⟩
    · exact heq
    · exact absurd ha (hno k bytes)
  cases hs with
  | stay ha =>
    rcases ha with ⟨_, rfl⟩ | ⟨_, rfl⟩ | ⟨_, rfl⟩ <;> exact .quiet rfl rfl rfl (fun _ _ => rfl)
  | ioLocal hl => exact .quiet hl.noBytes.1 hl.quiet.1 rfl (fun _ _ => rfl)
  | @ioLock k c' a pc' _ hio =>
    have hquiet : bytesIn s c a = [] ∧ delivered s c a = [] := by
      rcases ioLock_action hio with rfl | rfl | rfl <;> exact ⟨rfl, rfl⟩
    exact .quiet hquiet.1 hquiet.2 (field_update (·.recvbuf) rfl) (fun _ _ => rfl)
  | @accepted w c' fd ok hpc =>
    have hne : c ≠ c' := (hin.ne (mem_parked_took hpc)).symm
    exact .quiet rfl rfl (by simp [hne]) (hbuf (by simp))
  | @takeBuffer k c' b rest hpc hb =>
    by_cases hcc : c = c'
    · subst hcc
      exact .take (b := b) rfl rfl hb (by simp) (by simp)
    · exact .quiet rfl rfl (by simp [hcc]) (hbuf (by simp))
  | @recvData k c' b bytes hpc _ _ hlen =>
    by_cases hcc : c = c'
    · subst hcc
      have hb : (s.conns c).recvbuf = some b := h.pcOk hpc
      exact .data (by simp [bytesIn, hpc]) rfl hb hb hlen (by simp)
    · refine .quiet (by simp [bytesIn, hpc, Ne.symm hcc]) rfl rfl fun b' hb' => ?_
      have hop := h.openAt (k := k) (c := c') (by simp [hpc, IoPc.conn])
      have hbb : b' ≠ b := h.owned.ne (mem_owned_recvbuf hcl₀ hb')
        (mem_owned_recvbuf hop.closed (h.pcOk hpc)) (by simpa using hcc)
      simp [hbb]
  | @deliver k c' b hpc =>
    by_cases hcc : c = c'
    · subst hcc
      have hb : (s.conns c).recvbuf = some b ∧ (s.bufs b).left = 0 := h.pcOk hpc
      exact .deliver rfl (by simp [delivered, hpc]) hb.1 (by simp) hb.2
    · exact .quiet rfl (by simp [delivered, hpc, Ne.symm hcc]) (by simp [hcc]) (hbuf (by simp))
  | dequeue | sendLast | settleKeep | settleDisarm | finishRelease | finishDelegate
  | submitLock | dispose | enqueue =>
    exact .quiet rfl rfl (field_update (·.recvbuf) rfl) (hbuf (by simp))
  | _ => exact .quiet rfl rfl rfl (hbuf (by simp))

theorem output_cases (h : Inv cfg s) (hs : Step cfg sha1 s a s') (hin : s.InSession c)
    (hcl : (s'.conns c).closed = false) : OutputStep s s' c a := by
  have hcl₀ := open_before hs hin hcl
  have hbuf : (∀ k n, a ≠ .responseSend k (.sent n)) → ∀ b,
      (s.conns c).sendbuf = some b → s'.bufs b = s.bufs b := by
    intro hno b hb
    rcases bufs_sendbuf h hs hcl₀ hb with heq | ⟨k, input, n, ha, -⟩
    · exact heq
    · exact absurd ha (hno k n)
  -- a send on another connection does not touch this one's buffer
  have hother : ∀ {k c' input b}, (s.io k).pc = .send c' input b → c ≠ c' →
      ∀ b', (s.conns c).sendbuf = some b' → b' ≠ b := by
    intro k c' input b hpc hcc b' hb'
    have hop := h.openAt (k := k) (c := c') (by simp [hpc, IoPc.conn])
    exact h.owned.ne (mem_owned_sendbuf hcl₀ hb') (mem_owned_sendbuf hop.closed (h.pcOk hpc))
      (by simpa using hcc)
  cases hs with
  | stay ha =>
    rcases ha with ⟨_, rfl⟩ | ⟨_, rfl⟩ | ⟨_, rfl⟩ <;> exact .quiet rfl rfl rfl (fun _ _ => rfl)
  | ioLocal hl => exact .quiet hl.noBytes.2 hl.answered rfl (fun _ _ => rfl)
  | @ioLock k c' a pc' _ hio =>
    have hquiet : bytesOut s c a = [] ∧ answered s c a = [] := by
      rcases ioLock_action hio with rfl | rfl | rfl <;> exact ⟨rfl, rfl⟩
    exact .quiet hquiet.1 hquiet.2 (field_update (·.sendbuf) rfl) (fun _ _ => rfl)
  | @accepted w c' fd ok hpc =>
    have hne : c ≠ c' := (hin.ne (mem_parked_took hpc)).symm
    exact .quiet rfl rfl (by simp [hne]) (hbuf (by simp))
  | @dequeue k c' input b rest hpc hb hq =>
    by_cases hcc : c = c'
    · subst hcc
      exact .take (b := b) rfl rfl hb (by simp) (by simp)
    · exact .quiet rfl rfl (by simp [hcc]) (hbuf (by simp))
  | @sendPart k c' input b n pc' hpc _ hn _ hpart =>
    have hne : n ≠ (s.bufs b).left := by omega
    by_cases hcc : c = c'
    · subst hcc
      have hb : (s.conns c).sendbuf = some b := h.pcOk hpc
      exact .part (n := n) (by simp [bytesOut, hpc]) (by simp [answered, hpc, hne]) hb hb
        (by omega) (by simp)
    · refine .quiet (by simp [bytesOut, hpc, Ne.symm hcc]) (by simp [answered, hpc, hne]) rfl
        fun b' hb' => ?_
      simp [hother hpc hcc b' hb']
  | @sendLast k c' input b n hpc _ hn =>
    by_cases hcc : c = c'
    · subst hcc
      have hb : (s.conns c).sendbuf = some b := h.pcOk hpc
      exact .last (by simp [bytesOut, hpc, hn]) (by simp [answered, hpc, hn]) hb (by simp)
    · refine .quiet (by simp [bytesOut, hpc, Ne.symm hcc]) (by simp [answered, hpc, Ne.symm hcc])
        (by simp [hcc]) fun b' hb' => ?_
      simp [hother hpc hcc b' hb']
  | takeBuffer | deliver | settleKeep | settleDisarm | finishRelease | finishDelegate
  | submitLock | dispose | enqueue =>
    exact .quiet rfl rfl (field_update (·.sendbuf) rfl) (hbuf (by simp))
  | _ => exact .quiet rfl rfl rfl (hbuf (by simp))

end Buffers

end Piotbench.Server
