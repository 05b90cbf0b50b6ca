import Piotbench.Server.Invariant

/-!
# Buffers are owned once

Every step moves at most one buffer from one place to another, or, in `finish_connection`, empties
three places of one connection into `empty_buffers`. Each such step is one equation between
`owned` before and after; `Places` does the rest.
-/

namespace Piotbench.Server

open Places

variable {cfg : ServerConfig} {sha1 : Sha1} {s s' : ServerContext}

/-! ## Moves that concern no buffer -/

@[simp] theorem hand_afterResponse (c : ConnId) (input : Bool) :
    (IoPc.afterResponse c input).hand = [] := by
  cases input <;> rfl

@[simp] theorem hand_dispatch (c : ConnId) (events : EpollMask) :
    (IoPc.dispatch c events).hand = [] := by
  unfold IoPc.dispatch
  repeat' split
  all_goals rfl

theorem IoMove.hand {k : Nat} {c : ConnId} {a : Action} {pc pc' : IoPc}
    (h : IoMove cfg s k c pc a pc') : pc'.hand = pc.hand := by
  cases h <;> first | rfl | exact hand_afterResponse _ _

theorem IoLocal.hand {k : Nat} {a : Action} {w : IoWorker} (h : IoLocal cfg s k a w) :
    w.pc.hand = (s.io k).pc.hand := by
  cases h with
  | fail hw => rw [hw]; rfl
  | dispatch hw => rw [hw]; exact hand_dispatch _ _
  | move hm => exact hm.hand

/-- The places of a connection only depend on these of its fields. -/
structure SameBuffers (conn conn' : ServerConnection) : Prop where
  closed : conn'.closed = conn.closed
  recvbuf : conn'.recvbuf = conn.recvbuf
  sendbuf : conn'.sendbuf = conn.sendbuf
  sendQueue : conn'.sendQueue = conn.sendQueue

theorem SameBuffers.refl (conn : ServerConnection) : SameBuffers conn conn := ⟨rfl, rfl, rfl, rfl⟩

/-- Nothing that owns a buffer differs. -/
structure SameOwners (s s' : ServerContext) : Prop where
  emptyBuffers : s'.emptyBuffers = s.emptyBuffers
  computeInbox : s'.computeInbox = s.computeInbox
  submitterInbox : s'.submitterInbox = s.submitterInbox
  conns : ∀ c, SameBuffers (s.conns c) (s'.conns c)
  compute : ∀ i, (s'.compute i).hand = (s.compute i).hand
  submit : ∀ j, (s'.submit j).hand = (s.submit j).hand
  io : ∀ k, (s'.io k).pc.hand = (s.io k).pc.hand

theorem SameOwners.owned (h : SameOwners s s') : s'.owned = s.owned := by
  funext p
  cases p with
  | emptyBuffers => exact h.emptyBuffers
  | computeInbox i => exact congrFun h.computeInbox i
  | submitterInbox j => exact congrFun h.submitterInbox j
  | computeHand i => exact h.compute i
  | submitterHand j => exact h.submit j
  | ioHand k => exact h.io k
  | recvbuf c => simp only [ServerContext.owned, (h.conns c).closed, (h.conns c).recvbuf]
  | sendbuf c => simp only [ServerContext.owned, (h.conns c).closed, (h.conns c).sendbuf]
  | sendQueue c => exact (h.conns c).sendQueue

theorem SameOwners.partition {U : BufId → Prop} (hp : Partition U s.owned)
    (h : SameOwners s s') : Partition U s'.owned :=
  h.owned ▸ hp

theorem sameBuffers_update {c : ConnId} {conn : ServerConnection}
    (h : SameBuffers (s.conns c) conn) (c' : ConnId) :
    SameBuffers (s.conns c') (Function.update s.conns c conn c') := by
  by_cases hc : c' = c
  · subst hc; simpa using h
  · simpa [hc] using SameBuffers.refl _

theorem ioHand_update {k : Nat} {w : IoWorker} (h : w.pc.hand = (s.io k).pc.hand) (k' : Nat) :
    (Function.update s.io k w k').pc.hand = (s.io k').pc.hand := by
  by_cases hk : k' = k
  · subst hk; simpa using h
  · simp [hk]

theorem submitHand_update {j : Nat} {pc : SubmitPc} (h : pc.hand = (s.submit j).hand) (j' : Nat) :
    (Function.update s.submit j pc j').hand = (s.submit j').hand := by
  by_cases hj : j' = j
  · subst hj; simpa using h
  · simp [hj]

theorem owned_goto {k : Nat} {pc : IoPc} (h : pc.hand = (s.io k).pc.hand) :
    (s.goto k pc).owned = s.owned :=
  SameOwners.owned ⟨rfl, rfl, rfl, fun _ => .refl _, fun _ => rfl, fun _ => rfl,
    ioHand_update (w := { s.io k with pc := pc }) h⟩

/-! ## The equations of the steps -/

section Equations

variable {k : Nat} {c : ConnId} {b : BufId} {input : Bool}

theorem owned_dequeue {rest : List BufId} (hpc : (s.io k).pc = .response c input)
    (hcl : (s.conns c).closed = false) (hb : (s.conns c).sendbuf = none)
    (hq : (s.conns c).sendQueue = b :: rest) :
    ({ s with
      bufs := Function.update s.bufs b
        { s.bufs b with conn := c, left := sizeofResponse, ptr := resOffset }
      conns := Function.update s.conns c
        { s.conns c with sendQueue := rest, sendbuf := some b } }.goto k (.send c input b)).owned
      = move s.owned b (.sendQueue c) (.sendbuf c) := by
  rw [owned_goto (by simp [hpc, IoPc.hand])]
  funext p
  cases p <;> simp [ServerContext.owned, move, Function.update_apply] <;> grind

theorem owned_sendLast {n : Nat} (hpc : (s.io k).pc = .send c input b)
    (hcl : (s.conns c).closed = false) (hb : (s.conns c).sendbuf = some b) :
    ({ s with
      bufs := Function.update s.bufs b
        { s.bufs b with left := (s.bufs b).left - n, ptr := (s.bufs b).ptr + n }
      conns := Function.update s.conns c
        { s.conns c with sent := (s.conns c).sent + 1, sendbuf := none } }.goto k
      (.recycle c input b)).owned
      = move s.owned b (.sendbuf c) (.ioHand k) := by
  funext p
  cases p <;> simp [ServerContext.owned, move, Function.update_apply] <;> grind [IoPc.hand]

theorem owned_recycle (hpc : (s.io k).pc = .recycle c input b) :
    ({ s with emptyBuffers := s.emptyBuffers ++ [b] }.goto k (.lockResponse c input)).owned
      = move s.owned b (.ioHand k) .emptyBuffers := by
  funext p
  cases p <;> simp [ServerContext.owned, move, Function.update_apply] <;> grind [IoPc.hand]

theorem owned_takeBuffer {rest : List BufId} (hpc : (s.io k).pc = .request c)
    (hcl : (s.conns c).closed = false) (hb : (s.conns c).recvbuf = none)
    (hq : s.emptyBuffers = b :: rest) :
    ({ s with
      emptyBuffers := rest
      bufs := Function.update s.bufs b
        { s.bufs b with conn := c, left := sizeofRequest, ptr := 0 }
      conns := Function.update s.conns c { s.conns c with recvbuf := some b } }.goto k
      (.recv c b)).owned
      = move s.owned b .emptyBuffers (.recvbuf c) := by
  rw [owned_goto (by simp [hpc, IoPc.hand])]
  funext p
  cases p <;> simp [ServerContext.owned, move, Function.update_apply] <;> grind

theorem owned_deliver (hpc : (s.io k).pc = .deliver c b) (hcl : (s.conns c).closed = false)
    (hb : (s.conns c).recvbuf = some b) :
    ({ s with
      conns := Function.update s.conns c
        { s.conns c with
          received := (s.conns c).received + 1, recvbuf := none, lock := false }
      computeInbox := Function.update s.computeInbox (s.conns c).computeidx
        (s.computeInbox (s.conns c).computeidx ++ [b]) }.goto k (.request c)).owned
      = move s.owned b (.recvbuf c) (.computeInbox (s.conns c).computeidx) := by
  rw [owned_goto (by simp [hpc, IoPc.hand])]
  funext p
  cases p <;> simp [ServerContext.owned, move, Function.update_apply] <;> grind

/-- `finish_connection` empties the three places of its connection. -/
theorem owned_finish {pc : IoPc} {kern : Kernel} {conns : List ConnId}
    {conn : ServerConnection} (hpc : (s.io k).pc = .teardown c input) (hpc' : pc.hand = [])
    (hcl : (s.conns c).closed = false) (hcl' : conn.closed = true) (hq' : conn.sendQueue = []) :
    ({ s with
      emptyBuffers := s.emptyBuffers ++ (s.conns c).sendbuf.toList
        ++ (s.conns c).recvbuf.toList ++ (s.conns c).sendQueue
      kernel := kern
      emptyConnections := conns
      conns := Function.update s.conns c conn }.goto k pc).owned
      = moveAll (moveAll (moveAll s.owned (.sendbuf c) .emptyBuffers) (.recvbuf c) .emptyBuffers)
          (.sendQueue c) .emptyBuffers := by
  rw [owned_goto (by rw [hpc']; simp [hpc, IoPc.hand])]
  funext p
  cases p <;> simp [ServerContext.owned, moveAll, Function.update_apply] <;> grind

end Equations

section Equations

variable {b : BufId} {c : ConnId}

theorem owned_computeGet {i : Nat} {rest : List BufId} (hpc : s.compute i = .idle)
    (hq : s.computeInbox i = b :: rest) :
    { s with
      computeInbox := Function.update s.computeInbox i rest
      compute := Function.update s.compute i (.got b) }.owned
      = move s.owned b (.computeInbox i) (.computeHand i) := by
  funext p
  cases p <;> simp [ServerContext.owned, move, Function.update_apply] <;> grind [ComputePc.hand]

theorem owned_computeRun {i j : Nat} {bufs : BufId → ServerBuffer} (hpc : s.compute i = .got b) :
    { s with
      bufs := bufs
      submitterInbox := Function.update s.submitterInbox j (s.submitterInbox j ++ [b])
      compute := Function.update s.compute i .idle }.owned
      = move s.owned b (.computeHand i) (.submitterInbox j) := by
  funext p
  cases p <;> simp [ServerContext.owned, move, Function.update_apply]
  grind [ComputePc.hand]

theorem owned_submitGet {j : Nat} {rest : List BufId} (hpc : s.submit j = .idle)
    (hq : s.submitterInbox j = b :: rest) :
    { s with
      submitterInbox := Function.update s.submitterInbox j rest
      submit := Function.update s.submit j (.got b c) }.owned
      = move s.owned b (.submitterInbox j) (.submitterHand j) := by
  funext p
  cases p <;> simp [ServerContext.owned, move, Function.update_apply] <;> grind [SubmitPc.hand]

theorem owned_submitBack {j : Nat} (hpc : s.submit j = .refused b c) :
    { s with
      submitterInbox := Function.update s.submitterInbox j (s.submitterInbox j ++ [b])
      submit := Function.update s.submit j .idle }.owned
      = move s.owned b (.submitterHand j) (.submitterInbox j) := by
  funext p
  cases p <;> simp [ServerContext.owned, move, Function.update_apply]
  grind [SubmitPc.hand]

theorem owned_dispose {j : Nat} {conn : ServerConnection} (hpc : s.submit j = .locked b c)
    (hconn : SameBuffers (s.conns c) conn) :
    { s with
      conns := Function.update s.conns c conn
      emptyBuffers := s.emptyBuffers ++ [b]
      submit := Function.update s.submit j (.compare c) }.owned
      = move s.owned b (.submitterHand j) .emptyBuffers := by
  obtain ⟨hcl, hr, hs, hq⟩ := hconn
  funext p
  cases p <;> simp [ServerContext.owned, move, Function.update_apply] <;> grind [SubmitPc.hand]

theorem owned_enqueue {j : Nat} {kern : Kernel} {conn : ServerConnection} {pc : SubmitPc}
    (hpc : s.submit j = .locked b c) (hpc' : pc.hand = [])
    (hcl : conn.closed = (s.conns c).closed) (hr : conn.recvbuf = (s.conns c).recvbuf)
    (hs : conn.sendbuf = (s.conns c).sendbuf)
    (hq : conn.sendQueue = (s.conns c).sendQueue ++ [b]) :
    { s with
      kernel := kern
      conns := Function.update s.conns c conn
      submit := Function.update s.submit j pc }.owned
      = move s.owned b (.submitterHand j) (.sendQueue c) := by
  funext p
  cases p <;> simp [ServerContext.owned, move, Function.update_apply] <;> grind [SubmitPc.hand]

/-- `handle_accept` resets an object that owns nothing, to one that owns nothing. -/
theorem partition_accepted {U : BufId → Prop} {a next : Nat} {kern : Kernel}
    {conn : ServerConnection} {pc : AcceptPc} (hp : Partition U s.owned) (hblank : s.Blank c)
    (hsend : (s.conns c).sendbuf = none) (hsend' : conn.sendbuf = (s.conns c).sendbuf)
    (hrecv' : conn.recvbuf = none) (hqueue' : conn.sendQueue = []) :
    Partition U { s with
      next := next
      kernel := kern
      conns := Function.update s.conns c conn
      accept := Function.update s.accept a pc }.owned := by
  have hrecv : (if (s.conns c).closed then [] else (s.conns c).recvbuf.toList) = [] := by
    split
    · rfl
    · next hcl => rw [(hblank.bufs (Bool.not_eq_true _ ▸ hcl)).1]; rfl
  apply hp.of_eq
  funext p
  cases p with
  | recvbuf c' | sendbuf c' | sendQueue c' =>
    by_cases hc : c' = c
    · subst hc
      simp [ServerContext.owned, hrecv', hsend', hqueue', hrecv, hsend, hblank.queue]
    · simp [ServerContext.owned, hc]
  | _ => rfl

end Equations

/-! ## The step lemma -/

theorem mem_owned_recvbuf {b : BufId} {c : ConnId} (hcl : (s.conns c).closed = false)
    (hb : (s.conns c).recvbuf = some b) : b ∈ s.owned (.recvbuf c) := by
  simp [ServerContext.owned, hcl, hb]

theorem mem_owned_sendbuf {b : BufId} {c : ConnId} (hcl : (s.conns c).closed = false)
    (hb : (s.conns c).sendbuf = some b) : b ∈ s.owned (.sendbuf c) := by
  simp [ServerContext.owned, hcl, hb]

/-- **One step keeps every buffer owned exactly once.** -/
theorem owned_step {a : Action} (h : Inv cfg s) (hs : Step cfg sha1 s a s') :
    Partition (· < cfg.alloc.buffers) s'.owned := by
  have hp := h.owned
  cases hs with
  | stay | acceptTake | acceptRefused => exact hp
  | ioLocal hl =>
    exact SameOwners.partition hp ⟨rfl, rfl, rfl, fun _ => .refl _, fun _ => rfl, fun _ => rfl,
      ioHand_update hl.hand⟩
  | epollWait hw =>
    exact SameOwners.partition hp ⟨rfl, rfl, rfl, fun _ => .refl _, fun _ => rfl, fun _ => rfl,
      ioHand_update (by rw [hw])⟩
  | @accepted a c fd ok hpc =>
    have hblank := h.parked.blank (.accept a) c (by
      simp [ServerContext.parked, hpc, AcceptPc.object])
    exact partition_accepted hp hblank (h.parked.fresh a c hpc) rfl rfl rfl
  | @ioLock k c a pc' _ hpc =>
    have hhand : pc'.hand = (s.io k).pc.hand := by
      rcases hpc with ⟨_, hpc, rfl, _⟩ | ⟨_, hpc, rfl, _⟩ | ⟨_, hpc, rfl, _⟩ <;> rw [hpc] <;> rfl
    exact SameOwners.partition hp ⟨rfl, rfl, rfl, sameBuffers_update ⟨rfl, rfl, rfl, rfl⟩,
      fun _ => rfl, fun _ => rfl, ioHand_update hhand⟩
  | @dequeue k c input b rest hpc hb hq =>
    have ho := h.openAt (k := k) (c := c) (by simp [hpc, IoPc.conn])
    rw [owned_dequeue hpc ho.closed hb hq]
    exact hp.move (by simp) (by simp [ServerContext.owned, hq])
  | @sendPart k c input b n pc' hpc _ _ hpc' =>
    have hhand : pc'.hand = (s.io k).pc.hand := by
      rcases hpc' with rfl | rfl
      · rw [hand_afterResponse, hpc]; rfl
      · rw [hpc]; rfl
    exact SameOwners.partition hp ⟨rfl, rfl, rfl, fun _ => .refl _, fun _ => rfl, fun _ => rfl,
      ioHand_update hhand⟩
  | @sendLast k c input b n hpc =>
    have ho := h.openAt (k := k) (c := c) (by simp [hpc, IoPc.conn])
    have hb : (s.conns c).sendbuf = some b := h.pcOk hpc
    rw [owned_sendLast hpc ho.closed hb]
    exact hp.move (by simp) (mem_owned_sendbuf ho.closed hb)
  | recycle hpc =>
    rw [owned_recycle hpc]
    exact hp.move (by simp) (by simp [ServerContext.owned, hpc, IoPc.hand])
  | settleKeep hpc =>
    exact SameOwners.partition hp ⟨rfl, rfl, rfl, sameBuffers_update ⟨rfl, rfl, rfl, rfl⟩,
      fun _ => rfl, fun _ => rfl, ioHand_update (by rw [hpc]; rfl)⟩
  | @settleDisarm k c input ok hpc _ kern err =>
    have hhand : (if err then IoPc.wait else .response c input).hand = (s.io k).pc.hand := by
      rw [hpc]; cases err <;> rfl
    exact SameOwners.partition hp ⟨rfl, rfl, rfl, sameBuffers_update ⟨rfl, rfl, rfl, rfl⟩,
      fun _ => rfl, fun _ => rfl, ioHand_update hhand⟩
  | @takeBuffer k c b rest hpc hb _ hq =>
    have ho := h.openAt (k := k) (c := c) (by simp [hpc, IoPc.conn])
    rw [owned_takeBuffer hpc ho.closed hb hq]
    exact hp.move (by simp) (by simp [ServerContext.owned, hq])
  | @recvData k c b bytes hpc =>
    have hhand : (if (s.bufs b).left - bytes.length = 0 then IoPc.lockRequest c b
        else .request c).hand = (s.io k).pc.hand := by
      rw [hpc]; split <;> rfl
    exact SameOwners.partition hp ⟨rfl, rfl, rfl, fun _ => .refl _, fun _ => rfl, fun _ => rfl,
      ioHand_update hhand⟩
  | @deliver k c b hpc =>
    have ho := h.openAt (k := k) (c := c) (by simp [hpc, IoPc.conn])
    have hb : (s.conns c).recvbuf = some b ∧ (s.bufs b).left = 0 := h.pcOk hpc
    rw [owned_deliver hpc ho.closed hb.1]
    exact hp.move (by simp) (mem_owned_recvbuf ho.closed hb.1)
  | @finishRelease k c input hpc | @finishDelegate k c input hpc =>
    -- `sendbuf`, `recvbuf` and the send queue are emptied one after another
    have ho := h.openAt (k := k) (c := c) (by simp [hpc, IoPc.conn])
    rw [owned_finish hpc (hand_afterResponse _ _) ho.closed rfl rfl]
    exact ((hp.moveAll (by simp)).moveAll (by simp)).moveAll (by simp)
  | computeGet hpc hq =>
    rw [owned_computeGet hpc hq]
    exact hp.move (by simp) (by simp [ServerContext.owned, hq])
  | computeRun hpc =>
    rw [owned_computeRun hpc]
    exact hp.move (by simp) (by simp [ServerContext.owned, hpc, ComputePc.hand])
  | submitGet hpc hq =>
    rw [owned_submitGet hpc hq]
    exact hp.move (by simp) (by simp [ServerContext.owned, hq])
  | submitRefused hpc =>
    exact SameOwners.partition hp ⟨rfl, rfl, rfl, fun _ => .refl _, fun _ => rfl,
      submitHand_update (by rw [hpc]; rfl), fun _ => rfl⟩
  | submitBack hpc =>
    rw [owned_submitBack hpc]
    exact hp.move (by simp) (by simp [ServerContext.owned, hpc, SubmitPc.hand])
  | submitLock hpc =>
    exact SameOwners.partition hp ⟨rfl, rfl, rfl, sameBuffers_update ⟨rfl, rfl, rfl, rfl⟩,
      fun _ => rfl, submitHand_update (by rw [hpc]; rfl), fun _ => rfl⟩
  | dispose hpc =>
    exact (hp.move (by simp) (by simp [ServerContext.owned, hpc, SubmitPc.hand])).of_eq
      (owned_dispose hpc ⟨rfl, rfl, rfl, rfl⟩)
  | @enqueue j b c ok hpc _ kern err =>
    exact (hp.move (by simp) (by simp [ServerContext.owned, hpc, SubmitPc.hand])).of_eq
      (owned_enqueue hpc (by cases err <;> rfl) rfl rfl rfl rfl)
  | submitRelease hpc | submitNext hpc =>
    exact SameOwners.partition hp ⟨rfl, rfl, rfl, fun _ => .refl _, fun _ => rfl,
      submitHand_update (by rw [hpc]; rfl), fun _ => rfl⟩

end Piotbench.Server
