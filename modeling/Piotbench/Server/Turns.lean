import Piotbench.Server.Framing
import Piotbench.Server.Readahead

/-!
# How long an IO worker is away from `epoll_wait`

`handle_request` and `handle_response` go round as long as there is something to read or to send,
and a client can always send more. What ends a turn of the worker all the same is the readahead: it
bounds what may be read from one connection before something is answered, and with it what may be
waiting to be sent. So the worker comes back to `epoll_wait` after a number of steps that the
configuration gives (`turn_bounded`), whatever the clients send and the other workers do.
-/

namespace Piotbench.Server

open Transition

variable {cfg : ServerConfig} {sha1 : Sha1} {bufs : BufId → ServerBuffer}
  {s s' : ServerContext} {a : Action} {c : ConnId} {k : Nat}

/-! ## What is left to do on a connection -/

/-- How many requests `handle_request` may still count before it stops reading ahead. -/
def ServerContext.room (cfg : ServerConfig) (s : ServerContext) (c : ConnId) : Nat :=
  (s.conns c).sent + cfg.load.readahead + 1 - (s.conns c).received

/-- How many bytes it may still read. -/
def ServerContext.toRead (cfg : ServerConfig) (s : ServerContext) (c : ConnId) : Nat :=
  match (s.conns c).recvbuf with
  | none => sizeofRequest * s.room cfg c
  | some b => sizeofRequest * (s.room cfg c - 1) + (s.bufs b).left

/-- How many responses `handle_response` may have to send, among them those that are still with the
other workers. -/
def ServerContext.owed (s : ServerContext) (c : ConnId) : Nat :=
  (s.conns c).received - (s.conns c).sent

def ServerContext.toWrite (s : ServerContext) (c : ConnId) : Nat :=
  match (s.conns c).sendbuf with
  | none => sizeofResponse * s.owed c
  | some b => sizeofResponse * (s.owed c - 1) + (s.bufs b).left

/-- Two steps for each byte that is read, and two more for each request. -/
def ServerContext.requestWork (cfg : ServerConfig) (s : ServerContext) (c : ConnId) : Nat :=
  2 * s.toRead cfg c + 2 * s.room cfg c

/-- Two steps for each byte that is sent, and three more for each response. -/
def ServerContext.responseWork (s : ServerContext) (c : ConnId) : Nat :=
  2 * s.toWrite c + 3 * s.owed c

/-- The most that `requestWork` can be. -/
def requestMost (cfg : ServerConfig) : Nat :=
  2 * (sizeofRequest * (cfg.load.readahead + 1)) + 2 * (cfg.load.readahead + 1)

def responseMost (cfg : ServerConfig) : Nat :=
  2 * (sizeofResponse * (cfg.load.readahead + 1)) + 3 * (cfg.load.readahead + 1)

/-- How many steps are left of the event in hand, at most. -/
def IoPc.work (cfg : ServerConfig) (s : ServerContext) : IoPc → Nat
  | .request c | .lockRequest c _ => s.requestWork cfg c + 4
  | .recv c _ | .deliver c _ => s.requestWork cfg c + 3
  | .response c _ => s.responseWork c + requestMost cfg + 8
  | .send c _ _ => s.responseWork c + requestMost cfg + 7
  | .recycle c _ _ => s.responseWork c + requestMost cfg + 11
  | .lockResponse c _ => s.responseWork c + requestMost cfg + 10
  | .settle c _ => s.responseWork c + requestMost cfg + 9
  | .finish _ true => requestMost cfg + 6
  | .finish _ false => 2
  | .teardown _ _ => 1
  | .wait | .exited => 0

/-- The steps for one event, at most, its dispatch among them. -/
def eventMost (cfg : ServerConfig) : Nat := responseMost cfg + requestMost cfg + 12

/-- How many steps are left until the worker is back at `epoll_wait`, at most. -/
def IoWorker.work (cfg : ServerConfig) (s : ServerContext) (w : IoWorker) : Nat :=
  w.pc.work cfg s + eventMost cfg * w.events.length

/-- What is known of an open session. -/
structure Bounded (cfg : ServerConfig) (s : ServerContext) (c : ConnId) : Prop where
  order : (s.conns c).sent ≤ (s.conns c).received
  ahead : (s.conns c).received ≤ (s.conns c).sent + cfg.load.readahead + 1
  taking : ∀ b, (s.conns c).recvbuf = some b →
    (s.conns c).received ≤ (s.conns c).sent + cfg.load.readahead ∧ (s.bufs b).left ≤ sizeofRequest
  sending : ∀ b, (s.conns c).sendbuf = some b → (s.conns c).sent < (s.conns c).received ∧
    0 < (s.bufs b).left ∧ (s.bufs b).left ≤ sizeofResponse
  queued : (s.conns c).sendQueue ≠ [] → (s.conns c).sent < (s.conns c).received

theorem ahead_of_trace (hra : cfg.load.readahead < UInt32.size) {t : Traced}
    (h : Trace cfg sha1 Orderly bufs t) (hin : t.srv.InSession c)
    (hcl : (t.srv.conns c).closed = false) : Ahead cfg t.srv c := by
  apply open_invariant (P := fun t c => Ahead cfg t.srv c) (fun _ _ => id) _ _ h hin hcl
  · intro t c n _ _ hrecv hbuf
    constructor
    · omega
    · exact fun hne => absurd hbuf hne
  · intro t a t' c hs _ hold
    exact ahead_step hra hs hold

theorem bounded_of_run (hra : cfg.load.readahead < UInt32.size) (h : Run cfg sha1 Orderly bufs s)
    (hin : s.InSession c) (hcl : (s.conns c).closed = false) : Bounded cfg s c := by
  obtain ⟨t, ht, rfl⟩ := h.trace
  have hout := (inv_of_trace (fun _ _ => id) ht).outstanding hin hcl
  have hahead := ahead_of_trace hra ht hin hcl
  have hcounted := counted_of_trace (fun _ _ => id) ht hin hcl
  constructor
  · omega
  · exact hahead.bound
  · intro b hb
    have hplace := hcounted.intake.place b hb
    exact ⟨hahead.taking (by simp [hb]), by omega⟩
  · intro b hb
    have hhalf := hcounted.emitted.sendbuf b hb
    have hptr := hhalf.ptr
    have hplace := hhalf.place
    rw [hb, Option.toList_some, List.length_singleton] at hout
    exact ⟨by omega, hhalf.left, by omega⟩
  · intro hne
    have hpos := List.length_pos_iff.mpr hne
    omega

/-- The comparison with the readahead is one of numbers. -/
theorem Bounded.guard (h : Bounded cfg s c) (hra : cfg.load.readahead < UInt32.size)
    (hr : ¬ cfg.load.readahead < ulongSub (s.conns c).received (s.conns c).sent) :
    (s.conns c).received ≤ (s.conns c).sent + cfg.load.readahead := by
  have hahead := h.ahead
  have hsub : ulongSub (s.conns c).received (s.conns c).sent
      = (s.conns c).received - (s.conns c).sent := by
    apply ulongSub_of_le h.order
    have hsize : UInt32.size = 4294967296 := rfl
    have hsize' : UInt64.size = 18446744073709551616 := rfl
    omega
  omega

theorem Bounded.requestWork_le (h : Bounded cfg s c) : s.requestWork cfg c ≤ requestMost cfg := by
  have hroom : s.room cfg c ≤ cfg.load.readahead + 1 := by
    have horder := h.order
    unfold ServerContext.room
    omega
  have hread : s.toRead cfg c ≤ sizeofRequest * (cfg.load.readahead + 1) := by
    rw [sizeofRequest_eq]
    unfold ServerContext.toRead
    rw [sizeofRequest_eq]
    cases hb : (s.conns c).recvbuf with
    | none =>
      dsimp only
      omega
    | some b =>
      have hleft := (h.taking b hb).2
      rw [sizeofRequest_eq] at hleft
      dsimp only
      omega
  unfold ServerContext.requestWork requestMost
  omega

theorem Bounded.responseWork_le (h : Bounded cfg s c) : s.responseWork c ≤ responseMost cfg := by
  have howed : s.owed c ≤ cfg.load.readahead + 1 := by
    have hahead := h.ahead
    unfold ServerContext.owed
    omega
  have hwrite : s.toWrite c ≤ sizeofResponse * (cfg.load.readahead + 1) := by
    rw [sizeofResponse_eq]
    unfold ServerContext.toWrite
    rw [sizeofResponse_eq]
    cases hb : (s.conns c).sendbuf with
    | none =>
      dsimp only
      omega
    | some b =>
      obtain ⟨hlt, -, hleft⟩ := h.sending b hb
      rw [sizeofResponse_eq] at hleft
      dsimp only
      omega
  unfold ServerContext.responseWork responseMost
  omega

theorem afterResponse_le {input : Bool} (h : input = true → Bounded cfg s c) :
    (IoPc.afterResponse c input).work cfg s ≤ requestMost cfg + 4 := by
  cases input with
  | false => exact Nat.zero_le _
  | true =>
    have hwork := (h rfl).requestWork_le
    show s.requestWork cfg c + 4 ≤ requestMost cfg + 4
    omega

theorem Bounded.dispatch_le (h : Bounded cfg s c) (events : EpollMask) :
    (IoPc.dispatch c events).work cfg s + 1 ≤ eventMost cfg := by
  have hreq := h.requestWork_le
  have hres := h.responseWork_le
  unfold IoPc.dispatch eventMost
  split
  · simp only [IoPc.work]
    omega
  · split
    · simp only [IoPc.work]
      omega
    · split
      · simp only [IoPc.work]
        omega
      · simp only [IoPc.work]
        omega

/-! ### What it depends on -/

section Known

/-- `toRead` and `toWrite` when the buffer is known. -/
theorem toRead_none (hb : (s.conns c).recvbuf = none) :
    s.toRead cfg c = sizeofRequest * s.room cfg c := by
  simp only [ServerContext.toRead, hb]

theorem toRead_some {b : BufId} (hb : (s.conns c).recvbuf = some b) :
    s.toRead cfg c = sizeofRequest * (s.room cfg c - 1) + (s.bufs b).left := by
  simp only [ServerContext.toRead, hb]

theorem toWrite_none (hb : (s.conns c).sendbuf = none) :
    s.toWrite c = sizeofResponse * s.owed c := by
  simp only [ServerContext.toWrite, hb]

theorem toWrite_some {b : BufId} (hb : (s.conns c).sendbuf = some b) :
    s.toWrite c = sizeofResponse * (s.owed c - 1) + (s.bufs b).left := by
  simp only [ServerContext.toWrite, hb]

/-- What the work on a connection depends on. -/
structure SameWork (s s' : ServerContext) (c : ConnId) : Prop where
  received : (s'.conns c).received = (s.conns c).received
  sent : (s'.conns c).sent = (s.conns c).sent
  recvbuf : (s'.conns c).recvbuf = (s.conns c).recvbuf
  sendbuf : (s'.conns c).sendbuf = (s.conns c).sendbuf
  reading : ∀ b, (s.conns c).recvbuf = some b → (s'.bufs b).left = (s.bufs b).left
  writing : ∀ b, (s.conns c).sendbuf = some b → (s'.bufs b).left = (s.bufs b).left

theorem SameWork.request (h : SameWork s s' c) : s'.requestWork cfg c = s.requestWork cfg c := by
  have hroom : s'.room cfg c = s.room cfg c := by
    rw [ServerContext.room, h.received, h.sent]
    rfl
  have hread : s'.toRead cfg c = s.toRead cfg c := by
    cases hb : (s.conns c).recvbuf with
    | none => rw [toRead_none (h.recvbuf.trans hb), toRead_none hb, hroom]
    | some b => rw [toRead_some (h.recvbuf.trans hb), toRead_some hb, hroom, h.reading b hb]
  rw [ServerContext.requestWork, hread, hroom]
  rfl

theorem SameWork.response (h : SameWork s s' c) : s'.responseWork c = s.responseWork c := by
  have howed : s'.owed c = s.owed c := by
    rw [ServerContext.owed, h.received, h.sent]
    rfl
  have hwrite : s'.toWrite c = s.toWrite c := by
    cases hb : (s.conns c).sendbuf with
    | none => rw [toWrite_none (h.sendbuf.trans hb), toWrite_none hb, howed]
    | some b => rw [toWrite_some (h.sendbuf.trans hb), toWrite_some hb, howed, h.writing b hb]
  rw [ServerContext.responseWork, hwrite, howed]
  rfl

/-- Where the worker stands counts the same after a step that changes nothing on its connection. -/
theorem SameWork.work {pc : IoPc} (h : ∀ c ∈ pc.conn, SameWork s s' c) :
    pc.work cfg s' = pc.work cfg s := by
  cases pc with
  | request c | lockRequest c | recv c | deliver c =>
    simp only [IoPc.work, (h c List.mem_cons_self).request]
  | response c | send c | recycle c | lockResponse c | settle c =>
    simp only [IoPc.work, (h c List.mem_cons_self).response]
  | finish c input => cases input <;> rfl
  | teardown | wait | exited => rfl

/-- A step that writes other fields of a connection. -/
theorem sameWork_update {t : ServerContext} {c' : ConnId} {conn : ServerConnection}
    (hconns : t.conns = Function.update s.conns c' conn) (hbufs : t.bufs = s.bufs)
    (hreceived : conn.received = (s.conns c').received) (hsent : conn.sent = (s.conns c').sent)
    (hrecvbuf : conn.recvbuf = (s.conns c').recvbuf)
    (hsendbuf : conn.sendbuf = (s.conns c').sendbuf) : SameWork s t c where
  received := hconns ▸ field_update (·.received) hreceived
  sent := hconns ▸ field_update (·.sent) hsent
  recvbuf := hconns ▸ field_update (·.recvbuf) hrecvbuf
  sendbuf := hconns ▸ field_update (·.sendbuf) hsendbuf
  reading _ _ := by rw [hbufs]
  writing _ _ := by rw [hbufs]

end Known

/-! ## The steps of the worker -/

section Own

variable {b : BufId} {input : Bool}

/-- The moves that touch no shared data. -/
theorem IoMove.work {pc pc' : IoPc} (h : IoMove cfg s k c pc a pc') (hb : Bounded cfg s c) :
    1 + pc'.work cfg s ≤ pc.work cfg s := by
  have hafter : ∀ input, (IoPc.afterResponse c input).work cfg s ≤ requestMost cfg + 4 :=
    fun _ => afterResponse_le fun _ => hb
  cases h with
  | @noResponse input =>
    have hle := hafter input
    show 1 + _ ≤ s.responseWork c + requestMost cfg + 8
    omega
  | @sendAgain input =>
    have hle := hafter input
    show 1 + _ ≤ s.responseWork c + requestMost cfg + 7
    omega
  | @finishRefused input =>
    cases input with
    | true =>
      have hle := hafter true
      show 1 + _ ≤ requestMost cfg + 6
      omega
    | false =>
      show 1 + 0 ≤ 2
      omega
  | @sendError input =>
    cases input with
    | true | false =>
      simp only [IoPc.work]
      omega
  | resumeResponse | resumeRequest | readahead | noBuffer | missBuffer | recvAgain | recvEof
  | recvError =>
    simp only [IoPc.work]
    omega

/-- `handle_response` takes a response from the send queue. -/
theorem work_dequeue (hb : Bounded cfg s c) {rest : List BufId}
    (hnone : (s.conns c).sendbuf = none) (hq : (s.conns c).sendQueue = b :: rest)
    (hconn : s'.conns c = { s.conns c with sendQueue := rest, sendbuf := some b })
    (hleft : (s'.bufs b).left = sizeofResponse) :
    1 + (IoPc.send c input b).work cfg s' ≤ (IoPc.response c input).work cfg s := by
  have hlt := hb.queued (by simp [hq])
  have howed : s'.owed c = s.owed c := by simp only [ServerContext.owed, hconn]
  have hpos : 1 ≤ s.owed c := Nat.sub_pos_of_lt hlt
  have hwrite : s'.toWrite c = s.toWrite c := by
    rw [toWrite_some (by rw [hconn]), toWrite_none hnone, howed, hleft, sizeofResponse_eq]
    omega
  simp only [IoPc.work, ServerContext.responseWork, hwrite, howed]
  omega

/-- `Z_send` takes a full chunk, and the response is not out yet. -/
theorem work_sendPart {n : Nat} (hsend : (s.conns c).sendbuf = some b)
    (hconn : s'.conns c = s.conns c) (hleft : (s'.bufs b).left = (s.bufs b).left - n)
    (hpos : 1 ≤ n) (hn : n ≤ (s.bufs b).left) :
    1 + (IoPc.response c input).work cfg s' ≤ (IoPc.send c input b).work cfg s := by
  have howed : s'.owed c = s.owed c := by simp only [ServerContext.owed, hconn]
  have hwrite : s'.toWrite c + n = s.toWrite c := by
    rw [toWrite_some ((congrArg _ hconn).trans hsend), toWrite_some hsend, howed, hleft]
    omega
  simp only [IoPc.work, ServerContext.responseWork, howed]
  omega

/-- `Z_send` takes the last bytes of a response. -/
theorem work_sendLast (hb : Bounded cfg s c) (hsend : (s.conns c).sendbuf = some b)
    (hconn : s'.conns c = { s.conns c with sent := (s.conns c).sent + 1, sendbuf := none }) :
    1 + (IoPc.recycle c input b).work cfg s' ≤ (IoPc.send c input b).work cfg s := by
  obtain ⟨hlt, hpos, -⟩ := hb.sending b hsend
  have howed : s'.owed c + 1 = s.owed c := by
    simp only [ServerContext.owed, hconn]
    omega
  have hwrite : s'.toWrite c + 1 ≤ s.toWrite c := by
    rw [toWrite_none (by rw [hconn]), toWrite_some hsend, ← howed, sizeofResponse_eq]
    omega
  simp only [IoPc.work, ServerContext.responseWork]
  omega

/-- `handle_request` takes an empty buffer. -/
theorem work_take (hguard : (s.conns c).received ≤ (s.conns c).sent + cfg.load.readahead)
    (hnone : (s.conns c).recvbuf = none)
    (hconn : s'.conns c = { s.conns c with recvbuf := some b })
    (hleft : (s'.bufs b).left = sizeofRequest) :
    1 + (IoPc.recv c b).work cfg s' ≤ (IoPc.request c).work cfg s := by
  have hroom : s'.room cfg c = s.room cfg c := by simp only [ServerContext.room, hconn]
  have hpos : 1 ≤ s.room cfg c := by
    unfold ServerContext.room
    omega
  have hread : s'.toRead cfg c = s.toRead cfg c := by
    rw [toRead_some (by rw [hconn]), toRead_none hnone, hroom, hleft, sizeofRequest_eq]
    omega
  simp only [IoPc.work, ServerContext.requestWork, hread, hroom]
  omega

/-- `Z_recv` returns `n` bytes; `pc'` is the top of the loop, or the lock. -/
theorem work_recv {n : Nat} {pc' : IoPc} (hrecv : (s.conns c).recvbuf = some b)
    (hconn : s'.conns c = s.conns c) (hleft : (s'.bufs b).left = (s.bufs b).left - n)
    (hpos : 1 ≤ n) (hn : n ≤ (s.bufs b).left)
    (hpc' : pc'.work cfg s' = s'.requestWork cfg c + 4) :
    1 + pc'.work cfg s' ≤ (IoPc.recv c b).work cfg s := by
  have hroom : s'.room cfg c = s.room cfg c := by simp only [ServerContext.room, hconn]
  have hread : s'.toRead cfg c + n = s.toRead cfg c := by
    rw [toRead_some ((congrArg _ hconn).trans hrecv), toRead_some hrecv, hroom, hleft]
    omega
  rw [hpc']
  simp only [IoPc.work, ServerContext.requestWork, hroom]
  omega

/-- The request is complete and counted. -/
theorem work_deliver (hb : Bounded cfg s c) (hrecv : (s.conns c).recvbuf = some b)
    (hconn : s'.conns c =
      { s.conns c with received := (s.conns c).received + 1, recvbuf := none, lock := false }) :
    1 + (IoPc.request c).work cfg s' ≤ (IoPc.deliver c b).work cfg s := by
  have hle := (hb.taking b hrecv).1
  have hroom : s'.room cfg c + 1 = s.room cfg c := by
    simp only [ServerContext.room, hconn]
    omega
  have hread : s'.toRead cfg c ≤ s.toRead cfg c := by
    rw [toRead_none (by rw [hconn]), toRead_some hrecv, ← hroom, Nat.add_sub_cancel]
    exact Nat.le_add_right _ _
  simp only [IoPc.work, ServerContext.requestWork]
  omega

/-- A step of worker `k` takes one off what is left to do. -/
abbrev Pays (cfg : ServerConfig) (s s' : ServerContext) (k : Nat) : Prop :=
  1 + (s'.io k).work cfg s' ≤ (s.io k).work cfg s

/-- The worker goes on to `pc'` within the event. -/
theorem pays_goto {pc pc' : IoPc} {t : ServerContext} (hpc : (s.io k).pc = pc)
    (hio : t.io k = s.io k) (h : 1 + pc'.work cfg t ≤ pc.work cfg s) :
    Pays cfg s (t.goto k pc') k := by
  have hnow : (t.goto k pc').io k = { s.io k with pc := pc' } := by
    rw [goto_io, Function.update_self, hio]
  have hsame : pc'.work cfg (t.goto k pc') = pc'.work cfg t := rfl
  unfold Pays IoWorker.work
  rw [hnow, hsame, hpc]
  dsimp only
  omega

/-- The same with nothing written that the work depends on. -/
theorem pays_same {pc pc' : IoPc} {t : ServerContext} (hpc : (s.io k).pc = pc)
    (hio : t.io k = s.io k) (hsame : ∀ c, SameWork s t c)
    (h : 1 + pc'.work cfg s ≤ pc.work cfg s) : Pays cfg s (t.goto k pc') k := by
  apply pays_goto hpc hio
  rw [SameWork.work fun c _ => hsame c]
  exact h

/-- Worker `k` calls `Z_epoll_wait`. -/
def Action.polls (k : Nat) : Action → Bool
  | .epollWait j _ | .epollFail j => j == k
  | _ => false

theorem IoMove.mem_conn {pc pc' : IoPc} (h : IoMove cfg s k c pc a pc') : c ∈ pc.conn := by
  cases h <;> exact List.mem_cons_self

/-- **One step of the worker** leaves at least one step less. -/
theorem work_step (h : Inv cfg s) (hio : 0 < cfg.load.maxIoSize)
    (hra : cfg.load.readahead < UInt32.size)
    (hb : ∀ c ∈ (s.io k).conns, Bounded cfg s c) (hb' : ∀ c ∈ (s'.io k).conns, Bounded cfg s' c)
    (hstep : step cfg sha1 s a = some s') (hk : a.ioWorker = some k) (hpoll : a.polls k = false) :
    Pays cfg s s' k := by
  have hbc : ∀ {c}, c ∈ (s.io k).pc.conn → Bounded cfg s c :=
    fun hc => hb _ (List.mem_append_left _ hc)
  cases step_cases hstep with
  | stay ha => rcases ha with ⟨_, rfl⟩ | ⟨_, rfl⟩ | ⟨_, rfl⟩ <;> cases hk
  | ioLocal hl =>
    cases hl.ioWorker.symm.trans hk
    cases hl with
    | fail hw => simp [Action.polls] at hpoll
    | @dispatch c events rest hw =>
      have hle := (hb c (by simp [hw, IoWorker.conns])).dispatch_le events
      have hmany : ((c, events) :: rest).length = rest.length + 1 := rfl
      simp only [Pays, IoWorker.work, Function.update_self, hw, hmany, Nat.mul_succ]
      show 1 + ((IoPc.dispatch c events).work cfg s + _) ≤ 0 + _
      omega
    | @move c a pc' hm =>
      have hle := hm.work (hbc hm.mem_conn)
      simp only [Pays, IoWorker.work, Function.update_self]
      show 1 + (pc'.work cfg s + _) ≤ _
      omega
  | @epollWait k' batch =>
    cases hk
    simp [Action.polls] at hpoll
  | @ioLock k' c a pc' hlock hpc =>
    cases (ioLock_ioWorker (ioLock_action hpc)).symm.trans hk
    have hsame : ∀ d, SameWork s
        { s with conns := Function.update s.conns c { s.conns c with lock := true } } d :=
      fun d => sameWork_update rfl rfl rfl rfl rfl rfl
    rcases hpc with ⟨input, hw, rfl, rfl⟩ | ⟨b, hw, rfl, rfl⟩ | ⟨input, hw, rfl, rfl⟩
    · refine pays_same hw rfl hsame ?_
      simp only [IoPc.work]
      omega
    · refine pays_same hw rfl hsame ?_
      simp only [IoPc.work]
      omega
    · refine pays_same hw rfl hsame ?_
      cases input with
      | true | false =>
        simp only [IoPc.work]
        omega
  | @dequeue k' c input b rest hpc hnone hq =>
    cases hk
    exact pays_goto hpc rfl
      (work_dequeue (hbc (by simp [hpc, IoPc.conn])) hnone hq (by simp) (by simp))
  | @sendPart k' c input b n pc' hpc hopen hn hpc' hpart =>
    cases hk
    have hsend : (s.conns c).sendbuf = some b := h.pcOk hpc
    rcases hpc' with rfl | rfl
    · -- a short send
      refine pays_goto hpc rfl ?_
      have hle : (IoPc.afterResponse c input).work cfg _ ≤ requestMost cfg + 4 :=
        afterResponse_le fun hin =>
          hb' c (by simp [hin, IoPc.afterResponse, IoWorker.conns, IoPc.conn])
      show 1 + _ ≤ s.responseWork c + requestMost cfg + 7
      exact Nat.le_trans (Nat.add_le_add_left hle 1) (by omega)
    · have hpos := ((hbc (by simp [hpc, IoPc.conn])).sending b hsend).2.1
      have hfull := sendPart_continues input hstep hpc (by simp)
      exact pays_goto hpc rfl (work_sendPart hsend rfl (by simp) (by omega) hn)
  | @sendLast k' c input b n hpc hopen hn hlast =>
    cases hk
    have hsend : (s.conns c).sendbuf = some b := h.pcOk hpc
    exact pays_goto hpc rfl
      (work_sendLast (hbc (by simp [hpc, IoPc.conn])) hsend (by simp))
  | @recycle k' c input b hpc =>
    cases hk
    refine pays_same hpc rfl
      (fun d => ⟨rfl, rfl, rfl, rfl, fun _ _ => rfl, fun _ _ => rfl⟩) ?_
    simp only [IoPc.work]
    omega
  | @settleKeep k' c input ok hpc hne =>
    cases hk
    refine pays_same hpc rfl (fun d => sameWork_update rfl rfl rfl rfl rfl rfl) ?_
    simp only [IoPc.work]
    omega
  | @settleDisarm k' c input ok hpc heq kern err hres =>
    cases hk
    refine pays_same hpc rfl (fun d => sameWork_update rfl rfl rfl rfl rfl rfl) ?_
    cases err with
    | true | false =>
      simp only [IoPc.work, if_true, Bool.false_eq_true, if_false]
      omega
  | @takeBuffer k' c b rest hpc hnone hr hq =>
    cases hk
    have hbound := hbc (c := c) (by simp [hpc, IoPc.conn])
    exact pays_goto hpc rfl (work_take (hbound.guard hra hr) hnone (by simp) (by simp))
  | @recvData k' c b bytes hpc hopen hpos hlen =>
    cases hk
    have hrecv : (s.conns c).recvbuf = some b := h.pcOk hpc
    exact pays_goto hpc rfl (work_recv hrecv rfl (by simp) hpos hlen (by split <;> rfl))
  | @deliver k' c b hpc =>
    cases hk
    exact pays_goto hpc rfl
      (work_deliver (hbc (by simp [hpc, IoPc.conn])) (h.pcOk hpc).1 (by simp))
  | @finishRelease k' c input hpc heq | @finishDelegate k' c input hpc heq =>
    cases hk
    obtain rfl : input = false := h.pcOk hpc
    exact pays_goto hpc rfl (Nat.le_refl 1)
  | acceptTake | acceptRefused | accepted | computeGet | computeRun | submitGet | submitRefused
  | submitBack | submitLock | dispose | enqueue | submitRelease | submitNext => cases hk

end Own

/-! ## The steps of the others -/

/-- The others do not touch what the work on a connection of worker `k` depends on. -/
theorem sameWork_step (h : Inv cfg s) (hs : Step cfg sha1 s a s') (hl : s.Live k c)
    (hk : a.ioWorker ≠ some k) : SameWork s s' c := by
  have hop := h.openAt_of_live hl
  -- no other worker handles the connection
  have hother : ∀ {k'}, a.ioWorker = some k' → c ∉ (s.io k').pc.conn := by
    intro k' ha hc
    exact hk (ha.trans (congrArg some (h.live_unique (h.live hc) hl)))
  have hdelivered : delivered s c a = [] := by
    rcases delivered_cases s c a with hnone | ⟨k', b, rfl, hpc, -⟩
    · exact hnone
    · exact absurd (by simp [hpc, IoPc.conn]) (hother rfl)
  have hanswered : answered s c a = [] := by
    unfold answered
    split
    · next k' n =>
      split
      · next c' input b hpc =>
        apply if_neg
        rintro ⟨rfl, -⟩
        exact absurd (by simp [hpc, IoPc.conn]) (hother rfl)
      · rfl
    · rfl
  have hnot : ¬ Finishes s c a := by
    rintro ⟨k', input, rfl, hpc⟩
    exact absurd (by simp [hpc, IoPc.conn]) (hother rfl)
  have hreceived := received_step hs hop.session
  have hsent := sent_step hs hop.session (openAt_step h hs hl hnot).closed
  rw [hdelivered, List.length_nil] at hreceived
  rw [hanswered, List.length_nil] at hsent
  obtain ⟨hrecvbuf, hsendbuf, hreading⟩ := untouched_step h hs hl hk
  refine ⟨hreceived, hsent, hrecvbuf, hsendbuf, hreading, fun b hb => ?_⟩
  rcases bufs_sendbuf h hs hop.closed hb with hsame | ⟨k', input, n, rfl, hpc⟩
  · rw [hsame]
  · exact absurd (by simp [hpc, IoPc.conn]) (hother rfl)

theorem work_other (h : Inv cfg s) (hs : Step cfg sha1 s a s') (hk : a.ioWorker ≠ some k) :
    (s'.io k).work cfg s' = (s.io k).work cfg s := by
  have hsame : (s.io k).pc.work cfg s' = (s.io k).pc.work cfg s :=
    SameWork.work fun c hc => sameWork_step h hs (h.live hc) hk
  rw [io_of_ne hs hk, IoWorker.work, hsame]
  rfl

/-! ## Runs -/

/-- A step of worker `k`. -/
def ownStep (k : Nat) (_ : ServerContext) (a : Action) : Nat :=
  if a.ioWorker = some k then 1 else 0

/-- `Z_epoll_wait` returns no more than it has been given room for. -/
theorem conns_le_of_run {ok : ServerContext → Action → Prop} (h : Run cfg sha1 ok bufs s)
    (k : Nat) : (s.io k).conns.length ≤ maxEvents := by
  apply h.invariant (I := fun s => (s.io k).conns.length ≤ maxEvents)
  · exact Nat.zero_le _
  · intro s a s' _ hold _ hstep
    rcases conns_step (k := k) (step_cases hstep) with hsub | ⟨batch, rfl, -, -, heq⟩
    · exact hsub.length_le.trans hold
    · have hfew : batch.length ≤ maxEvents := by
        simp only [step] at hstep
        split at hstep
        · unfold ioEpollWait at hstep
          split at hstep
          · next hroom => exact hroom.1
          · cases hstep
        · cases hstep
      rw [heq, List.length_map]
      exact (List.length_filterMap_le _ _).trans hfew

theorem work_le (h : ∀ c ∈ (s.io k).conns, Bounded cfg s c) :
    (s.io k).work cfg s ≤ eventMost cfg * (s.io k).conns.length := by
  have hpc : (s.io k).pc.work cfg s ≤ eventMost cfg * (s.io k).pc.conn.length := by
    have hb : ∀ c ∈ (s.io k).pc.conn, Bounded cfg s c :=
      fun c hc => h c (List.mem_append_left _ hc)
    revert hb
    generalize (s.io k).pc = pc
    intro hb
    cases pc with
    | request c | recv c | lockRequest c | deliver c =>
      have hwork := (hb c List.mem_cons_self).requestWork_le
      simp only [IoPc.work, IoPc.conn, List.length_singleton, Nat.mul_one, eventMost]
      omega
    | response c | send c | recycle c | lockResponse c | settle c =>
      have hwork := (hb c List.mem_cons_self).responseWork_le
      simp only [IoPc.work, IoPc.conn, List.length_singleton, Nat.mul_one, eventMost]
      omega
    | finish c input =>
      cases input with
      | true | false =>
        simp only [IoPc.work, IoPc.conn, List.length_singleton, Nat.mul_one, eventMost]
        omega
    | teardown c input =>
      simp only [IoPc.work, IoPc.conn, List.length_singleton, Nat.mul_one, eventMost]
      omega
    | wait | exited => exact Nat.zero_le _
  rw [IoWorker.conns, List.length_append, List.length_map, Nat.mul_add]
  exact Nat.add_le_add_right hpc _

/-- **A turn of an IO worker is bounded.** Between two calls of `epoll_wait` a worker takes at most
`eventMost` steps for each of the `MAX_EVENTS` events, however much the clients send and whatever
the other workers do meanwhile. -/
theorem turn_bounded (hio : 0 < cfg.load.maxIoSize) (hra : cfg.load.readahead < UInt32.size)
    {l : List (ServerContext × Action)} (hrun : Run cfg sha1 Orderly bufs s)
    (h : Path (step cfg sha1) (fun s a => Orderly s a ∧ a.polls k = false) s l s') :
    total (ownStep k) l ≤ eventMost cfg * maxEvents := by
  have hbounded : ∀ {s}, Run cfg sha1 Orderly bufs s → ∀ c ∈ (s.io k).conns, Bounded cfg s c := by
    intro s hr c hc
    have hinv := inv_of_run (fun _ _ => id) hr
    have hop := hinv.openAt_of_live ((hinv.workers k).live c hc)
    exact bounded_of_run hra hr hop.session hop.closed
  have hpot := h.potential (fun s => (s.io k).work cfg s) (ownStep k) (fun _ _ => 0) And.left
    (fun {s a s'} hr hok hstep => by
      have hinv := inv_of_run (fun _ _ => id) hr
      unfold ownStep
      split
      · next hk =>
        exact work_step hinv hio hra (hbounded hr) (hbounded (hr.tail hok.1 hstep)) hstep hk hok.2
      · next hk =>
        have hsame := work_other hinv (step_cases hstep) hk
        omega) hrun
  have hwork := work_le (hbounded hrun)
  have hfew := Nat.mul_le_mul_left (eventMost cfg) (conns_le_of_run hrun k)
  rw [total_zero] at hpot
  omega

/-- A worker reads two requests, and then has read ahead far enough. -/
def readTurn : List Action := .event 0 :: receiveOne ++ receiveOne ++ [.requestTop 0]

theorem turn_bounded_readTurn : ∃ s l s', Run smallServer zeroSha1 Orderly blankBuffers s ∧
    Path (step smallServer zeroSha1) (fun s a => Orderly s a ∧ a.polls 0 = false) s l s' ∧
    total (ownStep 0) l = 10 ∧ total (ownStep 0) l ≤ eventMost smallServer * maxEvents := by
  obtain ⟨s', hs'⟩ := Option.isSome_iff_exists.mp (by decide +kernel : ((run
    (step smallServer zeroSha1) Orderly (.init smallServer blankBuffers) (connect.take 3)).bind
      (run (step smallServer zeroSha1) (fun s a => Orderly s a ∧ a.polls 0 = false) ·
        readTurn)).isSome = true)
  obtain ⟨s, hs, hrest⟩ := Option.bind_eq_some_iff.mp hs'
  have hpath := path_of_run hrest
  have hrun : Run smallServer zeroSha1 Orderly blankBuffers s := reachable_of_run hs
  have hbound := turn_bounded (by decide) (by decide) hrun hpath
  have hcount : (run (step smallServer zeroSha1) Orderly (.init smallServer blankBuffers)
      (connect.take 3)).map (fun s => total (ownStep 0)
        (visited (step smallServer zeroSha1) s readTurn)) = some 10 := by decide +kernel
  rw [hs, Option.map_some, Option.some.injEq] at hcount
  exact ⟨s, _, s', hrun, hpath, hcount, hbound⟩

end Piotbench.Server
