import Piotbench.Server.Ownership

/-!
# Connection objects are parked once

An object is parked in `empty_connections` or with an accept worker, or it is in a session. Four
kinds of step move it: taking it, registering it, and the two that put it back.
-/

namespace Piotbench.Server

open Places

variable {cfg : ServerConfig} {sha1 : Sha1} {s s' : ServerContext}

theorem parked_congr (hempty : s'.emptyConnections = s.emptyConnections)
    (haccept : s'.accept = s.accept) : s'.parked = s.parked := by
  funext p
  cases p with
  | emptyConnections => exact hempty
  | accept a => exact congrArg (fun f => (f a).object) haccept

theorem inSession_congr (h : s'.parked = s.parked) {c : ConnId} :
    s'.InSession c ↔ s.InSession c :=
  ⟨fun hc => ⟨h ▸ hc.notParked⟩, fun hc => ⟨h ▸ hc.notParked⟩⟩

theorem ServerContext.InSession.same {c : ConnId} (hin : s.InSession c)
    (hempty : s'.emptyConnections = s.emptyConnections) (haccept : s'.accept = s.accept) :
    s'.InSession c :=
  (inSession_congr (parked_congr hempty haccept)).mpr hin

theorem exists_parked {c : ConnId} (h : ¬ s.InSession c) : ∃ p, c ∈ s.parked p := by
  by_contra hno
  exact h ⟨not_exists.mp hno⟩

theorem blank_congr {c : ConnId} (h : SameBuffers (s.conns c) (s'.conns c)) (hb : s.Blank c) :
    s'.Blank c where
  queue := h.sendQueue ▸ hb.queue
  bufs hcl := by
    rw [h.recvbuf, h.sendbuf]
    exact hb.bufs (h.closed ▸ hcl)

/-- A connection that is in a session is none of the parked ones. -/
theorem ServerContext.InSession.ne {c c' : ConnId} {p : Shelf} (hc : s.InSession c)
    (hc' : c' ∈ s.parked p) : c' ≠ c := by
  rintro rfl
  exact hc.notParked p hc'

theorem mem_parked_took {a : Nat} {c : ConnId} (hpc : s.accept a = .took c) :
    c ∈ s.parked (.accept a) := by
  simp [ServerContext.parked, hpc, AcceptPc.object]

/-! ## Steps that move no object -/

/-- No object moves, and parked objects keep their buffers. -/
theorem Parked.frame (h : Parked s) (hp : s'.parked = s.parked)
    (haccept : ∀ a c, s'.accept a = .took c → s.accept a = .took c)
    (hc : ∀ p, ∀ c ∈ s.parked p, SameBuffers (s.conns c) (s'.conns c))
    (hd : ∀ c, (s'.conns c).closed = true → (s'.conns c).sendQueue = []) : Parked s' where
  exclusive := hp ▸ h.exclusive
  blank p c hpc := by
    rw [hp] at hpc
    exact blank_congr (hc p c hpc) (h.blank p c hpc)
  fresh a c hpc := by
    have hpc := haccept a c hpc
    rw [(hc _ c (mem_parked_took hpc)).sendbuf]
    exact h.fresh a c hpc
  drained := hd

/-- At most connection `c` changes: it keeps its buffers, or it is in a session. -/
theorem Parked.update (h : Parked s) {c : ConnId} {conn : ServerConnection}
    (hempty : s'.emptyConnections = s.emptyConnections) (haccept : s'.accept = s.accept)
    (hconns : s'.conns = Function.update s.conns c conn)
    (hc : SameBuffers (s.conns c) conn ∨
      s.InSession c ∧ (conn.closed = true → conn.sendQueue = [])) : Parked s' := by
  refine h.frame (parked_congr hempty haccept) (by simp [haccept]) ?_ ?_
  · intro p c' hc'
    rw [hconns]
    rcases hc with hsame | ⟨hin, -⟩
    · exact sameBuffers_update hsame c'
    · rw [Function.update_of_ne (hin.ne hc')]
      exact .refl _
  · intro c' hcl
    rw [hconns] at hcl ⊢
    by_cases hcc : c' = c
    · subst hcc
      rw [Function.update_self] at hcl ⊢
      rcases hc with hsame | ⟨-, hd⟩
      · rw [hsame.sendQueue]
        exact h.drained c' (hsame.closed ▸ hcl)
      · exact hd hcl
    · rw [Function.update_of_ne hcc] at hcl ⊢
      exact h.drained c' hcl

theorem Parked.same (h : Parked s) (hempty : s'.emptyConnections = s.emptyConnections)
    (haccept : s'.accept = s.accept) (hconns : s'.conns = s.conns) : Parked s' :=
  h.frame (parked_congr hempty haccept) (by simp [haccept]) (fun _ _ _ => hconns ▸ .refl _)
    (hconns ▸ h.drained)

theorem parked_refused {a : Nat} {c : ConnId} (hpc : s.accept a = .took c) :
    { s with accept := Function.update s.accept a (.failed c) }.parked = s.parked := by
  funext p
  cases p <;> simp [ServerContext.parked, Function.update_apply]
  grind [AcceptPc.object]

/-! ## Steps that move an object -/

theorem parked_acceptTake {a : Nat} {c : ConnId} {rest : List ConnId} (hpc : s.accept a = .idle)
    (hq : s.emptyConnections = c :: rest) :
    { s with emptyConnections := rest, accept := Function.update s.accept a (.took c) }.parked
      = move s.parked c .emptyConnections (.accept a) := by
  funext p
  cases p <;> simp [ServerContext.parked, move, Function.update_apply] <;> grind [AcceptPc.object]

/-- Taking an object from the pool leaves the same objects parked. -/
theorem inSession_acceptTake {a : Nat} {c c' : ConnId} {rest : List ConnId}
    (hpc : s.accept a = .idle) (hq : s.emptyConnections = c :: rest) :
    { s with
      emptyConnections := rest
      accept := Function.update s.accept a (.took c) }.InSession c' ↔ s.InSession c' := by
  have ht := move_transfer (p := Shelf.emptyConnections) (q := .accept a) (t := c) (by simp)
    (by simp [ServerContext.parked, hq] : c ∈ s.parked .emptyConnections)
  have hmem := ht.mem_iff c'
  rw [← parked_acceptTake hpc hq] at hmem
  constructor
  · intro h
    by_contra hno
    obtain ⟨p, hp⟩ := hmem.mpr (exists_parked hno)
    exact h.notParked p hp
  · intro h
    by_contra hno
    obtain ⟨p, hp⟩ := hmem.mp (exists_parked hno)
    exact h.notParked p hp

theorem Parked.acceptTake (h : Parked s) {a : Nat} {c : ConnId} {rest : List ConnId}
    (hpc : s.accept a = .idle) (hq : s.emptyConnections = c :: rest)
    (hclean : (s.conns c).sendbuf = none) :
    Parked { s with
      emptyConnections := rest
      accept := Function.update s.accept a (.took c) } where
  exclusive := by
    rw [parked_acceptTake hpc hq]
    exact (move_transfer (by simp) (by simp [ServerContext.parked, hq])).exclusive h.exclusive
  blank p c' hc' := by
    have hno : ¬ s.InSession c' := fun hin =>
      ((inSession_acceptTake hpc hq).mpr hin).notParked p hc'
    obtain ⟨q, hq'⟩ := exists_parked hno
    have hb := h.blank q c' hq'
    exact ⟨hb.queue, hb.bufs⟩
  fresh a' c' hpc' := by
    simp only [Function.update_apply] at hpc'
    split at hpc'
    · cases hpc'
      exact hclean
    · exact h.fresh a' c' hpc'
  drained := h.drained

/-- The object that an accept worker gives up leaves the parked ones; nothing else moves. -/
theorem parked_accepted_sublist {a : Nat} {pc : AcceptPc} {c : ConnId}
    (hpc : s.accept a = .took c) (hpc' : pc = .idle ∨ pc = .failed c)
    (hempty : s'.emptyConnections = s.emptyConnections)
    (haccept : s'.accept = Function.update s.accept a pc) (p : Shelf) :
    (s'.parked p).Sublist (s.parked p) := by
  cases p with
  | emptyConnections => simp [ServerContext.parked, hempty]
  | accept a' =>
    simp only [ServerContext.parked, haccept, Function.update_apply]
    split
    · next ha =>
      subst ha
      rcases hpc' with rfl | rfl <;> simp [hpc, AcceptPc.object]
    · exact List.Sublist.refl _

theorem ServerContext.InSession.accepted {a : Nat} {pc : AcceptPc} {c c' : ConnId}
    (hin : s.InSession c') (hpc : s.accept a = .took c) (hpc' : pc = .idle ∨ pc = .failed c)
    (hempty : s'.emptyConnections = s.emptyConnections)
    (haccept : s'.accept = Function.update s.accept a pc) : s'.InSession c' :=
  ⟨fun p hp => hin.notParked p ((parked_accepted_sublist hpc hpc' hempty haccept p).subset hp)⟩

/-- After `handle_accept` the sessions are those from before and, when it succeeded, the new one. -/
theorem ServerContext.InSession.of_accepted {a : Nat} {pc : AcceptPc} {c c' : ConnId}
    (hin : s'.InSession c') (hpc : s.accept a = .took c) (hpc' : pc = .idle ∨ pc = .failed c)
    (hempty : s'.emptyConnections = s.emptyConnections)
    (haccept : s'.accept = Function.update s.accept a pc) :
    s.InSession c' ∨ c' = c ∧ pc = .idle := by
  by_contra hno
  obtain ⟨hno, hnew⟩ := not_or.mp hno
  obtain ⟨p, hp⟩ := exists_parked hno
  by_cases hcc : c' = c
  · subst hcc
    rcases hpc' with rfl | rfl
    · exact hnew ⟨rfl, rfl⟩
    · exact hin.notParked (.accept a) (by simp [ServerContext.parked, haccept, AcceptPc.object])
  · apply hin.notParked p
    cases p with
    | emptyConnections => simpa [ServerContext.parked, hempty] using hp
    | accept a' =>
      have ha : a' ≠ a := by
        rintro rfl
        exact hcc (by simpa [ServerContext.parked, hpc, AcceptPc.object] using hp)
      simpa [ServerContext.parked, haccept, ha] using hp

/-- A worker that has given up its object has left it to the session. -/
theorem inSession_self {a : Nat} {c : ConnId} (hx : Exclusive s.parked)
    (hpc : s.accept a = .took c) (hempty : s'.emptyConnections = s.emptyConnections)
    (haccept : s'.accept = Function.update s.accept a .idle) : s'.InSession c := by
  refine ⟨fun p hin => ?_⟩
  have hold := (parked_accepted_sublist hpc (.inl rfl) hempty haccept p).subset hin
  have hp := hx.unique hold (mem_parked_took hpc)
  subst hp
  simp [ServerContext.parked, haccept, AcceptPc.object] at hin

/-- `handle_accept` ends: the object is in a session, or stays with the worker after an error. -/
theorem Parked.accepted (h : Parked s) {a : Nat} {c : ConnId} {conn : ServerConnection}
    {pc : AcceptPc} (hpc : s.accept a = .took c) (hpc' : pc = .idle ∨ pc = .failed c)
    (hempty : s'.emptyConnections = s.emptyConnections)
    (haccept : s'.accept = Function.update s.accept a pc)
    (hconns : s'.conns = Function.update s.conns c conn)
    (hsend : conn.sendbuf = none) (hrecv : conn.recvbuf = none) (hqueue : conn.sendQueue = []) :
    Parked s' where
  exclusive := h.exclusive.sublist (parked_accepted_sublist hpc hpc' hempty haccept)
  blank p c' hc' := by
    by_cases hcc : c' = c
    · subst hcc
      exact ⟨by simp [hconns, hqueue], fun _ => by simp [hconns, hrecv, hsend]⟩
    · have hold := (parked_accepted_sublist hpc hpc' hempty haccept p).subset hc'
      exact blank_congr (by simpa [hconns, hcc] using .refl _) (h.blank p c' hold)
  fresh a' c' hpc'' := by
    by_cases ha : a' = a
    · subst ha
      rw [haccept, Function.update_self] at hpc''
      rcases hpc' with rfl | rfl <;> cases hpc''
    · rw [haccept, Function.update_of_ne ha] at hpc''
      have hcc : c' ≠ c := by
        apply h.exclusive.ne (mem_parked_took hpc'') (mem_parked_took hpc)
        simpa using ha
      rw [hconns, Function.update_of_ne hcc]
      exact h.fresh a' c' hpc''
  drained c' hcl := by
    by_cases hcc : c' = c
    · subst hcc
      simp [hconns, hqueue]
    · rw [hconns, Function.update_of_ne hcc] at hcl ⊢
      exact h.drained c' hcl

section Release

variable {c : ConnId} (hempty : s'.emptyConnections = s.emptyConnections ++ [c])
  (haccept : s'.accept = s.accept)

include hempty haccept

theorem parked_release :
    s'.parked = Function.update s.parked .emptyConnections (s.parked .emptyConnections ++ [c]) := by
  funext p
  cases p <;> simp [ServerContext.parked, hempty, haccept]

theorem inSession_release {c' : ConnId} : s'.InSession c' ↔ s.InSession c' ∧ c' ≠ c := by
  have hp := parked_release hempty haccept
  constructor
  · intro h
    refine ⟨⟨fun p hin => h.notParked p ?_⟩, ?_⟩
    · by_cases hpe : p = .emptyConnections
      · subst hpe
        rw [hp, Function.update_self]
        exact List.mem_append_left _ hin
      · rwa [hp, Function.update_of_ne hpe]
    · rintro rfl
      exact h.notParked .emptyConnections (by simp [hp])
  · rintro ⟨h, hne⟩
    refine ⟨fun p hin => ?_⟩
    by_cases hpe : p = .emptyConnections
    · subst hpe
      rw [hp, Function.update_self, List.mem_append, List.mem_singleton] at hin
      exact hin.elim (h.notParked _) hne
    · rw [hp, Function.update_of_ne hpe] at hin
      exact h.notParked p hin

/-- The object of a session that is closed goes back to `empty_connections`. -/
theorem Parked.release {conn : ServerConnection} (h : Parked s) (hin : s.InSession c)
    (hconns : s'.conns = Function.update s.conns c conn) (hcl : conn.closed = true)
    (hqueue : conn.sendQueue = []) : Parked s' where
  exclusive := by
    rw [parked_release hempty haccept]
    exact h.exclusive.give hin.notParked _
  blank p c' hc' := by
    by_cases hcc : c' = c
    · subst hcc
      exact ⟨by simp [hconns, hqueue], fun hop => by simp [hconns, hcl] at hop⟩
    · have hno : ¬ s.InSession c' := fun hin' =>
        ((inSession_release hempty haccept).mpr ⟨hin', hcc⟩).notParked p hc'
      obtain ⟨q, hq⟩ := exists_parked hno
      exact blank_congr (by simpa [hconns, hcc] using .refl _) (h.blank q c' hq)
  fresh a c' hpc := by
    rw [haccept] at hpc
    rw [hconns, Function.update_of_ne (hin.ne (mem_parked_took hpc))]
    exact h.fresh a c' hpc
  drained c' hcl' := by
    by_cases hcc : c' = c
    · subst hcc
      simp [hconns, hqueue]
    · rw [hconns, Function.update_of_ne hcc] at hcl' ⊢
      exact h.drained c' hcl'

end Release

theorem ServerContext.InSession.release {c c' : ConnId} (hin : s.InSession c') (hne : c' ≠ c)
    (hempty : s'.emptyConnections = s.emptyConnections ++ [c]) (haccept : s'.accept = s.accept) :
    s'.InSession c' :=
  (inSession_release hempty haccept).mpr ⟨hin, hne⟩

theorem ServerContext.InSession.of_release {c c' : ConnId} (hin : s'.InSession c')
    (hempty : s'.emptyConnections = s.emptyConnections ++ [c]) (haccept : s'.accept = s.accept) :
    s.InSession c' ∧ c' ≠ c :=
  (inSession_release hempty haccept).mp hin

/-! ## The step lemma -/

/-- **One step keeps connection objects parked at most once, and blank while they are.** -/
theorem parked_step {a : Action} (h : Inv cfg s) (ho : Orderly s a) (hs : Step cfg sha1 s a s') :
    Parked s' := by
  have hp := h.parked
  cases hs with
  | stay | ioLocal | epollWait | recycle | recvData | sendPart | computeGet | computeRun
  | submitGet | submitRefused | submitBack | submitNext => exact hp.same rfl rfl rfl
  | @acceptTake a c rest hpc hq =>
    exact hp.acceptTake hpc hq (ho.sendbuf hq)
  | @acceptRefused a c ok hpc =>
    refine hp.frame (parked_refused hpc) ?_ (fun _ _ _ => .refl _) hp.drained
    · intro a' c' hpc'
      by_cases ha : a' = a
      · subst ha
        simp at hpc'
      · simpa [ha] using hpc'
  | @accepted a c fd ok hpc _ _ _ _ kern err =>
    exact hp.accepted hpc (by cases err <;> simp) rfl rfl rfl (hp.fresh a c hpc) rfl rfl
  | ioLock | settleKeep | settleDisarm | submitLock | dispose =>
    exact hp.update rfl rfl rfl (.inl ⟨rfl, rfl, rfl, rfl⟩)
  | @dequeue k c input b rest hpc | @sendLast k c input b n hpc | @takeBuffer k c b rest hpc
  | @deliver k c b hpc =>
    have hop := h.openAt (k := k) (c := c) (by simp [hpc, IoPc.conn])
    exact hp.update rfl rfl rfl (.inr ⟨hop.session, by simp [hop.closed]⟩)
  | @enqueue j b c ok hpc hcl =>
    have hin := (h.submitHand (congrArg SubmitPc.carried hpc)).1
    exact hp.update rfl rfl rfl (.inr ⟨hin, by simp [hcl]⟩)
  | @finishRelease k c input hpc =>
    have hop := h.openAt (k := k) (c := c) (by simp [hpc, IoPc.conn])
    exact hp.release rfl rfl hop.session rfl rfl rfl
  | @finishDelegate k c input hpc =>
    have hop := h.openAt (k := k) (c := c) (by simp [hpc, IoPc.conn])
    exact hp.update rfl rfl rfl (.inr ⟨hop.session, by simp⟩)
  | @submitRelease j c hpc =>
    -- `finish_connection` has left the object to the submitter
    obtain ⟨hin, hcl, -⟩ := h.inFlight.compare j c hpc
    exact hp.release rfl rfl hin (Function.update_eq_self c s.conns).symm hcl (hp.drained c hcl)

/-! ## What a step does to a session -/

/-- Action `a` puts the object of connection `c` back. -/
def Released (s : ServerContext) (c : ConnId) : Action → Prop
  | .finishBody k => (∃ input, (s.io k).pc = .teardown c input) ∧
      (s.conns c).sent + (s.conns c).sendQueue.length = (s.conns c).received
  | .submitCompare j => s.submit j = .compare c ∧ (s.conns c).processed = (s.conns c).received
  | _ => False

theorem IoMove.not_released {k : Nat} {c c' : ConnId} {a : Action} {pc pc' : IoPc}
    (h : IoMove cfg s k c pc a pc') : ¬ Released s c' a := by
  cases h <;> exact id

theorem IoLocal.not_released {k : Nat} {c : ConnId} {a : Action} {w : IoWorker}
    (h : IoLocal cfg s k a w) : ¬ Released s c a := by
  cases h with
  | fail | dispatch => exact id
  | move hm => exact hm.not_released

/-- Connection `c` stays in its session, with the workers and the descriptor it has. -/
structure Keeps (s s' : ServerContext) (c : ConnId) : Prop where
  session : s'.InSession c
  fd : (s'.conns c).fd = (s.conns c).fd
  ioidx : (s'.conns c).ioidx = (s.conns c).ioidx
  submitidx : (s'.conns c).submitidx = (s.conns c).submitidx
  computeidx : (s'.conns c).computeidx = (s.conns c).computeidx
  epollFd : (s'.conns c).epollFd = (s.conns c).epollFd

/-- Two states of one object that agree on what a session keeps. -/
structure SameWorkers (conn conn' : ServerConnection) : Prop where
  fd : conn'.fd = conn.fd
  ioidx : conn'.ioidx = conn.ioidx
  submitidx : conn'.submitidx = conn.submitidx
  computeidx : conn'.computeidx = conn.computeidx
  epollFd : conn'.epollFd = conn.epollFd

theorem Keeps.update {c c' : ConnId} {conn : ServerConnection} (hin : s'.InSession c')
    (hconns : s'.conns = Function.update s.conns c conn) (hc : SameWorkers (s.conns c) conn) :
    Keeps s s' c' := by
  by_cases hcc : c' = c
  · subst hcc
    constructor <;> simp [hconns, hc.fd, hc.ioidx, hc.submitidx, hc.computeidx, hc.epollFd, hin]
  · constructor <;> simp [hconns, hcc, hin]

theorem Keeps.same {c : ConnId} (hin : s'.InSession c) (hconns : s'.conns = s.conns) :
    Keeps s s' c := by
  constructor <;> simp [hconns, hin]

/-- **A session goes on** until its object is put back. -/
theorem keeps_step {a : Action} {c : ConnId} (hs : Step cfg sha1 s a s')
    (hin : s.InSession c) (hrel : ¬ Released s c a) : Keeps s s' c := by
  cases hs with
  | stay => exact .same hin rfl
  | ioLocal | epollWait | recycle | recvData | sendPart | computeGet | computeRun
  | submitGet | submitRefused | submitBack | submitNext =>
    exact .same (hin.same rfl rfl) rfl
  | acceptTake hpc hq => exact .same ((inSession_acceptTake hpc hq).mpr hin) rfl
  | acceptRefused hpc => exact .same ((inSession_congr (parked_refused hpc)).mpr hin) rfl
  | @accepted a c' fd ok hpc _ _ _ _ kern err =>
    have hne : c ≠ c' := (hin.ne (mem_parked_took hpc)).symm
    refine ⟨hin.accepted hpc (by cases err <;> simp) rfl rfl, ?_, ?_, ?_, ?_, ?_⟩ <;> simp [hne]
  | ioLock | settleKeep | settleDisarm | submitLock | dispose | dequeue | sendLast | takeBuffer
  | deliver | enqueue | finishDelegate =>
    exact .update (hin.same rfl rfl) rfl ⟨rfl, rfl, rfl, rfl, rfl⟩
  | @finishRelease k c' input hpc heq =>
    have hne : c ≠ c' := by
      rintro rfl
      exact hrel ⟨⟨input, hpc⟩, heq⟩
    exact .update (hin.release hne rfl rfl) rfl ⟨rfl, rfl, rfl, rfl, rfl⟩
  | @submitRelease j c' hpc heq =>
    have hne : c ≠ c' := by
      rintro rfl
      exact hrel ⟨hpc, heq⟩
    exact .same (hin.release hne rfl rfl) rfl

theorem Released.not_inSession {a : Action} {c : ConnId} (hrel : Released s c a)
    (hs : Step cfg sha1 s a s') : ¬ s'.InSession c := by
  intro hin
  cases hs with
  | stay ha => rcases ha with ⟨_, rfl⟩ | ⟨_, rfl⟩ | ⟨_, rfl⟩ <;> exact hrel
  | ioLocal hl => exact hl.not_released hrel
  | ioLock _ hio =>
    rcases ioLock_action hio with rfl | rfl | rfl <;> exact hrel
  | @finishRelease k c' input hpc =>
    obtain ⟨⟨input', hpc'⟩, -⟩ := hrel
    rw [hpc] at hpc'
    cases hpc'
    exact (hin.of_release rfl rfl).2 rfl
  | @finishDelegate k c' input hpc hne =>
    obtain ⟨⟨input', hpc'⟩, heq⟩ := hrel
    rw [hpc] at hpc'
    cases hpc'
    exact hne heq
  | @submitRelease j c' hpc =>
    obtain ⟨hpc', -⟩ := hrel
    rw [hpc] at hpc'
    cases hpc'
    exact (hin.of_release rfl rfl).2 rfl
  | @submitNext j c' hpc hne =>
    obtain ⟨hpc', heq⟩ := hrel
    rw [hpc] at hpc'
    cases hpc'
    exact hne heq
  | _ => exact hrel

/-- A session was there before the step, or `handle_accept` has just begun it. -/
theorem session_back {a : Action} {c : ConnId} (hs : Step cfg sha1 s a s')
    (hin : s'.InSession c) :
    s.InSession c ∨ ∃ w fd ok, a = .acceptInit w (some fd) ok ∧ s.accept w = .took c := by
  cases hs with
  | stay => exact .inl hin
  | ioLocal | epollWait | recycle | recvData | sendPart | computeGet | computeRun
  | submitGet | submitRefused | submitBack | submitNext | ioLock | settleKeep | settleDisarm
  | submitLock | dispose | dequeue | sendLast | takeBuffer | deliver | enqueue | finishDelegate =>
    exact .inl (hin.same rfl rfl)
  | acceptTake hpc hq => exact .inl ((inSession_acceptTake hpc hq).mp hin)
  | acceptRefused hpc => exact .inl ((inSession_congr (parked_refused hpc)).mp hin)
  | @accepted w c' fd ok hpc _ _ _ _ kern err =>
    have hpc' : (if err then AcceptPc.failed c' else .idle) = .idle ∨
        (if err then AcceptPc.failed c' else .idle) = .failed c' := by cases err <;> simp
    rcases hin.of_accepted hpc hpc' rfl rfl with hold | ⟨rfl, -⟩
    · exact .inl hold
    · exact .inr ⟨w, fd, ok, rfl, hpc⟩
  | finishRelease | submitRelease => exact .inl (hin.of_release rfl rfl).1

end Piotbench.Server
