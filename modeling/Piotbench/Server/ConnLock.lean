import Piotbench.Lib.Lock
import Piotbench.Server.Reuse

/-!
# The lock of a connection

`conn->lock` is taken by the connection's IO worker and by its submitter. In every orderly run the
word is set exactly while one of them stands in a section under it (`sections_exclusive`), except
in an object that has been released with its lock held. Who finds it taken does not find it taken
for good: the other thread stands in its section, can go on, and frees the lock with its next step
(`lock_freed_next`).
-/

namespace Piotbench.Server

open Lock Transition

variable {cfg : ServerConfig} {sha1 : Sha1} {bufs : BufId → ServerBuffer} {s s' : ServerContext}
  {a : Action} {c : ConnId}

/-- The threads that take the lock of a connection. -/
inductive Locker
  | io (k : Nat)
  | submit (j : Nat)
  deriving DecidableEq

/-- The connection in whose section an IO worker stands. -/
def IoPc.held : IoPc → Option ConnId
  | .settle c _ | .deliver c _ | .teardown c _ => some c
  | .wait | .response _ _ | .send _ _ _ | .recycle _ _ _ | .lockResponse _ _ | .request _
  | .recv _ _ | .lockRequest _ _ | .finish _ _ | .exited => none

/-- The connection in whose section a submitter stands. -/
def SubmitPc.held : SubmitPc → Option ConnId
  | .locked _ c => some c
  | .idle | .got _ _ | .refused _ _ | .compare _ | .exited => none

/-- An IO worker in a section is handling the connection. -/
theorem IoPc.conn_of_held {pc : IoPc} {c : ConnId} (h : pc.held = some c) : c ∈ pc.conn := by
  cases pc <;> simp_all [IoPc.held, IoPc.conn]

def ServerContext.held (s : ServerContext) : Locker → Option ConnId
  | .io k => (s.io k).pc.held
  | .submit j => (s.submit j).held

/-- `conn->lock`. -/
def ServerContext.lockOf (s : ServerContext) (c : ConnId) : Bool := (s.conns c).lock

/-! ## What a step does to the locks -/

/-- A step leaves the locks alone, begins a session with a free lock, takes a lock, or gives one
back. A lock that is given back set is that of an object that is released. -/
inductive LockMove (s s' : ServerContext) : Prop
  | same (hheld : s'.held = s.held) (hlock : s'.lockOf = s.lockOf)
  | begin {w : Nat} {c : ConnId} (hpc : s.accept w = .took c) (hheld : s'.held = s.held)
      (hlock : s'.lockOf = Function.update s.lockOf c false)
  | take {t : Locker} {c : ConnId} (hfree : s.lockOf c = false) (ht : s.held t = none)
      (hheld : s'.held = Function.update s.held t (some c))
      (hlock : s'.lockOf = Function.update s.lockOf c true)
  | give {t : Locker} {c : ConnId} {b : Bool} (ht : s.held t = some c)
      (hheld : s'.held = Function.update s.held t none)
      (hlock : s'.lockOf = Function.update s.lockOf c b) (hb : b = true → ¬s'.InSession c)

theorem lockOf_update {conn : ServerConnection} {b : Bool}
    (h : s'.conns = Function.update s.conns c conn) (hb : conn.lock = b) :
    s'.lockOf = Function.update s.lockOf c b := by
  subst hb
  funext c'
  by_cases hc : c' = c
  · subst hc
    simp [ServerContext.lockOf, h]
  · simp [ServerContext.lockOf, h, hc]

theorem lockOf_keep {conn : ServerConnection} (h : s'.conns = Function.update s.conns c conn)
    (hlock : conn.lock = (s.conns c).lock) : s'.lockOf = s.lockOf := by
  rw [lockOf_update h hlock]
  exact Function.update_eq_self c s.lockOf

theorem held_io {k : Nat} {w : IoWorker} {o : Option ConnId}
    (hio : s'.io = Function.update s.io k w) (hsubmit : s'.submit = s.submit)
    (ho : w.pc.held = o) : s'.held = Function.update s.held (.io k) o := by
  subst ho
  funext t
  cases t with
  | io k' =>
    by_cases hk : k' = k
    · subst hk
      simp [ServerContext.held, hio]
    · simp [ServerContext.held, hio, hk]
  | submit j => simp [ServerContext.held, hsubmit]

theorem held_submit {j : Nat} {pc : SubmitPc} {o : Option ConnId}
    (hsubmit : s'.submit = Function.update s.submit j pc) (hio : s'.io = s.io)
    (ho : pc.held = o) : s'.held = Function.update s.held (.submit j) o := by
  subst ho
  funext t
  cases t with
  | io k => simp [ServerContext.held, hio]
  | submit j' =>
    by_cases hj : j' = j
    · subst hj
      simp [ServerContext.held, hsubmit]
    · simp [ServerContext.held, hsubmit, hj]

/-- A thread that stays outside of every section. -/
theorem held_same {t : Locker} {o : Option ConnId} (h : s'.held = Function.update s.held t o)
    (ho : o = s.held t) : s'.held = s.held := by
  rw [h, ho, Function.update_eq_self]

theorem held_afterResponse (c : ConnId) (input : Bool) :
    (IoPc.afterResponse c input).held = none := by
  cases input <;> rfl

theorem held_dispatch (c : ConnId) (events : EpollMask) : (IoPc.dispatch c events).held = none := by
  unfold IoPc.dispatch
  split
  · rfl
  · split
    · rfl
    · split <;> rfl

theorem IoMove.held {k : Nat} {pc pc' : IoPc} (h : IoMove cfg s k c pc a pc') :
    pc.held = none ∧ pc'.held = none := by
  cases h with
  | noResponse | sendAgain | finishRefused => exact ⟨rfl, held_afterResponse _ _⟩
  | _ => exact ⟨rfl, rfl⟩

theorem IoLocal.held {k : Nat} {w : IoWorker} (h : IoLocal cfg s k a w) :
    w.pc.held = s.held (.io k) := by
  show w.pc.held = (s.io k).pc.held
  cases h with
  | fail hw => rw [hw]; rfl
  | dispatch hw =>
    rw [hw]
    exact held_dispatch _ _
  | move hm => rw [hm.held.1, hm.held.2]

/-- **The cases of a step**, as far as locks go. -/
theorem lock_cases (hs : Step cfg sha1 s a s') : LockMove s s' := by
  cases hs with
  | stay | acceptTake | acceptRefused | computeGet | computeRun => exact .same rfl rfl
  | ioLocal hl => exact .same (held_same (held_io rfl rfl rfl) hl.held) rfl
  | @epollWait k batch hw =>
    refine .same (held_same (held_io rfl rfl rfl) ?_) rfl
    simp [ServerContext.held, hw]
  | accepted hpc => exact .begin hpc rfl (lockOf_update rfl rfl)
  | @ioLock k c a pc' hfree hpc =>
    have hheld : (s.io k).pc.held = none ∧ pc'.held = some c := by
      rcases hpc with ⟨_, hw, rfl, -⟩ | ⟨_, hw, rfl, -⟩ | ⟨_, hw, rfl, -⟩ <;> rw [hw] <;>
        exact ⟨rfl, rfl⟩
    exact .take (t := .io k) hfree hheld.1 (held_io rfl rfl hheld.2) (lockOf_update rfl rfl)
  | @dequeue k c input b rest hpc =>
    refine .same (held_same (held_io rfl rfl rfl) ?_) (lockOf_keep rfl rfl)
    simp [ServerContext.held, hpc, IoPc.held]
  | @sendPart k c input b n pc' hpc _ _ hpc' =>
    refine .same (held_same (held_io rfl rfl rfl) ?_) rfl
    simp only [ServerContext.held, hpc, IoPc.held]
    rcases hpc' with rfl | rfl
    · exact held_afterResponse _ _
    · rfl
  | @sendLast k c input b n hpc =>
    refine .same (held_same (held_io rfl rfl rfl) ?_) (lockOf_keep rfl rfl)
    simp [ServerContext.held, hpc, IoPc.held]
  | @recycle k c input b hpc =>
    refine .same (held_same (held_io rfl rfl rfl) ?_) rfl
    simp [ServerContext.held, hpc, IoPc.held]
  | @settleKeep k c input ok hpc =>
    refine .give (t := .io k) (b := false) ?_ (held_io rfl rfl rfl) (lockOf_update rfl rfl)
      (by simp)
    simp [ServerContext.held, hpc, IoPc.held]
  | @settleDisarm k c input ok hpc _ kern err =>
    refine .give (t := .io k) (b := false) ?_ (held_io rfl rfl ?_) (lockOf_update rfl rfl) (by simp)
    · simp [ServerContext.held, hpc, IoPc.held]
    · cases err <;> rfl
  | @takeBuffer k c b rest hpc =>
    refine .same (held_same (held_io rfl rfl rfl) ?_) (lockOf_keep rfl rfl)
    simp [ServerContext.held, hpc, IoPc.held]
  | @recvData k c b bytes hpc =>
    refine .same (held_same (held_io rfl rfl rfl) ?_) rfl
    simp only [ServerContext.held, hpc]
    by_cases hleft : (s.bufs b).left - bytes.length = 0
    · rw [if_pos hleft]
      rfl
    · rw [if_neg hleft]
      rfl
  | @deliver k c b hpc =>
    refine .give (t := .io k) (b := false) ?_ (held_io rfl rfl rfl) (lockOf_update rfl rfl)
      (by simp)
    simp [ServerContext.held, hpc, IoPc.held]
  | @finishRelease k c input hpc =>
    refine .give (t := .io k) (b := true) ?_ (held_io rfl rfl (held_afterResponse c input))
      (lockOf_update rfl rfl) ?_
    · simp [ServerContext.held, hpc, IoPc.held]
    · intro _ hin
      exact (hin.of_release rfl rfl).2 rfl
  | @finishDelegate k c input hpc =>
    refine .give (t := .io k) (b := false) ?_ (held_io rfl rfl (held_afterResponse c input))
      (lockOf_update rfl rfl) (by simp)
    simp [ServerContext.held, hpc, IoPc.held]
  | @submitGet j b rest hpc =>
    refine .same (held_same (held_submit rfl rfl rfl) ?_) rfl
    simp [ServerContext.held, hpc, SubmitPc.held]
  | @submitRefused j b c hpc | @submitBack j b c hpc =>
    refine .same (held_same (held_submit rfl rfl rfl) ?_) rfl
    simp [ServerContext.held, hpc, SubmitPc.held]
  | @submitLock j b c hpc hfree =>
    refine .take (t := .submit j) hfree ?_ (held_submit rfl rfl rfl) (lockOf_update rfl rfl)
    simp [ServerContext.held, hpc, SubmitPc.held]
  | @dispose j b c ok hpc =>
    refine .give (t := .submit j) (b := false) ?_ (held_submit rfl rfl rfl) (lockOf_update rfl rfl)
      (by simp)
    simp [ServerContext.held, hpc, SubmitPc.held]
  | @enqueue j b c ok hpc _ kern err =>
    refine .give (t := .submit j) (b := false) ?_ (held_submit rfl rfl ?_) (lockOf_update rfl rfl)
      (by simp)
    · simp [ServerContext.held, hpc, SubmitPc.held]
    · cases err <;> rfl
  | @submitRelease j c hpc | @submitNext j c hpc =>
    refine .same (held_same (held_submit rfl rfl rfl) ?_) rfl
    simp [ServerContext.held, hpc, SubmitPc.held]

/-! ## Who holds a lock -/

/-- The lock word stands for the threads in their sections. -/
structure LockOk (s : ServerContext) : Prop where
  guards : ∀ c, Guards (s.lockOf c) s.held (· = some c)
  taken : ∀ c, s.InSession c → s.lockOf c = true → ∃ t, s.held t = some c

/-- A lock is only held on a connection that is in a session. -/
theorem Inv.held_session (h : Inv cfg s) {t : Locker} (ht : s.held t = some c) :
    s.InSession c := by
  cases t with
  | io k => exact (h.openAt (IoPc.conn_of_held ht)).session
  | submit j =>
    simp only [ServerContext.held] at ht
    cases hpc : s.submit j with
    | locked b c' =>
      rw [hpc] at ht
      cases ht
      exact (h.submitHand (congrArg SubmitPc.carried hpc)).1
    | idle | got | refused | compare | exited =>
      rw [hpc] at ht
      cases ht

theorem lockOk_init (cfg : ServerConfig) (bufs : BufId → ServerBuffer) :
    LockOk (.init cfg bufs) where
  guards c := by
    apply Guards.of_outside
    intro t ht
    cases t <;> cases ht
  taken c _ hl := by cases hl

/-- **One step** leaves the lock words to the threads in their sections. -/
theorem lockOk_step (h : Inv cfg s) (hok : LockOk s) (hs : Step cfg sha1 s a s') : LockOk s' where
  guards c := by
    cases lock_cases hs with
    | same hheld hlock =>
      rw [hheld, hlock]
      exact hok.guards c
    | @begin w c₀ hpc hheld hlock =>
      rw [hheld, hlock]
      by_cases hc : c = c₀
      · subst hc
        apply Guards.of_outside
        intro t ht
        exact (h.held_session ht).notParked _ (mem_parked_took hpc)
      · rw [Function.update_of_ne hc]
        exact hok.guards c
    | @take t c₀ hfree ht hheld hlock =>
      rw [hheld, hlock]
      refine Guards.enterAt hok.guards hfree ?_ ?_ c
      · intro q hq
        rw [ht] at hq
        cases hq
      · intro q hq
        exact (Option.some.inj hq).symm
    | @give t c₀ b ht hheld hlock =>
      rw [hheld, hlock]
      refine Guards.leaveAt hok.guards ht ?_ ?_ c
      · intro q hq
        exact Option.some.inj (hq.symm.trans ht)
      · intro q hq
        cases hq
  taken c hin' hl := by
    rcases session_back hs hin' with hin | ⟨w, fd, ok, rfl, hpc⟩
    · cases lock_cases hs with
      | same hheld hlock =>
        rw [hlock] at hl
        rw [hheld]
        exact hok.taken c hin hl
      | @begin w c₀ hpc hheld hlock =>
        have hc : c ≠ c₀ := (hin.ne (mem_parked_took hpc)).symm
        rw [hlock, Function.update_of_ne hc] at hl
        rw [hheld]
        exact hok.taken c hin hl
      | @take t c₀ hfree ht hheld hlock =>
        rw [hheld]
        by_cases hc : c = c₀
        · subst hc
          exact ⟨t, Function.update_self ..⟩
        · rw [hlock, Function.update_of_ne hc] at hl
          obtain ⟨u, hu⟩ := hok.taken c hin hl
          have hut : u ≠ t := by
            rintro rfl
            rw [ht] at hu
            cases hu
          exact ⟨u, (Function.update_of_ne hut ..).trans hu⟩
      | @give t c₀ b ht hheld hlock hb =>
        rw [hheld]
        by_cases hc : c = c₀
        · subst hc
          rw [hlock, Function.update_self] at hl
          exact absurd hin' (hb hl)
        · rw [hlock, Function.update_of_ne hc] at hl
          obtain ⟨u, hu⟩ := hok.taken c hin hl
          have hut : u ≠ t := by
            rintro rfl
            exact hc (Option.some.inj (hu.symm.trans ht))
          exact ⟨u, (Function.update_of_ne hut ..).trans hu⟩
    · -- `lock_init`
      obtain ⟨-, kern, err, -, rfl⟩ := hs.accepted_cases hpc
      simp [ServerContext.lockOf, acceptedConnection] at hl

theorem lockOk_of_run (h : Run cfg sha1 Orderly bufs s) : LockOk s :=
  h.invariant (lockOk_init cfg bufs) fun hr hok _ hs =>
    lockOk_step (inv_of_run (fun _ _ => id) hr) hok (step_cases hs)

/-- A response is in the submitter's section when the IO worker has completed a second request. -/
def crossing : List Action :=
  connect ++ receiveOne ++ [.computeGet 0, .computeRun 0 [some 0, some 0], .submitGet 0,
    .submitTrylock 0, .requestTop 0, .requestRecv 0 (.data (List.replicate sizeofRequest 0))]

theorem exists_crossing : ∃ s, Run smallServer zeroSha1 Orderly blankBuffers s ∧
    ((s.io 0).pc = .lockRequest 0 1 ∧ s.submit 0 = .locked 0 0 ∧ (s.conns 0).lock = true) := by
  have hrun := exists_reachable_of_run crossing
    (fun s => decide ((s.io 0).pc = .lockRequest 0 1 ∧ s.submit 0 = .locked 0 0 ∧
      (s.conns 0).lock = true))
    (by decide +kernel : (run (step smallServer zeroSha1) Orderly
      (.init smallServer blankBuffers) crossing).map _ = some true)
  simpa using hrun

/-- **Sections exclude each other.** At most one thread stands in a section under the lock of a
connection, and then the lock is taken; and the lock of a connection in a session is only taken when
one does. -/
theorem sections_exclusive (h : Run cfg sha1 Orderly bufs s) (c : ConnId) :
    (∀ t u, s.held t = some c → s.held u = some c → t = u) ∧
      (∀ t, s.held t = some c → (s.conns c).lock = true) ∧
      (s.InSession c → ((s.conns c).lock = true ↔ ∃ t, s.held t = some c)) := by
  have hok := lockOk_of_run h
  refine ⟨(hok.guards c).unique, (hok.guards c).taken, fun hin => ⟨hok.taken c hin, ?_⟩⟩
  rintro ⟨t, ht⟩
  exact (hok.guards c).taken t ht

theorem sections_exclusive_crossing : ∃ s, Run smallServer zeroSha1 Orderly blankBuffers s ∧
    s.held (.submit 0) = some 0 ∧ (s.conns 0).lock = true := by
  obtain ⟨s, hs, -, hpc, -⟩ := exists_crossing
  have hheld : s.held (.submit 0) = some 0 := by simp [ServerContext.held, hpc, SubmitPc.held]
  exact ⟨s, hs, hheld, (sections_exclusive hs 0).2.1 _ hheld⟩

/-! ## Who waits, and for whom -/

/-- The thread that takes an action. -/
def Action.locker : Action → Option Locker
  | .submitGet j | .submitTrylock j | .submitPutBack j | .submitSection j _ | .submitCompare j =>
    some (.submit j)
  | a => a.ioWorker.map .io

/-- Thread `t` is about to take the lock of connection `c`, and asks until it gets it: at a `lock`,
or at the submitter's `trylock`. -/
def ServerContext.Waits (s : ServerContext) (c : ConnId) : Locker → Prop
  | .io k => (∃ input, (s.io k).pc = .lockResponse c input) ∨ ∃ b, (s.io k).pc = .lockRequest c b
  | .submit j => ∃ b, s.submit j = .got b c

/-- The actions of a submitter are its own. -/
theorem submit_of_ne {j : Nat} (hs : Step cfg sha1 s a s') (ha : a.locker ≠ some (.submit j)) :
    s'.submit j = s.submit j := by
  cases hs with
  | submitGet | submitRefused | submitBack | submitLock | dispose | enqueue | submitRelease
  | submitNext =>
    apply Function.update_of_ne
    rintro rfl
    exact ha rfl
  | _ => rfl

theorem locker_io {k : Nat} (ha : a.ioWorker = some k) : a.locker = some (.io k) := by
  cases a <;> cases ha <;> rfl

/-- A thread in its section is never stuck there. -/
theorem held_enabled {t : Locker} (ht : s.held t = some c) :
    ∃ a s', a.locker = some t ∧ Orderly s a ∧ step cfg sha1 s a = some s' := by
  cases t with
  | io k =>
    simp only [ServerContext.held] at ht
    cases hpc : (s.io k).pc with
    | settle c' input =>
      refine ⟨.responseSettle k true, handleResponseSettle s k c' input true, rfl, ⟨rfl, rfl⟩, ?_⟩
      simp only [step, hpc]
    | deliver c' b =>
      refine ⟨.requestDeliver k, handleRequestDeliver s k c' b, rfl, ⟨rfl, rfl⟩, ?_⟩
      simp only [step, hpc]
    | teardown c' input =>
      refine ⟨.finishBody k, finishBody s k c' input, rfl, ⟨rfl, rfl⟩, ?_⟩
      simp only [step, hpc]
    | _ =>
      rw [hpc] at ht
      cases ht
  | submit j =>
    simp only [ServerContext.held] at ht
    cases hpc : s.submit j with
    | locked b c' =>
      refine ⟨.submitSection j true, submitterSection s j b c' true, rfl, ⟨rfl, rfl⟩, ?_⟩
      simp only [step, hpc]
    | idle | got | refused | compare | exited =>
      rw [hpc] at ht
      cases ht

/-- The step of a thread in its section ends the section: it frees the lock or puts the object
back. -/
theorem section_ends {t : Locker} (hstep : step cfg sha1 s a = some s') (ht : s.held t = some c)
    (ha : a.locker = some t) : (s'.conns c).lock = false ∨ Released s c a := by
  cases step_cases hstep with
  | stay hq =>
    rcases hq with ⟨_, rfl⟩ | ⟨_, rfl⟩ | ⟨j, rfl⟩
    · cases ha
    · cases ha
    · cases ha
      simp only [ServerContext.held] at ht
      simp only [step] at hstep
      split at hstep
      · next hpc => simp [hpc, SubmitPc.held] at ht
      · cases hstep
  | ioLocal hl =>
    obtain rfl := Option.some.inj ((locker_io hl.ioWorker).symm.trans ha)
    simp only [ServerContext.held] at ht
    cases hl with
    | fail hw | dispatch hw => simp [hw, IoPc.held] at ht
    | move hm => simp [hm.held.1] at ht
  | ioLock _ hio =>
    obtain rfl := Option.some.inj
      ((locker_io (ioLock_ioWorker (ioLock_action hio))).symm.trans ha)
    simp only [ServerContext.held] at ht
    rcases hio with ⟨_, hw, -⟩ | ⟨_, hw, -⟩ | ⟨_, hw, -⟩ <;> simp [hw, IoPc.held] at ht
  | epollWait hw | dequeue hw | sendPart hw | sendLast hw | recycle hw | takeBuffer hw
  | recvData hw =>
    cases ha
    simp [ServerContext.held, hw, IoPc.held] at ht
  | submitGet hpc | submitRefused hpc | submitBack hpc | submitLock hpc | submitRelease hpc
  | submitNext hpc =>
    cases ha
    simp [ServerContext.held, hpc, SubmitPc.held] at ht
  | settleKeep hw | settleDisarm hw | deliver hw | finishDelegate hw =>
    cases ha
    obtain rfl : _ = c := by simpa [ServerContext.held, hw, IoPc.held] using ht
    exact .inl (by simp)
  | dispose hpc | enqueue hpc =>
    cases ha
    obtain rfl : _ = c := by simpa [ServerContext.held, hpc, SubmitPc.held] using ht
    exact .inl (by simp)
  | @finishRelease k c' input hw heq =>
    cases ha
    obtain rfl : c' = c := by simpa [ServerContext.held, hw, IoPc.held] using ht
    exact .inr ⟨⟨input, hw⟩, heq⟩
  | _ => cases ha

/-- A connection that a thread waits for is in a session. -/
theorem Inv.waits (h : Inv cfg s) {t : Locker} (hw : s.Waits c t) : s.InSession c := by
  cases t with
  | io k =>
    rcases hw with ⟨input, hpc⟩ | ⟨b, hpc⟩
    · exact (h.openAt (k := k) (c := c) (by simp [hpc, IoPc.conn])).session
    · exact (h.openAt (k := k) (c := c) (by simp [hpc, IoPc.conn])).session
  | submit j =>
    obtain ⟨b, hpc⟩ := hw
    exact (h.submitHand (congrArg SubmitPc.carried hpc)).1

theorem waits_mem {k : Nat} (hw : s.Waits c (.io k)) : c ∈ (s.io k).pc.conn := by
  rcases hw with ⟨input, hpc⟩ | ⟨b, hpc⟩ <;> simp [hpc, IoPc.conn]

/-- While one thread waits for the lock, the thread in the section does not put the object back. -/
theorem Inv.not_released (h : Inv cfg s) {t u : Locker} (hw : s.Waits c t)
    (hu : s.held u = some c) (hne : u ≠ t) (ha : a.locker = some u) : ¬Released s c a := by
  intro hrel
  cases a <;> try exact hrel
  case finishBody k =>
    -- only this worker handles the connection, so the submitter waits, with a buffer of it
    obtain ⟨⟨input, hpc⟩, -⟩ := id hrel
    cases t with
    | io k' =>
      have hlive := h.live (k := k) (c := c) (by simp [hpc, IoPc.conn])
      cases ha
      exact hne (congrArg Locker.io (h.live_unique hlive (h.live (waits_mem hw))))
    | submit j =>
      obtain ⟨b, hpc'⟩ := hw
      have hconn := (h.submitHand (congrArg SubmitPc.carried hpc')).2.2
      refine not_released_of_submit h (j := j) (b := b) ?_ (hconn ▸ hrel)
      simp [ServerContext.submitLine, hpc', SubmitPc.hand]
  case submitCompare j =>
    cases ha
    simp [ServerContext.held, hrel.1, SubmitPc.held] at hu

theorem waits_of_ne {t u : Locker} (hs : Step cfg sha1 s a s') (ha : a.locker = some u)
    (hne : u ≠ t) (hw : s.Waits c t) : s'.Waits c t := by
  cases t with
  | io k =>
    have hio : a.ioWorker ≠ some k := by
      intro hk
      exact hne (Option.some.inj (ha.symm.trans (locker_io hk)))
    simpa only [ServerContext.Waits, io_of_ne hs hio] using hw
  | submit j =>
    have hj : a.locker ≠ some (.submit j) := by
      intro hj
      exact hne (Option.some.inj (ha.symm.trans hj))
    simpa only [ServerContext.Waits, submit_of_ne hs hj] using hw

theorem held_none_of_waits {t : Locker} (hw : s.Waits c t) : s.held t = none := by
  cases t with
  | io k => rcases hw with ⟨input, hpc⟩ | ⟨b, hpc⟩ <;> simp [ServerContext.held, hpc, IoPc.held]
  | submit j =>
    obtain ⟨b, hpc⟩ := hw
    simp [ServerContext.held, hpc, SubmitPc.held]

/-- **A taken lock is freed by the next step of its holder.** When a thread that is at a `lock` or a
submitter at its `trylock` finds the lock of the connection taken, another thread stands in its
section under it. That thread can go on, and whatever step it takes next, the lock is free
afterwards and the first thread still about to take it. -/
theorem lock_freed_next (h : Run cfg sha1 Orderly bufs s) {t : Locker} (hw : s.Waits c t)
    (hl : (s.conns c).lock = true) :
    ∃ u, u ≠ t ∧ s.held u = some c ∧
      (∃ a s', a.locker = some u ∧ Orderly s a ∧ step cfg sha1 s a = some s') ∧
      ∀ a s', a.locker = some u → step cfg sha1 s a = some s' →
        (s'.conns c).lock = false ∧ s'.Waits c t := by
  have hinv := inv_of_run (fun _ _ => id) h
  obtain ⟨u, hu⟩ := (lockOk_of_run h).taken c (hinv.waits hw) hl
  have hne : u ≠ t := by
    rintro rfl
    rw [held_none_of_waits hw] at hu
    cases hu
  refine ⟨u, hne, hu, held_enabled hu, fun a s' ha hstep => ⟨?_, ?_⟩⟩
  · exact (section_ends hstep hu ha).resolve_right (hinv.not_released hw hu hne ha)
  · exact waits_of_ne (step_cases hstep) ha hne hw

theorem lock_freed_next_crossing : ∃ s, Run smallServer zeroSha1 Orderly blankBuffers s ∧
    s.Waits 0 (.io 0) ∧ (s.conns 0).lock = true ∧ ∃ u, u ≠ .io 0 ∧ s.held u = some 0 := by
  obtain ⟨s, hs, hpc, -, hl⟩ := exists_crossing
  have hw : s.Waits 0 (.io 0) := .inr ⟨1, hpc⟩
  obtain ⟨u, hne, hu, -⟩ := lock_freed_next hs hw hl
  exact ⟨s, hs, hw, hl, u, hne, hu⟩

end Piotbench.Server
