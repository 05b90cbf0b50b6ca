import Piotbench.Queue.Spin

/-!
# How long a call takes

`queue_put` is six statements. `queue_get` is at most seven, and eleven more whenever it meets the
divider, puts it again and goes round; all threads together meet it on a queue at most once more
than they take objects off (`own_steps_bounded`). A thread that waits for a lock waits for another
one that can go on (`never_stuck`). The accesses of a thread that spins are not counted here.
-/

set_option linter.unusedSectionVars false

namespace Piotbench.Queue

open Lock Pointers Transition

variable {T Q E : Type} [DecidableEq T] [DecidableEq Q] [DecidableEq E]
variable {s s' : Traced T Q E} {a : Action T Q E} {m : Machine T Q E} {t : T} {q : Q}

/-! ## Meeting the divider -/

/-- The divider is taken off the head of queue `q`. -/
def turn (q : Q) (s : Traced T Q E) : Action T Q E → Nat
  | .run t =>
    match s.mach.pc t with
    | .getStore r head _ => if r = q ∧ head = .divider q then 1 else 0
    | _ => 0
  | _ => 0

/-- An object is taken off the head of queue `q`. -/
def removal (q : Q) (s : Traced T Q E) : Action T Q E → Nat
  | .run t =>
    match s.mach.pc t with
    | .getStore r head _ => if r = q ∧ head ≠ .divider q then 1 else 0
    | _ => 0
  | _ => 0

/-- The divider is the node at the head of `q`. -/
def Traced.dividerFirst (s : Traced T Q E) (q : Q) : Nat :=
  if (s.chain q).head? = some (.divider q) then 1 else 0

theorem dividerFirst_le (s : Traced T Q E) (q : Q) : s.dividerFirst q ≤ 1 := by
  unfold Traced.dividerFirst
  split <;> omega

theorem dividerFirst_eq (h : (s'.chain q).head? = (s.chain q).head?) :
    s'.dividerFirst q = s.dividerFirst q := by
  rw [Traced.dividerFirst, Traced.dividerFirst, h]

/-- Behind a divider that is taken off comes an object. -/
theorem dividerFirst_store (hs : Linked s) {n : Node Q E} {l : List (Node Q E)}
    (hc : s.chain q = .divider q :: n :: l) (hchain : s'.chain q = n :: l) :
    s'.dividerFirst q = 0 := by
  have hnodup : (s.chain q).Nodup := hs.owned.nodup (.queue q)
  rw [hc] at hnodup
  apply if_neg
  rw [hchain, List.head?_cons]
  rintro ⟨rfl⟩
  exact (List.nodup_cons.mp hnodup).1 List.mem_cons_self

/-- **One step**: to meet the divider again the objects in front of it have to go first. -/
theorem Step.turns (h : Step s.mach a m) (hs : Linked s) (q : Q) :
    turn q s a + (s.record m a).dividerFirst q ≤ s.dividerFirst q + removal q s a := by
  cases h with
  | callPut hpc | callGet hpc =>
    simp only [turn, removal, Nat.zero_add, Nat.add_zero]
    exact Nat.le_refl _
  | @ret t r x hpc =>
    have hsame : (s.record (s.mach.goto t .idle) (.ret t)).dividerFirst q = s.dividerFirst q := by
      apply dividerFirst_eq
      rcases x with _ | _ | _ <;> simp [Traced.record, hpc]
    simp [turn, hsame]
  | @putUnlock t c hpc =>
    have hsame : ∀ m, (s.record m (.run t)).dividerFirst q = s.dividerFirst q := by
      intro m
      apply dividerFirst_eq
      cases c <;> simp [Traced.record, hpc]
    simp [turn, hpc, hsame]
  | @putLink t c hpc =>
    have hsame : ∀ m, (s.record m (.run t)).dividerFirst q = s.dividerFirst q := by
      intro m
      apply dividerFirst_eq
      obtain ⟨n, l, hc, -⟩ := hs.cons q
      by_cases hq : q = c.root
      · subst hq
        simp [Traced.record, hpc, hc]
      · simp [Traced.record, hpc, hq]
    simp [turn, hpc, hsame]
  | @getStore t r head next hpc =>
    obtain ⟨n, l, hc, -⟩ := hs.cons_of_store hpc
    by_cases hrq : r = q
    · subst hrq
      by_cases hd : head = .divider r
      · subst hd
        have hfirst : s.dividerFirst r = 1 := by simp [Traced.dividerFirst, hc]
        have hnone : ∀ m, (s.record m (.run t)).dividerFirst r = 0 :=
          fun m => dividerFirst_store hs hc (by simp [Traced.record, hpc, hc])
        simp [turn, hpc, hfirst, hnone]
      · have hle := dividerFirst_le
          (s.record ((s.mach.onHeap (·.setHead r next)).goto t (.getUnlock r head)) (.run t)) r
        simp only [turn, removal, hpc, hd, and_false, if_false, not_false_eq_true, and_self,
          if_true, ne_eq]
        omega
    · have hsame : ∀ m, (s.record m (.run t)).dividerFirst q = s.dividerFirst q := by
        intro m
        apply dividerFirst_eq
        simp [Traced.record, hpc, Ne.symm hrq]
      simp [turn, hpc, hrq, hsame]
  | putInit hpc | putClear hpc | putLock hpc | putAdvance hpc | getLock hpc | getHead hpc
  | getCrash hpc | getNull hpc | getNext hpc | getEmpty hpc | getDivider hpc | getNode hpc
  | getPoison hpc => simp [turn, hpc, Traced.dividerFirst, Traced.record]

/-- In any stretch of a run the divider of a queue is met at most once more than objects are taken
off the queue. -/
theorem turns_le {next : E → Link (Node Q E)} {l : List (Traced T Q E × Action T Q E)}
    (hr : Reachable tstep Disciplined (Traced.init next) s) (h : Path tstep Disciplined s l s')
    (q : Q) : total (turn q) l ≤ total (removal q) l + 1 := by
  have hpot := h.potential (fun s => s.dividerFirst q) (turn q) (removal q) id
    (fun {s a s'} hr _ hstep => by
      obtain ⟨m, hm, rfl⟩ := Option.map_eq_some_iff.mp hstep
      exact (Machine.step_cases hm).turns (linked_of_reachable hr) q) hr
  have hfirst := dividerFirst_le s q
  omega

/-! ## The statements of a call -/

/-- The queue that the thread's call is about. -/
def Pc.queue : Pc Q E → Option Q
  | .put _ c => some c.root
  | .getLock q | .getHead q | .getNext q _ | .getEmpty q | .getStore q _ _ | .getUnlock q _
  | .getPoison q _ | .gotten q _ => some q
  | .idle | .crashed => none

def PutStage.left : PutStage → Nat
  | .init => 6
  | .clear => 5
  | .lock => 4
  | .link => 3
  | .advance => 2
  | .unlock => 1

/-- How many statements are left of a call, at most, unless the divider is met. -/
def Pc.left : Pc Q E → Nat
  | .put stage (.program _ _) => stage.left
  | .put stage (.queueGet _) => stage.left + 7
  | .getLock _ => 7
  | .getHead _ => 6
  | .getNext _ _ => 5
  | .getStore _ _ _ => 4
  | .getUnlock _ (.elem _) => 3
  | .getUnlock _ (.divider _) => 14
  | .getEmpty _ | .getPoison _ _ => 2
  | .gotten _ _ => 1
  | .idle | .crashed => 0

/-- Thread `t` executes a statement of a call on queue `q`, its return among them. -/
def ownStep (t : T) (q : Q) (s : Traced T Q E) (a : Action T Q E) : Nat :=
  if (a = .run t ∨ a = .ret t) ∧ (s.mach.pc t).queue = some q then 1 else 0

/-- Thread `t` calls `queue_put` on queue `q`. -/
def putCall (t : T) (q : Q) (_ : Traced T Q E) : Action T Q E → Nat
  | .callPut u _ r => if u = t ∧ r = q then 1 else 0
  | _ => 0

def getCall (t : T) (q : Q) (_ : Traced T Q E) : Action T Q E → Nat
  | .callGet u r => if u = t ∧ r = q then 1 else 0
  | _ => 0

/-- What is left of the call of thread `t`, if it is on queue `q`. -/
def Traced.due (s : Traced T Q E) (t : T) (q : Q) : Nat :=
  if (s.mach.pc t).queue = some q then (s.mach.pc t).left else 0

theorem Step.pc_of_ne {s m : Machine T Q E} (h : Step s a m) (ht : t ≠ a.thread) :
    m.pc t = s.pc t := by
  cases h <;> exact Function.update_of_ne ht ..

/-- The step of another thread. -/
theorem ownStep_of_ne (ht : t ≠ a.thread) : ownStep t q s a = 0 := by
  apply if_neg
  rintro ⟨rfl | rfl, -⟩ <;> exact ht rfl

/-- **One step** of a call leaves one statement less, unless it meets the divider. -/
theorem Step.due (h : Step s.mach a m) (hs : Linked s) (t : T) (q : Q) :
    ownStep t q s a + (s.record m a).due t q
      ≤ s.due t q + (6 * putCall t q s a + 7 * getCall t q s a + 11 * turn q s a) := by
  unfold Traced.due
  rw [s.record_mach]
  by_cases ht : t = a.thread
  · cases h with
    | @callPut u e r hpc =>
      obtain rfl : t = u := ht
      by_cases hr : r = q <;>
        simp [ownStep, putCall, getCall, turn, hpc, Pc.queue, Pc.left, PutStage.left, PutCall.root,
          hr]
    | @callGet u r hpc =>
      obtain rfl : t = u := ht
      by_cases hr : r = q <;> simp [ownStep, putCall, getCall, turn, hpc, Pc.queue, Pc.left, hr]
    | @putInit u c hpc | @putClear u c hpc | @putLock u c hpc | @putLink u c hpc
    | @putAdvance u c hpc | @putUnlock u c hpc =>
      obtain rfl : t = u := ht
      cases c with
      | program e r =>
        by_cases hr : r = q <;>
          simp [ownStep, hpc, Pc.queue, Pc.left, PutStage.left, PutCall.root, PutCall.after, hr]
      | queueGet r =>
        by_cases hr : r = q <;>
          simp [ownStep, hpc, Pc.queue, Pc.left, PutStage.left, PutCall.root, PutCall.after, hr]
    | @getStore u r head next hpc =>
      obtain rfl : t = u := ht
      obtain ⟨n, l, hc, -⟩ := hs.cons_of_store hpc
      by_cases hr : r = q
      · subst hr
        cases head with
        | elem e => simp [ownStep, hpc, Pc.queue, Pc.left, turn]
        | divider r' =>
          -- the only divider in the chain is the queue's own
          obtain rfl := hs.own r r' (by rw [hc]; exact List.mem_cons_self)
          simp [ownStep, putCall, getCall, hpc, Pc.queue, Pc.left, turn]
      · simp [ownStep, hpc, Pc.queue, hr]
    | @getNode u r head hpc hne =>
      obtain rfl : t = u := ht
      have hok := hs.ok t
      rw [hpc] at hok
      cases head with
      | divider r' => exact absurd (congrArg Node.divider (hok r' rfl)) hne
      | elem e => by_cases hr : r = q <;> simp [ownStep, hpc, Pc.queue, Pc.left, hr]
    | @getDivider u r hpc =>
      obtain rfl : t = u := ht
      by_cases hr : r = q <;>
        simp [ownStep, hpc, Pc.queue, Pc.left, PutStage.left, PutCall.root, hr]
    | @getCrash u r hpc hhead =>
      obtain ⟨n, l, -, hn⟩ := hs.cons r
      exact absurd hn (hhead n)
    | @getLock u r hpc | @getHead u r head hpc | @getNull u r head hpc | @getNext u r head hpc
    | @getEmpty u r hpc | @getPoison u r head hpc | @ret u r x hpc =>
      obtain rfl : t = u := ht
      by_cases hr : r = q
      · simp only [ownStep, hpc, Pc.queue, Pc.left, hr, or_true, true_or, and_self, if_true,
          Machine.goto_pc, Machine.onHeap_pc, Machine.setHeadLock_pc, Function.update_self,
          reduceCtorEq, if_false]
        omega
      · simp [ownStep, hpc, Pc.queue, hr]
  · rw [ownStep_of_ne ht, h.pc_of_ne ht]
    omega

theorem due_le (s : Traced T Q E) (t : T) (q : Q) : s.due t q ≤ 14 := by
  unfold Traced.due
  split
  · cases s.mach.pc t with
    | put stage c => cases c <;> cases stage <;> simp [Pc.left, PutStage.left]
    | getUnlock r head => cases head <;> simp [Pc.left]
    | _ => simp [Pc.left]
  · exact Nat.zero_le _

/-- **The work of a thread is bounded.** In any stretch of a run, a thread executes at most six
statements for each `queue_put` that it calls on a queue, seven for each `queue_get`, eleven for
each object that anybody takes off the queue and once more, and what is left of the call that it is
in; whatever the other threads do. -/
theorem own_steps_bounded {next : E → Link (Node Q E)} {l : List (Traced T Q E × Action T Q E)}
    (hr : Reachable tstep Disciplined (Traced.init next) s) (h : Path tstep Disciplined s l s')
    (t : T) (q : Q) :
    total (ownStep t q) l ≤ 6 * total (putCall t q) l + 7 * total (getCall t q) l
      + 11 * (total (removal q) l + 1) + 14 := by
  have hpot := h.potential (fun s => s.due t q) (ownStep t q)
    (fun s a => 6 * putCall t q s a + 7 * getCall t q s a + 11 * turn q s a) id
    (fun {s a s'} hr _ hstep => by
      obtain ⟨m, hm, rfl⟩ := Option.map_eq_some_iff.mp hstep
      exact (Machine.step_cases hm).due (linked_of_reachable hr) t q) hr
  rw [total_add, total_add, total_mul, total_mul, total_mul] at hpot
  have hturns := turns_le hr h q
  have hdue := due_le s t q
  omega

/-- Thread 1 gets the only node of the queue, and meets the divider first. -/
def getOnce : List (Action Nat Unit Nat) :=
  putAlone 1 ++ .callGet 1 () :: List.replicate 17 (.run 1) ++ [.ret 1]

theorem own_steps_bounded_getOnce : ∃ l s', Path tstep Disciplined
      (Traced.init (fun _ => .poison) : Traced Nat Unit Nat) l s' ∧
    total (ownStep 1 ()) l = 18 ∧ total (ownStep 1 ()) l ≤ 7 * 1 + 11 * (1 + 1) + 14 := by
  obtain ⟨s', hs'⟩ := Option.isSome_iff_exists.mp (by decide +kernel : (run tstep Disciplined
    (Traced.init (fun _ => .poison) : Traced Nat Unit Nat) getOnce).isSome = true)
  have hpath := path_of_run hs'
  have hbound := own_steps_bounded .refl hpath 1 ()
  have hcounts : total (ownStep 1 ()) (visited tstep (Traced.init fun _ => .poison) getOnce) = 18 ∧
      total (putCall 1 ()) (visited tstep (Traced.init fun _ => .poison) getOnce) = 0 ∧
      total (getCall 1 ()) (visited tstep (Traced.init fun _ => .poison) getOnce) = 1 ∧
      total (removal ()) (visited tstep (Traced.init fun _ => .poison) getOnce) = 1 := by
    decide +kernel
  obtain ⟨hown, hput, hget, hremoval⟩ := hcounts
  rw [hput, hget, hremoval] at hbound
  exact ⟨_, s', hpath, hown, hbound⟩

/-! ## Waiting for a lock -/

/-- While a lock is taken, a thread stands in its section. -/
structure Occupied (s : Machine T Q E) : Prop where
  head : ∀ q, Held (s.headLock q) s.pc (Pc.inHead q)
  tail : ∀ q, Held (s.tailLock q) s.pc (Pc.inTail q)

theorem Step.head_held (h : Step s.mach a m) (hs : Linked s) (ho : Occupied s.mach) (q : Q) :
    Held (m.headLock q) m.pc (Pc.inHead q) := by
  cases h with
  | callPut hpc | callGet hpc | putInit hpc | putClear hpc | putLock hpc | putLink hpc
  | putAdvance hpc | getHead hpc | getNull hpc | getNext hpc | getStore hpc | getPoison hpc
  | ret hpc => exact (ho.head q).stay (by simp [hpc, Pc.inHead])
  | @putUnlock t c hpc =>
    have hafter := (c.after_outside q).1
    exact (ho.head q).stay (iff_of_false hafter (by simp [hpc, Pc.inHead]))
  | @getCrash t r hpc hhead =>
    obtain ⟨n, l, -, hn⟩ := hs.cons r
    exact absurd hn (hhead n)
  | getLock hpc =>
    exact Held.enterAt ho.head (by simp [hpc, Pc.inHead]) (by simp [Pc.inHead]) q
  | getEmpty hpc | getDivider hpc | getNode hpc =>
    exact Held.leaveAt ho.head (by simp [hpc, Pc.inHead]) q

theorem Step.tail_held (h : Step s.mach a m) (ho : Occupied s.mach) (q : Q) :
    Held (m.tailLock q) m.pc (Pc.inTail q) := by
  cases h with
  | callPut hpc | callGet hpc | putInit hpc | putClear hpc | putLink hpc | putAdvance hpc
  | getLock hpc | getHead hpc | getCrash hpc | getNull hpc | getNext hpc | getEmpty hpc
  | getStore hpc | getDivider hpc | getNode hpc | getPoison hpc
  | ret hpc => exact (ho.tail q).stay (by simp [hpc, Pc.inTail])
  | putLock hpc =>
    exact Held.enterAt ho.tail (by simp [hpc, Pc.inTail]) (by simp [Pc.inTail]) q
  | putUnlock hpc => exact Held.leaveAt ho.tail (by simp [hpc, Pc.inTail]) q

theorem occupied_of_reachable {next : E → Link (Node Q E)}
    (h : Reachable tstep Disciplined (Traced.init next) s) : Occupied s.mach := by
  apply h.invariant (I := fun s => Occupied s.mach)
  · exact ⟨fun q hl => (by cases hl), fun q hl => (by cases hl)⟩
  · intro s a s' hr ho hd hstep
    obtain ⟨m, hm, rfl⟩ := Option.map_eq_some_iff.mp hstep
    have hcases := Machine.step_cases hm
    rw [s.record_mach]
    exact ⟨hcases.head_held (linked_of_reachable hr) ho, hcases.tail_held ho⟩

/-- Inside a call a thread can execute its next statement, unless it is at a lock that is taken. -/
theorem runThread_enabled (hcall : (s.mach.pc t).queue ≠ none)
    (hret : ∀ q r, s.mach.pc t ≠ .gotten q r) (hfree : lockAttempt s (.run t) ≠ .lock true) :
    ∃ m, s.mach.runThread t = some m := by
  unfold Machine.runThread
  unfold lockAttempt at hfree
  cases hpc : s.mach.pc t with
  | put stage c =>
    cases stage with
    | lock =>
      have hclear : s.mach.tailLock c.root = false := by simpa [hpc] using hfree
      simp only [Machine.stepPut, hclear]
      exact ⟨_, rfl⟩
    | _ => exact ⟨_, rfl⟩
  | getLock q =>
    have hclear : s.mach.headLock q = false := by simpa [hpc] using hfree
    simp only [hclear]
    exact ⟨_, rfl⟩
  | getHead q =>
    dsimp only
    split <;> exact ⟨_, rfl⟩
  | getNext q head =>
    dsimp only
    split <;> exact ⟨_, rfl⟩
  | getUnlock q head =>
    dsimp only
    split <;> exact ⟨_, rfl⟩
  | getEmpty | getStore | getPoison => exact ⟨_, rfl⟩
  | gotten q r => exact absurd hpc (hret q r)
  | idle | crashed =>
    rw [hpc] at hcall
    exact absurd rfl hcall

theorem tstep_of_run (hm : s.mach.runThread t = some m) :
    tstep s (.run t) = some (s.record m (.run t)) := by
  simp only [tstep, Machine.step, hm, Option.map_some]

/-- Inside a section a thread does not wait. -/
theorem section_enabled (h : (s.mach.pc t).inHead q ∨ (s.mach.pc t).inTail q) :
    ∃ s', tstep s (.run t) = some s' := by
  have hin : (s.mach.pc t).queue ≠ none ∧ (∀ q r, s.mach.pc t ≠ .gotten q r) ∧
      lockAttempt s (.run t) ≠ .lock true := by
    cases hpc : s.mach.pc t with
    | put stage c =>
      rw [hpc] at h
      cases stage with
      | link | advance | unlock => exact ⟨by simp [Pc.queue], by simp, by simp [lockAttempt, hpc]⟩
      | init | clear | lock => rcases h with h | h <;> cases h
    | getHead | getNext | getEmpty | getStore | getUnlock =>
      exact ⟨by simp [Pc.queue], by simp, by simp [lockAttempt, hpc]⟩
    | _ =>
      rw [hpc] at h
      rcases h with h | h <;> cases h
  obtain ⟨m, hm⟩ := runThread_enabled hin.1 hin.2.1 hin.2.2
  exact ⟨_, tstep_of_run hm⟩

/-- Thread `t` waits for a lock of queue `q`, in whose section thread `u` stands. -/
def WaitsFor (s : Machine T Q E) (t u : T) (q : Q) : Prop :=
  s.pc t = .getLock q ∧ (s.pc u).inHead q ∨
    ∃ c, s.pc t = .put .lock c ∧ c.root = q ∧ (s.pc u).inTail q

/-- At a lock that is taken. -/
theorem waits (ho : Occupied s.mach) (hwait : lockAttempt s (.run t) = .lock true) :
    ∃ u q, WaitsFor s.mach t u q ∧ ((s.mach.pc u).inHead q ∨ (s.mach.pc u).inTail q) := by
  unfold lockAttempt at hwait
  dsimp only at hwait
  split at hwait
  · next c hpc =>
    obtain ⟨u, hu⟩ := ho.tail c.root (Spin.Attempt.lock.inj hwait)
    exact ⟨u, c.root, .inr ⟨c, hpc, rfl, hu⟩, .inr hu⟩
  · next q hpc =>
    obtain ⟨u, hu⟩ := ho.head q (Spin.Attempt.lock.inj hwait)
    exact ⟨u, q, .inl ⟨hpc, hu⟩, .inl hu⟩
  · cases hwait

/-- **Nobody is stuck.** In every state of a run, a thread inside a call can execute its next
statement; or it waits for a lock, another thread stands in the section of that lock, and that one
can execute its next statement. -/
theorem never_stuck {next : E → Link (Node Q E)}
    (h : Reachable tstep Disciplined (Traced.init next) s) (ht : s.mach.pc t ≠ .idle) :
    (∃ a s', a.thread = t ∧ tstep s a = some s') ∨
      ∃ u q s', WaitsFor s.mach t u q ∧ tstep s (.run u) = some s' := by
  by_cases hwait : lockAttempt s (.run t) = .lock true
  · right
    obtain ⟨u, q, hfor, hin⟩ := waits (occupied_of_reachable h) hwait
    obtain ⟨s', hstep⟩ := section_enabled hin
    exact ⟨u, q, s', hfor, hstep⟩
  · left
    by_cases hret : ∃ q r, s.mach.pc t = .gotten q r
    · obtain ⟨q, r, hpc⟩ := hret
      refine ⟨.ret t, s.record (s.mach.goto t .idle) (.ret t), rfl, ?_⟩
      simp only [tstep, Machine.step, hpc, Option.map_some]
    · have hok := (linked_of_reachable h).ok t
      have hcall : (s.mach.pc t).queue ≠ none := by
        cases hpc : s.mach.pc t with
        | idle => exact absurd hpc ht
        | crashed =>
          rw [hpc] at hok
          exact hok.elim
        | _ => simp [Pc.queue]
      obtain ⟨m, hm⟩ := runThread_enabled hcall (fun q r hpc => hret ⟨q, r, hpc⟩) hwait
      exact ⟨.run t, s.record m (.run t), rfl, tstep_of_run hm⟩

/-- Threads 1 and 2 call `queue_get`, and thread 1 takes the lock. -/
def lockTaken : List (Action Nat Unit Nat) := [.callGet 1 (), .callGet 2 (), .run 1]

theorem never_stuck_lockTaken : ∃ s : Traced Nat Unit Nat,
    Reachable tstep Disciplined (Traced.init fun _ => .poison) s ∧ s.mach.pc 2 = .getLock () ∧
      ((∃ a s', a.thread = 2 ∧ tstep s a = some s') ∨
        ∃ u q s', WaitsFor s.mach 2 u q ∧ tstep s (.run u) = some s') := by
  have hrun := exists_reachable_of_run lockTaken (fun s => decide (s.mach.pc 2 = .getLock ()))
    (by decide +kernel : (run tstep Disciplined (Traced.init fun _ => .poison) lockTaken).map _ =
      some true)
  obtain ⟨s, hs, hp⟩ := hrun
  have hpc := of_decide_eq_true hp
  have hbusy : s.mach.pc 2 ≠ .idle := by
    rw [hpc]
    nofun
  exact ⟨s, hs, hpc, never_stuck hs hbusy⟩

end Piotbench.Queue
