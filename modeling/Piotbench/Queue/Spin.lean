import Piotbench.Lib.Spin
import Piotbench.Queue.Linearization

/-!
# The queues with spin locks

`lock()` of `include/lock.h` reads the lock word until it is clear and then tries a
compare-and-swap, which may come too late. With `head_lock` and `tail_lock` taken like that, every
history of calls of `queue_put` and `queue_get` is still one of a queue that works at once
(`spin_linearizable`).

The counter of the inner loop in `lock()` only decides where a `sched_yield` would be, which is
commented out.
-/

set_option linter.unusedSectionVars false

namespace Piotbench.Queue

open Pointers Spin Transition

variable {T Q E : Type} [DecidableEq T] [DecidableEq Q] [DecidableEq E]

def Action.thread : Action T Q E → T
  | .callPut t _ _ | .callGet t _ | .run t | .ret t => t

/-- The statements at which a lock is taken. -/
def lockAttempt (s : Traced T Q E) : Action T Q E → Attempt
  | .run t =>
    match s.mach.pc t with
    | .put .lock c => .lock (s.mach.tailLock c.root)
    | .getLock q => .lock (s.mach.headLock q)
    | _ => .other
  | .callPut _ _ _ | .callGet _ _ | .ret _ => .other

/-- One access of a thread. -/
abbrev spinningStep :
    Spinning (Traced T Q E) T → Action T Q E → Option (Spinning (Traced T Q E) T) :=
  spinStep tstep Action.thread lockAttempt

/-- Runs of threads that spin, and the calls and returns that they show. -/
abbrev SpinShows (ok : Traced T Q E → Action T Q E → Prop) (next : E → Link (Node Q E)) :
    List (AtomicQueue.Event T Q E) → Spinning (Traced T Q E) T → Prop :=
  Shows spinningStep (fun s a => ok s.base a) (spinLabel fun s a => callLabel s.mach a)
    (.init (.init next))

variable {next : E → Link (Node Q E)} {s : Spinning (Traced T Q E) T}
  {history : List (AtomicQueue.Event T Q E)}

theorem lock_quiet (s : Traced T Q E) (a : Action T Q E) (h : lockAttempt s a ≠ .other) :
    callLabel s.mach a = none := by
  unfold lockAttempt at h
  split at h
  · split at h
    · next hpc => simp [callLabel, hpc]
    · next hpc => simp [callLabel, hpc]
    · exact absurd rfl h
  all_goals exact absurd rfl h

/-- **Linearizability.** Every history of calls and returns that threads show which call `queue_put`
and `queue_get` on queues with spin locks, and put only what is in no queue, is a history of queues
whose operations take effect at once, where a `queue_get` may find nothing beside another one. When
each queue is taken from by one thread alone, `queue_get` finds nothing only when it is empty. -/
theorem spin_linearizable (next : E → Link (Node Q E)) (s : Spinning (Traced T Q E) T)
    (history : List (AtomicQueue.Event T Q E)) :
    (SpinShows Disciplined next history s →
      Shows AtomicQueue.step (fun _ _ => True) AtomicQueue.label .init history s.base.atomic) ∧
    ∀ owner, SpinShows (fun s a => Disciplined s a ∧ Alone owner a) next history s →
      Shows AtomicQueue.step AtomicQueue.Exact AtomicQueue.label .init history s.base.atomic := by
  constructor
  · intro h
    exact shows_atomic (Spinning.shows lock_quiet h)
  · intro owner h
    exact shows_exact (Spinning.shows lock_quiet h)

/-- Node 1 is in the queue. Threads 1 and 2 both read `head_lock` as clear; 1 is faster and carries
the divider past the node, and 2 finds nothing. -/
def spinningGetters : List (Action Nat Unit Nat) :=
  .callPut 0 1 () :: List.replicate 7 (.run 0) ++
    [.callGet 1 (), .callGet 2 (), .run 1, .run 2, .run 1, .run 2] ++ List.replicate 4 (.run 1) ++
    List.replicate 5 (.run 2) ++ [.ret 2]

/-- Thread 1 takes node 1 out of the queue. -/
def spinningGetter : List (Action Nat Unit Nat) :=
  .callPut 0 1 () :: List.replicate 7 (.run 0) ++ .callGet 1 () :: List.replicate 20 (.run 1) ++
    [.ret 1]

theorem spin_linearizable_getters :
    (∃ s : Spinning (Traced Nat Unit Nat) Nat,
      Shows AtomicQueue.step (fun _ _ => True) AtomicQueue.label .init
        [.callPut 0 1 (), .retPut 0, .callGet 1 (), .callGet 2 (), .retGet 2 none] s.base.atomic) ∧
    ∃ s : Spinning (Traced Nat Unit Nat) Nat,
      Shows AtomicQueue.step AtomicQueue.Exact AtomicQueue.label .init
        [.callPut 0 1 (), .retPut 0, .callGet 1 (), .retGet 1 (some 1)] s.base.atomic := by
  constructor
  · obtain ⟨s, hs⟩ : ∃ s, SpinShows Disciplined (fun _ => .poison)
        [.callPut 0 1 (), .retPut 0, .callGet 1 (), .callGet 2 (), .retGet 2 none] s :=
      exists_shows_of_run spinningGetters (by decide +kernel) (by decide +kernel)
    exact ⟨s, (spin_linearizable _ s _).1 hs⟩
  · obtain ⟨s, hs⟩ : ∃ s, SpinShows (fun s a => Disciplined s a ∧ Alone (fun _ => 1) a)
        (fun _ => .poison) [.callPut 0 1 (), .retPut 0, .callGet 1 (), .retGet 1 (some 1)] s :=
      exists_shows_of_run spinningGetter (by decide +kernel) (by decide +kernel)
    exact ⟨s, (spin_linearizable _ s _).2 _ hs⟩

end Piotbench.Queue
