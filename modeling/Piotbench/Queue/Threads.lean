import Piotbench.Queue.Basic
import Piotbench.Lib.Transition

/-!
# Threads on divider queues

Any number of threads that call `queue_put` and `queue_get` on any number of queues in one heap.
A step is one assignment, one test of a pointer, one successful `lock` or one `unlock`, and steps
of different threads interleave in any order. `lock` spins: its step is not enabled while the lock
word is set.
-/

set_option linter.unusedSectionVars false

namespace Piotbench.Queue

open Pointers

/-- The statements of `queue_put`. -/
inductive PutStage
  | init
  | clear
  | lock
  | link
  | advance
  | unlock
  deriving DecidableEq

/-- A call `queue_put(new_, root)`: by the program with one of its objects, or by `queue_get` with
the divider of its root. -/
inductive PutCall (Q E : Type)
  | program (e : E) (q : Q)
  | queueGet (q : Q)
  deriving DecidableEq

def PutCall.new {Q E : Type} : PutCall Q E → Node Q E
  | .program e _ => .elem e
  | .queueGet q => .divider q

def PutCall.root {Q E : Type} : PutCall Q E → Q
  | .program _ q => q
  | .queueGet q => q

/-- Where a thread stands. -/
inductive Pc (Q E : Type)
  | idle
  | put (stage : PutStage) (call : PutCall Q E)
  /-- At `lock(&root->head_lock)`. -/
  | getLock (q : Q)
  /-- At `head = root->head`. -/
  | getHead (q : Q)
  /-- At `next = head->next` and the test for `NULL`. -/
  | getNext (q : Q) (head : Node Q E)
  /-- At the `unlock` before `return NULL`. -/
  | getEmpty (q : Q)
  /-- At `root->head = next`. -/
  | getStore (q : Q) (head : Node Q E) (next : Link (Node Q E))
  /-- At the `unlock` after it. -/
  | getUnlock (q : Q) (head : Node Q E)
  /-- At `head->next = QUEUE_POISON1`. -/
  | getPoison (q : Q) (head : Node Q E)
  /-- At the end of `queue_get`. -/
  | gotten (q : Q) (r : Option (Node Q E))
  /-- `head->next` where `head` is no node. -/
  | crashed
  deriving DecidableEq

structure Machine (T Q E : Type) where
  heap : QueueHeap Q E
  headLock : Q → Bool
  tailLock : Q → Bool
  pc : T → Pc Q E

inductive Action (T Q E : Type)
  /-- The thread calls `queue_put`. -/
  | callPut (t : T) (e : E) (q : Q)
  /-- The thread calls `queue_get`. -/
  | callGet (t : T) (q : Q)
  /-- The thread executes its next statement. -/
  | run (t : T)
  /-- `queue_get` returns. -/
  | ret (t : T)
  deriving DecidableEq

variable {T Q E : Type} [DecidableEq T] [DecidableEq Q] [DecidableEq E]

def Machine.goto (s : Machine T Q E) (t : T) (p : Pc Q E) : Machine T Q E :=
  { s with pc := Function.update s.pc t p }

def Machine.onHeap (s : Machine T Q E) (f : QueueHeap Q E → QueueHeap Q E) : Machine T Q E :=
  { s with heap := f s.heap }

def Machine.setHeadLock (s : Machine T Q E) (q : Q) (b : Bool) : Machine T Q E :=
  { s with headLock := Function.update s.headLock q b }

def Machine.setTailLock (s : Machine T Q E) (q : Q) (b : Bool) : Machine T Q E :=
  { s with tailLock := Function.update s.tailLock q b }

section Fields

variable (s : Machine T Q E) (t : T) (p : Pc Q E) (f : QueueHeap Q E → QueueHeap Q E) (q : Q)
  (b : Bool)

@[simp] theorem Machine.goto_heap : (s.goto t p).heap = s.heap := rfl
@[simp] theorem Machine.goto_headLock : (s.goto t p).headLock = s.headLock := rfl
@[simp] theorem Machine.goto_tailLock : (s.goto t p).tailLock = s.tailLock := rfl
@[simp] theorem Machine.goto_pc : (s.goto t p).pc = Function.update s.pc t p := rfl
@[simp] theorem Machine.onHeap_heap : (s.onHeap f).heap = f s.heap := rfl
@[simp] theorem Machine.onHeap_headLock : (s.onHeap f).headLock = s.headLock := rfl
@[simp] theorem Machine.onHeap_tailLock : (s.onHeap f).tailLock = s.tailLock := rfl
@[simp] theorem Machine.onHeap_pc : (s.onHeap f).pc = s.pc := rfl
@[simp] theorem Machine.setHeadLock_heap : (s.setHeadLock q b).heap = s.heap := rfl
@[simp] theorem Machine.setHeadLock_headLock :
    (s.setHeadLock q b).headLock = Function.update s.headLock q b := rfl
@[simp] theorem Machine.setHeadLock_tailLock : (s.setHeadLock q b).tailLock = s.tailLock := rfl
@[simp] theorem Machine.setHeadLock_pc : (s.setHeadLock q b).pc = s.pc := rfl
@[simp] theorem Machine.setTailLock_heap : (s.setTailLock q b).heap = s.heap := rfl
@[simp] theorem Machine.setTailLock_headLock : (s.setTailLock q b).headLock = s.headLock := rfl
@[simp] theorem Machine.setTailLock_tailLock :
    (s.setTailLock q b).tailLock = Function.update s.tailLock q b := rfl
@[simp] theorem Machine.setTailLock_pc : (s.setTailLock q b).pc = s.pc := rfl

end Fields

/-- Where a thread stands after `queue_put`. -/
def PutCall.after : PutCall Q E → Pc Q E
  | .program _ _ => .idle
  | .queueGet q => .getLock q

/-- `queue_put`, one statement. -/
def Machine.stepPut (s : Machine T Q E) (t : T) (c : PutCall Q E) :
    PutStage → Option (Machine T Q E)
  | .init => some ((s.onHeap (·.queueHeadInit c.new)).goto t (.put .clear c))
  | .clear => some ((s.onHeap (·.clearNext c.new)).goto t (.put .lock c))
  | .lock =>
    if s.tailLock c.root then none
    else some ((s.setTailLock c.root true).goto t (.put .link c))
  | .link => some ((s.onHeap (·.linkTail c.root c.new)).goto t (.put .advance c))
  | .advance => some ((s.onHeap (·.setTail c.root c.new)).goto t (.put .unlock c))
  | .unlock => some ((s.setTailLock c.root false).goto t c.after)

/-- The next statement of a thread inside `queue_put` or `queue_get`. -/
def Machine.runThread (s : Machine T Q E) (t : T) : Option (Machine T Q E) :=
  match s.pc t with
  | .put stage c => s.stepPut t c stage
  | .getLock q =>
    if s.headLock q then none
    else some ((s.setHeadLock q true).goto t (.getHead q))
  | .getHead q =>
    match s.heap.head q with
    | .node head => some (s.goto t (.getNext q head))
    -- `head->next` would be read through a poisoned or null pointer
    | _ => some (s.goto t .crashed)
  | .getNext q head =>
    match s.heap.next head with
    | .null => some (s.goto t (.getEmpty q))
    | next => some (s.goto t (.getStore q head next))
  | .getEmpty q => some ((s.setHeadLock q false).goto t (.gotten q none))
  | .getStore q head next => some ((s.onHeap (·.setHead q next)).goto t (.getUnlock q head))
  | .getUnlock q head =>
    -- the divider is put again, and the loop goes round
    if head = .divider q then some ((s.setHeadLock q false).goto t (.put .init (.queueGet q)))
    else some ((s.setHeadLock q false).goto t (.getPoison q head))
  | .getPoison q head =>
    some ((s.onHeap (·.queueHeadInit head)).goto t (.gotten q (some head)))
  | .idle | .gotten _ _ | .crashed => none

def Machine.step (s : Machine T Q E) : Action T Q E → Option (Machine T Q E)
  | .callPut t e q => if s.pc t = .idle then some (s.goto t (.put .init (.program e q))) else none
  | .callGet t q => if s.pc t = .idle then some (s.goto t (.getLock q)) else none
  | .run t => s.runThread t
  | .ret t =>
    match s.pc t with
    | .gotten _ _ => some (s.goto t .idle)
    | _ => none

/-- Every root set up by `init_queue_root`, no call under way; the pointers of the program's
objects hold anything. -/
def Machine.init (next : E → Link (Node Q E)) : Machine T Q E where
  heap := {
    next := fun n => match n with | .elem e => next e | .divider _ => .null
    head := fun q => .node (.divider q)
    tail := fun q => .divider q }
  headLock := fun _ => false
  tailLock := fun _ => false
  pc := fun _ => .idle

/-! ## What a step can do -/

/-- The steps, one constructor for each statement and outcome. -/
inductive Step (s : Machine T Q E) : Action T Q E → Machine T Q E → Prop
  | callPut {t : T} {e : E} {q : Q} (hpc : s.pc t = .idle) :
      Step s (.callPut t e q) (s.goto t (.put .init (.program e q)))
  | callGet {t : T} {q : Q} (hpc : s.pc t = .idle) : Step s (.callGet t q) (s.goto t (.getLock q))
  | putInit {t : T} {c : PutCall Q E} (hpc : s.pc t = .put .init c) :
      Step s (.run t) ((s.onHeap (·.queueHeadInit c.new)).goto t (.put .clear c))
  | putClear {t : T} {c : PutCall Q E} (hpc : s.pc t = .put .clear c) :
      Step s (.run t) ((s.onHeap (·.clearNext c.new)).goto t (.put .lock c))
  | putLock {t : T} {c : PutCall Q E} (hpc : s.pc t = .put .lock c)
      (hfree : s.tailLock c.root = false) :
      Step s (.run t) ((s.setTailLock c.root true).goto t (.put .link c))
  | putLink {t : T} {c : PutCall Q E} (hpc : s.pc t = .put .link c) :
      Step s (.run t) ((s.onHeap (·.linkTail c.root c.new)).goto t (.put .advance c))
  | putAdvance {t : T} {c : PutCall Q E} (hpc : s.pc t = .put .advance c) :
      Step s (.run t) ((s.onHeap (·.setTail c.root c.new)).goto t (.put .unlock c))
  | putUnlock {t : T} {c : PutCall Q E} (hpc : s.pc t = .put .unlock c) :
      Step s (.run t) ((s.setTailLock c.root false).goto t c.after)
  | getLock {t : T} {q : Q} (hpc : s.pc t = .getLock q) (hfree : s.headLock q = false) :
      Step s (.run t) ((s.setHeadLock q true).goto t (.getHead q))
  | getHead {t : T} {q : Q} {head : Node Q E} (hpc : s.pc t = .getHead q)
      (hhead : s.heap.head q = .node head) : Step s (.run t) (s.goto t (.getNext q head))
  | getCrash {t : T} {q : Q} (hpc : s.pc t = .getHead q)
      (hhead : ∀ head, s.heap.head q ≠ .node head) : Step s (.run t) (s.goto t .crashed)
  | getNull {t : T} {q : Q} {head : Node Q E} (hpc : s.pc t = .getNext q head)
      (hnext : s.heap.next head = .null) : Step s (.run t) (s.goto t (.getEmpty q))
  | getNext {t : T} {q : Q} {head : Node Q E} (hpc : s.pc t = .getNext q head)
      (hnext : s.heap.next head ≠ .null) :
      Step s (.run t) (s.goto t (.getStore q head (s.heap.next head)))
  | getEmpty {t : T} {q : Q} (hpc : s.pc t = .getEmpty q) :
      Step s (.run t) ((s.setHeadLock q false).goto t (.gotten q none))
  | getStore {t : T} {q : Q} {head : Node Q E} {next : Link (Node Q E)}
      (hpc : s.pc t = .getStore q head next) :
      Step s (.run t) ((s.onHeap (·.setHead q next)).goto t (.getUnlock q head))
  | getDivider {t : T} {q : Q} (hpc : s.pc t = .getUnlock q (.divider q)) :
      Step s (.run t) ((s.setHeadLock q false).goto t (.put .init (.queueGet q)))
  | getNode {t : T} {q : Q} {head : Node Q E} (hpc : s.pc t = .getUnlock q head)
      (hne : head ≠ .divider q) :
      Step s (.run t) ((s.setHeadLock q false).goto t (.getPoison q head))
  | getPoison {t : T} {q : Q} {head : Node Q E} (hpc : s.pc t = .getPoison q head) :
      Step s (.run t) ((s.onHeap (·.queueHeadInit head)).goto t (.gotten q (some head)))
  | ret {t : T} {q : Q} {r : Option (Node Q E)} (hpc : s.pc t = .gotten q r) :
      Step s (.ret t) (s.goto t .idle)

theorem Machine.stepPut_cases {s s' : Machine T Q E} {t : T} {c : PutCall Q E} {stage : PutStage}
    (hpc : s.pc t = .put stage c) (h : s.stepPut t c stage = some s') : Step s (.run t) s' := by
  cases stage with
  | init => exact Option.some.inj h ▸ .putInit hpc
  | clear => exact Option.some.inj h ▸ .putClear hpc
  | lock =>
    simp only [Machine.stepPut] at h
    split at h
    · cases h
    · next hfree => exact Option.some.inj h ▸ .putLock hpc (by simpa using hfree)
  | link => exact Option.some.inj h ▸ .putLink hpc
  | advance => exact Option.some.inj h ▸ .putAdvance hpc
  | unlock => exact Option.some.inj h ▸ .putUnlock hpc

theorem Machine.runThread_cases {s s' : Machine T Q E} {t : T} (h : s.runThread t = some s') :
    Step s (.run t) s' := by
  unfold Machine.runThread at h
  split at h
  · next stage c hpc => exact Machine.stepPut_cases hpc h
  · next q hpc =>
    split at h
    · cases h
    · next hfree => exact Option.some.inj h ▸ .getLock hpc (by simpa using hfree)
  · next q hpc =>
    split at h
    · next head hhead => exact Option.some.inj h ▸ .getHead hpc hhead
    · next hhead => exact Option.some.inj h ▸ .getCrash hpc hhead
  · next q head hpc =>
    split at h
    · next hnext => exact Option.some.inj h ▸ .getNull hpc hnext
    · next hnext => exact Option.some.inj h ▸ .getNext hpc hnext
  · next q hpc => exact Option.some.inj h ▸ .getEmpty hpc
  · next q head next hpc => exact Option.some.inj h ▸ .getStore hpc
  · next q head hpc =>
    split at h
    · next hd =>
      subst hd
      exact Option.some.inj h ▸ .getDivider hpc
    · next hd => exact Option.some.inj h ▸ .getNode hpc hd
  · next q head hpc => exact Option.some.inj h ▸ .getPoison hpc
  all_goals cases h

theorem Machine.step_cases {s s' : Machine T Q E} {a : Action T Q E} (h : s.step a = some s') :
    Step s a s' := by
  cases a with
  | callPut t e q =>
    simp only [Machine.step] at h
    split at h
    · next hpc => exact Option.some.inj h ▸ .callPut hpc
    · cases h
  | callGet t q =>
    simp only [Machine.step] at h
    split at h
    · next hpc => exact Option.some.inj h ▸ .callGet hpc
    · cases h
  | run t => exact Machine.runThread_cases h
  | ret t =>
    simp only [Machine.step] at h
    split at h
    · next hpc => exact Option.some.inj h ▸ .ret hpc
    · cases h

/-! ## What has happened

A `Traced` machine carries a record that no step looks at: the calls so far, in the order in which
they took effect. -/

structure Traced (T Q E : Type) where
  mach : Machine T Q E
  /-- The nodes hung into a queue and not taken off its head, the divider among them. -/
  chain : Q → List (Node Q E)
  /-- The program's objects hung into the queue, in the order of its `tail_lock` sections. -/
  linked : Q → List E
  /-- The program's objects taken off the head, in the order of the `head_lock` sections. -/
  removed : Q → List E
  /-- The program's objects that `queue_get` has returned. -/
  returned : Q → List E
  /-- Put by the program, and not yet returned to it. -/
  inUse : E → Bool
  /-- How many of the program's `queue_put`s have returned. -/
  completed : Q → Nat
  /-- How many had, when the thread's `queue_get` began. -/
  began : T → Nat

def Traced.init (next : E → Link (Node Q E)) : Traced T Q E where
  mach := .init next
  chain := fun q => [.divider q]
  linked := fun _ => []
  removed := fun _ => []
  returned := fun _ => []
  inUse := fun _ => false
  completed := fun _ => 0
  began := fun _ => 0

/-- The record after an action taken in `s`, with the machine `mach` that results. -/
def Traced.record (s : Traced T Q E) (mach : Machine T Q E) : Action T Q E → Traced T Q E
  | .callPut _ e _ => { s with mach, inUse := Function.update s.inUse e true }
  | .callGet t q => { s with mach, began := Function.update s.began t (s.completed q) }
  | .run t =>
    match s.mach.pc t with
    | .put .link c =>
      { s with
        mach
        chain := Function.update s.chain c.root (s.chain c.root ++ [c.new])
        linked := Function.update s.linked c.root (s.linked c.root ++ elems [c.new]) }
    | .put .unlock (.program _ q) =>
      { s with mach, completed := Function.update s.completed q (s.completed q + 1) }
    | .getStore q head _ =>
      { s with
        mach
        chain := Function.update s.chain q (s.chain q).tail
        removed := Function.update s.removed q (s.removed q ++ elems [head]) }
    | _ => { s with mach }
  | .ret t =>
    match s.mach.pc t with
    | .gotten q (some (.elem e)) =>
      { s with
        mach
        returned := Function.update s.returned q (s.returned q ++ [e])
        inUse := Function.update s.inUse e false }
    | _ => { s with mach }

@[simp] theorem Traced.record_mach (s : Traced T Q E) (m : Machine T Q E) (a : Action T Q E) :
    (s.record m a).mach = m := by
  unfold Traced.record
  repeat' split
  all_goals rfl

def tstep (s : Traced T Q E) (a : Action T Q E) : Option (Traced T Q E) :=
  (s.mach.step a).map (s.record · a)

/-- The program puts only nodes that are in no queue: never put yet, or returned to it by
`queue_get` since. -/
def Disciplined (s : Traced T Q E) : Action T Q E → Prop
  | .callPut _ e _ => s.inUse e = false
  | _ => True

instance (s : Traced T Q E) : (a : Action T Q E) → Decidable (Disciplined s a)
  | .callPut _ e _ => inferInstanceAs (Decidable (s.inUse e = false))
  | .callGet _ _ | .run _ | .ret _ => .isTrue trivial

end Piotbench.Queue
