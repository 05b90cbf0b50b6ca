import Piotbench.Lib.Chain

/-!
# The divider queue

`queue.h` over an explicit heap. A node is an element that the program puts, or the `divider`
embedded in a queue root; every node has one `next` pointer. `QueueHeap` holds the pointers of all
nodes and the `head` and `tail` of all roots, so that several queues share one heap, as they do in
the server. The lock words are left to `Piotbench.Queue.Threads`.

Each assignment of `queue_put` and `queue_get` is a function of its own: the sequential functions
below compose them, and the threads take them one at a time.
-/

set_option linter.unusedSectionVars false

namespace Piotbench.Queue

open Pointers

/-- A `struct queue_head`: embedded in an object of the program, or in a queue root. -/
inductive Node (Q E : Type)
  | elem (e : E)
  | divider (q : Q)
  deriving DecidableEq

/-- The object that a node belongs to, unless it is a divider. -/
def Node.elem? {Q E : Type} : Node Q E → Option E
  | .elem e => some e
  | .divider _ => none

structure QueueHeap (Q E : Type) where
  next : Node Q E → Link (Node Q E)
  head : Q → Link (Node Q E)
  tail : Q → Node Q E

variable {Q E : Type} [DecidableEq Q] [DecidableEq E]

/-! ## The assignments -/

/-- `head->next = QUEUE_POISON1` -/
def QueueHeap.queueHeadInit (m : QueueHeap Q E) (n : Node Q E) : QueueHeap Q E :=
  { m with next := Function.update m.next n .poison }

/-- `new_->next = NULL` -/
def QueueHeap.clearNext (m : QueueHeap Q E) (n : Node Q E) : QueueHeap Q E :=
  { m with next := Function.update m.next n .null }

/-- `root->tail->next = new_` -/
def QueueHeap.linkTail (m : QueueHeap Q E) (q : Q) (n : Node Q E) : QueueHeap Q E :=
  { m with next := Function.update m.next (m.tail q) (.node n) }

/-- `root->tail = new_` -/
def QueueHeap.setTail (m : QueueHeap Q E) (q : Q) (n : Node Q E) : QueueHeap Q E :=
  { m with tail := Function.update m.tail q n }

/-- `root->head = next` -/
def QueueHeap.setHead (m : QueueHeap Q E) (q : Q) (l : Link (Node Q E)) : QueueHeap Q E :=
  { m with head := Function.update m.head q l }

section Fields

variable (m : QueueHeap Q E) (n : Node Q E) (q : Q) (l : Link (Node Q E))

@[simp] theorem QueueHeap.queueHeadInit_next :
    (m.queueHeadInit n).next = Function.update m.next n .poison := rfl
@[simp] theorem QueueHeap.queueHeadInit_head : (m.queueHeadInit n).head = m.head := rfl
@[simp] theorem QueueHeap.queueHeadInit_tail : (m.queueHeadInit n).tail = m.tail := rfl
@[simp] theorem QueueHeap.clearNext_next :
    (m.clearNext n).next = Function.update m.next n .null := rfl
@[simp] theorem QueueHeap.clearNext_head : (m.clearNext n).head = m.head := rfl
@[simp] theorem QueueHeap.clearNext_tail : (m.clearNext n).tail = m.tail := rfl
@[simp] theorem QueueHeap.linkTail_next :
    (m.linkTail q n).next = Function.update m.next (m.tail q) (.node n) := rfl
@[simp] theorem QueueHeap.linkTail_head : (m.linkTail q n).head = m.head := rfl
@[simp] theorem QueueHeap.linkTail_tail : (m.linkTail q n).tail = m.tail := rfl
@[simp] theorem QueueHeap.setTail_next : (m.setTail q n).next = m.next := rfl
@[simp] theorem QueueHeap.setTail_head : (m.setTail q n).head = m.head := rfl
@[simp] theorem QueueHeap.setTail_tail : (m.setTail q n).tail = Function.update m.tail q n := rfl
@[simp] theorem QueueHeap.setHead_next : (m.setHead q l).next = m.next := rfl
@[simp] theorem QueueHeap.setHead_head : (m.setHead q l).head = Function.update m.head q l := rfl
@[simp] theorem QueueHeap.setHead_tail : (m.setHead q l).tail = m.tail := rfl

end Fields

/-! ## The functions -/

def initQueueRoot (m : QueueHeap Q E) (q : Q) : QueueHeap Q E :=
  ((m.clearNext (.divider q)).setHead q (.node (.divider q))).setTail q (.divider q)

def queuePut (m : QueueHeap Q E) (new : Node Q E) (q : Q) : QueueHeap Q E :=
  (((m.queueHeadInit new).clearNext new).linkTail q new).setTail q new

/-- How one turn of the loop in `queue_get` ends. -/
inductive Turn (Q E : Type)
  | returned (r : Option (Node Q E)) (m : QueueHeap Q E)
  | again (m : QueueHeap Q E)
  /-- `head->next` where `head` is no node. -/
  | fault

def queueGetTurn (m : QueueHeap Q E) (q : Q) : Turn Q E :=
  match m.head q with
  | .node head =>
    match m.next head with
    | .null => .returned none m
    | next =>
      let m := m.setHead q next
      if head = .divider q then .again (queuePut m head q)
      else .returned (some head) (m.queueHeadInit head)
  | _ => .fault

/-- `queue_get`, its loop cut off after `fuel` turns. -/
def queueGet : Nat → QueueHeap Q E → Q → Option (Option (Node Q E) × QueueHeap Q E)
  | 0, _, _ => none
  | fuel + 1, m, q =>
    match queueGetTurn m q with
    | .returned r m => some (r, m)
    | .again m => queueGet fuel m q
    | .fault => none

/-! ## What a queue holds -/

/-- The objects of the program in a list of nodes. -/
def elems (l : List (Node Q E)) : List E :=
  l.filterMap Node.elem?

omit [DecidableEq Q] [DecidableEq E]

@[simp] theorem elems_nil : elems ([] : List (Node Q E)) = [] := rfl

@[simp] theorem elems_cons_elem (e : E) (l : List (Node Q E)) :
    elems (.elem e :: l) = e :: elems l := rfl

@[simp] theorem elems_cons_divider (q : Q) (l : List (Node Q E)) :
    elems (.divider q :: l) = elems l := rfl

@[simp] theorem elems_append (l l' : List (Node Q E)) :
    elems (l ++ l') = elems l ++ elems l' := by
  simp [elems]

@[simp] theorem mem_elems {l : List (Node Q E)} {e : E} : e ∈ elems l ↔ .elem e ∈ l := by
  simp only [elems, List.mem_filterMap]
  constructor
  · rintro ⟨n, hn, he⟩
    cases n with
    | elem e' =>
      obtain rfl : e' = e := by simpa [Node.elem?] using he
      exact hn
    | divider q => cases he
  · intro he
    exact ⟨_, he, rfl⟩

end Piotbench.Queue
