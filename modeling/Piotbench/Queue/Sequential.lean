import Piotbench.Queue.Basic
import Mathlib.Data.List.Count

/-!
# One call after another

A queue root whose calls do not overlap is a list: `queue_put` appends, `queue_get` takes the
first element off. `Rooted m q chain` reads the chain of a root off the heap. Between two calls
the chain holds the divider once, wherever it is (`Represents`), and the list is what remains when
it is left out.
-/

namespace Piotbench.Queue

open Pointers

variable {Q E : Type}

/-- Following the pointers from `head` visits `chain` and ends at `tail`. -/
structure Rooted (m : QueueHeap Q E) (q : Q) (chain : List (Node Q E)) : Prop where
  chained : Chain m.next chain
  head : chain.head?.map .node = some (m.head q)
  tail : chain.getLast? = some (m.tail q)

variable [DecidableEq Q] [DecidableEq E]

/-- Between two calls: the chain holds the root's own divider once, else objects of the program. -/
structure Represents (m : QueueHeap Q E) (q : Q) (chain : List (Node Q E)) : Prop
    extends Rooted m q chain where
  divider : chain.count (.divider q) = 1
  own : ∀ q', .divider q' ∈ chain → q' = q

variable {m : QueueHeap Q E} {q : Q} {chain : List (Node Q E)} {n : Node Q E} {e : E}

theorem initQueueRoot_represents (m : QueueHeap Q E) (q : Q) :
    Represents (initQueueRoot m q) q [.divider q] where
  chained := Chain.singleton (by simp [initQueueRoot, QueueHeap.clearNext, QueueHeap.setHead,
    QueueHeap.setTail])
  head := by simp [initQueueRoot, QueueHeap.setHead, QueueHeap.setTail]
  tail := by simp [initQueueRoot, QueueHeap.setTail]
  divider := by simp
  own q' hq' := by simpa using hq'

/-! ## What the assignments do to the chain -/

theorem Rooted.put (h : Rooted m q chain) (hn : n ∉ chain) :
    Rooted (queuePut m n q) q (chain ++ [n]) where
  chained := by
    apply Chain.append _ h.tail hn
    · simp [QueueHeap.clearNext]
    · exact (h.chained.update_of_notMem hn .poison).update_of_notMem hn .null
  head := by
    cases chain with
    | nil => exact absurd h.head (by simp)
    | cons k l => exact h.head
  tail := by simp [queuePut, QueueHeap.setTail]

omit [DecidableEq E] in
theorem Rooted.pop {k : Node Q E} {l : List (Node Q E)} (h : Rooted m q (k :: n :: l)) :
    Rooted (m.setHead q (m.next k)) q (n :: l) where
  chained := h.chained.tail
  head := by simp [QueueHeap.setHead, h.chained.next_head]
  tail := by simpa [QueueHeap.setHead] using h.tail

theorem Rooted.poison (h : Rooted m q chain) (hn : n ∉ chain) :
    Rooted (m.queueHeadInit n) q chain where
  chained := h.chained.update_of_notMem hn .poison
  head := h.head
  tail := h.tail

omit [DecidableEq Q] [DecidableEq E] in
theorem Rooted.head_eq {l : List (Node Q E)} (h : Rooted m q (n :: l)) : m.head q = .node n := by
  simpa using h.head.symm

/-! ## One turn of the loop -/

theorem queueGetTurn_single (h : Rooted m q [n]) : queueGetTurn m q = .returned none m := by
  have hnext : m.next n = .null := h.chained.next_head_null.mpr rfl
  simp [queueGetTurn, h.head_eq, hnext]

/-- The divider at the head of a longer chain is put behind the last node. -/
theorem queueGetTurn_divider {l : List (Node Q E)} (h : Rooted m q (.divider q :: n :: l)) :
    ∃ m', queueGetTurn m q = .again m' ∧ Rooted m' q (n :: l ++ [.divider q]) := by
  have hnext : m.next (.divider q) = .node n := h.chained.next_head
  have hfresh := (List.nodup_cons.mp h.chained.nodup).1
  refine ⟨queuePut (m.setHead q (.node n)) (.divider q) q, ?_, ?_⟩
  · simp [queueGetTurn, h.head_eq, hnext]
  · rw [← hnext]
    exact h.pop.put hfresh

theorem queueGetTurn_elem {l : List (Node Q E)} (h : Rooted m q (.elem e :: n :: l)) :
    ∃ m', queueGetTurn m q = .returned (some (.elem e)) m' ∧ Rooted m' q (n :: l) := by
  have hnext : m.next (.elem e) = .node n := h.chained.next_head
  have hfresh := (List.nodup_cons.mp h.chained.nodup).1
  refine ⟨(m.setHead q (.node n)).queueHeadInit (.elem e), ?_, ?_⟩
  · simp [queueGetTurn, h.head_eq, hnext]
  · rw [← hnext]
    exact h.pop.poison hfresh

/-! ## The calls -/

theorem Represents.put (h : Represents m q chain) (he : e ∉ elems chain) :
    Represents (queuePut m (.elem e) q) q (chain ++ [.elem e]) where
  toRooted := h.toRooted.put (by simpa using he)
  divider := by simp [h.divider]
  own q' hq' := h.own q' (by simpa using hq')

/-- `queue_get` needs one turn, or two when the divider is in front, and takes the first element. -/
theorem Represents.get (h : Represents m q chain) :
    ∃ m' chain', queueGet 2 m q = some ((elems chain).head?.map .elem, m') ∧
      Represents m' q chain' ∧ elems chain' = (elems chain).tail := by
  have hd := h.divider
  match chain, h with
  | [], _ => simp at hd
  | .divider q' :: [], h =>
    exact ⟨m, _, by simp [queueGet, queueGetTurn_single h.toRooted], h, rfl⟩
  | .elem e :: [], _ => simp at hd
  | .divider q' :: n :: l, h =>
    obtain rfl := h.own q' (by simp)
    have hout : .divider q' ∉ n :: l := (List.nodup_cons.mp h.chained.nodup).1
    obtain ⟨m₁, hturn, hroot⟩ := queueGetTurn_divider h.toRooted
    -- the divider was the only one, so the second turn finds an element
    cases n with
    | divider q'' =>
      obtain rfl := h.own q'' (by simp)
      simp at hout
    | elem e =>
      obtain ⟨k, rest, hk⟩ : ∃ k rest, l ++ [Node.divider q'] = k :: rest :=
        List.exists_cons_of_ne_nil (by simp)
      simp only [List.cons_append, hk] at hroot
      obtain ⟨m₂, hturn₂, hroot₂⟩ := queueGetTurn_elem hroot
      refine ⟨m₂, k :: rest, ?_, ⟨hroot₂, ?_, ?_⟩, ?_⟩
      · simp [queueGet, hturn, hturn₂]
      · rw [← hk]
        simpa [List.count_eq_zero] using hout
      · rw [← hk]
        intro q'' hq''
        rcases List.mem_append.mp hq'' with hl | hl
        · exact h.own q'' (by simp [hl])
        · simpa using hl
      · simp [← hk]
  | .elem e :: n :: l, h =>
    obtain ⟨m₁, hturn, hroot⟩ := queueGetTurn_elem h.toRooted
    refine ⟨m₁, n :: l, ?_, ⟨hroot, ?_, ?_⟩, ?_⟩
    · simp [queueGet, hturn]
    · simpa using hd
    · intro q' hq'
      exact h.own q' (List.mem_cons_of_mem _ hq')
    · simp

/-! ## Sequences of calls -/

inductive Op (E : Type)
  | put (e : E)
  | get

/-- The calls on a plain list: what the `queue_get`s return, and the list that is left. -/
def Op.onList : List E → List (Op E) → List (Option E) × List E
  | l, [] => ([], l)
  | l, .put e :: ops => Op.onList (l ++ [e]) ops
  | l, .get :: ops => (l.head? :: (Op.onList l.tail ops).1, (Op.onList l.tail ops).2)

/-- The calls on the heap, at most two turns for each `queue_get`. -/
def Op.onRoot (q : Q) : QueueHeap Q E → List (Op E) →
    Option (List (Option (Node Q E)) × QueueHeap Q E)
  | m, [] => some ([], m)
  | m, .put e :: ops => Op.onRoot q (queuePut m (.elem e) q) ops
  | m, .get :: ops => do
    let (r, m) ← queueGet 2 m q
    let (rs, m) ← Op.onRoot q m ops
    return (r :: rs, m)

/-- Every node put is, at that time, not in the queue. -/
def Op.Fresh : List E → List (Op E) → Prop
  | _, [] => True
  | l, .put e :: ops => e ∉ l ∧ Op.Fresh (l ++ [e]) ops
  | l, .get :: ops => Op.Fresh l.tail ops

/-- From any chain, the results and what is left are those of the list without the divider. -/
theorem Represents.run {ops : List (Op E)} (h : Represents m q chain)
    (hfresh : Op.Fresh (elems chain) ops) :
    ∃ m' chain', Op.onRoot q m ops =
        some ((Op.onList (elems chain) ops).1.map (Option.map .elem), m') ∧
      Represents m' q chain' ∧ elems chain' = (Op.onList (elems chain) ops).2 := by
  induction ops generalizing m chain with
  | nil => exact ⟨m, chain, rfl, h, rfl⟩
  | cons op ops ih =>
    cases op with
    | put e =>
      have helems : elems (chain ++ [.elem e]) = elems chain ++ [e] := by simp
      obtain ⟨m', chain', hrun, hrep, hleft⟩ := ih (h.put hfresh.1) (helems ▸ hfresh.2)
      rw [helems] at hrun hleft
      exact ⟨m', chain', hrun, hrep, hleft⟩
    | get =>
      obtain ⟨m₁, chain₁, hget, hrep₁, hleft₁⟩ := h.get
      obtain ⟨m', chain', hrun, hrep, hleft⟩ := ih hrep₁ (hleft₁ ▸ hfresh)
      rw [hleft₁] at hrun hleft
      refine ⟨m', chain', ?_, hrep, hleft⟩
      simp [Op.onRoot, hget, hrun, Op.onList]

/-- **The queue is a list**, for calls that follow one another on a root set up by
`init_queue_root`: each `queue_get` ends within two turns and returns what the list returns, and
after the last call the chain from `head` ends at `tail`, has no repeats, holds the divider once
and otherwise the elements of the list in order. -/
theorem queue_refines_list (m₀ : QueueHeap Q E) (q : Q) (ops : List (Op E))
    (hfresh : Op.Fresh [] ops) :
    ∃ m chain, Op.onRoot q (initQueueRoot m₀ q) ops =
        some ((Op.onList [] ops).1.map (Option.map .elem), m) ∧
      Rooted m q chain ∧ chain.Nodup ∧ chain.count (.divider q) = 1 ∧
      elems chain = (Op.onList [] ops).2 := by
  obtain ⟨m, chain, hrun, hrep, hleft⟩ := (initQueueRoot_represents m₀ q).run hfresh
  exact ⟨m, chain, hrun, hrep.toRooted, hrep.chained.nodup, hrep.divider, hleft⟩

/-- Two nodes, each put and taken, and `NULL` before and after. -/
theorem queue_refines_list_two :
    Op.Fresh [] [.get, .put 1, .put 2, .get, .get, .get] ∧
    ∃ m chain, Op.onRoot () (initQueueRoot ⟨fun _ => .poison, fun _ => .null, fun _ => .elem 0⟩ ())
        [.get, .put 1, .put 2, .get, .get, .get] =
        some ([none, some (.elem 1), some (.elem 2), none], m) ∧
      Rooted m () chain ∧ chain.Nodup ∧ chain.count (.divider ()) = 1 ∧ elems chain = [] := by
  have hfresh : Op.Fresh [] [.get, .put 1, .put 2, .get, .get, .get] := by
    simp [Op.Fresh]
  exact ⟨hfresh,
    queue_refines_list ⟨fun _ => .poison, fun _ => .null, fun _ => .elem 0⟩ () _ hfresh⟩

end Piotbench.Queue
