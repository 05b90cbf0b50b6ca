import Piotbench.Queue.Locks
import Piotbench.Lib.Places

/-!
# Where the nodes are

At every moment a node that is in use, and every divider, is kept at exactly one place: the chain
of one queue, or the hand of one thread that has not linked it yet or has taken it off the head.
A node in a thread's hand can be written without touching any chain; this is what makes the
assignments outside of the locks harmless.
-/

set_option linter.unusedSectionVars false

namespace Piotbench.Queue

open Places Transition

variable {T Q E : Type} [DecidableEq T] [DecidableEq Q] [DecidableEq E]

inductive Place (T Q : Type)
  | queue (q : Q)
  | hand (t : T)
  deriving DecidableEq

/-- The node that only this thread may write. -/
def Pc.hand : Pc Q E → List (Node Q E)
  | .put .init c | .put .clear c | .put .lock c | .put .link c => [c.new]
  | .getUnlock _ head | .getPoison _ head | .gotten _ (some head) => [head]
  | _ => []

def Traced.held (s : Traced T Q E) : Place T Q → List (Node Q E)
  | .queue q => s.chain q
  | .hand t => (s.mach.pc t).hand

/-- The nodes that the queues or the threads have. -/
def Traced.owned (s : Traced T Q E) : Node Q E → Prop
  | .elem e => s.inUse e = true
  | .divider _ => True

/-- What a thread knows about the heap where it stands. -/
def Pc.Ok (m : QueueHeap Q E) : Pc Q E → Prop
  | .put .lock c | .put .link c => m.next c.new = .null
  | .getNext q head => m.head q = .node head
  | .getStore q head next => m.head q = .node head ∧ m.next head = next ∧ next ≠ .null
  | .getUnlock q head => ∀ r, head = .divider r → r = q
  | .getPoison _ head | .gotten _ (some head) => ∃ e, head = .elem e
  | .crashed => False
  | _ => True

/-- The invariant of the queues. -/
structure Linked (s : Traced T Q E) : Prop where
  locked : Locked s.mach
  owned : Partition s.owned s.held
  chained : ∀ q, Pointers.Chain s.mach.heap.next (s.chain q)
  head : ∀ q, (s.chain q).head?.map .node = some (s.mach.heap.head q)
  /-- `tail` is the last node, unless a thread has linked behind it and not moved it yet. -/
  tail : ∀ q, (∀ t c, s.mach.pc t = .put .advance c → c.root ≠ q) →
    (s.chain q).getLast? = some (s.mach.heap.tail q)
  lagging : ∀ t c, s.mach.pc t = .put .advance c → (s.chain c.root).getLast? = some c.new
  ok : ∀ t, (s.mach.pc t).Ok s.mach.heap
  own : ∀ q r, .divider r ∈ s.chain q → r = q

theorem Linked.init (next : E → Pointers.Link (Node Q E)) :
    Linked (Traced.init next : Traced T Q E) where
  locked := Locked.init next
  owned := by
    refine ⟨⟨?_, ?_⟩, ?_⟩
    · rintro (q | t)
      · exact List.nodup_singleton _
      · exact List.nodup_nil
    · rintro (q | t) (r | u) n hn hn'
      · simp only [Traced.held, Traced.init, List.mem_singleton] at hn hn'
        rw [hn] at hn'
        cases hn'
        rfl
      all_goals simp [Traced.held, Traced.init, Machine.init, Pc.hand] at hn hn'
    · rintro (e | q)
      · constructor
        · intro he
          cases he
        · rintro ⟨q | t, hq⟩
          · simp [Traced.held, Traced.init] at hq
          · simp [Traced.held, Traced.init, Machine.init, Pc.hand] at hq
      · exact ⟨fun _ => ⟨.queue q, by simp [Traced.held, Traced.init]⟩, fun _ => trivial⟩
  chained q := Pointers.Chain.singleton rfl
  head q := rfl
  tail q _ := rfl
  lagging t c h := by cases h
  ok t := trivial
  own q r h := by simpa [Traced.init] using h

variable {s : Traced T Q E} {a : Action T Q E} {m : Machine T Q E} {t : T} {q : Q}
  {n head : Node Q E}

/-! ## Reading the invariant -/

/-- The chain of a root is never empty. -/
theorem Linked.cons (h : Linked s) (q : Q) :
    ∃ n l, s.chain q = n :: l ∧ s.mach.heap.head q = .node n := by
  have hq := h.head q
  cases hc : s.chain q with
  | nil => simp [hc] at hq
  | cons n l =>
    simp only [hc, List.head?_cons, Option.map_some, Option.some.injEq] at hq
    exact ⟨n, l, rfl, hq.symm⟩

theorem Linked.cons_of_head (h : Linked s) (hhead : s.mach.heap.head q = .node head) :
    ∃ l, s.chain q = head :: l := by
  obtain ⟨n, l, hc, hn⟩ := h.cons q
  cases hn.symm.trans hhead
  exact ⟨l, hc⟩

/-- At `root->head = next` the node behind the head is the second one of the chain. -/
theorem Linked.cons_of_store (h : Linked s) {next : Pointers.Link (Node Q E)}
    (hpc : s.mach.pc t = .getStore q head next) :
    ∃ n l, s.chain q = head :: n :: l ∧ next = .node n := by
  have hok := h.ok t
  simp only [hpc, Pc.Ok] at hok
  obtain ⟨hhead, hnext, hne⟩ := hok
  obtain ⟨l, hc⟩ := h.cons_of_head hhead
  have hch := h.chained q
  rw [hc] at hch
  cases l with
  | nil => exact absurd (hnext.symm.trans (hch.next_head_null.mpr rfl)) hne
  | cons n l => exact ⟨n, l, hc, hnext.symm.trans hch.next_head⟩

theorem Linked.hand_notMem (h : Linked s) (hn : n ∈ (s.mach.pc t).hand) (q : Q) :
    n ∉ s.chain q := by
  intro hq
  cases h.owned.unique (p := .hand t) (q := .queue q) hn hq

/-- No thread is behind `root->tail->next = new_` while one is in front of it. -/
theorem Linked.no_advance (h : Linked s) {c : PutCall Q E} (hpc : s.mach.pc t = .put .link c)
    (u : T) (c' : PutCall Q E) (hu : s.mach.pc u = .put .advance c') : c'.root ≠ c.root := by
  intro hroot
  have htu := (h.locked.tail c.root).unique t u (by simp [hpc, Pc.inTail])
    (by simp [hu, Pc.inTail, hroot])
  subst htu
  cases hpc.symm.trans hu

/-- In front of `root->tail->next = new_`, `tail` is the last node. -/
theorem Linked.last_of_link (h : Linked s) {c : PutCall Q E}
    (hpc : s.mach.pc t = .put .link c) :
    (s.chain c.root).getLast? = some (s.mach.heap.tail c.root) :=
  h.tail c.root (h.no_advance hpc)

/-! ## One step, one place for each node -/

theorem held_eq {s' : Traced T Q E} {p : Pc Q E} (hchain : s'.chain = s.chain)
    (hpc : s'.mach.pc = Function.update s.mach.pc t p) (hhand : p.hand = (s.mach.pc t).hand) :
    s'.held = s.held := by
  funext place
  cases place with
  | queue q => simp only [Traced.held, hchain]
  | hand u =>
    simp only [Traced.held, hpc]
    by_cases hut : u = t
    · subst hut
      rw [Function.update_self, hhand]
    · rw [Function.update_of_ne hut]

theorem owned_eq {s' : Traced T Q E} (huse : s'.inUse = s.inUse) : s'.owned = s.owned := by
  funext n
  cases n <;> simp only [Traced.owned, huse]

/-- The node that a thread has linked leaves its hand for the queue. -/
theorem held_link {s' : Traced T Q E} {c : PutCall Q E} (hpc : s.mach.pc t = .put .link c)
    (hchain : s'.chain = Function.update s.chain c.root (s.chain c.root ++ [c.new]))
    (hpc' : s'.mach.pc = Function.update s.mach.pc t (.put .advance c)) :
    s'.held = move s.held c.new (.hand t) (.queue c.root) := by
  funext place
  cases place with
  | queue q =>
    by_cases hq : q = c.root
    · subst hq
      simp [Traced.held, move, hchain]
    · simp [Traced.held, move, hchain, hq]
  | hand u =>
    by_cases hut : u = t
    · subst hut
      simp [Traced.held, move, hpc', hpc, Pc.hand]
    · simp [Traced.held, move, hpc', hut]

/-- The node taken off the head goes to the hand of the thread. -/
theorem held_store {s' : Traced T Q E} {next : Pointers.Link (Node Q E)} {l : List (Node Q E)}
    (hpc : s.mach.pc t = .getStore q head next) (hc : s.chain q = head :: l)
    (hchain : s'.chain = Function.update s.chain q (s.chain q).tail)
    (hpc' : s'.mach.pc = Function.update s.mach.pc t (.getUnlock q head)) :
    s'.held = move s.held head (.queue q) (.hand t) := by
  funext place
  cases place with
  | queue r =>
    by_cases hr : r = q
    · subst hr
      simp [Traced.held, move, hchain, hc]
    · simp [Traced.held, move, hchain, hr]
  | hand u =>
    by_cases hut : u = t
    · subst hut
      simp [Traced.held, move, hpc', hpc, Pc.hand]
    · simp [Traced.held, move, hpc', hut]

theorem held_callPut {e : E} (hpc : s.mach.pc t = .idle) :
    (s.record (s.mach.goto t (.put .init (.program e q))) (.callPut t e q)).held =
      Function.update s.held (.hand t) (s.held (.hand t) ++ [.elem e]) := by
  funext place
  cases place with
  | queue r => simp [Traced.held, Traced.record]
  | hand u =>
    by_cases hut : u = t
    · subst hut
      simp [Traced.held, Traced.record, hpc, Pc.hand, PutCall.new]
    · simp [Traced.held, Traced.record, hut]

theorem held_ret {e : E} (hpc : s.mach.pc t = .gotten q (some (.elem e))) :
    (s.record (s.mach.goto t .idle) (.ret t)).held =
      Function.update s.held (.hand t) ((s.held (.hand t)).erase (.elem e)) := by
  funext place
  cases place with
  | queue r => simp [Traced.held, Traced.record, hpc]
  | hand u =>
    by_cases hut : u = t
    · subst hut
      simp [Traced.held, hpc, Pc.hand]
    · simp [Traced.held, hut]

/-- A thread that moves on with the same nodes in its hand. -/
theorem owned_quiet {s' : Traced T Q E} {p : Pc Q E} (hs : Partition s.owned s.held)
    (huse : s'.inUse = s.inUse) (hchain : s'.chain = s.chain)
    (hpc : s'.mach.pc = Function.update s.mach.pc t p) (hhand : p.hand = (s.mach.pc t).hand) :
    Partition s'.owned s'.held := by
  rw [owned_eq huse, held_eq hchain hpc hhand]
  exact hs

theorem Step.owned (h : Step s.mach a m) (hd : Disciplined s a) (hs : Linked s) :
    Partition (s.record m a).owned (s.record m a).held := by
  have hp := hs.owned
  cases h with
  | callGet hpc | putInit hpc | putClear hpc | putLock hpc | putAdvance hpc | getLock hpc
  | getHead hpc | getCrash hpc | getNull hpc | getNext hpc | getEmpty hpc | getDivider hpc
  | getNode hpc | getPoison hpc =>
    exact owned_quiet hp (by simp [Traced.record, hpc]) (by simp [Traced.record, hpc])
      (congrArg Machine.pc (s.record_mach _ _)) (by simp [hpc, Pc.hand, PutCall.new])
  | @callPut t e q hpc =>
    -- the node comes from outside, where nobody has it
    have hnew : ¬s.owned (.elem e) := by
      simp only [Disciplined] at hd
      simp [Traced.owned, hd]
    rw [held_callPut hpc]
    apply (hp.give hnew (.hand t)).congr
    rintro (e' | r)
    · by_cases he : e' = e
      · simp [Traced.owned, Traced.record, he]
      · simp [Traced.owned, Traced.record, he]
    · simp [Traced.owned]
  | @putLink t c hpc =>
    rw [owned_eq (s := s) (by simp [Traced.record, hpc]),
      held_link hpc (by simp [Traced.record, hpc]) (by simp [Traced.record, hpc])]
    exact hp.move (by simp) (by simp [Traced.held, hpc, Pc.hand])
  | @putUnlock t c hpc =>
    cases c <;>
      exact owned_quiet hp (by simp [Traced.record, hpc]) (by simp [Traced.record, hpc])
        (congrArg Machine.pc (s.record_mach _ _)) (by simp [hpc, Pc.hand, PutCall.after])
  | @getStore t q head next hpc =>
    obtain ⟨n, l, hc, -⟩ := hs.cons_of_store hpc
    rw [owned_eq (s := s) (by simp [Traced.record, hpc]),
      held_store hpc hc (by simp [Traced.record, hpc]) (by simp [Traced.record, hpc])]
    exact hp.move (by simp) (by simp [Traced.held, hc])
  | @ret t q r hpc =>
    have hok := hs.ok t
    cases r with
    | none =>
      exact owned_quiet hp (by simp [Traced.record, hpc]) (by simp [Traced.record, hpc])
        (congrArg Machine.pc (s.record_mach _ _)) (by simp [hpc, Pc.hand])
    | some head =>
      -- what is returned is no divider, and the program has it again
      simp only [hpc, Pc.Ok] at hok
      obtain ⟨e, rfl⟩ := hok
      rw [held_ret hpc]
      have hhand : .elem e ∈ s.held (.hand t) := by simp [Traced.held, hpc, Pc.hand]
      apply (hp.take hhand).congr
      rintro (e' | r)
      · by_cases he : e' = e
        · simp [Traced.owned, Traced.record, hpc, he]
        · simp [Traced.owned, Traced.record, hpc, he]
      · simp [Traced.owned]

end Piotbench.Queue
