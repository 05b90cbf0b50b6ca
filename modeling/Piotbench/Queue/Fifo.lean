import Piotbench.Queue.Linking

/-!
# The queues are first in, first out

The objects taken off the head are those hung in first, in that order, and the rest is in the
chain. What a `queue_get` returns it has taken off, and the divider is never returned.
-/

set_option linter.unusedSectionVars false

namespace Piotbench.Queue

open Places Pointers Transition

variable {T Q E : Type} [DecidableEq T] [DecidableEq Q] [DecidableEq E]
variable {s s' : Traced T Q E} {a : Action T Q E} {m : Machine T Q E} {t : T} {p : Pc Q E} {q : Q}

/-! ## Order -/

/-- The objects hung in are those taken off the head, and then those in the chain. -/
def Ordered (s : Traced T Q E) : Prop :=
  ∀ q, s.linked q = s.removed q ++ elems (s.chain q)

theorem Effect.ordered (h : Effect s s') (hs : Linked s) (ho : Ordered s) : Ordered s' := by
  intro q
  have hq := ho q
  cases h with
  | quiet hheap hqueues | write t n l hhand hheap hqueues | advance t c hpc hheap hqueues =>
    rw [hqueues.linked, hqueues.removed, hqueues.chain]
    exact hq
  | link t c hpc hheap hchain hlinked hremoved =>
    rw [hlinked, hremoved, hchain]
    by_cases hqr : q = c.root
    · subst hqr
      rw [Function.update_self, Function.update_self, elems_append, hq, List.append_assoc]
    · rw [Function.update_of_ne hqr, Function.update_of_ne hqr]
      exact hq
  | store t r head next hpc hheap hchain hlinked hremoved =>
    obtain ⟨n, l, hc, -⟩ := hs.cons_of_store hpc
    rw [hlinked, hremoved, hchain]
    by_cases hqr : q = r
    · subst hqr
      rw [hc] at hq
      rw [Function.update_self, Function.update_self, hc, List.tail_cons, hq]
      -- an object leaves the chain for `removed`, the divider leaves it for nowhere
      cases head <;> simp
    · rw [Function.update_of_ne hqr, Function.update_of_ne hqr]
      exact hq

/-! ## Every object taken off is returned once -/

/-- The object of the program that a thread has taken off a queue and not returned yet. -/
def Pc.fetched : Pc Q E → Option (Q × E)
  | .getUnlock q (.elem e) | .getPoison q (.elem e) | .gotten q (some (.elem e)) => some (q, e)
  | _ => none

theorem Pc.mem_hand_of_fetched {e : E} (h : p.fetched = some (q, e)) : .elem e ∈ p.hand := by
  unfold Pc.fetched at h
  split at h <;> cases h <;> simp [Pc.hand]

/-- As often as an object was taken off, it was returned, and once more while a thread has it. -/
def Delivered (s : Traced T Q E) : Prop :=
  ∀ q e, (∃ t, (s.mach.pc t).fetched = some (q, e)) ∧
      (s.removed q).count e = (s.returned q).count e + 1 ∨
    (∀ t, (s.mach.pc t).fetched ≠ some (q, e)) ∧
      (s.removed q).count e = (s.returned q).count e

theorem Delivered.quiet (hs : Delivered s) (hpc : s'.mach.pc = Function.update s.mach.pc t p)
    (hp : p.fetched = (s.mach.pc t).fetched) (hrem : s'.removed = s.removed)
    (hret : s'.returned = s.returned) : Delivered s' := by
  intro q e
  have hsame : ∀ u, (s'.mach.pc u).fetched = some (q, e) ↔ (s.mach.pc u).fetched = some (q, e) := by
    rw [hpc]
    exact Lock.update_iff (fun p : Pc Q E => p.fetched = some (q, e)) (by rw [hp])
  simp only [ne_eq, hsame, hrem, hret]
  exact hs q e

/-- What a step of one thread leaves as it was for other objects. -/
theorem fetched_other {x : Q × E} (hp : p.fetched ≠ some x)
    (ht : (s.mach.pc t).fetched ≠ some x) (u : T) :
    (Function.update s.mach.pc t p u).fetched = some x ↔ (s.mach.pc u).fetched = some x :=
  Lock.update_iff (fun p : Pc Q E => p.fetched = some x) (iff_of_false hp ht) u

theorem count_update_append (f : Q → List E) {q r : Q} {e e' : E} (hne : ¬(r, e') = (q, e)) :
    (Function.update f q (f q ++ [e]) r).count e' = (f r).count e' := by
  by_cases hr : r = q
  · subst hr
    have he : e ≠ e' := by
      rintro rfl
      exact hne rfl
    simp [he]
  · rw [Function.update_of_ne hr]

/-- The node at the head of a chain is in no hand. -/
theorem Delivered.store (hd : Delivered s) (hs : Linked s) {e : E} {next : Link (Node Q E)}
    (hpc : s.mach.pc t = .getStore q (.elem e) next) :
    Delivered (s.record (((s.mach.onHeap (·.setHead q next))).goto t (.getUnlock q (.elem e)))
      (.run t)) := by
  obtain ⟨n, l, hc, -⟩ := hs.cons_of_store hpc
  intro r e'
  have hold := hd r e'
  simp only [Traced.record, hpc]
  by_cases hsame : (r, e') = (q, e)
  · obtain ⟨rfl, rfl⟩ := Prod.mk.inj hsame
    left
    -- the object was in the chain, so nobody had it
    rcases hold with ⟨⟨u, hu⟩, -⟩ | ⟨-, hcount⟩
    · exact absurd (hc ▸ List.mem_cons_self) (hs.hand_notMem (Pc.mem_hand_of_fetched hu) r)
    · exact ⟨⟨t, by simp [Pc.fetched]⟩, by simp [hcount]⟩
  · have hother := fetched_other (s := s) (t := t) (p := .getUnlock q (.elem e)) (x := (r, e'))
      (fun h => hsame (Option.some.inj h).symm) (by simp [hpc, Pc.fetched])
    have hcount := count_update_append s.removed hsame
    simpa only [Machine.goto_pc, Machine.onHeap_pc, ne_eq, hother, elems_cons_elem, elems_nil,
      hcount] using hold

theorem Delivered.ret (hd : Delivered s) (hs : Linked s) {e : E}
    (hpc : s.mach.pc t = .gotten q (some (.elem e))) :
    Delivered (s.record (s.mach.goto t .idle) (.ret t)) := by
  intro r e'
  have hold := hd r e'
  simp only [Traced.record, hpc]
  by_cases hsame : (r, e') = (q, e)
  · obtain ⟨rfl, rfl⟩ := Prod.mk.inj hsame
    right
    rcases hold with ⟨-, hcount⟩ | ⟨hnone, -⟩
    · refine ⟨?_, by simp [hcount]⟩
      intro u hu
      by_cases hut : u = t
      · subst hut
        simp [Pc.fetched] at hu
      · -- the object was in one hand only
        simp only [Machine.goto_pc, Function.update_of_ne hut] at hu
        cases hs.owned.unique (p := .hand u) (q := .hand t) (t := .elem e')
          (Pc.mem_hand_of_fetched hu) (by simp [Traced.held, hpc, Pc.hand])
        exact hut rfl
    · exact absurd (by simp [hpc, Pc.fetched]) (hnone t)
  · have hother := fetched_other (s := s) (t := t) (p := .idle) (x := (r, e'))
      (by simp [Pc.fetched])
      (by
        rw [hpc]
        exact fun h => hsame (Option.some.inj h).symm)
    have hcount := count_update_append s.returned hsame
    simpa only [Machine.goto_pc, ne_eq, hother, hcount] using hold

theorem Step.delivered (h : Step s.mach a m) (hs : Linked s) (hd : Delivered s) :
    Delivered (s.record m a) := by
  have hmach := s.record_mach m a
  cases h with
  | callPut hpc | callGet hpc | putLock hpc | putAdvance hpc | getLock hpc | getHead hpc
  | getCrash hpc | getNull hpc | getNext hpc | getEmpty hpc | getDivider hpc
  | putInit hpc | putClear hpc | putLink hpc =>
    exact hd.quiet (congrArg Machine.pc hmach) (by simp [hpc, Pc.fetched])
      (by simp [Traced.record, hpc]) (by simp [Traced.record, hpc])
  | @getNode t q head hpc | @getPoison t q head hpc =>
    cases head <;>
      exact hd.quiet (congrArg Machine.pc hmach) (by simp [hpc, Pc.fetched])
        (by simp [Traced.record, hpc]) (by simp [Traced.record, hpc])
  | @putUnlock t c hpc =>
    cases c <;>
      exact hd.quiet (congrArg Machine.pc hmach) (by simp [hpc, Pc.fetched, PutCall.after])
        (by simp [Traced.record, hpc]) (by simp [Traced.record, hpc])
  | @getStore t q head next hpc =>
    cases head with
    | divider r =>
      exact hd.quiet (congrArg Machine.pc hmach) (by simp [hpc, Pc.fetched])
        (by simp [Traced.record, hpc]) (by simp [Traced.record, hpc])
    | elem e => exact hd.store hs hpc
  | @ret t q x hpc =>
    rcases x with _ | e | r
    · exact hd.quiet (congrArg Machine.pc hmach) (by simp [hpc, Pc.fetched])
        (by simp [Traced.record, hpc]) (by simp [Traced.record, hpc])
    · exact hd.ret hs hpc
    · exact hd.quiet (congrArg Machine.pc hmach) (by simp [hpc, Pc.fetched])
        (by simp [Traced.record, hpc]) (by simp [Traced.record, hpc])

theorem ordered_of_reachable {next : E → Link (Node Q E)}
    (h : Reachable tstep Disciplined (Traced.init next : Traced T Q E) s) : Ordered s := by
  apply h.invariant
  · intro q
    rfl
  · intro s a s' hr ho hd hstep
    obtain ⟨m, hm, rfl⟩ := Option.map_eq_some_iff.mp hstep
    exact (Machine.step_cases hm).effect.ordered (linked_of_reachable hr) ho

theorem delivered_of_reachable {next : E → Link (Node Q E)}
    (h : Reachable tstep Disciplined (Traced.init next : Traced T Q E) s) : Delivered s := by
  apply h.invariant
  · intro q e
    exact .inr ⟨fun t ht => (by cases ht), rfl⟩
  · intro s a s' hr hdel hd hstep
    obtain ⟨m, hm, rfl⟩ := Option.map_eq_some_iff.mp hstep
    exact (Machine.step_cases hm).delivered (linked_of_reachable hr) hdel

/-! ## The divider -/

/-- Inside `queue_get` on `q`, after taking the divider off the head and before linking it again. -/
def Pc.carries (q : Q) : Pc Q E → Prop
  | .getUnlock r head => r = q ∧ head = .divider q
  | .put .init (.queueGet r) | .put .clear (.queueGet r) | .put .lock (.queueGet r)
  | .put .link (.queueGet r) => r = q
  | _ => False

theorem Pc.carries_iff {m : QueueHeap Q E} (hok : p.Ok m) :
    p.carries q ↔ .divider q ∈ p.hand := by
  cases p with
  | put stage c => cases stage <;> cases c <;> simp [Pc.carries, Pc.hand, PutCall.new, eq_comm]
  | getUnlock r head =>
    simp only [Pc.carries, Pc.hand, List.mem_singleton, eq_comm (a := Node.divider q)]
    exact ⟨And.right, fun hd => ⟨(hok q hd).symm, hd⟩⟩
  | getPoison r head =>
    obtain ⟨e, rfl⟩ := hok
    simp [Pc.carries, Pc.hand]
  | gotten r x =>
    cases x with
    | none => simp [Pc.carries, Pc.hand]
    | some head =>
      obtain ⟨e, rfl⟩ := hok
      simp [Pc.carries, Pc.hand]
  | _ => simp [Pc.carries, Pc.hand]

/-- The divider is in the chain once, or exactly one getter carries it. -/
theorem Linked.divider_once (hs : Linked s) (q : Q) :
    ((s.chain q).count (.divider q) = 1 ∧ ∀ t, ¬(s.mach.pc t).carries q) ∨
    ((s.chain q).count (.divider q) = 0 ∧ ∃! t, (s.mach.pc t).carries q) := by
  have hcarries : ∀ t, (s.mach.pc t).carries q ↔ .divider q ∈ s.held (.hand t) := fun t =>
    Pc.carries_iff (hs.ok t)
  obtain ⟨place, hplace, hunique⟩ := hs.owned.existsUnique (t := .divider q) trivial
  cases place with
  | queue r =>
    obtain rfl := hs.own r q hplace
    left
    constructor
    · exact List.count_eq_one_of_mem (hs.owned.nodup (.queue q)) hplace
    · intro t ht
      cases hunique (.hand t) ((hcarries t).mp ht)
  | hand t =>
    right
    constructor
    · rw [List.count_eq_zero]
      intro hq
      cases hunique (.queue q) hq
    · refine ⟨t, (hcarries t).mpr hplace, ?_⟩
      intro u hu
      cases hunique (.hand u) ((hcarries u).mp hu)
      rfl

/-- **First in, first out.** In every state that a run reaches, for every queue: the objects taken
off the head are, in that order, the first of the objects hung in; the others are the chain from
`head` without the divider; the divider is in that chain once or one getter carries it; and what
`queue_get` returns are the objects taken off, each as often as it was, never the divider. -/
theorem queue_fifo {next : E → Link (Node Q E)}
    (h : Reachable tstep Disciplined (Traced.init next : Traced T Q E) s) (q : Q) :
    s.removed q <+: s.linked q ∧
    (∃ chain, Chain s.mach.heap.next chain ∧
      chain.head?.map .node = some (s.mach.heap.head q) ∧
      s.linked q = s.removed q ++ elems chain ∧
      (chain.count (.divider q) = 1 ∧ (∀ t, ¬(s.mach.pc t).carries q) ∨
        chain.count (.divider q) = 0 ∧ ∃! t, (s.mach.pc t).carries q)) ∧
    (∀ t n, s.mach.pc t = .gotten q (some n) → ∃ e, n = .elem e) ∧
    ∀ e, (∃ t, (s.mach.pc t).fetched = some (q, e)) ∧
        (s.removed q).count e = (s.returned q).count e + 1 ∨
      (∀ t, (s.mach.pc t).fetched ≠ some (q, e)) ∧
        (s.removed q).count e = (s.returned q).count e := by
  have hs := linked_of_reachable h
  have hq := ordered_of_reachable h q
  refine ⟨⟨elems (s.chain q), hq.symm⟩, ?_, ?_, delivered_of_reachable h q⟩
  · exact ⟨s.chain q, hs.chained q, hs.head q, hq, hs.divider_once q⟩
  · intro t n hpc
    have hok := hs.ok t
    rwa [hpc] at hok

/-- Thread 0 puts node 1 and stops between its two stores; thread 1 takes the divider off the head
and stops in turn. -/
def interleaved : List (Action Nat Unit Nat) :=
  [.callPut 0 1 (), .run 0, .run 0, .run 0, .run 0,
    .callGet 1 (), .run 1, .run 1, .run 1, .run 1, .run 1]

theorem queue_fifo_interleaved :
    ∃ s, Reachable tstep Disciplined (Traced.init (fun _ => .poison) : Traced Nat Unit Nat) s ∧
      s.mach.pc 0 = .put .advance (.program 1 ()) ∧ s.linked () = [1] ∧
      s.removed () <+: s.linked () ∧
      ∃ chain, Chain s.mach.heap.next chain ∧ chain.count (.divider ()) = 0 := by
  have hrun := exists_reachable_of_run interleaved
    (fun s => decide (s.mach.pc 0 = .put .advance (.program 1 ()) ∧ s.linked () = [1] ∧
      s.mach.pc 1 = .put .init (.queueGet ())))
    (by decide +kernel :
      (run tstep Disciplined (Traced.init (fun _ => .poison)) interleaved).map _ = some true)
  obtain ⟨s, hs, hp⟩ := hrun
  obtain ⟨hput, hlinked, hget⟩ := of_decide_eq_true hp
  obtain ⟨hfirst, ⟨chain, hch, -, -, hdiv⟩, -⟩ := queue_fifo hs ()
  refine ⟨s, hs, hput, hlinked, hfirst, chain, hch, ?_⟩
  rcases hdiv with ⟨-, hnone⟩ | ⟨hcount, -⟩
  · exact absurd (by simp [hget, Pc.carries]) (hnone 1)
  · exact hcount

end Piotbench.Queue
