import Piotbench.Queue.Custody

/-!
# The chains are what the heap says

Two statements change a chain: the store that links a node behind the tail and the store that moves
`head`. Any other statement leaves the pointers alone, writes into the node in the thread's own hand
or moves `tail` (`Step.effect`). So the chain of each root is what the heap says in every state that
a run reaches, although the two stores of a `queue_put` may lie far apart and a getter may carry
the divider away for a while.
-/

set_option linter.unusedSectionVars false

namespace Piotbench.Queue

open Places Pointers Transition

variable {T Q E : Type} [DecidableEq T] [DecidableEq Q] [DecidableEq E]
variable {s s' : Traced T Q E} {a : Action T Q E} {m : Machine T Q E}

/-! ## What a step does to the queues -/

/-- Nothing is hung into a chain or taken off. -/
structure SameQueues (s s' : Traced T Q E) : Prop where
  chain : s'.chain = s.chain
  linked : s'.linked = s.linked
  removed : s'.removed = s.removed

/-- The same threads are in front of `root->tail = new_`. -/
def SameAdvance (s s' : Traced T Q E) : Prop :=
  ∀ u c, s'.mach.pc u = .put .advance c ↔ s.mach.pc u = .put .advance c

/-- What a step does to the pointers and to the chains. -/
inductive Effect (s s' : Traced T Q E) : Prop
  | quiet (hheap : s'.mach.heap = s.mach.heap) (hqueues : SameQueues s s')
      (hadvance : SameAdvance s s')
  | write (t : T) (n : Node Q E) (l : Link (Node Q E)) (hhand : n ∈ (s.mach.pc t).hand)
      (hheap : s'.mach.heap = { s.mach.heap with next := Function.update s.mach.heap.next n l })
      (hqueues : SameQueues s s') (hadvance : SameAdvance s s')
  | link (t : T) (c : PutCall Q E) (hpc : s.mach.pc t = .put .link c)
      (hheap : s'.mach.heap = s.mach.heap.linkTail c.root c.new)
      (hchain : s'.chain = Function.update s.chain c.root (s.chain c.root ++ [c.new]))
      (hlinked : s'.linked = Function.update s.linked c.root (s.linked c.root ++ elems [c.new]))
      (hremoved : s'.removed = s.removed)
      (hpc' : s'.mach.pc = Function.update s.mach.pc t (.put .advance c))
  | advance (t : T) (c : PutCall Q E) (hpc : s.mach.pc t = .put .advance c)
      (hheap : s'.mach.heap = s.mach.heap.setTail c.root c.new) (hqueues : SameQueues s s')
      (hpc' : s'.mach.pc = Function.update s.mach.pc t (.put .unlock c))
  | store (t : T) (q : Q) (head : Node Q E) (next : Link (Node Q E))
      (hpc : s.mach.pc t = .getStore q head next)
      (hheap : s'.mach.heap = s.mach.heap.setHead q next)
      (hchain : s'.chain = Function.update s.chain q (s.chain q).tail)
      (hlinked : s'.linked = s.linked)
      (hremoved : s'.removed = Function.update s.removed q (s.removed q ++ elems [head]))
      (hadvance : SameAdvance s s')

theorem sameAdvance_update {t : T} {p : Pc Q E} (hpc : s'.mach.pc = Function.update s.mach.pc t p)
    (hp : ∀ c, p = .put .advance c ↔ s.mach.pc t = .put .advance c) : SameAdvance s s' := by
  intro u c
  rw [hpc]
  exact Lock.update_iff (fun p : Pc Q E => p = .put .advance c) (hp c) u

theorem Step.effect (h : Step s.mach a m) : Effect s (s.record m a) := by
  have hpc' : (s.record m a).mach.pc = m.pc := by rw [s.record_mach]
  cases h with
  | callPut hpc | callGet hpc | putLock hpc | getLock hpc | getHead hpc | getCrash hpc | getNull hpc
  | getNext hpc | getEmpty hpc | getDivider hpc | getNode hpc =>
    refine .quiet ?_ ⟨?_, ?_, ?_⟩ (sameAdvance_update hpc' (by simp [hpc]))
    all_goals simp [Traced.record, hpc]
  | @putUnlock t c hpc =>
    refine .quiet ?_ ⟨?_, ?_, ?_⟩ (sameAdvance_update hpc' ?_)
    all_goals cases c <;> simp [Traced.record, hpc, PutCall.after]
  | @ret t q r hpc =>
    refine .quiet ?_ ⟨?_, ?_, ?_⟩ (sameAdvance_update hpc' (by simp [hpc]))
    all_goals rcases r with _ | _ | _ <;> simp [Traced.record, hpc]
  | @putInit t c hpc =>
    refine .write t c.new .poison (by simp [hpc, Pc.hand]) ?_ ⟨?_, ?_, ?_⟩
      (sameAdvance_update hpc' (by simp [hpc]))
    all_goals simp [Traced.record, hpc, QueueHeap.queueHeadInit]
  | @putClear t c hpc =>
    refine .write t c.new .null (by simp [hpc, Pc.hand]) ?_ ⟨?_, ?_, ?_⟩
      (sameAdvance_update hpc' (by simp [hpc]))
    all_goals simp [Traced.record, hpc, QueueHeap.clearNext]
  | @getPoison t q head hpc =>
    refine .write t head .poison (by simp [hpc, Pc.hand]) ?_ ⟨?_, ?_, ?_⟩
      (sameAdvance_update hpc' (by simp [hpc]))
    all_goals simp [Traced.record, hpc, QueueHeap.queueHeadInit]
  | @putLink t c hpc =>
    refine .link t c hpc ?_ ?_ ?_ ?_ hpc'
    all_goals simp [Traced.record, hpc]
  | @putAdvance t c hpc =>
    refine .advance t c hpc ?_ ⟨?_, ?_, ?_⟩ hpc'
    all_goals simp [Traced.record, hpc]
  | @getStore t q head next hpc =>
    refine .store t q head next hpc ?_ ?_ ?_ ?_ (sameAdvance_update hpc' (by simp [hpc]))
    all_goals simp [Traced.record, hpc]

/-! ## One step, field by field -/

theorem Effect.chained (h : Effect s s') (hs : Linked s) (q : Q) :
    Chain s'.mach.heap.next (s'.chain q) := by
  have hch := hs.chained q
  cases h with
  | quiet hheap hqueues =>
    rw [hheap, hqueues.chain]
    exact hch
  | write t n l hhand hheap hqueues =>
    rw [hheap, hqueues.chain]
    exact hch.update_of_notMem (hs.hand_notMem hhand q) l
  | advance t c hpc hheap hqueues =>
    rw [hheap, hqueues.chain]
    exact hch
  | link t c hpc hheap hchain =>
    have hlast := hs.last_of_link hpc
    rw [hheap, hchain, QueueHeap.linkTail_next]
    by_cases hq : q = c.root
    · subst hq
      have hout : c.new ∉ s.chain c.root := by
        apply hs.hand_notMem (t := t)
        simp [hpc, Pc.hand]
      have hnull := hs.ok t
      rw [hpc] at hnull
      rw [Function.update_self]
      exact hch.append hlast hout hnull
    · -- the node in front of the new one is in another chain
      have hfar : s.mach.heap.tail c.root ∉ s.chain q := by
        intro hmem
        cases hs.owned.unique (p := .queue q) (q := .queue c.root) hmem
          (List.mem_of_getLast? hlast)
        exact hq rfl
      rw [Function.update_of_ne hq]
      exact hch.update_of_notMem hfar (.node c.new)
  | store t r head next hpc hheap hchain =>
    obtain ⟨n, l, hc, -⟩ := hs.cons_of_store hpc
    rw [hheap, hchain, QueueHeap.setHead_next]
    -- no `next` is written, and what is left of a chain is a chain
    by_cases hq : q = r
    · subst hq
      rw [hc] at hch
      rw [Function.update_self, hc, List.tail_cons]
      exact hch.tail
    · rw [Function.update_of_ne hq]
      exact hch

theorem Effect.head (h : Effect s s') (hs : Linked s) (q : Q) :
    (s'.chain q).head?.map .node = some (s'.mach.heap.head q) := by
  have hh := hs.head q
  cases h with
  | quiet hheap hqueues | write t n l hhand hheap hqueues | advance t c hpc hheap hqueues =>
    rw [hheap, hqueues.chain]
    exact hh
  | link t c hpc hheap hchain =>
    obtain ⟨n, l, hc, hn⟩ := hs.cons q
    rw [hheap, hchain, QueueHeap.linkTail_head]
    by_cases hq : q = c.root
    · subst hq
      rw [Function.update_self, hc, hn]
      rfl
    · rw [Function.update_of_ne hq]
      exact hh
  | store t r head next hpc hheap hchain =>
    obtain ⟨n, l, hc, hnext⟩ := hs.cons_of_store hpc
    rw [hheap, hchain, QueueHeap.setHead_head]
    by_cases hq : q = r
    · subst hq
      rw [Function.update_self, Function.update_self, hc, hnext]
      rfl
    · rw [Function.update_of_ne hq, Function.update_of_ne hq]
      exact hh

/-- `tail` is the last node, unless a thread has linked behind it. -/
theorem Effect.tail (h : Effect s s') (hs : Linked s) (q : Q)
    (hno : ∀ t c, s'.mach.pc t = .put .advance c → c.root ≠ q) :
    (s'.chain q).getLast? = some (s'.mach.heap.tail q) := by
  cases h with
  | quiet hheap hqueues hadvance | write t n l hhand hheap hqueues hadvance =>
    rw [hheap, hqueues.chain]
    exact hs.tail q fun u c hu => hno u c ((hadvance u c).mpr hu)
  | link t c hpc hheap hchain hlinked hremoved hpc' =>
    have hq : q ≠ c.root := (hno t c (by rw [hpc', Function.update_self])).symm
    rw [hheap, hchain, QueueHeap.linkTail_tail, Function.update_of_ne hq]
    apply hs.tail q
    intro u c' hu
    apply hno u c'
    have hut : u ≠ t := by
      rintro rfl
      cases hpc.symm.trans hu
    rw [hpc', Function.update_of_ne hut]
    exact hu
  | advance t c hpc hheap hqueues hpc' =>
    rw [hheap, hqueues.chain, QueueHeap.setTail_tail]
    by_cases hq : q = c.root
    · -- `tail` catches up with the node that was linked
      subst hq
      rw [Function.update_self]
      exact hs.lagging t c hpc
    · rw [Function.update_of_ne hq]
      apply hs.tail q
      intro u c' hu
      by_cases hut : u = t
      · subst hut
        cases hpc.symm.trans hu
        exact Ne.symm hq
      · apply hno u c'
        rw [hpc', Function.update_of_ne hut]
        exact hu
  | store t r head next hpc hheap hchain hlinked hremoved hadvance =>
    have ht := hs.tail q fun u c hu => hno u c ((hadvance u c).mpr hu)
    obtain ⟨n, l, hc, -⟩ := hs.cons_of_store hpc
    rw [hheap, hchain, QueueHeap.setHead_tail]
    by_cases hq : q = r
    · subst hq
      rw [hc, List.getLast?_cons_cons] at ht
      rw [Function.update_self, hc, List.tail_cons]
      exact ht
    · rw [Function.update_of_ne hq]
      exact ht

/-- In front of `root->tail = new_` the new node is the last one. -/
theorem Effect.lagging (h : Effect s s') (hs : Linked s) (u : T) (c' : PutCall Q E)
    (hu : s'.mach.pc u = .put .advance c') : (s'.chain c'.root).getLast? = some c'.new := by
  cases h with
  | quiet hheap hqueues hadvance | write t n l hhand hheap hqueues hadvance =>
    rw [hqueues.chain]
    exact hs.lagging u c' ((hadvance u c').mp hu)
  | link t c hpc hheap hchain hlinked hremoved hpc' =>
    rw [hpc'] at hu
    rw [hchain]
    by_cases hut : u = t
    · subst hut
      rw [Function.update_self] at hu
      cases hu
      rw [Function.update_self, List.getLast?_concat]
    · rw [Function.update_of_ne hut] at hu
      -- on the same root the other thread would be inside this `tail_lock` section
      have hroot : c'.root ≠ c.root := hs.no_advance hpc u c' hu
      rw [Function.update_of_ne hroot]
      exact hs.lagging u c' hu
  | advance t c hpc hheap hqueues hpc' =>
    have hut : u ≠ t := by
      rintro rfl
      rw [hpc', Function.update_self] at hu
      cases hu
    rw [hpc', Function.update_of_ne hut] at hu
    rw [hqueues.chain]
    exact hs.lagging u c' hu
  | store t r head next hpc hheap hchain hlinked hremoved hadvance =>
    have hl := hs.lagging u c' ((hadvance u c').mp hu)
    obtain ⟨n, l, hc, -⟩ := hs.cons_of_store hpc
    rw [hchain]
    by_cases hr : c'.root = r
    · subst hr
      rw [hc, List.getLast?_cons_cons] at hl
      rw [Function.update_self, hc, List.tail_cons]
      exact hl
    · rw [Function.update_of_ne hr]
      exact hl

/-- A chain has no divider but its own root's. -/
theorem Effect.own (h : Effect s s') (hs : Linked s) (q r : Q) (hr : .divider r ∈ s'.chain q) :
    r = q := by
  cases h with
  | quiet hheap hqueues | write t n l hhand hheap hqueues | advance t c hpc hheap hqueues =>
    rw [hqueues.chain] at hr
    exact hs.own q r hr
  | link t c hpc hheap hchain =>
    rw [hchain] at hr
    by_cases hq : q = c.root
    · subst hq
      rw [Function.update_self, List.mem_append, List.mem_singleton] at hr
      rcases hr with hr | hr
      · exact hs.own c.root r hr
      · -- a divider is linked by a `queue_get` on its own root only
        cases c with
        | program e q => cases hr
        | queueGet q =>
          cases hr
          rfl
    · rw [Function.update_of_ne hq] at hr
      exact hs.own q r hr
  | store t q' head next hpc hheap hchain =>
    rw [hchain] at hr
    by_cases hq : q = q'
    · subst hq
      rw [Function.update_self] at hr
      exact hs.own q r (List.mem_of_mem_tail hr)
    · rw [Function.update_of_ne hq] at hr
      exact hs.own q r hr

variable {t : T} {p : Pc Q E} {q : Q}

/-! ## What the threads know -/

/-- A thread that does not move keeps what it knows when the heap keeps what it reads. -/
theorem Pc.Ok.frame {m m' : QueueHeap Q E} (hok : p.Ok m)
    (hnull : ∀ c, p = .put .lock c ∨ p = .put .link c → m'.next c.new = m.next c.new)
    (hhead : ∀ q, p.inHead q → m'.head q = m.head q)
    (hnext : ∀ q head next, p = .getStore q head next → m'.next head = m.next head) :
    p.Ok m' := by
  cases p with
  | put stage c =>
    cases stage with
    | lock => exact (hnull c (.inl rfl)).trans hok
    | link => exact (hnull c (.inr rfl)).trans hok
    | _ => trivial
  | getNext q head => exact (hhead q rfl).trans hok
  | getStore q head next =>
    exact ⟨(hhead q rfl).trans hok.1, (hnext q head next rfl).trans hok.2.1, hok.2.2⟩
  | gotten q r => cases r <;> exact hok
  | _ => exact hok

theorem ok_update {m : QueueHeap Q E} (hp : p.Ok m) (hothers : ∀ u, u ≠ t → (s.mach.pc u).Ok m)
    (u : T) : (Function.update s.mach.pc t p u).Ok m := by
  by_cases hut : u = t
  · subst hut
    rwa [Function.update_self]
  · rw [Function.update_of_ne hut]
    exact hothers u hut

/-- Writing the node in one's own hand is not seen by the others. -/
theorem Linked.ok_write (hs : Linked s) {n : Node Q E} {l : Link (Node Q E)}
    (hn : n ∈ (s.mach.pc t).hand) {u : T} (hut : u ≠ t) :
    (s.mach.pc u).Ok { s.mach.heap with next := Function.update s.mach.heap.next n l } := by
  apply (hs.ok u).frame
  · intro c hc
    have hcu : c.new ∈ (s.mach.pc u).hand := by
      rcases hc with hc | hc <;> simp [hc, Pc.hand]
    have hne : c.new ≠ n := by
      rintro rfl
      cases hs.owned.unique (p := .hand u) (q := .hand t) hcu hn
      exact hut rfl
    exact Function.update_of_ne hne _ _
  · intro q _
    rfl
  · intro q head next hpc
    obtain ⟨k, rest, hc, -⟩ := hs.cons_of_store hpc
    have hne : head ≠ n := by
      rintro rfl
      exact hs.hand_notMem hn q (by simp [hc])
    exact Function.update_of_ne hne _ _

/-- Linking behind the tail is not seen by a thread that has read `head->next`: what it has read
was not `NULL`. -/
theorem Linked.ok_link (hs : Linked s) {c : PutCall Q E} (hpc : s.mach.pc t = .put .link c)
    (u : T) : (s.mach.pc u).Ok (s.mach.heap.linkTail c.root c.new) := by
  have hlast := hs.last_of_link hpc
  have hmem := List.mem_of_getLast? hlast
  apply (hs.ok u).frame
  · intro c' hc'
    have hcu : c'.new ∈ (s.mach.pc u).hand := by
      rcases hc' with hc' | hc' <;> simp [hc', Pc.hand]
    have hne : c'.new ≠ s.mach.heap.tail c.root := by
      intro heq
      exact hs.hand_notMem hcu c.root (heq ▸ hmem)
    exact Function.update_of_ne hne _ _
  · intro q _
    rfl
  · intro q head next hu
    have hok := hs.ok u
    simp only [hu, Pc.Ok] at hok
    obtain ⟨-, hnext, hnull⟩ := hok
    have hne : head ≠ s.mach.heap.tail c.root := by
      rintro rfl
      exact hnull (hnext.symm.trans ((hs.chained c.root).ends _ hlast))
    exact Function.update_of_ne hne _ _

/-- Only the thread in the section of `head_lock` reads `head`. -/
theorem Linked.ok_head (hs : Linked s) (hin : (s.mach.pc t).inHead q) {l : Link (Node Q E)} {u : T}
    (hut : u ≠ t) : (s.mach.pc u).Ok (s.mach.heap.setHead q l) := by
  apply (hs.ok u).frame
  · intro c _
    rfl
  · intro r hr
    have hne : r ≠ q := by
      rintro rfl
      exact hut ((hs.locked.head r).unique u t hr hin)
    exact Function.update_of_ne hne _ _
  · intro r head next _
    rfl

theorem Step.ok (h : Step s.mach a m) (hs : Linked s) (u : T) : (m.pc u).Ok m.heap := by
  have hold := hs.ok
  cases h with
  | callPut hpc | callGet hpc | getLock hpc | getEmpty hpc | getDivider hpc | getNull hpc
  | ret hpc =>
    apply ok_update
    · trivial
    · exact fun u _ => hold u
  | @putLock t c hpc =>
    have ht := hold t
    rw [hpc] at ht
    apply ok_update
    · exact ht
    · exact fun u _ => hold u
  | @putUnlock t c hpc =>
    apply ok_update
    · cases c <;> trivial
    · exact fun u _ => hold u
  | @putInit t c hpc =>
    apply ok_update
    · trivial
    · exact fun u hut => hs.ok_write (by simp [hpc, Pc.hand]) hut
  | @putClear t c hpc =>
    apply ok_update
    · simp [Pc.Ok]
    · exact fun u hut => hs.ok_write (by simp [hpc, Pc.hand]) hut
  | @putLink t c hpc =>
    apply ok_update
    · trivial
    · exact fun u _ => hs.ok_link hpc u
  | @putAdvance t c hpc =>
    apply ok_update
    · trivial
    · exact fun u _ => (hold u).frame (fun _ _ => rfl) (fun _ _ => rfl) (fun _ _ _ _ => rfl)
  | @getHead t q head hpc hhead =>
    apply ok_update
    · exact hhead
    · exact fun u _ => hold u
  | @getCrash t q hpc hhead =>
    -- `head` is never poison or `NULL`
    obtain ⟨n, l, -, hn⟩ := hs.cons q
    exact absurd hn (hhead n)
  | @getNext t q head hpc hnext =>
    have ht := hold t
    rw [hpc] at ht
    apply ok_update
    · exact ⟨ht, rfl, hnext⟩
    · exact fun u _ => hold u
  | @getStore t q head next hpc =>
    obtain ⟨n, l, hc, -⟩ := hs.cons_of_store hpc
    apply ok_update
    · intro r hr
      exact hs.own q r (by simp [hc, hr])
    · exact fun u hut => hs.ok_head (by simp [hpc, Pc.inHead]) hut
  | @getNode t q head hpc hne =>
    have ht := hold t
    rw [hpc] at ht
    apply ok_update
    · cases head with
      | elem e => exact ⟨e, rfl⟩
      | divider r => exact absurd (congrArg Node.divider (ht r rfl)) hne
    · exact fun u _ => hold u
  | @getPoison t q head hpc =>
    have ht := hold t
    rw [hpc] at ht
    apply ok_update
    · exact ht
    · exact fun u hut => hs.ok_write (by simp [hpc, Pc.hand]) hut

/-- **One step** keeps the invariant. -/
theorem Step.linked (h : Step s.mach a m) (hd : Disciplined s a) (hs : Linked s) :
    Linked (s.record m a) where
  locked := by
    rw [s.record_mach]
    exact h.locked hs.locked
  owned := h.owned hd hs
  chained := h.effect.chained hs
  head := h.effect.head hs
  tail := h.effect.tail hs
  lagging := h.effect.lagging hs
  ok := by
    rw [s.record_mach]
    exact h.ok hs
  own := h.effect.own hs

/-- In every state that a run reaches. -/
theorem linked_of_reachable {next : E → Link (Node Q E)}
    (h : Reachable tstep Disciplined (Traced.init next : Traced T Q E) s) : Linked s := by
  apply h.invariant (Linked.init next)
  intro s a s' _ hs hd hstep
  obtain ⟨m, hm, rfl⟩ := Option.map_eq_some_iff.mp hstep
  exact (Machine.step_cases hm).linked hd hs

end Piotbench.Queue
