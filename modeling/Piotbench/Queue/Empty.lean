import Piotbench.Queue.Fifo

/-!
# What an empty answer means

`queue_get` returns `NULL` when `head->next` is `NULL`. If the divider is the node at the head,
nothing is in the queue then. If another getter carries the divider at that moment, the node at the
head is an object of the program, and a caller is told that the queue is empty while it is not.
-/

set_option linter.unusedSectionVars false

namespace Piotbench.Queue

open Pointers Transition

variable {T Q E : Type} [DecidableEq T] [DecidableEq Q] [DecidableEq E]
variable {s s' : Traced T Q E} {a : Action T Q E} {m : Machine T Q E} {t : T} {p : Pc Q E} {q : Q}

/-! ## The calls that have returned -/

/-- A `queue_put` of the program that has linked its node and not returned. -/
def Pc.linking (q : Q) : Pc Q E → Prop
  | .put .advance (.program _ r) | .put .unlock (.program _ r) => r = q
  | _ => False

/-- The program's `queue_put`s that have returned are those of all nodes linked, but for the one
inside the section of `tail_lock`. -/
def Counted (s : Traced T Q E) : Prop :=
  ∀ q, (∃ t, (s.mach.pc t).linking q) ∧ s.completed q + 1 = (s.linked q).length ∨
    (∀ t, ¬(s.mach.pc t).linking q) ∧ s.completed q = (s.linked q).length

theorem Counted.quiet (hs : Counted s) (hpc : s'.mach.pc = Function.update s.mach.pc t p)
    (hp : ∀ q, p.linking q ↔ (s.mach.pc t).linking q) (hcomp : s'.completed = s.completed)
    (hlink : s'.linked = s.linked) : Counted s' := by
  intro q
  have hsame : ∀ u, (s'.mach.pc u).linking q ↔ (s.mach.pc u).linking q := by
    rw [hpc]
    exact Lock.update_iff _ (hp q)
  simp only [hsame, hcomp, hlink]
  exact hs q

/-- A thread that leaves or enters the section of one `tail_lock`, seen from another queue. -/
theorem linking_other (hp : ¬p.linking q) (ht : ¬(s.mach.pc t).linking q) (u : T) :
    (Function.update s.mach.pc t p u).linking q ↔ (s.mach.pc u).linking q :=
  Lock.update_iff _ (iff_of_false hp ht) u

theorem Linked.linking_unique (hs : Linked s) {u : T} (ht : (s.mach.pc t).inTail q)
    (hu : (s.mach.pc u).linking q) : u = t := by
  have hin : (s.mach.pc u).inTail q := by
    unfold Pc.linking at hu
    split at hu
    · next hpc => simp [hpc, Pc.inTail, PutCall.root, hu]
    · next hpc => simp [hpc, Pc.inTail, PutCall.root, hu]
    · cases hu
  exact (hs.locked.tail q).unique u t hin ht

theorem Counted.link (hc : Counted s) (hs : Linked s) {e : E} {r : Q}
    (hpc : s.mach.pc t = .put .link (.program e r)) :
    Counted (s.record ((s.mach.onHeap (·.linkTail r (.elem e))).goto t
      (.put .advance (.program e r))) (.run t)) := by
  intro q
  have hq := hc q
  simp only [Traced.record, hpc]
  by_cases hqr : q = r
  · subst hqr
    -- inside the `tail_lock` section there is no other `queue_put` to count
    rcases hq with ⟨⟨u, hu⟩, -⟩ | ⟨-, hlen⟩
    · obtain rfl := hs.linking_unique (t := t) (by simp [hpc, Pc.inTail, PutCall.root]) hu
      simp [hpc, Pc.linking] at hu
    · left
      refine ⟨⟨t, by simp [Pc.linking]⟩, ?_⟩
      simp [PutCall.new, PutCall.root, hlen]
  · have hother := linking_other (s := s) (t := t) (q := q) (p := .put .advance (.program e r))
      (fun h => hqr h.symm) (by simp [hpc, Pc.linking])
    simpa [hother, PutCall.root, hqr] using hq

theorem Counted.unlock (hc : Counted s) (hs : Linked s) {e : E} {r : Q}
    (hpc : s.mach.pc t = .put .unlock (.program e r)) :
    Counted (s.record ((s.mach.setTailLock r false).goto t .idle) (.run t)) := by
  intro q
  have hq := hc q
  simp only [Traced.record, hpc]
  by_cases hqr : q = r
  · subst hqr
    right
    constructor
    · intro u hu
      by_cases hut : u = t
      · subst hut
        simp [Pc.linking] at hu
      · simp only [Machine.goto_pc, Machine.setTailLock_pc, Function.update_of_ne hut] at hu
        exact hut (hs.linking_unique (by simp [hpc, Pc.inTail, PutCall.root]) hu)
    · rcases hq with ⟨-, hlen⟩ | ⟨hnone, -⟩
      · simpa using hlen
      · exact absurd (by simp [hpc, Pc.linking]) (hnone t)
  · have hother := linking_other (s := s) (t := t) (q := q) (p := .idle) id
      (by simpa [hpc, Pc.linking] using Ne.symm hqr)
    simpa [hother, hqr] using hq

theorem Step.counted (h : Step s.mach a m) (hs : Linked s) (hc : Counted s) :
    Counted (s.record m a) := by
  have hmach := s.record_mach m a
  cases h with
  | callPut hpc | callGet hpc | putInit hpc | putClear hpc | putLock hpc | getLock hpc
  | getHead hpc | getCrash hpc | getNull hpc | getNext hpc | getEmpty hpc | getStore hpc
  | getDivider hpc | getNode hpc | getPoison hpc =>
    exact hc.quiet (congrArg Machine.pc hmach) (by simp [hpc, Pc.linking])
      (by simp [Traced.record, hpc]) (by simp [Traced.record, hpc])
  | @putLink t c hpc =>
    cases c with
    | program e r => exact hc.link hs hpc
    | queueGet r =>
      exact hc.quiet (congrArg Machine.pc hmach) (by simp [hpc, Pc.linking])
        (by simp [Traced.record, hpc]) (by simp [Traced.record, hpc, PutCall.new])
  | @putAdvance t c hpc =>
    cases c <;>
      exact hc.quiet (congrArg Machine.pc hmach) (by simp [hpc, Pc.linking])
        (by simp [Traced.record, hpc]) (by simp [Traced.record, hpc])
  | @putUnlock t c hpc =>
    cases c with
    | program e r => exact hc.unlock hs hpc
    | queueGet r =>
      exact hc.quiet (congrArg Machine.pc hmach) (by simp [hpc, Pc.linking, PutCall.after])
        (by simp [Traced.record, hpc]) (by simp [Traced.record, hpc])
  | @ret t q x hpc =>
    rcases x with _ | _ | _ <;>
      exact hc.quiet (congrArg Machine.pc hmach) (by simp [hpc, Pc.linking])
        (by simp [Traced.record, hpc]) (by simp [Traced.record, hpc])

theorem counted_of_reachable {next : E → Link (Node Q E)}
    (h : Reachable tstep Disciplined (Traced.init next : Traced T Q E) s) : Counted s := by
  apply h.invariant
  · intro q
    exact .inr ⟨fun t ht => ht, rfl⟩
  · intro s a s' hr hc hd hstep
    obtain ⟨m, hm, rfl⟩ := Option.map_eq_some_iff.mp hstep
    exact (Machine.step_cases hm).counted (linked_of_reachable hr) hc

theorem Counted.completed_le (h : Counted s) (q : Q) : s.completed q ≤ (s.linked q).length := by
  rcases h q with ⟨-, hlen⟩ | ⟨-, hlen⟩ <;> omega

/-! ## The calls that had returned when a `queue_get` began -/

/-- The queue on which the thread is inside `queue_get`. -/
def Pc.getting : Pc Q E → Option Q
  | .put _ (.queueGet q) | .getLock q | .getHead q | .getNext q _ | .getEmpty q | .getStore q _ _
  | .getUnlock q _ | .getPoison q _ | .gotten q _ => some q
  | _ => none

def Began (s : Traced T Q E) : Prop :=
  ∀ t q, (s.mach.pc t).getting = some q → s.began t ≤ s.completed q

theorem completed_mono (s : Traced T Q E) (m : Machine T Q E) (a : Action T Q E) (q : Q) :
    s.completed q ≤ (s.record m a).completed q := by
  unfold Traced.record
  repeat' split
  all_goals try exact le_rfl
  simp only [Function.update_apply]
  split
  · next hq =>
    rw [hq]
    exact Nat.le_succ _
  · exact le_rfl

theorem removed_mono (s : Traced T Q E) (m : Machine T Q E) (a : Action T Q E) (q : Q) :
    (s.removed q).length ≤ ((s.record m a).removed q).length := by
  unfold Traced.record
  repeat' split
  all_goals try exact le_rfl
  simp only [Function.update_apply]
  split
  · next hq => simp [hq]
  · exact le_rfl

theorem record_began {u : T} (ha : ∀ q, a ≠ .callGet u q) : (s.record m a).began u = s.began u := by
  unfold Traced.record
  repeat' split
  all_goals try rfl
  next t q =>
    have hut : u ≠ t := by
      rintro rfl
      exact ha q rfl
    exact Function.update_of_ne hut _ _

/-- A thread is inside `queue_get` because it was, or has just called it. -/
theorem Step.getting (h : Step s.mach a m) {u : T} (ha : ∀ r, a ≠ .callGet u r)
    (hu : (m.pc u).getting = some q) : (s.mach.pc u).getting = some q := by
  cases h with
  | callPut hpc | getLock hpc | getHead hpc | getCrash hpc | getNull hpc | getNext hpc
  | getEmpty hpc | getStore hpc | getDivider hpc | getNode hpc | getPoison hpc | ret hpc =>
    apply Lock.of_update (fun p : Pc Q E => p.getting = some q) _ hu
    simp [hpc, Pc.getting]
  | @putInit t c hpc | @putClear t c hpc | @putLock t c hpc | @putLink t c hpc
  | @putAdvance t c hpc | @putUnlock t c hpc =>
    apply Lock.of_update (fun p : Pc Q E => p.getting = some q) _ hu
    cases c <;> simp [hpc, Pc.getting, PutCall.after]
  | @callGet t r hpc =>
    have hut : u ≠ t := by
      rintro rfl
      exact ha r rfl
    simpa [hut] using hu

theorem Step.began (h : Step s.mach a m) (hb : Began s) : Began (s.record m a) := by
  intro u q hu
  rw [s.record_mach] at hu
  by_cases hcall : ∃ r, a = .callGet u r
  · obtain ⟨r, rfl⟩ := hcall
    cases h with
    | callGet hpc =>
      obtain rfl : r = q := by simpa [Pc.getting] using hu
      simp [Traced.record]
  · have ha : ∀ r, a ≠ .callGet u r := fun r hr => hcall ⟨r, hr⟩
    rw [record_began ha]
    exact (hb u q (h.getting ha hu)).trans (completed_mono s m a q)

theorem began_of_reachable {next : E → Link (Node Q E)}
    (h : Reachable tstep Disciplined (Traced.init next : Traced T Q E) s) : Began s := by
  apply h.invariant
  · intro t q ht
    cases ht
  · intro s a s' _ hb hd hstep
    obtain ⟨m, hm, rfl⟩ := Option.map_eq_some_iff.mp hstep
    exact (Machine.step_cases hm).began hb

/-! ## `NULL` -/

/-- Bound to return `NULL`. -/
def Pc.empty (q : Q) : Pc Q E → Prop
  | .getEmpty r | .gotten r none => r = q
  | _ => False

/-- When the test for `NULL` succeeds, the node at the head is the divider, or the `queue_put` of
that node had not returned when this `queue_get` began. -/
def Settled (s : Traced T Q E) : Action T Q E → Prop
  | .run t =>
    match s.mach.pc t with
    | .getNext q head =>
      s.mach.heap.next head = .null → head = .divider q ∨ s.began t < (s.linked q).length
    | _ => True
  | _ => True

instance (s : Traced T Q E) : (a : Action T Q E) → Decidable (Settled s a)
  | .run t =>
    match hpc : s.mach.pc t with
    | .getNext q head =>
      decidable_of_iff (s.mach.heap.next head = .null →
        head = .divider q ∨ s.began t < (s.linked q).length) (by simp [Settled, hpc])
    | .idle | .put _ _ | .getLock _ | .getHead _ | .getEmpty _ | .getStore _ _ _ | .getUnlock _ _
    | .getPoison _ _ | .gotten _ _ | .crashed => .isTrue (by simp [Settled, hpc])
  | .callPut _ _ _ | .callGet _ _ | .ret _ => .isTrue trivial

/-- When the test for `NULL` succeeds, the node at the head is all that is linked. -/
theorem Linked.single_of_null (hs : Linked s) {head : Node Q E}
    (hpc : s.mach.pc t = .getNext q head) (hnull : s.mach.heap.next head = .null) :
    s.chain q = [head] := by
  have hok := hs.ok t
  rw [hpc] at hok
  obtain ⟨l, hc⟩ := hs.cons_of_head hok
  have hch := hs.chained q
  rw [hc] at hch
  rw [hc, hch.next_head_null.mp hnull]

/-- **What the condition is worth**: it holds exactly when the nodes put before the call are
gone. -/
theorem settled_iff (hs : Linked s) (ho : Ordered s) (hc : Counted s) (hb : Began s)
    {head : Node Q E} (hpc : s.mach.pc t = .getNext q head)
    (hnull : s.mach.heap.next head = .null) :
    Settled s (.run t) ↔ s.began t ≤ (s.removed q).length := by
  have hlinked := ho q
  rw [hs.single_of_null hpc hnull] at hlinked
  have hbegan := (hb t q (by simp [hpc, Pc.getting])).trans (hc.completed_le q)
  simp only [Settled, hpc, hnull, forall_const]
  cases head with
  | divider r =>
    -- everything linked has been taken off, so the condition and its worth hold both
    have hok : .divider r ∈ s.chain q := by simp [hs.single_of_null hpc hnull]
    obtain rfl := hs.own q r hok
    simp only [elems_cons_divider, elems_nil, List.append_nil] at hlinked
    simpa [hlinked] using hbegan
  | elem e =>
    -- one node is left, and the question is whether it was put before the call
    simp only [elems_cons_elem, elems_nil] at hlinked
    have hlast : (s.linked q).length = (s.removed q).length + 1 := by
      rw [hlinked, List.length_append, List.length_singleton]
    simp only [reduceCtorEq, false_or, hlast]
    omega

/-- A thread bound to return `NULL` was, or has just seen that `head->next` is `NULL`. -/
theorem Step.empty (h : Step s.mach a m) {u : T} (hu : (m.pc u).empty q) :
    (s.mach.pc u).empty q ∨ a = .run u ∧ ∃ head, s.mach.pc u = .getNext q head ∧
      s.mach.heap.next head = .null := by
  cases h with
  | callPut hpc | callGet hpc | putInit hpc | putClear hpc | putLock hpc | putLink hpc
  | putAdvance hpc | getLock hpc | getHead hpc | getCrash hpc | getNext hpc | getEmpty hpc
  | getStore hpc | getDivider hpc | getNode hpc | getPoison hpc | ret hpc =>
    left
    apply Lock.of_update (Pc.empty q) _ hu
    simp [hpc, Pc.empty]
  | @putUnlock t c hpc =>
    left
    apply Lock.of_update (Pc.empty q) _ hu
    cases c <;> simp [Pc.empty, PutCall.after]
  | @getNull t r head hpc hnull =>
    by_cases hut : u = t
    · subst hut
      obtain rfl : r = q := by simpa [Pc.empty] using hu
      exact .inr ⟨rfl, head, hpc, hnull⟩
    · exact .inl (by simpa [hut] using hu)

/-- A run of the threads in which the condition is met at every test for `NULL`. -/
abbrev SettledRun (next : E → Link (Node Q E)) (s : Traced T Q E) : Prop :=
  Reachable tstep (fun s a => Disciplined s a ∧ Settled s a) (Traced.init next) s

/-- **`NULL` means empty**, while the condition is met: when a `queue_get` returns `NULL`, the nodes
whose `queue_put` had returned before it began, the first `began t` of those linked, have been
taken off the head. -/
theorem null_means_empty {next : E → Link (Node Q E)} (h : SettledRun next s) (t : T) (q : Q)
    (hnull : s.mach.pc t = .gotten q none) : (s.linked q).take (s.began t) <+: s.removed q := by
  have hrun : Reachable tstep Disciplined (Traced.init next) s := h.strengthen fun _ => And.left
  have hgone : ∀ t q, (s.mach.pc t).empty q → s.began t ≤ (s.removed q).length := by
    apply h.invariant
    · intro t q ht
      cases ht
    · intro s a s' hr hold hd hstep t q ht
      have hr : Reachable tstep Disciplined (Traced.init next) s := hr.strengthen fun _ => And.left
      obtain ⟨m, hm, rfl⟩ := Option.map_eq_some_iff.mp hstep
      have hcases := Machine.step_cases hm
      rw [s.record_mach] at ht
      have hnow : s.began t ≤ (s.removed q).length := by
        rcases hcases.empty ht with hold' | ⟨rfl, head, hpc, hnull⟩
        · exact hold t q hold'
        · exact (settled_iff (linked_of_reachable hr) (ordered_of_reachable hr)
            (counted_of_reachable hr) (began_of_reachable hr) hpc hnull).mp hd.2
      have hbegan : (s.record m a).began t = s.began t := by
        apply record_began
        rintro r rfl
        cases hcases with
        | callGet hpc => simp [Pc.empty] at ht
      rw [hbegan]
      exact hnow.trans (removed_mono s m a q)
  have hlinked := ordered_of_reachable hrun q
  have hle := hgone t q (by simp [hnull, Pc.empty])
  rw [hlinked, List.take_append_of_le_length hle]
  exact List.take_prefix _ _

/-- Thread 0 calls `queue_put` with node `e`, and nothing interrupts it. -/
def putAlone (e : Nat) : List (Action Nat Unit Nat) :=
  .callPut 0 e () :: List.replicate 6 (.run 0)

/-- Thread 1 takes node 1 out of the queue, and finds nothing the second time. -/
def getTwice : List (Action Nat Unit Nat) :=
  putAlone 1 ++ .callGet 1 () :: List.replicate 17 (.run 1) ++
    .ret 1 :: .callGet 1 () :: List.replicate 4 (.run 1)

theorem null_means_empty_getTwice :
    ∃ s, SettledRun (fun _ => .poison) s ∧ s.mach.pc 1 = .gotten () none ∧ s.began 1 = 1 ∧
      (s.linked ()).take (s.began (1 : Nat)) <+: (s.removed () : List Nat) := by
  have hrun := exists_reachable_of_run getTwice
    (fun s => decide (s.mach.pc 1 = .gotten () none ∧ s.began 1 = 1))
    (by decide +kernel : (run tstep (fun s a => Disciplined s a ∧ Settled s a)
      (Traced.init (fun _ => .poison)) getTwice).map _ = some true)
  obtain ⟨s, hs, hp⟩ := hrun
  obtain ⟨hpc, hbegan⟩ := of_decide_eq_true hp
  exact ⟨s, hs, hpc, hbegan, null_means_empty hs 1 () hpc⟩

/-- Node 1 is in the queue. Thread 1 carries the divider past it, and thread 2 asks. -/
def twoGetters : List (Action Nat Unit Nat) :=
  putAlone 1 ++ .callGet 1 () :: List.replicate 5 (.run 1) ++
    .callGet 2 () :: List.replicate 4 (.run 2)

/-- **Without the condition** a caller is told that the queue is empty while node 1, whose
`queue_put` had returned before the call, is in it. -/
theorem null_while_filled : ¬ ∀ (s : Traced Nat Unit Nat) (t : Nat),
    Reachable tstep Disciplined (Traced.init (fun _ => .poison)) s →
      s.mach.pc t = .gotten () none → (s.linked ()).take (s.began t) <+: s.removed () := by
  intro hall
  have hrun := exists_reachable_of_run twoGetters
    (fun s => decide (s.mach.pc 2 = .gotten () none ∧ s.began 2 = 1 ∧ s.linked () = [1] ∧
      s.removed () = []))
    (by decide +kernel : (run tstep Disciplined (Traced.init (fun _ => .poison)) twoGetters).map _ =
      some true)
  obtain ⟨s, hs, hp⟩ := hrun
  obtain ⟨hpc, hbegan, hlinked, hremoved⟩ := of_decide_eq_true hp
  have hgone := hall s 2 hs hpc
  rw [hbegan, hlinked, hremoved] at hgone
  exact absurd hgone (by decide)

end Piotbench.Queue
