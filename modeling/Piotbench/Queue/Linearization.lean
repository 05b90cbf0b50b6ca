import Piotbench.Lib.AtomicQueue
import Piotbench.Lib.History
import Piotbench.Queue.Empty

/-!
# The divider queue as one that works at once

A `queue_put` takes effect where it links its node, and a `queue_get` where it moves `head` past an
object or finds `NULL`. Seen like that the threads of `Piotbench.Queue.Threads` are the callers of
an `AtomicQueue`, and every history of calls and returns is one of that: the two locks and the
divider that wanders through the queue cannot be told from outside. A `queue_get` that comes up
empty beside a node has met another one that carries the divider; where one thread alone takes from
a queue, it does not happen (`shows_atomic`, `shows_exact`).
-/

set_option linter.unusedSectionVars false

namespace Piotbench.Queue

open Pointers Transition

variable {T Q E : Type} [DecidableEq T] [DecidableEq Q] [DecidableEq E]

/-! ## What is seen of the threads -/

/-- Where a thread stands in its call, seen from outside. -/
def Pc.call : Pc Q E → AtomicQueue.Call Q E
  | .put .advance (.program _ _) | .put .unlock (.program _ _) => .placed
  | .put _ (.program e q) => .putting e q
  | .put _ (.queueGet q) | .getLock q | .getHead q | .getNext q _ | .getStore q _ _ => .getting q
  | .getUnlock q (.divider _) => .getting q
  | .getUnlock _ (.elem e) => .got (some e)
  | .getEmpty _ => .got none
  | .getPoison _ head => .got head.elem?
  | .gotten _ r => .got (r.bind Node.elem?)
  | .idle | .crashed => .idle

/-- The queues and the calls. -/
def Traced.atomic (s : Traced T Q E) : AtomicQueue.State T Q E where
  items q := elems (s.chain q)
  call t := (s.mach.pc t).call

/-- The calls of the program and their returns. -/
def callLabel (s : Machine T Q E) : Action T Q E → Option (AtomicQueue.Event T Q E)
  | .callPut t e q => some (.callPut t e q)
  | .callGet t q => some (.callGet t q)
  | .run t =>
    match s.pc t with
    | .put .unlock (.program _ _) => some (.retPut t)
    | _ => none
  | .ret t =>
    match s.pc t with
    | .gotten _ r => some (.retGet t (r.bind Node.elem?))
    | _ => none

/-! ## One step -/

section Step

variable {s s' : Traced T Q E} {a : Action T Q E} {m : Machine T Q E} {t : T} {q : Q} {p : Pc Q E}
  {okT : AtomicQueue.State T Q E → AtomicQueue.Action T Q E → Prop}

theorem calls_update (hpc : s'.mach.pc = Function.update s.mach.pc t p) :
    s'.atomic.call = Function.update s.atomic.call t p.call := by
  funext u
  show (s'.mach.pc u).call = Function.update s.atomic.call t p.call u
  rw [hpc]
  by_cases hut : u = t
  · subst hut
    rw [Function.update_self, Function.update_self]
  · rw [Function.update_of_ne hut, Function.update_of_ne hut]
    rfl

/-- A thread goes on, and no queue changes. -/
theorem atomic_goto (hpc : s'.mach.pc = Function.update s.mach.pc t p)
    (hitems : ∀ q, elems (s'.chain q) = elems (s.chain q)) :
    s'.atomic = s.atomic.goto t p.call := by
  have hcalls := calls_update hpc
  unfold AtomicQueue.State.goto
  rw [← hcalls]
  show Traced.atomic s' = ⟨fun q => elems (s.chain q), s'.atomic.call⟩
  rw [← funext hitems]
  rfl

/-- Nothing of it is seen. -/
theorem atomic_same (hpc : s'.mach.pc = Function.update s.mach.pc t p)
    (hitems : ∀ q, elems (s'.chain q) = elems (s.chain q)) (hp : p.call = (s.mach.pc t).call) :
    s'.atomic = s.atomic := by
  have hself : Function.update s.atomic.call t (s.mach.pc t).call = s.atomic.call :=
    Function.update_eq_self t s.atomic.call
  rw [atomic_goto hpc hitems, hp, AtomicQueue.State.goto, hself]

/-- A thread goes on, and one queue changes. -/
theorem atomic_items {l : List E} (hpc : s'.mach.pc = Function.update s.mach.pc t p)
    (hself : elems (s'.chain q) = l) (hitems : ∀ r, r ≠ q → s'.chain r = s.chain r) :
    s'.atomic = (s.atomic.setItems q l).goto t p.call := by
  have hcalls := calls_update hpc
  have hlists : s'.atomic.items = Function.update s.atomic.items q l := by
    funext r
    show elems (s'.chain r) = Function.update s.atomic.items q l r
    by_cases hr : r = q
    · subst hr
      rw [Function.update_self, hself]
    · rw [Function.update_of_ne hr, hitems r hr]
      rfl
  unfold AtomicQueue.State.goto AtomicQueue.State.setItems
  rw [← hcalls, ← hlists]

/-- A thread that carries the divider is in the middle of a `queue_get`. -/
theorem Pc.call_of_carries (h : p.carries q) : p.call = .getting q := by
  unfold Pc.carries at h
  split at h
  · obtain ⟨rfl, rfl⟩ := h
    rfl
  all_goals
    first
    | cases h; rfl
    | cases h

/-- What is seen of one step, `okT` being met. -/
abbrev Seen (okT : AtomicQueue.State T Q E → AtomicQueue.Action T Q E → Prop) (s : Traced T Q E)
    (a : Action T Q E) (s' : Traced T Q E) : Prop :=
  Simulates AtomicQueue.step okT AtomicQueue.label (fun s a => callLabel s.mach a) Traced.atomic s a
    s'

/-- When the test for `NULL` succeeds, nothing is in the queue, or another thread carries the
divider. -/
theorem Linked.null_cases (hs : Linked s) {head : Node Q E} (hpc : s.mach.pc t = .getNext q head)
    (hnull : s.mach.heap.next head = .null) :
    elems (s.chain q) = [] ∨ ∃ u, t ≠ u ∧ (s.mach.pc u).call = .getting q := by
  have hok := hs.ok t
  rw [hpc] at hok
  obtain ⟨l, hc⟩ := hs.cons_of_head hok
  have hch := hs.chained q
  rw [hc] at hch
  have hsingle : s.chain q = [head] := by rw [hc, hch.next_head_null.mp hnull]
  cases head with
  | divider r =>
    left
    rw [hsingle]
    rfl
  | elem e =>
    right
    rcases hs.divider_once q with ⟨hcount, -⟩ | ⟨-, u, hu, -⟩
    · rw [hsingle] at hcount
      simp at hcount
    · refine ⟨u, ?_, Pc.call_of_carries hu⟩
      rintro rfl
      rw [hpc] at hu
      exact hu

/-- **One step** of a thread is one of a queue that works at once, or is not seen. -/
theorem Step.seen (h : Step s.mach a m) (hs : Linked s)
    (hok : ∀ b, AtomicQueue.Exact s.atomic b → okT s.atomic b)
    (hmiss : ∀ t u q, t ≠ u → (s.mach.pc t).call = .getting q → (s.mach.pc u).call = .getting q →
      okT s.atomic (.missBeside t u)) : Seen okT s a (s.record m a) := by
  have hmach := congrArg Machine.pc (s.record_mach m a)
  have hcall : ∀ t, s.atomic.call t = (s.mach.pc t).call := fun _ => rfl
  cases h with
  | @callPut t e q hpc =>
    refine .inr ⟨.callPut t e q, hok _ trivial, rfl, ?_⟩
    rw [atomic_goto (p := .put .init (.program e q)) hmach fun _ => rfl]
    simp only [AtomicQueue.step, hcall, hpc, Pc.call]
  | @callGet t q hpc =>
    refine .inr ⟨.callGet t q, hok _ trivial, rfl, ?_⟩
    rw [atomic_goto (p := .getLock q) hmach fun _ => rfl]
    simp only [AtomicQueue.step, hcall, hpc, Pc.call]
  | @putInit t c hpc | @putClear t c hpc | @putLock t c hpc | @putAdvance t c hpc =>
    left
    cases c <;>
      refine ⟨by simp [callLabel, hpc],
        atomic_same hmach (fun _ => ?_) (by simp [Pc.call, hpc])⟩ <;>
      simp [Traced.record, hpc]
  | getLock hpc | getHead hpc | getNext hpc | getEmpty hpc | getPoison hpc =>
    refine .inl ⟨by simp [callLabel, hpc], atomic_same hmach (fun _ => ?_) (by simp [Pc.call, hpc])⟩
    simp [Traced.record, hpc]
  | getDivider hpc =>
    refine .inl ⟨by simp [callLabel, hpc], atomic_same hmach (fun _ => ?_) (by simp [Pc.call, hpc])⟩
    simp [Traced.record, hpc]
  | @getNode t q head hpc hne =>
    have hhead := hs.ok t
    rw [hpc] at hhead
    cases head with
    | divider r => exact absurd (congrArg Node.divider (hhead r rfl)) hne
    | elem e =>
      refine .inl ⟨by simp [callLabel, hpc], atomic_same hmach (fun _ => ?_) ?_⟩
      · simp [Traced.record, hpc]
      · rw [hpc]
        rfl
  | @getCrash t q hpc hhead =>
    -- `head` is always a node
    obtain ⟨n, l, -, hn⟩ := hs.cons q
    exact absurd hn (hhead n)
  | @putLink t c hpc =>
    cases c with
    | program e q =>
      refine .inr ⟨.put t, hok _ trivial, by simp [callLabel, hpc, AtomicQueue.label], ?_⟩
      rw [atomic_items (p := .put .advance (.program e q)) (q := q) (l := elems (s.chain q) ++ [e])
        hmach (by simp [Traced.record, hpc, PutCall.root, PutCall.new])
        (fun r hr => by simp [Traced.record, hpc, PutCall.root, hr])]
      simp only [AtomicQueue.step, hcall, hpc, Pc.call]
      rfl
    | queueGet q =>
      -- the divider is no object of the program
      refine .inl ⟨by simp [callLabel, hpc],
        atomic_same hmach (fun r => ?_) (by simp [Pc.call, hpc])⟩
      by_cases hr : r = q
      · subst hr
        simp [Traced.record, hpc, PutCall.root, PutCall.new]
      · simp [Traced.record, hpc, PutCall.root, hr]
  | @putUnlock t c hpc =>
    cases c with
    | program e q =>
      refine .inr ⟨.retPut t, hok _ trivial, by simp [callLabel, hpc, AtomicQueue.label], ?_⟩
      rw [atomic_goto (p := .idle) hmach fun r => by simp [Traced.record, hpc]]
      simp only [AtomicQueue.step, hcall, hpc, Pc.call]
    | queueGet q =>
      refine .inl ⟨by simp [callLabel, hpc], atomic_same hmach (fun _ => ?_)
        (by simp [Pc.call, hpc, PutCall.after])⟩
      simp [Traced.record, hpc]
  | @getNull t q head hpc hnull =>
    have hget : (s.mach.pc t).call = .getting q := by
      rw [hpc]
      rfl
    have hatomic : (s.record (s.mach.goto t (.getEmpty q)) (.run t)).atomic
        = s.atomic.goto t (.got none) :=
      atomic_goto (p := .getEmpty q) hmach fun r => by simp [Traced.record, hpc]
    rcases hs.null_cases hpc hnull with hempty | ⟨u, htu, hu⟩
    · refine .inr ⟨.get t, hok _ trivial, by simp [callLabel, hpc, AtomicQueue.label], ?_⟩
      rw [hatomic]
      simp only [AtomicQueue.step, hcall, hget]
      rw [show s.atomic.items q = [] from hempty]
    · refine .inr ⟨.missBeside t u, hmiss t u q htu hget hu,
        by simp [callLabel, hpc, AtomicQueue.label], ?_⟩
      rw [hatomic]
      simp only [AtomicQueue.step, hcall, hget, hu]
      rw [if_pos ⟨htu, trivial⟩]
  | @getStore t q head next hpc =>
    obtain ⟨n, l, hc, -⟩ := hs.cons_of_store hpc
    cases head with
    | divider r =>
      refine .inl ⟨by simp [callLabel, hpc],
        atomic_same hmach (fun p => ?_) (by simp [Pc.call, hpc])⟩
      by_cases hp : p = q
      · subst hp
        simp [Traced.record, hpc, hc]
      · simp [Traced.record, hpc, hp]
    | elem e =>
      refine .inr ⟨.get t, hok _ trivial, by simp [callLabel, hpc, AtomicQueue.label], ?_⟩
      rw [atomic_items (p := .getUnlock q (.elem e)) (q := q) (l := elems (n :: l)) hmach
        (by simp [Traced.record, hpc, hc])
        (fun r hr => by simp [Traced.record, hpc, hr])]
      have hitems : s.atomic.items q = e :: elems (n :: l) := by
        show elems (s.chain q) = _
        rw [hc]
        rfl
      simp only [AtomicQueue.step, hcall, hpc, Pc.call, hitems]
  | @ret t q r hpc =>
    refine .inr ⟨.retGet t, hok _ trivial, ?_, ?_⟩
    · simp [callLabel, hpc, AtomicQueue.label, hcall, Pc.call]
    · rw [atomic_goto (p := .idle) hmach fun p => ?_]
      · simp only [AtomicQueue.step, hcall, hpc, Pc.call]
      · rcases r with _ | _ | _ <;> simp [Traced.record, hpc]

end Step

/-! ## Runs -/

variable {next : E → Link (Node Q E)} {s : Traced T Q E} {history : List (AtomicQueue.Event T Q E)}

/-- Each queue is taken from by one thread alone. -/
def Alone (owner : Q → T) : Action T Q E → Prop
  | .callGet t q => t = owner q
  | _ => True

instance (owner : Q → T) : (a : Action T Q E) → Decidable (Alone owner a)
  | .callGet t q => inferInstanceAs (Decidable (t = owner q))
  | .callPut _ _ _ | .run _ | .ret _ => .isTrue trivial

/-- Whoever seems to be in a `queue_get` is. -/
theorem Pc.getting_of_call {p : Pc Q E} {q : Q} (h : p.call = .getting q) : p.getting = some q := by
  cases p with
  | put stage c =>
    cases c with
    | program e r => cases stage <;> cases h
    | queueGet r =>
      cases stage <;>
        cases h <;>
        rfl
  | getUnlock r head =>
    cases head with
    | elem e => cases h
    | divider r' =>
      cases h
      rfl
  | getLock r | getHead r | getNext r head | getStore r head next =>
    cases h
    rfl
  | _ => cases h

/-- Only the owner of a queue is in a `queue_get` on it. -/
theorem getting_alone {owner : Q → T}
    (h : Reachable tstep (fun s a => Disciplined s a ∧ Alone owner a) (Traced.init next) s) (t : T)
    (q : Q) (ht : (s.mach.pc t).getting = some q) : t = owner q := by
  revert t q
  apply h.invariant (I := fun s => ∀ t q, (s.mach.pc t).getting = some q → t = owner q)
  · intro t q ht
    cases ht
  · intro s a s' _ hold hok hstep t q ht
    obtain ⟨m, hm, rfl⟩ := Option.map_eq_some_iff.mp hstep
    rw [s.record_mach] at ht
    have hcases := Machine.step_cases hm
    by_cases hcall : ∃ r, a = .callGet t r
    · obtain ⟨r, rfl⟩ := hcall
      cases hcases with
      | callGet hpc =>
        obtain rfl : r = q := by simpa [Pc.getting] using ht
        exact hok.2
    · exact hold t q (hcases.getting (fun r hr => hcall ⟨r, hr⟩) ht)

/-- Every history of the threads is a history of a queue that works at once. -/
theorem shows_atomic
    (h : Shows tstep Disciplined (fun s a => callLabel s.mach a) (Traced.init next) history s) :
    Shows AtomicQueue.step (fun _ _ => True) AtomicQueue.label .init history s.atomic := by
  apply h.simulate Traced.atomic
  intro s a s' hr hok hstep
  obtain ⟨m, hm, rfl⟩ := Option.map_eq_some_iff.mp hstep
  have hs := linked_of_reachable hr
  exact (Machine.step_cases hm).seen hs (fun _ _ => trivial) (fun _ _ _ _ _ _ => trivial)

/-- With one getter for each queue, of one in which `get` misses only when it is empty. -/
theorem shows_exact {owner : Q → T}
    (h : Shows tstep (fun s a => Disciplined s a ∧ Alone owner a) (fun s a => callLabel s.mach a)
      (Traced.init next) history s) :
    Shows AtomicQueue.step AtomicQueue.Exact AtomicQueue.label .init history s.atomic := by
  apply h.simulate Traced.atomic
  intro s a s' hr hok hstep
  obtain ⟨m, hm, rfl⟩ := Option.map_eq_some_iff.mp hstep
  have hs := linked_of_reachable (hr.strengthen fun _ => And.left)
  refine (Machine.step_cases hm).seen hs (fun b hb => hb) fun t u q htu ht hu => ?_
  have hleft := getting_alone hr t q (Pc.getting_of_call ht)
  have hright := getting_alone hr u q (Pc.getting_of_call hu)
  exact absurd (hleft.trans hright.symm) htu

end Piotbench.Queue
