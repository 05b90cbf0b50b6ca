import Piotbench.Queue.Threads
import Piotbench.Lib.Lock

/-!
# The two locks of a root

`head_lock` guards the section of `queue_get` that reads and moves `head`, `tail_lock` the section
of `queue_put` that links behind `tail` and moves it. In every run at most one thread stands in
each section, and while one does the lock word is set.
-/

set_option linter.unusedSectionVars false

namespace Piotbench.Queue

open Lock

variable {T Q E : Type} [DecidableEq T] [DecidableEq Q] [DecidableEq E]

/-- Between `lock(&root->head_lock)` and its `unlock`. -/
def Pc.inHead (q : Q) : Pc Q E → Prop
  | .getHead q' | .getNext q' _ | .getEmpty q' | .getStore q' _ _ | .getUnlock q' _ => q = q'
  | _ => False

/-- Between `lock(&root->tail_lock)` and its `unlock`. -/
def Pc.inTail (q : Q) : Pc Q E → Prop
  | .put .link c | .put .advance c | .put .unlock c => q = c.root
  | _ => False

structure Locked (s : Machine T Q E) : Prop where
  head : ∀ q, Guards (s.headLock q) s.pc (Pc.inHead q)
  tail : ∀ q, Guards (s.tailLock q) s.pc (Pc.inTail q)

variable {s s' : Machine T Q E} {a : Action T Q E}

theorem Locked.init (next : E → Pointers.Link (Node Q E)) :
    Locked (Machine.init next : Machine T Q E) where
  head _ := .of_outside fun _ => id
  tail _ := .of_outside fun _ => id

/-- Where `queue_put` returns to is outside of every section. -/
theorem PutCall.after_outside (c : PutCall Q E) (q : Q) :
    ¬(c.after).inHead q ∧ ¬(c.after).inTail q := by
  cases c <;> exact ⟨id, id⟩

theorem Step.head_guards (h : Step s a s') (hs : Locked s) (q : Q) :
    Guards (s'.headLock q) s'.pc (Pc.inHead q) := by
  cases h with
  | callPut hpc | callGet hpc | putInit hpc | putClear hpc | putLock hpc | putLink hpc
  | putAdvance hpc | getHead hpc | getNull hpc | getNext hpc | getStore hpc | getPoison hpc
  | ret hpc => exact (hs.head q).stay (by simp [hpc, Pc.inHead])
  | @putUnlock t c hpc =>
    have hafter := (c.after_outside q).1
    exact (hs.head q).stay (iff_of_false hafter (by simp [hpc, Pc.inHead]))
  | @getCrash t r hpc =>
    have hleave := Guards.leaveAt (t := t) (r := r) (b := s.headLock r) (p := .crashed) hs.head
      (by simp [hpc, Pc.inHead]) (by simp [hpc, Pc.inHead]) (fun _ => id) q
    rwa [Function.update_eq_self] at hleave
  | getLock hpc hfree =>
    exact Guards.enterAt hs.head hfree (by simp [hpc, Pc.inHead]) (by simp [Pc.inHead]) q
  | getEmpty hpc | getDivider hpc | getNode hpc =>
    exact Guards.leaveAt hs.head (by simp [hpc, Pc.inHead]) (by simp [hpc, Pc.inHead])
      (fun _ => id) q

theorem Step.tail_guards (h : Step s a s') (hs : Locked s) (q : Q) :
    Guards (s'.tailLock q) s'.pc (Pc.inTail q) := by
  cases h with
  | callPut hpc | callGet hpc | putInit hpc | putClear hpc | putLink hpc | putAdvance hpc
  | getLock hpc | getHead hpc | getCrash hpc | getNull hpc | getNext hpc | getEmpty hpc
  | getStore hpc | getDivider hpc | getNode hpc | getPoison hpc
  | ret hpc => exact (hs.tail q).stay (by simp [hpc, Pc.inTail])
  | putLock hpc hfree =>
    exact Guards.enterAt hs.tail hfree (by simp [hpc, Pc.inTail]) (by simp [Pc.inTail]) q
  | @putUnlock t c hpc =>
    exact Guards.leaveAt hs.tail (by simp [hpc, Pc.inTail]) (by simp [hpc, Pc.inTail])
      (fun q => (c.after_outside q).2) q

theorem Step.locked (h : Step s a s') (hs : Locked s) : Locked s' where
  head := h.head_guards hs
  tail := h.tail_guards hs

end Piotbench.Queue
