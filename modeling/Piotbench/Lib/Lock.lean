import Mathlib.Logic.Function.Basic

/-!
# A lock word and its critical sections

Threads `T` stand at program counters `P`; the lock word says only whether the lock is taken, not
by whom. `Guards locked pc inside` says that the lock is taken while a thread stands inside its
section, and that no two threads do. A thread may enter when the word is clear, and the thread
inside may clear it.
-/

namespace Lock

variable {T P : Type}

/-- The lock word stands for the threads whose program counter is `inside`. -/
structure Guards (locked : Bool) (pc : T → P) (inside : P → Prop) : Prop where
  taken : ∀ t, inside (pc t) → locked = true
  unique : ∀ t u, inside (pc t) → inside (pc u) → t = u

variable {locked locked' : Bool} {pc : T → P} {inside : P → Prop} {t : T} {p : P}

theorem Guards.free (h : Guards locked pc inside) (hl : locked = false) (t : T) :
    ¬inside (pc t) := by
  intro ht
  rw [h.taken t ht] at hl
  cases hl

theorem Guards.of_outside (h : ∀ t, ¬inside (pc t)) : Guards locked pc inside where
  taken t ht := absurd ht (h t)
  unique t _ ht _ := absurd ht (h t)

variable [DecidableEq T]

/-- A thread that does not enter a region. -/
theorem of_update (inside : P → Prop) (hp : inside p → inside (pc t)) {u : T}
    (hu : inside (Function.update pc t p u)) : inside (pc u) := by
  by_cases hut : u = t
  · subst hut
    rw [Function.update_self] at hu
    exact hp hu
  · rwa [Function.update_of_ne hut] at hu

/-- A thread that moves within a region, or outside of it. -/
theorem update_iff (inside : P → Prop) (hp : inside p ↔ inside (pc t)) (u : T) :
    inside (Function.update pc t p u) ↔ inside (pc u) := by
  by_cases hut : u = t
  · subst hut
    rw [Function.update_self]
    exact hp
  · rw [Function.update_of_ne hut]

theorem Guards.stay (h : Guards locked pc inside) (hp : inside p ↔ inside (pc t)) :
    Guards locked (Function.update pc t p) inside where
  taken u hu := h.taken u ((update_iff inside hp u).mp hu)
  unique u v hu hv := h.unique u v ((update_iff inside hp u).mp hu) ((update_iff inside hp v).mp hv)

theorem Guards.enter (h : Guards locked pc inside) (hl : locked = false) :
    Guards true (Function.update pc t p) inside := by
  have honly : ∀ u, inside (Function.update pc t p u) → u = t := by
    intro u hu
    by_contra hut
    rw [Function.update_of_ne hut] at hu
    exact h.free hl u hu
  constructor
  · intro _ _
    rfl
  · intro u v hu hv
    rw [honly u hu, honly v hv]

theorem Guards.leave (h : Guards locked pc inside) (ht : inside (pc t)) (hp : ¬inside p) :
    Guards locked' (Function.update pc t p) inside := by
  apply Guards.of_outside
  intro u hu
  by_cases hut : u = t
  · subst hut
    rw [Function.update_self] at hu
    exact hp hu
  · rw [Function.update_of_ne hut] at hu
    exact hut (h.unique u t hu ht)

/-! ## One lock of each kind -/

section Family

variable {Q : Type} [DecidableEq Q] {lock : Q → Bool} {sect : Q → P → Prop} {r : Q} {b : Bool}

theorem Guards.enterAt (h : ∀ q, Guards (lock q) pc (sect q)) (hl : lock r = false)
    (ht : ∀ q, ¬sect q (pc t)) (hp : ∀ q, sect q p → q = r) (q : Q) :
    Guards (Function.update lock r true q) (Function.update pc t p) (sect q) := by
  by_cases hqr : q = r
  · subst hqr
    rw [Function.update_self]
    exact (h q).enter hl
  · rw [Function.update_of_ne hqr]
    apply (h q).stay
    exact iff_of_false (fun hq => hqr (hp q hq)) (ht q)

theorem Guards.leaveAt (h : ∀ q, Guards (lock q) pc (sect q)) (ht : sect r (pc t))
    (honly : ∀ q, sect q (pc t) → q = r) (hp : ∀ q, ¬sect q p) (q : Q) :
    Guards (Function.update lock r b q) (Function.update pc t p) (sect q) := by
  by_cases hqr : q = r
  · subst hqr
    exact (h q).leave ht (hp q)
  · rw [Function.update_of_ne hqr]
    apply (h q).stay
    exact iff_of_false (hp q) (fun hq => hqr (honly q hq))

end Family

/-! ## Who has it -/

/-- While the lock is taken, a thread stands inside. -/
def Held (locked : Bool) (pc : T → P) (inside : P → Prop) : Prop :=
  locked = true → ∃ t, inside (pc t)

theorem Held.stay (h : Held locked pc inside) (hp : inside p ↔ inside (pc t)) :
    Held locked (Function.update pc t p) inside := by
  intro hl
  obtain ⟨u, hu⟩ := h hl
  exact ⟨u, (update_iff inside hp u).mpr hu⟩

section Family

variable {Q : Type} [DecidableEq Q] {lock : Q → Bool} {sect : Q → P → Prop} {r : Q}

theorem Held.enterAt (h : ∀ q, Held (lock q) pc (sect q)) (ht : ∀ q, ¬sect q (pc t))
    (hp : sect r p) (q : Q) :
    Held (Function.update lock r true q) (Function.update pc t p) (sect q) := by
  intro hl
  by_cases hqr : q = r
  · subst hqr
    exact ⟨t, by rwa [Function.update_self]⟩
  · rw [Function.update_of_ne hqr] at hl
    obtain ⟨u, hu⟩ := h q hl
    have hut : u ≠ t := by
      rintro rfl
      exact ht q hu
    exact ⟨u, by rwa [Function.update_of_ne hut]⟩

theorem Held.leaveAt (h : ∀ q, Held (lock q) pc (sect q)) (honly : ∀ q, sect q (pc t) → q = r)
    (q : Q) : Held (Function.update lock r false q) (Function.update pc t p) (sect q) := by
  intro hl
  by_cases hqr : q = r
  · subst hqr
    rw [Function.update_self] at hl
    cases hl
  · rw [Function.update_of_ne hqr] at hl
    obtain ⟨u, hu⟩ := h q hl
    have hut : u ≠ t := by
      rintro rfl
      exact hqr (honly q hu)
    exact ⟨u, by rwa [Function.update_of_ne hut]⟩

end Family

end Lock
