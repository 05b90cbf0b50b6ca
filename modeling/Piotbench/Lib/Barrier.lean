import Mathlib.Data.Nat.Count
import Mathlib.Logic.Function.Basic

/-!
# A barrier

A barrier for the threads below `n` and one more party counts the arrivals, and lets everybody go
when the count is `n + 1`. The threads stand at program counters `P`, of which `inside` tells those
behind the arrival. `Counts` says that the count is right; it is full just when everybody has
arrived (`Counts.full_iff`).
-/

namespace Barrier

variable {P : Type} {inside : P → Bool} {pc : Nat → P} {t n arrived : Nat} {p : P} {main : Bool}

/-- How many of the threads below `n` have arrived. -/
def count (n : Nat) (pc : Nat → P) (inside : P → Bool) : Nat :=
  Nat.count (fun t => inside (pc t) = true) n

theorem count_succ (n : Nat) (pc : Nat → P) (inside : P → Bool) :
    count (n + 1) pc inside = count n pc inside + (inside (pc n)).toNat := by
  rw [count, count, Nat.count_succ]
  cases inside (pc n) <;> rfl

theorem count_le : count n pc inside ≤ n := Nat.count_le _

theorem count_eq_iff : count n pc inside = n ↔ ∀ t < n, inside (pc t) = true := Nat.count_iff_forall

/-- Whoever has arrived stays so. -/
theorem count_mono {pc' : Nat → P} (h : ∀ t, inside (pc t) = true → inside (pc' t) = true) :
    count n pc inside ≤ count n pc' inside := by
  apply Nat.count_mono_left
  exact fun t _ => h t

/-- A thread that moves within the barrier or outside of it. -/
theorem count_stay (hp : inside p = inside (pc t)) :
    count n (Function.update pc t p) inside = count n pc inside := by
  induction n with
  | zero => rfl
  | succ n ih =>
    rw [count_succ, count_succ, ih]
    by_cases hnt : n = t
    · subst hnt
      rw [Function.update_self, hp]
    · rw [Function.update_of_ne hnt]

theorem count_arrive (ht : t < n) (hout : inside (pc t) = false) (hin : inside p = true) :
    count n (Function.update pc t p) inside = count n pc inside + 1 := by
  induction n with
  | zero => exact absurd ht (Nat.not_lt_zero t)
  | succ n ih =>
    rw [count_succ, count_succ]
    by_cases hnt : n = t
    · subst hnt
      have hbelow : count n (Function.update pc n p) inside = count n pc inside := by
        simp only [count, Nat.count_eq_card_filter_range]
        congr 1
        apply Finset.filter_congr
        intro u hu
        rw [Function.update_of_ne (Nat.ne_of_lt (Finset.mem_range.mp hu))]
      rw [Function.update_self, hbelow, hin, hout]
      rfl
    · rw [Function.update_of_ne hnt, ih (by omega)]
      omega

/-- `arrived` counts the threads inside, and the other party when it is. -/
structure Counts (arrived n : Nat) (pc : Nat → P) (inside : P → Bool) (main : Bool) : Prop where
  arrived_eq : arrived = count n pc inside + main.toNat

theorem Counts.of_outside (h : ∀ t < n, inside (pc t) = false) : Counts 0 n pc inside false where
  arrived_eq := by
    have hzero : count n pc inside = 0 := by
      apply Nat.count_iff_forall_not.mpr
      intro t ht
      rw [h t ht]
      exact Bool.false_ne_true
    rw [hzero]
    rfl

theorem Counts.stay (h : Counts arrived n pc inside main) (hp : inside p = inside (pc t)) :
    Counts arrived n (Function.update pc t p) inside main where
  arrived_eq := by
    rw [count_stay hp]
    exact h.arrived_eq

theorem Counts.arrive (h : Counts arrived n pc inside main) (ht : t < n)
    (hout : inside (pc t) = false) (hin : inside p = true) :
    Counts (arrived + 1) n (Function.update pc t p) inside main where
  arrived_eq := by
    rw [count_arrive ht hout hin, h.arrived_eq]
    omega

theorem Counts.arriveMain (h : Counts arrived n pc inside false) :
    Counts (arrived + 1) n pc inside true where
  arrived_eq := by
    rw [h.arrived_eq]
    rfl

/-- **The barrier opens** when all have arrived, and not before. -/
theorem Counts.full_iff (h : Counts arrived n pc inside main) :
    arrived = n + 1 ↔ (∀ t < n, inside (pc t) = true) ∧ main = true := by
  have hle : count n pc inside ≤ n := count_le
  rw [h.arrived_eq, ← count_eq_iff]
  cases main with
  | false =>
    simp only [Bool.toNat_false, Bool.false_eq_true, and_false, iff_false]
    omega
  | true =>
    simp only [Bool.toNat_true, and_true]
    omega

end Barrier
