import Mathlib.Data.Option.Basic

/-!
# Runs of a partial transition function

A system is a function `step : S → A → Option S`: in state `s`, action `a` either leads to one
next state or is not enabled. A *run* takes actions one after another, and every action taken has
to meet a condition `ok` on the action and the state it is taken in; `ok := fun _ _ => True` gives
all runs. The library knows nothing about `S` and `A`.

* `Reachable step ok s₀ s`: some run leads from `s₀` to `s`;
* `Reachable.invariant`: what holds at the start and survives every step holds in every state
  reached. The step lemma may use that its source state is reachable, so that one invariant can
  be proved on top of another;
* `Reachable.strengthen`: a condition that holds in every state reached may be added to `ok`;
* `Reachable.project`: a run of a system with more state is a run of the system below it;
* `Path`, `Path.potential`, `Path.bounded`: a stretch of a run, and what its steps may cost in all;
* `tally`: a potential that several parties have together;
* `run`, `reachable_of_run`, `path_of_run`: a concrete list of actions, executed.
-/

namespace Transition

variable {S T A B : Type}

/-- The states that runs from `s₀` reach, every action taken meeting `ok`. -/
inductive Reachable (step : S → A → Option S) (ok : S → A → Prop) (s₀ : S) : S → Prop
  | refl : Reachable step ok s₀ s₀
  | tail {s s' : S} {a : A} :
      Reachable step ok s₀ s → ok s a → step s a = some s' → Reachable step ok s₀ s'

variable {step : S → A → Option S} {ok : S → A → Prop} {s₀ : S}

/-- **Invariants of runs**: `I` holds at the start, and one step from a reachable state keeps it. -/
theorem Reachable.invariant {I : S → Prop} (hinit : I s₀)
    (hstep : ∀ {s a s'}, Reachable step ok s₀ s → I s → ok s a → step s a = some s' → I s')
    {s : S} (h : Reachable step ok s₀ s) : I s := by
  induction h with
  | refl => exact hinit
  | tail hr hok hs ih => exact hstep hr ih hok hs

theorem Reachable.trans {s₁ s₂ : S} (h₁ : Reachable step ok s₀ s₁)
    (h₂ : Reachable step ok s₁ s₂) : Reachable step ok s₀ s₂ := by
  induction h₂ with
  | refl => exact h₁
  | tail _ hok hs ih => exact .tail ih hok hs

/-- A run meets every condition that follows, in the states it reaches, from the one it meets. -/
theorem Reachable.strengthen {ok' : S → A → Prop}
    (hok : ∀ {s a}, Reachable step ok s₀ s → ok s a → ok' s a) {s : S}
    (h : Reachable step ok s₀ s) : Reachable step ok' s₀ s := by
  induction h with
  | refl => exact .refl
  | tail hr hsa hs ih => exact .tail ih (hok hr hsa) hs

/-- A run of a system that carries more state is, seen through `f`, a run of the system below:
every step is a step there, or leaves what is seen as it was. -/
theorem Reachable.project {stepT : T → B → Option T} {okT : T → B → Prop} (f : S → T)
    (hstep : ∀ {s a s'}, ok s a → step s a = some s' →
      f s' = f s ∨ ∃ b, okT (f s) b ∧ stepT (f s) b = some (f s')) {s : S}
    (h : Reachable step ok s₀ s) : Reachable stepT okT (f s₀) (f s) := by
  induction h with
  | refl => exact .refl
  | tail _ hok hs ih =>
    rcases hstep hok hs with heq | ⟨b, hokT, hsT⟩
    · exact heq ▸ ih
    · exact .tail ih hokT hsT

/-! ## Stretches of a run -/

/-- A stretch of a run, with the states in which its actions are taken. -/
inductive Path (step : S → A → Option S) (ok : S → A → Prop) : S → List (S × A) → S → Prop
  | nil {s : S} : Path step ok s [] s
  | cons {s s₁ s' : S} {a : A} {l : List (S × A)} :
      ok s a → step s a = some s₁ → Path step ok s₁ l s' → Path step ok s ((s, a) :: l) s'

/-- What the actions of a stretch amount to in all. -/
def total (f : S → A → Nat) : List (S × A) → Nat
  | [] => 0
  | (s, a) :: l => f s a + total f l

theorem total_zero (l : List (S × A)) : total (fun _ _ => 0) l = 0 := by
  induction l with
  | nil => rfl
  | cons x l ih => rw [total, ih]

theorem total_mul (n : Nat) (f : S → A → Nat) (l : List (S × A)) :
    total (fun s a => n * f s a) l = n * total f l := by
  induction l with
  | nil => rfl
  | cons x l ih => rw [total, total, ih, Nat.mul_add]

theorem total_add (f g : S → A → Nat) (l : List (S × A)) :
    total (fun s a => f s a + g s a) l = total f l + total g l := by
  induction l with
  | nil => rfl
  | cons x l ih =>
    rw [total, total, total, ih]
    omega

theorem total_one (l : List (S × A)) : total (fun _ _ => 1) l = l.length := by
  induction l with
  | nil => rfl
  | cons x l ih =>
    rw [total, ih, List.length_cons]
    omega

/-- What holds at the start of a stretch and survives every step holds all along it. -/
theorem Path.along {I : S → Prop}
    (hstep : ∀ {s a s'}, I s → ok s a → step s a = some s' → I s') {s s' : S} {l : List (S × A)}
    (h : Path step ok s l s') (hI : I s) : Path step (fun s a => ok s a ∧ I s) s l s' := by
  induction h with
  | nil => exact .nil
  | cons hok hs _ ih => exact .cons ⟨hok, hI⟩ hs (ih (hstep hI hok hs))

/-- A condition of a stretch may be replaced by one that follows from it in states that runs
reach. -/
theorem Path.strengthen {ok' ok'' : S → A → Prop} (hok : ∀ {s a}, ok' s a → ok s a)
    (himp : ∀ {s a}, Reachable step ok s₀ s → ok' s a → ok'' s a) {s s' : S} {l : List (S × A)}
    (hr : Reachable step ok s₀ s) (h : Path step ok' s l s') : Path step ok'' s l s' := by
  induction h with
  | nil => exact .nil
  | cons hsa hs _ ih => exact .cons (himp hr hsa) hs (ih (hr.tail (hok hsa) hs))

/-- **Potentials**: when each step, in states that runs reach, pays its cost from the potential and
what it gains, so does every stretch of a run. -/
theorem Path.potential (φ : S → Nat) (cost gain : S → A → Nat) {ok' : S → A → Prop}
    (hok : ∀ {s a}, ok' s a → ok s a)
    (hstep : ∀ {s a s'}, Reachable step ok s₀ s → ok' s a → step s a = some s' →
      cost s a + φ s' ≤ φ s + gain s a) {s s' : S} {l : List (S × A)}
    (hr : Reachable step ok s₀ s) (h : Path step ok' s l s') :
    total cost l + φ s' ≤ φ s + total gain l := by
  induction h with
  | nil =>
    rw [total, total, Nat.zero_add]
    exact Nat.le_refl _
  | cons hsa hs _ ih =>
    have hone := hstep hr hsa hs
    have hrest := ih (hr.tail (hok hsa) hs)
    rw [total, total]
    omega

/-- A potential that pays for every step bounds what a stretch costs. -/
theorem Path.bounded (φ : S → Nat) (cost : S → A → Nat)
    (hstep : ∀ {s a s'}, Reachable step ok s₀ s → ok s a → step s a = some s' →
      cost s a + φ s' ≤ φ s) {s s' : S} {l : List (S × A)}
    (hr : Reachable step ok s₀ s) (h : Path step ok s l s') : total cost l + φ s' ≤ φ s := by
  induction h with
  | nil => exact Nat.le_of_eq (Nat.zero_add _)
  | cons hsa hs _ ih =>
    have hone := hstep hr hsa hs
    have hrest := ih (hr.tail hsa hs)
    rw [total]
    omega

/-! ## Several parties -/

/-- What a number of parties have in all. -/
def tally (f : B → Nat) : List B → Nat
  | [] => 0
  | t :: l => f t + tally f l

theorem tally_mono {f g : B → Nat} {l : List B} (h : ∀ t ∈ l, f t ≤ g t) :
    tally f l ≤ tally g l := by
  induction l with
  | nil => exact Nat.le_refl _
  | cons t l ih =>
    have hone := h t List.mem_cons_self
    have hrest := ih fun u hu => h u (List.mem_cons_of_mem _ hu)
    rw [tally, tally]
    omega

/-- One party has less than before, and no other has more. -/
theorem tally_lt {f g : B → Nat} {l : List B} {t : B} (ht : t ∈ l) (hone : 1 + f t ≤ g t)
    (h : ∀ u ∈ l, f u ≤ g u) : 1 + tally f l ≤ tally g l := by
  induction l with
  | nil => cases ht
  | cons u l ih =>
    have hrest : ∀ v ∈ l, f v ≤ g v := fun v hv => h v (List.mem_cons_of_mem _ hv)
    rw [tally, tally]
    rcases List.mem_cons.mp ht with rfl | hmem
    · have hmono := tally_mono hrest
      omega
    · have hu := h u List.mem_cons_self
      have hlt := ih hmem hrest
      omega

theorem tally_le {f : B → Nat} {l : List B} {n : Nat} (h : ∀ t ∈ l, f t ≤ n) :
    tally f l ≤ l.length * n := by
  induction l with
  | nil => exact Nat.zero_le _
  | cons t l ih =>
    have hone := h t List.mem_cons_self
    have hrest := ih fun u hu => h u (List.mem_cons_of_mem _ hu)
    rw [tally, List.length_cons, Nat.add_mul, Nat.one_mul]
    omega

/-! ## Executing a list of actions -/

/-- Take the actions in order; `none` when one of them is not enabled or does not meet `ok`. -/
def run (step : S → A → Option S) (ok : S → A → Prop) [∀ s a, Decidable (ok s a)] :
    S → List A → Option S
  | s, [] => some s
  | s, a :: as => if ok s a then (step s a).bind (run step ok · as) else none

variable [∀ s a, Decidable (ok s a)]

theorem reachable_of_run : ∀ {s s' : S} {as : List A},
    run step ok s as = some s' → Reachable step ok s s'
  | s, s', [], h => by
    simp only [run, Option.some.injEq] at h
    subst h
    exact .refl
  | s, s', a :: as, h => by
    simp only [run] at h
    split at h
    · next hok =>
      obtain ⟨s₁, hs₁, hrest⟩ := Option.bind_eq_some_iff.mp h
      exact (Reachable.refl.tail hok hs₁).trans (reachable_of_run hrest)
    · cases h

/-- The actions with the states in which they are taken. -/
def visited (step : S → A → Option S) : S → List A → List (S × A)
  | _, [] => []
  | s, a :: as => (s, a) :: ((step s a).map (visited step · as)).getD []

theorem path_of_run : ∀ {s s' : S} {as : List A},
    run step ok s as = some s' → Path step ok s (visited step s as) s'
  | s, s', [], h => by
    simp only [run, Option.some.injEq] at h
    subst h
    exact .nil
  | s, s', a :: as, h => by
    simp only [run] at h
    split at h
    · next hok =>
      obtain ⟨s₁, hs₁, hrest⟩ := Option.bind_eq_some_iff.mp h
      simp only [visited, hs₁, Option.map_some, Option.getD_some]
      exact .cons hok hs₁ (path_of_run hrest)
    · cases h

/-- A concrete run that ends in a state with property `p`, checked by evaluation. -/
theorem exists_reachable_of_run {s : S} (as : List A) (p : S → Bool)
    (h : (run step ok s as).map p = some true) : ∃ s', Reachable step ok s s' ∧ p s' = true := by
  obtain ⟨s', hs', hp⟩ := Option.map_eq_some_iff.mp h
  exact ⟨s', reachable_of_run hs', hp⟩

end Transition
